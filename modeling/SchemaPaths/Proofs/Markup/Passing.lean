/-
The declarations of a document in its text.

Whoever searches the text of a document for declarations comes past those that its reading keeps, in
their order, and finds each of them as it is meant as long as it is written plainly.  `Passes` says
so of a piece of the text; it is put together along the reading, from what each scan takes.
-/
import SchemaPaths.Markup.Prefixes
import SchemaPaths.Proofs.Markup.Scoped
import SchemaPaths.Proofs.Markup.Staying

namespace SchemaPaths
namespace Markup

/-- A character that means itself in a value, whichever quotes stand around it. -/
def isPlainChar (c : Char) : Bool :=
  !Prefixes.isQuote c && c != '&' && (c == ' ' || !Scan.isSpace c)

/-- A declaration with a prefix in the letters that the bytes are searched for and with a value that
is written as it is. -/
structure Written.IsPlain (w : Written) : Prop where
  letters : w.pre.toList.all Prefixes.isPrefixChar
  value : w.literal.all isPlainChar

instance (w : Written) : Decidable w.IsPlain :=
  decidable_of_iff (w.pre.toList.all Prefixes.isPrefixChar ∧ w.literal.all isPlainChar)
    ⟨fun h => ⟨h.1, h.2⟩, fun h => ⟨h.letters, h.value⟩⟩

/-- The text `cs` holds the declarations `ws` in this order before what is left of it. -/
inductive Passes : List Char → List Written → List Char → Prop
  | past {cs rest : List Char} (h : rest <:+ cs) : Passes cs [] rest
  | declaration {cs mid after rest : List Char} {w : Written} {ws : List Written}
      (reach : mid <:+ cs) (leave : after <:+ mid) (shorter : after.length < mid.length)
      (shape : w.IsPlain → w.value = String.ofList w.literal ∧
        Prefixes.declaration? mid = some (w.pair, after))
      (more : Passes after ws rest) : Passes cs (w :: ws) rest

namespace Passes

variable {cs mid rest : List Char} {ws ws' : List Written}

theorem append (h : Passes cs ws mid) (h' : Passes mid ws' rest) : Passes cs (ws ++ ws') rest := by
  induction h with
  | past h =>
    cases h' with
    | past h' => exact .past (h'.trans h)
    | declaration reach leave shorter shape more =>
      exact .declaration (reach.trans h) leave shorter shape more
  | declaration reach leave shorter shape _ ih =>
    exact .declaration reach leave shorter shape (ih h')

theorem of_suffix (h : mid <:+ cs) (h' : Passes mid ws rest) : Passes cs ws rest :=
  (past h).append h'

theorem to_suffix (h : Passes cs ws mid) (h' : rest <:+ mid) : Passes cs ws rest := by
  have := h.append (past h')
  rwa [List.append_nil] at this

end Passes

/-! ## One declaration -/

namespace Scan
open Scoped

theorem yields_spaces (cs : List Char) :
    Yields spaces cs fun _ rest => rest = cs.dropWhile isSpace := by
  have h : Yields (takeWhile isSpace) cs fun _ rest => rest = cs.dropWhile isSpace :=
    .get <| .set <| yields_pure rfl
  exact h.bind fun _ _ hrest => yields_pure hrest

theorem yields_skip? (s : String) (cs : List Char) :
    Yields (skip? s) cs fun found rest => cs = if found then s.toList ++ rest else rest := by
  refine .get (yields_ite (fun h => .set (yields_pure ?_)) fun _ => yields_pure rfl)
  exact (List.prefix_iff_eq_append.1 (List.isPrefixOf_iff_prefix.1 h)).symm

theorem yields_skip (s : String) (cs : List Char) :
    Yields (skip s) cs fun _ rest => cs = s.toList ++ rest :=
  (yields_skip? s cs).bind fun found rest h => by
    cases found with
    | true => exact yields_pure h
    | false => exact yields_fail

theorem yields_plainName (cs : List Char) :
    Yields plainName cs fun n rest => cs = n.toList ++ rest ∧ n ≠ "" := by
  refine .read fun alphabet => .get ?_
  split
  · refine yields_ite (fun _ => .set (yields_pure ?_)) fun _ => yields_fail
    rw [String.toList_ofList, List.cons_append, List.takeWhile_append_dropWhile]
    exact ⟨rfl, by simp⟩
  · exact yields_fail

theorem yields_rawName (cs : List Char) :
    Yields rawName cs fun n rest => cs = n.text.toList ++ rest ∧ n.rest ≠ "" := by
  refine (yields_plainName cs).bind fun first rest h => ?_
  refine (yields_skip? ":" rest).bind fun found rest' h' => ?_
  cases found with
  | true =>
    refine (yields_plainName rest').bind fun second rest'' h'' => yields_pure ⟨?_, h''.2⟩
    rw [h.1, h', h''.1]
    simp [RawName.text]
  | false =>
    have hrest : rest = rest' := h'
    exact yields_pure ⟨hrest ▸ h.1, h.2⟩

/-- A value of characters that mean themselves ends at the first quote like the one it began
with. -/
theorem yields_valueUpTo (lenient : Bool) (q : Char) (fuel : Nat) (done cs : List Char)
    (plain : (cs.takeWhile (· != q)).all isPlainChar) :
    Yields (valueUpTo lenient q fuel done) cs fun v rest =>
      v = done.reverse ++ cs.takeWhile (· != q) ∧ cs.dropWhile (· != q) = q :: rest := by
  induction fuel generalizing done cs with
  | zero => exact yields_fail
  | succ fuel ih =>
    refine .get ?_
    split
    · exact yields_fail
    rename_i c cs
    refine .set (yields_ite (fun h => yields_pure ?_) fun h => ?_)
    · have hq : c = q := by simpa using h
      simp [hq]
    have hne : c ≠ q := by simpa using h
    have htake : (c :: cs).takeWhile (· != q) = c :: cs.takeWhile (· != q) := by simp [hne]
    have hdrop : (c :: cs).dropWhile (· != q) = cs.dropWhile (· != q) := by simp [hne]
    rw [htake, List.all_cons, Bool.and_eq_true] at plain
    rw [htake, hdrop]
    have next (d : Char) (hd : d = c) : Yields (valueUpTo lenient q fuel (d :: done)) cs
        fun v rest => v = done.reverse ++ c :: cs.takeWhile (· != q) ∧
          cs.dropWhile (· != q) = q :: rest := by
      simpa [hd] using ih (d :: done) cs plain.2
    refine yields_ite (fun _ => yields_fail) fun _ => yields_ite (fun h => ?_) fun _ => ?_
    · simp [isPlainChar, eq_of_beq h] at plain
    refine yields_ite (fun h => next _ ?_) fun _ =>
      yields_ite (fun _ => next c rfl) fun _ => yields_fail
    simp [isPlainChar, h] at plain
    exact plain.1.2.symm

theorem yields_quote (cs : List Char) :
    Yields quote cs fun q rest => Prefixes.isQuote q ∧ cs = q :: rest := by
  refine .get ?_
  split
  · exact .set (yields_pure ⟨rfl, rfl⟩)
  · exact .set (yields_pure ⟨rfl, rfl⟩)
  · exact yields_fail

theorem yields_attributeValue (lenient : Bool) (fuel : Nat) (cs : List Char) :
    Yields (attributeValue lenient fuel) cs fun v rest => rest <:+ cs ∧
      ((literalOf cs).all isPlainChar → v = String.ofList (literalOf cs) ∧
        ∃ q, Prefixes.isQuote q ∧ cs = q :: (literalOf cs ++ q :: rest)) := by
  by_cases plain : (literalOf cs).all isPlainChar
  · refine (yields_quote cs).bind fun q inside h => ?_
    rw [h.2] at plain ⊢
    refine (yields_valueUpTo lenient q fuel [] inside plain).bind fun v rest h' => yields_pure ?_
    have whole : q :: inside = q :: (literalOf (q :: inside) ++ q :: rest) := by
      rw [← h'.2, literalOf, List.takeWhile_append_dropWhile]
    refine ⟨?_, fun _ => ⟨congrArg String.ofList h'.1, q, h.1, whole⟩⟩
    rw [whole]
    exact ((List.suffix_cons _ _).trans (List.suffix_append _ _)).trans (List.suffix_cons _ _)
  · exact (stays_attributeValue lenient fuel cs List.suffix_rfl).mono fun _ _ h => ⟨h, plain.elim⟩

end Scan

namespace Prefixes
open Scan

theorem isBlank_of_isSpace {c : Char} (h : isSpace c) : Text.isBlank c := by
  simp only [isSpace, Bool.or_eq_true, beq_iff_eq] at h
  rcases h with ((rfl | rfl) | rfl) | rfl <;> decide

theorem dropWhile_isBlank {cs rest : List Char} {c : Char} (h : cs.dropWhile isSpace = c :: rest)
    (hc : Text.isBlank c = false) : cs.dropWhile Text.isBlank = c :: rest := by
  induction cs with
  | nil => cases h
  | cons d cs ih =>
    by_cases hd : isSpace d
    · rw [List.dropWhile_cons_of_pos hd] at h
      rw [List.dropWhile_cons_of_pos (isBlank_of_isSpace hd), ih h]
    · rw [List.dropWhile_cons_of_neg hd] at h
      cases h
      exact List.dropWhile_cons_of_neg (by simp [hc])

theorem isBlank_of_isQuote {c : Char} (h : isQuote c) : Text.isBlank c = false := by
  simp only [isQuote, Bool.or_eq_true, beq_iff_eq] at h
  rcases h with rfl | rfl <;> decide

theorem value?_eq {cs after literal rest : List Char} {q : Char}
    (equals : cs.dropWhile isSpace = '=' :: after)
    (quoted : after.dropWhile isSpace = q :: (literal ++ q :: rest)) (hq : isQuote q)
    (plain : literal.all isPlainChar) : value? cs = some (literal, rest) := by
  have free : ∀ c ∈ literal, (!isQuote c) = true := by
    intro c hc
    have := List.all_eq_true.1 plain c hc
    simp only [isPlainChar, Bool.and_eq_true] at this
    exact this.1.1
  have hq' : (!isQuote q) = false := by simp [hq]
  rw [value?, dropWhile_isBlank equals (by decide)]
  simp only [dropWhile_isBlank quoted (isBlank_of_isQuote hq), hq, ite_true]
  rw [List.dropWhile_append_of_pos free, List.takeWhile_append_of_pos free]
  simp [hq']

/-- The declaration of the default as the search finds it. -/
theorem declaration?_default {after literal rest : List Char}
    (ends : ∀ c ∈ after.head?, isPrefixChar c = false ∧ c ≠ ':')
    (value : value? after = some (literal, rest)) :
    declaration? ("xmlns".toList ++ after) = some (("", String.ofList literal), rest) := by
  cases after with
  | nil => cases value
  | cons c after =>
    have hc : c ≠ ':' := (ends c rfl).2
    simp [declaration?, hc, value]

theorem declaration?_prefixed {p : String} {after literal rest : List Char} (named : p ≠ "")
    (letters : p.toList.all isPrefixChar)
    (ends : ∀ c ∈ after.head?, isPrefixChar c = false ∧ c ≠ ':')
    (value : value? after = some (literal, rest)) :
    declaration? ("xmlns:".toList ++ p.toList ++ after) =
      some ((p, String.ofList literal), rest) := by
  have htake : (p.toList ++ after).takeWhile isPrefixChar = p.toList := by
    rw [List.takeWhile_append_of_pos (List.all_eq_true.1 letters)]
    cases after with
    | nil => simp
    | cons c after => simp [(ends c rfl).1]
  have hdrop : (p.toList ++ after).dropWhile isPrefixChar = after := by
    rw [List.dropWhile_append_of_pos (List.all_eq_true.1 letters)]
    cases after with
    | nil => rfl
    | cons c after => simp [(ends c rfl).1]
  simp [declaration?, htake, hdrop, value, named]

/-- A declaration as the search finds it. -/
theorem declaration?_eq {n : RawName} {p : String} {after literal rest : List Char}
    (bound : Bindings.bound? n = some p) (named : n.rest ≠ "") (letters : p.toList.all isPrefixChar)
    (ends : ∀ c ∈ after.head?, isPrefixChar c = false ∧ c ≠ ':')
    (value : value? after = some (literal, rest)) :
    declaration? (n.text.toList ++ after) = some ((p, String.ofList literal), rest) := by
  obtain ⟨pre, name⟩ := n
  cases pre with
  | none =>
    simp only [Bindings.bound?] at bound
    split at bound
    · rename_i h
      cases bound
      have text : RawName.text ⟨none, name⟩ = "xmlns" := eq_of_beq h
      rw [text]
      exact declaration?_default ends value
    · cases bound
  | some pre =>
    simp only [Bindings.bound?] at bound
    split at bound
    · rename_i h
      cases bound
      have text : (RawName.text ⟨some pre, p⟩).toList = "xmlns:".toList ++ p.toList := by
        rw [eq_of_beq h, RawName.text, String.toList_append, String.toList_append]
        rfl
      rw [text]
      exact declaration?_prefixed named letters ends value
    · cases bound

end Prefixes

/-! ## A whole document -/

namespace Scoped
open Scan Document

theorem toList_text_ne_nil {n : RawName} (h : n.rest ≠ "") : n.text.toList ≠ [] := by
  intro hn
  have hn : n.text = "" := by simpa using hn
  unfold RawName.text at hn
  split at hn
  · simp at hn
  · exact h hn

/-- What follows the name of an attribute is no part of it. -/
theorem ends_of_sign {after sign : List Char} (h : after.dropWhile isSpace = '=' :: sign) :
    ∀ c ∈ after.head?, Prefixes.isPrefixChar c = false ∧ c ≠ ':' := by
  cases after with
  | nil => nofun
  | cons c after =>
    rintro _ ⟨⟩
    by_cases hc : isSpace c
    · simp only [isSpace, Bool.or_eq_true, beq_iff_eq] at hc
      rcases hc with ((rfl | rfl) | rfl) | rfl <;> decide
    · rw [List.dropWhile_cons_of_neg hc] at h
      cases h
      decide

theorem passes_given (lenient : Bool) (fuel : Nat) (cs : List Char) :
    Yields (given lenient fuel) cs fun g rest => Passes cs g.written?.toList rest := by
  refine (yields_rawName cs).bind fun n after hn => ?_
  refine (yields_spaces after).bind fun _ sign hsign => ?_
  refine (yields_skip "=" sign).bind fun _ afterSign hequals => ?_
  refine (yields_spaces afterSign).bind fun _ quoted hquoted => .get ?_
  refine (yields_attributeValue lenient fuel quoted).bind fun v rest hv => yields_pure ?_
  have equals : after.dropWhile isSpace = '=' :: afterSign := hsign ▸ hequals
  have leave : rest <:+ after := by
    have h : rest <:+ afterSign := hv.1.trans (hquoted ▸ List.dropWhile_suffix _)
    have h' : '=' :: afterSign <:+ after := equals ▸ List.dropWhile_suffix _
    exact (h.trans (List.suffix_cons _ _)).trans h'
  have leave' : rest <:+ cs := leave.trans (hn.1 ▸ List.suffix_append _ _)
  rw [Given.written?]
  cases hb : Bindings.bound? n with
  | none => exact .past leave'
  | some p =>
    -- The search meets the declaration at the first letter of its name.
    refine .declaration List.suffix_rfl leave' ?_ (fun plain => ?_) (.past List.suffix_rfl)
    · have := List.length_pos_iff.2 (toList_text_ne_nil hn.2)
      have := leave.length_le
      rw [hn.1, List.length_append]
      omega
    · obtain ⟨rfl, q, hq, whole⟩ := hv.2 plain.value
      refine ⟨rfl, ?_⟩
      rw [hn.1]
      refine Prefixes.declaration?_eq hb hn.2 plain.letters (ends_of_sign equals) ?_
      exact Prefixes.value?_eq equals (hquoted ▸ whole) hq plain.value

theorem filterMap_cons_toList {α β : Type} (f : α → Option β) (a : α) (l : List α) :
    (a :: l).filterMap f = (f a).toList ++ l.filterMap f := by
  rw [List.filterMap_cons]
  cases f a <;> rfl

theorem passes_givenFrom (lenient : Bool) (fuel : Nat) (done : List Given) (cs : List Char) :
    Yields (givenFrom lenient fuel done) cs fun r rest => ∃ new, r.1 = done.reverse ++ new ∧
      Passes cs (new.filterMap Given.written?) rest := by
  induction fuel generalizing done cs with
  | zero => exact yields_fail
  | succ fuel ih =>
    refine (stays_takeWhile _ cs List.suffix_rfl).bind fun _ _ h => ?_
    refine (stays_skip? _ _ h).bind fun _ _ h => yields_ite (fun _ => ?_) fun _ => ?_
    · exact yields_pure ⟨[], by simp, .past h⟩
    refine (stays_skip? _ _ h).bind fun _ mid h => yields_ite (fun _ => ?_) fun _ => ?_
    · exact yields_pure ⟨[], by simp, .past h⟩
    refine yields_ite (fun _ => yields_fail) fun _ => ?_
    refine (passes_given lenient fuel mid).bind fun g after hg => ?_
    refine yields_ite (fun _ => yields_fail) fun _ => (ih (g :: done) after).mono ?_
    rintro r rest ⟨new, hr, hnew⟩
    refine ⟨g :: new, by simpa using hr, ?_⟩
    rw [filterMap_cons_toList]
    exact (hg.append hnew).of_suffix h

theorem passes_tag (doctype : Doctype) (fuel : Nat) (cs : List Char) :
    Yields (tag doctype fuel) cs fun t rest => Passes cs t.declared.written rest := by
  refine (stays_rawName cs List.suffix_rfl).bind fun _ mid h => ?_
  refine (passes_givenFrom _ _ [] mid).bind fun r rest hr => yields_pure ?_
  obtain ⟨new, hnew, hp⟩ := hr
  rw [List.reverse_nil, List.nil_append] at hnew
  subst hnew
  exact hp.of_suffix h

theorem passes_contentFrom (doctype : Doctype) (fuel : Nat) (b : Bindings) (cs : List Char) :
    Yields (contentFrom doctype fuel b) cs fun ts rest =>
      Passes cs ((tagsList ts).flatMap (·.written)) rest := by
  induction fuel generalizing b cs with
  | zero => exact yields_fail
  | succ fuel ih =>
    refine .get ?_
    split
    · exact yields_pure (.past List.suffix_rfl)
    · exact yields_pure (.past List.suffix_rfl)
    · rename_i inside _
      have h := List.suffix_refl ('<' :: inside)
      refine (stays_skip? _ _ h).bind fun _ _ h => yields_ite (fun _ => ?_) fun _ => ?_
      · refine (stays_comment _ h).bind fun _ _ h => ?_
        exact (ih b _).mono fun _ _ more => more.of_suffix h
      refine (stays_skip? _ _ h).bind fun _ _ h => yields_ite (fun _ => ?_) fun _ => ?_
      · refine (stays_markedText _ h).bind fun _ _ h => ?_
        exact (ih b _).bind fun _ _ more => yields_pure (more.of_suffix h)
      refine (stays_skip? _ _ h).bind fun _ _ h => yields_ite (fun _ => ?_) fun _ => ?_
      · refine (stays_instruction _ h).bind fun _ _ h => ?_
        exact (ih b _).mono fun _ _ more => more.of_suffix h
      -- An element holds the declarations of its start tag, then those of its content.
      refine .set ?_
      refine (passes_tag doctype fuel inside).bind fun t after ht => ?_
      have ht := ht.of_suffix (List.suffix_cons '<' inside)
      have go (name : Name) (attributes : List (Name × String)) (inner : List Scoped)
          (mid : List Char) (h : Passes ('<' :: inside)
            (t.declared.written ++ (tagsList inner).flatMap (·.written)) mid) :
          Yields (do
            let more ← contentFrom doctype fuel b
            return .element t.declared name attributes inner :: more) mid
            fun ts rest => Passes ('<' :: inside) ((tagsList ts).flatMap (·.written)) rest := by
        refine (ih b mid).bind fun more _ hmore => yields_pure ?_
        simpa [tagsList, tags] using h.append hmore
      refine .lift fun b' => ?_
      split
      · refine .lift fun attributes => yields_ite (fun _ => ?_) fun _ => ?_
        · exact go _ attributes [] after (by simpa [tagsList] using ht)
        · refine (ih b' after).bind fun inner mid hinner => ?_
          refine (stays_endTag t.name mid List.suffix_rfl).bind fun _ mid' h' => ?_
          exact go _ attributes inner mid' ((ht.append hinner).to_suffix h')
      · exact yields_fail
    · refine (stays_run _ _ _ List.suffix_rfl).bind fun _ _ h => ?_
      exact (ih b _).bind fun _ _ more => yields_pure (more.of_suffix h)

theorem passes_rootFrom (doctype : Doctype) (fuel : Nat) (cs : List Char) :
    Yields (rootFrom doctype fuel) cs fun t rest => Passes cs t.written rest := by
  refine (passes_tag doctype fuel cs).bind fun t after ht => .lift fun b => ?_
  split
  · refine .lift fun attributes => yields_ite (fun _ => ?_) fun _ => ?_
    · exact yields_pure (by simpa [written, tags, tagsList] using ht)
    · refine (passes_contentFrom doctype fuel b after).bind fun inner mid hinner => ?_
      refine (stays_endTag t.name mid List.suffix_rfl).bind fun _ _ h => yields_pure ?_
      simpa [written, tags] using (ht.append hinner).to_suffix h
  · exact yields_fail

theorem passes_bodyFrom (standalone : Bool) (fuel : Nat) (doctype : Option Doctype)
    (cs : List Char) :
    Yields (bodyFrom standalone fuel doctype) cs fun t _ => Passes cs t.written [] := by
  induction fuel generalizing doctype cs with
  | zero => exact yields_fail
  | succ fuel ih =>
    refine (stays_spaces cs List.suffix_rfl).bind fun _ _ h => ?_
    refine (stays_skip? _ _ h).bind fun _ _ h => yields_ite (fun _ => ?_) fun _ => ?_
    · refine (stays_comment _ h).bind fun _ _ h => ?_
      exact (ih _ _).mono fun _ _ more => more.of_suffix h
    refine (stays_skip? _ _ h).bind fun _ _ h => yields_ite (fun _ => ?_) fun _ => ?_
    · refine (stays_instruction _ h).bind fun _ _ h => ?_
      exact (ih _ _).mono fun _ _ more => more.of_suffix h
    refine (stays_skip? _ _ h).bind fun _ _ h => yields_ite (fun _ => ?_) fun _ => ?_
    · refine yields_ite (fun _ => yields_fail) fun _ => ?_
      refine (Doctype.stays_scan _ _ _ h).bind fun _ _ h => ?_
      exact (ih _ _).mono fun _ _ more => more.of_suffix h
    refine (stays_skip _ _ h).bind fun _ mid h => ?_
    refine (passes_rootFrom _ fuel mid).bind fun t _ ht => yields_any.bind fun _ _ _ => ?_
    exact yields_pure ((ht.of_suffix h).to_suffix (List.nil_suffix))

/-- The text of a document holds its declarations. -/
theorem passes_ofChars {alphabet : NameChar.Alphabet} {cs : List Char} {t : Scoped}
    (h : ofChars alphabet cs = .ok t) : Passes (unifyEnds cs) t.written [] := by
  have whole : Yields scan (unifyEnds cs) fun t _ => Passes (unifyEnds cs) t.written [] := by
    refine (Declaration.stays_scan? _ List.suffix_rfl).bind fun _ mid hmid => .get ?_
    exact (passes_bodyFrom _ _ _ mid).mono fun _ _ more => more.of_suffix hmid
  rw [ofChars] at h
  obtain ⟨⟨t', rest⟩, hr, h⟩ := exists_of_bind h
  cases h
  exact whole alphabet _ rest hr

end Scoped
end Markup
end SchemaPaths
