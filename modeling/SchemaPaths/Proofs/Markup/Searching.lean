/-
What a search of a document for declarations finds.

The search of `Prefixes` knows no markup: whatever has the shape of a declaration is one to it.  In
a document that has no such shapes besides its declarations, and writes these plainly, it finds just
them, in their order, and so gives each prefix the namespace it is declared for first.
-/
import SchemaPaths.Proofs.Markup.Passing

namespace SchemaPaths
namespace Markup

theorem Passes.nil_eq {ws : List Written} {rest : List Char} (h : Passes [] ws rest) : ws = [] := by
  cases h with
  | past => rfl
  | declaration reach leave shorter =>
    rw [List.suffix_nil.1 reach] at shorter
    exact absurd shorter (Nat.not_lt_zero _)

namespace Prefixes

theorem suffix_of_shorter {c : Char} {cs rest : List Char} (h : rest <:+ c :: cs)
    (shorter : rest.length < (c :: cs).length) : rest <:+ cs := by
  rcases List.suffix_cons_iff.1 h with rfl | h
  · exact absurd shorter (Nat.lt_irrefl _)
  · exact h

/-- The number of places in a text that look like a declaration. -/
def shapes : List Char → Nat
  | [] => 0
  | c :: cs => (if (declaration? (c :: cs)).isSome then 1 else 0) + shapes cs

theorem shapes_cons_some {c : Char} {cs : List Char} {d : (String × String) × List Char}
    (h : declaration? (c :: cs) = some d) : shapes (c :: cs) = shapes cs + 1 := by
  rw [shapes, h, Nat.add_comm]
  rfl

theorem shapes_cons_none {c : Char} {cs : List Char} (h : declaration? (c :: cs) = none) :
    shapes (c :: cs) = shapes cs := by
  rw [shapes, h]
  exact Nat.zero_add _

theorem shapes_le_of_suffix {cs rest : List Char} (h : rest <:+ cs) : shapes rest ≤ shapes cs := by
  induction cs with
  | nil => exact List.suffix_nil.1 h ▸ Nat.le_refl _
  | cons c cs ih =>
    rcases List.suffix_cons_iff.1 h with rfl | h
    · exact Nat.le_refl _
    · exact Nat.le_trans (ih h) (Nat.le_add_left _ _)

/-- A text has at least one place that looks like a declaration for each one that it holds. -/
theorem length_le_shapes {cs rest : List Char} {ws : List Written} (h : Passes cs ws rest)
    (plain : ∀ w ∈ ws, w.IsPlain) : ws.length ≤ shapes cs := by
  induction h with
  | past => exact Nat.zero_le _
  | @declaration cs mid after _ w ws reach leave shorter shape _ ih =>
    have found := (shape (plain w List.mem_cons_self)).2
    have more := ih fun w' hw' => plain w' (List.mem_cons_of_mem _ hw')
    cases mid with
    | nil => cases found
    | cons c mid =>
      have := shapes_le_of_suffix (suffix_of_shorter leave shorter)
      have := shapes_le_of_suffix reach
      rw [shapes_cons_some found] at this
      rw [List.length_cons]
      omega

/-- If all of `ws` stand further on, each has a shape there, and none is left for this place. -/
theorem declaration?_eq_none {c : Char} {cs rest : List Char} {ws : List Written}
    (h : Passes cs ws rest) (plain : ∀ w ∈ ws, w.IsPlain) (only : shapes (c :: cs) ≤ ws.length) :
    declaration? (c :: cs) = none := by
  have := length_le_shapes h plain
  cases hd : declaration? (c :: cs) with
  | none => rfl
  | some d =>
    rw [shapes_cons_some hd] at only
    omega

/-- Where nothing else looks like a declaration, a search finds just those that the text holds. -/
theorem declarationsFrom_eq {fuel : Nat} {cs : List Char} {ws : List Written}
    (fits : cs.length ≤ fuel) (h : Passes cs ws []) (plain : ∀ w ∈ ws, w.IsPlain)
    (only : shapes cs ≤ ws.length) : declarationsFrom fuel cs = ws.map Written.pair := by
  induction fuel generalizing cs ws with
  | zero =>
    have hws : ws = [] := (List.length_eq_zero_iff.1 (Nat.le_zero.1 fits) ▸ h).nil_eq
    rw [hws]
    rfl
  | succ fuel ih =>
    cases cs with
    | nil =>
      rw [h.nil_eq]
      rfl
    | cons c cs =>
      have fits := Nat.le_of_succ_le_succ fits
      have later (h : Passes cs ws []) :
          declarationsFrom (fuel + 1) (c :: cs) = ws.map Written.pair := by
        have hnone := declaration?_eq_none h plain only
        rw [declarationsFrom, hnone]
        exact ih fits h plain (shapes_cons_none hnone ▸ only)
      cases h with
      | past => exact later (.past List.nil_suffix)
      | @declaration _ mid after _ w ws reach leave shorter shape more =>
        rcases List.suffix_cons_iff.1 reach with rfl | reach
        · have found := (shape (plain w List.mem_cons_self)).2
          have hafter : after <:+ cs := suffix_of_shorter leave shorter
          have := shapes_le_of_suffix hafter
          rw [shapes_cons_some found, List.length_cons] at only
          rw [declarationsFrom, found, List.map_cons]
          refine congrArg _ (ih (Nat.le_trans hafter.length_le fits) more ?_ (by omega))
          exact fun w' hw' => plain w' (List.mem_cons_of_mem _ hw')
        · exact later (.declaration reach leave shorter shape more)

/-! ## Line ends

A reader of the document sees its line ends unified and the search does not.  Neither a name nor the
value of a plain declaration has a line end, and between them one blank is as good as another. -/

section LineEnds
open Document (unifyEnds)

variable {p : Char → Bool}

theorem unifyEnds_cons {c : Char} (h : c ≠ '\r') (cs : List Char) :
    unifyEnds (c :: cs) = c :: unifyEnds cs := by
  rw [unifyEnds]
  · rintro _ rfl
    exact absurd rfl h
  · rintro rfl
    exact absurd rfl h

theorem unifyEnds_return {cs : List Char} (h : ∀ cs', cs = '\n' :: cs' → False) :
    unifyEnds ('\r' :: cs) = '\n' :: unifyEnds cs := by
  rw [unifyEnds]
  exact h

theorem takeWhile_unifyEnds (h : p '\r' = p '\n') (cs : List Char) :
    (unifyEnds cs).takeWhile p = unifyEnds (cs.takeWhile p) := by
  fun_induction unifyEnds cs with
  | case1 => rfl
  | case2 cs ih =>
    by_cases hp : p '\n'
    · simp [h, hp, unifyEnds, ih]
    · simp [h, hp, unifyEnds]
  | case3 cs hcs ih =>
    by_cases hp : p '\n'
    · have hcs' : ∀ cs', cs.takeWhile p = '\n' :: cs' → False := by
        intro cs' h'
        have hprefix := h' ▸ List.takeWhile_prefix p (l := cs)
        obtain ⟨more, rfl⟩ := hprefix
        exact hcs _ rfl
      simp [h, hp, unifyEnds_return hcs', ih]
    · simp [h, hp, unifyEnds]
  | case4 c cs _ hc ih =>
    by_cases hp : p c
    · simp [hp, unifyEnds_cons hc, ih]
    · simp [hp, unifyEnds]

theorem dropWhile_unifyEnds (h : p '\r' = p '\n') (cs : List Char) :
    (unifyEnds cs).dropWhile p = unifyEnds (cs.dropWhile p) := by
  fun_induction unifyEnds cs with
  | case1 => rfl
  | case2 cs ih =>
    by_cases hp : p '\n'
    · simp [h, hp, ih]
    · simp [h, hp, unifyEnds]
  | case3 cs hcs ih =>
    by_cases hp : p '\n'
    · simp [h, hp, ih]
    · simp [h, hp, unifyEnds_return hcs]
  | case4 c cs _ hc ih =>
    by_cases hp : p c
    · simp [hp, ih]
    · simp [hp, unifyEnds_cons hc]

theorem eq_false_of_dropWhile {cs ds : List Char} {c : Char} (h : cs.dropWhile p = c :: ds) :
    p c = false := by
  have := List.head?_dropWhile_not p cs
  rwa [h] at this

theorem value?_unifyEnds (cs : List Char) : value? (unifyEnds cs) =
    (value? cs).map fun d => (unifyEnds d.1, unifyEnds d.2) := by
  rw [value?, value?, dropWhile_unifyEnds (by decide)]
  cases hds : cs.dropWhile Text.isBlank with
  | nil => rfl
  | cons c ds =>
    have hc := eq_false_of_dropWhile hds
    rw [unifyEnds_cons (by rintro rfl; cases hc)]
    by_cases heq : c = '='
    · subst heq
      simp only [dropWhile_unifyEnds (p := Text.isBlank) (by decide)]
      cases hes : ds.dropWhile Text.isBlank with
      | nil => rfl
      | cons q es =>
        have hq := eq_false_of_dropWhile hes
        rw [unifyEnds_cons (by rintro rfl; cases hq)]
        simp only [dropWhile_unifyEnds (p := fun c => !isQuote c) (by decide),
          takeWhile_unifyEnds (p := fun c => !isQuote c) (by decide)]
        by_cases hquote : isQuote q
        · simp only [hquote, ite_true]
          cases hfs : es.dropWhile fun c => !isQuote c with
          | nil => rfl
          | cons q' fs =>
            have hq' := eq_false_of_dropWhile hfs
            rw [unifyEnds_cons (by rintro rfl; cases hq')]
            rfl
        · simp [hquote]
    · simp [heq]

/-- A text that begins with characters other than line ends still does with its line ends as they
are. -/
theorem eq_append_of_unifyEnds {s cs ds : List Char} (hs : ∀ c ∈ s, c ≠ '\n')
    (h : unifyEnds cs = s ++ ds) : ∃ cs', cs = s ++ cs' ∧ unifyEnds cs' = ds := by
  induction s generalizing cs with
  | nil => exact ⟨cs, rfl, h⟩
  | cons c s ih =>
    have hc := hs c List.mem_cons_self
    fun_cases unifyEnds cs with
    | case1 => cases h
    | case2 =>
      rw [unifyEnds] at h
      exact absurd (List.cons.inj h).1.symm hc
    | case3 cs hcs =>
      rw [unifyEnds_return hcs] at h
      exact absurd (List.cons.inj h).1.symm hc
    | case4 d cs _ hd =>
      rw [unifyEnds_cons hd] at h
      obtain ⟨rfl, more⟩ := List.cons.inj h
      obtain ⟨cs', rfl, h'⟩ := ih (fun c hc => hs c (List.mem_cons_of_mem _ hc)) more
      exact ⟨cs', rfl, h'⟩

theorem unifyEnds_append {s : List Char} (hs : ∀ c ∈ s, c ≠ '\r') (cs : List Char) :
    unifyEnds (s ++ cs) = s ++ unifyEnds cs := by
  induction s with
  | nil => rfl
  | cons c s ih =>
    rw [List.cons_append, unifyEnds_cons (hs c List.mem_cons_self),
      ih fun c hc => hs c (List.mem_cons_of_mem _ hc), List.cons_append]

/-- What a search finds, with its line ends unified. -/
def unified (d : (String × String) × List Char) : (String × String) × List Char :=
  ((d.1.1, String.ofList (unifyEnds d.1.2.toList)), unifyEnds d.2)

theorem unifyEnds_takeWhile_isPrefixChar (cs : List Char) :
    unifyEnds (cs.takeWhile isPrefixChar) = cs.takeWhile isPrefixChar := by
  have free : ∀ c ∈ cs.takeWhile isPrefixChar, c ≠ '\r' := by
    rintro c hc rfl
    exact absurd (List.all_eq_true.1 List.all_takeWhile _ hc) (by decide)
  simpa [unifyEnds] using unifyEnds_append free []

theorem unifyEnds_xmlns (cs : List Char) :
    unifyEnds ('x' :: 'm' :: 'l' :: 'n' :: 's' :: cs) =
      'x' :: 'm' :: 'l' :: 'n' :: 's' :: unifyEnds cs := rfl

theorem declaration?_unifyEnds (cs : List Char) :
    declaration? (unifyEnds cs) = (declaration? cs).map unified := by
  fun_cases declaration? cs with
  | case1 cs name empty =>
    rw [unifyEnds_xmlns, unifyEnds_cons (by decide)]
    simp only [declaration?, takeWhile_unifyEnds (p := isPrefixChar) (by decide),
      unifyEnds_takeWhile_isPrefixChar]
    rw [if_pos empty]
    rfl
  | case2 cs name named =>
    rw [unifyEnds_xmlns, unifyEnds_cons (by decide)]
    simp only [declaration?, takeWhile_unifyEnds (p := isPrefixChar) (by decide),
      unifyEnds_takeWhile_isPrefixChar, dropWhile_unifyEnds (p := isPrefixChar) (by decide),
      value?_unifyEnds]
    rw [if_neg named, Option.map_map, Option.map_map]
    congr 1
    funext d
    simp [unified, name]
  | case3 cs other =>
    rw [unifyEnds_xmlns, declaration?]
    · rw [value?_unifyEnds, Option.map_map, Option.map_map]
      congr 1
      funext d
      simp [unified]
    · intro cs' h
      obtain ⟨cs'', h, _⟩ := eq_append_of_unifyEnds (s := [':']) (by simp) h
      exact other cs'' h
  | case4 _ _ other =>
    have named (ds : List Char) (h : unifyEnds cs = 'x' :: 'm' :: 'l' :: 'n' :: 's' :: ds) :
        False := by
      obtain ⟨cs', h, _⟩ := eq_append_of_unifyEnds (s := ['x', 'm', 'l', 'n', 's']) (by simp) h
      exact other cs' h
    rw [declaration?]
    · rfl
    · exact fun ds h => named _ h
    · exact fun ds h => named _ h

theorem declaration?_cons {c : Char} (h : c ≠ 'x') (cs : List Char) :
    declaration? (c :: cs) = none := by
  rw [declaration?]
  · rintro _ ⟨⟩
    exact h rfl
  · rintro _ ⟨⟩
    exact h rfl

theorem shapes_unifyEnds (cs : List Char) : shapes (unifyEnds cs) = shapes cs := by
  fun_induction unifyEnds cs with
  | case1 => rfl
  | case2 cs ih =>
    rw [shapes_cons_none (declaration?_cons (by decide) _), ih,
      shapes_cons_none (declaration?_cons (by decide) _),
      shapes_cons_none (declaration?_cons (by decide) _)]
  | case3 cs hcs ih =>
    rw [shapes_cons_none (declaration?_cons (by decide) _), ih,
      shapes_cons_none (declaration?_cons (by decide) _)]
  | case4 c cs _ hc ih =>
    rw [shapes, shapes, ← unifyEnds_cons hc, declaration?_unifyEnds, ih, Option.isSome_map]

theorem suffix_of_dropWhile {cs rest : List Char} {c : Char} (h : cs.dropWhile p = c :: rest) :
    rest <:+ cs := (List.suffix_cons c rest).trans (h ▸ List.dropWhile_suffix p)

theorem value?_suffix {cs v rest : List Char} (h : value? cs = some (v, rest)) : rest <:+ cs := by
  rw [value?] at h
  split at h
  · rename_i sign equals
    split at h
    · rename_i q quoted hquoted
      split at h
      · split at h
        · rename_i closed
          cases h
          have inside := (suffix_of_dropWhile closed).trans (suffix_of_dropWhile hquoted)
          exact inside.trans (suffix_of_dropWhile equals)
        · cases h
      · cases h
    · cases h
  · cases h

theorem declaration?_suffix {c : Char} {cs rest : List Char} {d : String × String}
    (h : declaration? (c :: cs) = some (d, rest)) : rest <:+ cs := by
  rw [declaration?.eq_def] at h
  split at h
  · rename_i text hcs
    dsimp only at h
    split at h
    · cases h
    · obtain ⟨_, hv, ⟨⟩⟩ := Option.map_eq_some_iff.1 h
      cases hcs
      have inside := (value?_suffix hv).trans (List.dropWhile_suffix isPrefixChar)
      exact inside.trans (List.suffix_append ['m', 'l', 'n', 's', ':'] text)
  · rename_i text _ hcs
    obtain ⟨_, hv, ⟨⟩⟩ := Option.map_eq_some_iff.1 h
    cases hcs
    exact (value?_suffix hv).trans (List.suffix_append ['m', 'l', 'n', 's'] text)
  · cases h

theorem declarationsFrom_nil (fuel : Nat) : declarationsFrom fuel [] = [] := by
  cases fuel <;> rfl

theorem declarationsFrom_skip {c : Char} {cs : List Char} (h : declaration? (c :: cs) = none)
    (fuel : Nat) : declarationsFrom (fuel + 1) (c :: cs) = declarationsFrom fuel cs := by
  rw [declarationsFrom, h]

theorem declarationsFrom_found {c : Char} {cs rest : List Char} {d : String × String}
    (h : declaration? (c :: cs) = some (d, rest)) (fuel : Nat) :
    declarationsFrom (fuel + 1) (c :: cs) = d :: declarationsFrom fuel rest := by
  rw [declarationsFrom, h]

theorem declarationsFrom_unifyEnds {fuel fuel' : Nat} {cs : List Char} (fits : cs.length ≤ fuel)
    (fits' : (unifyEnds cs).length ≤ fuel') : declarationsFrom fuel' (unifyEnds cs) =
      (declarationsFrom fuel cs).map fun d => (d.1, String.ofList (unifyEnds d.2.toList)) := by
  induction fuel generalizing fuel' cs with
  | zero =>
    rw [List.length_eq_zero_iff.1 (Nat.le_zero.1 fits)]
    exact declarationsFrom_nil _
  | succ fuel ih =>
    fun_cases unifyEnds cs with
    | case1 => exact declarationsFrom_nil _
    | case2 cs =>
      -- The search goes past the return alone, and the line feed behind it is the unified line end.
      rw [declarationsFrom_skip (declaration?_cons (by decide) _)]
      exact ih (Nat.le_of_succ_le_succ fits) fits'
    | case3 cs hcs =>
      rw [unifyEnds_return hcs] at fits'
      cases fuel' with
      | zero => exact absurd fits' (Nat.not_succ_le_zero _)
      | succ fuel' =>
        rw [declarationsFrom_skip (declaration?_cons (by decide) _),
          declarationsFrom_skip (declaration?_cons (by decide) _)]
        exact ih (Nat.le_of_succ_le_succ fits) (Nat.le_of_succ_le_succ fits')
    | case4 c cs _ hc =>
      have fits := Nat.le_of_succ_le_succ fits
      have unify := declaration?_unifyEnds (c :: cs)
      rw [unifyEnds_cons hc] at unify fits'
      cases fuel' with
      | zero => exact absurd fits' (Nat.not_succ_le_zero _)
      | succ fuel' =>
        have fits' := Nat.le_of_succ_le_succ fits'
        cases hd : declaration? (c :: cs) with
        | none =>
          rw [hd] at unify
          rw [declarationsFrom_skip unify, declarationsFrom_skip hd]
          exact ih fits fits'
        | some found =>
          obtain ⟨d, rest⟩ := found
          rw [hd] at unify
          rw [declarationsFrom_found unify, declarationsFrom_found hd, List.map_cons]
          have left := Nat.le_trans (declaration?_suffix hd).length_le fits
          have left' := Nat.le_trans (declaration?_suffix unify).length_le fits'
          exact congrArg _ (ih left left')

theorem unifyEnds_of_free {cs : List Char} (h : '\n' ∉ unifyEnds cs) : unifyEnds cs = cs := by
  fun_induction unifyEnds cs with
  | case1 => rfl
  | case2 => exact absurd List.mem_cons_self h
  | case3 => exact absurd List.mem_cons_self h
  | case4 c cs _ hc ih => rw [ih fun hn => h (List.mem_cons_of_mem _ hn)]

end LineEnds

/-! ## A whole document -/

theorem value_of_passes {cs rest : List Char} {ws : List Written} (h : Passes cs ws rest)
    (plain : ∀ w ∈ ws, w.IsPlain) : ∀ w ∈ ws, '\n' ∉ w.value.toList := by
  induction h with
  | past => exact fun _ hw => absurd hw List.not_mem_nil
  | declaration _ _ _ shape _ ih =>
    intro w hw
    rcases List.mem_cons.1 hw with rfl | hw
    · have isPlain := plain _ List.mem_cons_self
      rw [(shape isPlain).1, String.toList_ofList]
      intro hn
      exact absurd (List.all_eq_true.1 isPlain.value _ hn) (by decide)
    · exact ih (fun w hw => plain w (List.mem_cons_of_mem _ hw)) w hw

/-- A search of a document in which nothing but its declarations looks like one finds these. -/
theorem declarationsFrom_document {alphabet : NameChar.Alphabet} {cs : List Char} {t : Scoped}
    (read : Scoped.ofChars alphabet cs = .ok t) (plain : ∀ w ∈ t.written, w.IsPlain)
    (only : shapes cs ≤ t.written.length) {fuel : Nat} (fits : cs.length ≤ fuel) :
    declarationsFrom fuel cs = t.written.map Written.pair := by
  have passes := Scoped.passes_ofChars read
  have unified := declarationsFrom_unifyEnds fits (Nat.le_refl _)
  rw [declarationsFrom_eq (Nat.le_refl _) passes plain (shapes_unifyEnds cs ▸ only)] at unified
  -- No plain value has a line end, so unifying those that the search finds changes nothing.
  have same : ∀ d ∈ declarationsFrom fuel cs,
      (d.1, String.ofList (Document.unifyEnds d.2.toList)) = d := by
    intro d hd
    obtain ⟨w, hw, heq⟩ := List.mem_map.1 (unified ▸ List.mem_map_of_mem hd)
    have free := value_of_passes passes plain w hw
    have value : w.value = String.ofList (Document.unifyEnds d.2.toList) := congrArg Prod.snd heq
    rw [value, String.toList_ofList] at free
    rw [unifyEnds_of_free free, String.ofList_toList]
  rw [unified]
  exact ((List.map_congr_left same).trans (List.map_id _)).symm

theorem lookup_add (ps : Prefixes) (d : String × String) (p : String) :
    (add ps d).lookup p = (ps.lookup p).or ([d].lookup p) := by
  rw [add]
  split
  · rename_i known
    by_cases hp : p = d.1
    · obtain ⟨uri, huri⟩ := Option.isSome_iff_exists.1 known
      rw [hp, huri, Option.some_or]
    · obtain ⟨k, uri⟩ := d
      simp [List.lookup_cons, beq_false_of_ne hp]
  · rw [List.lookup_append]

theorem lookup_foldl_add (ps : Prefixes) (ds : List (String × String)) (p : String) :
    (ds.foldl add ps).lookup p = (ps.lookup p).or (ds.lookup p) := by
  induction ds generalizing ps with
  | nil => simp
  | cons d ds ih =>
    rw [List.foldl_cons, ih, lookup_add, Option.or_assoc, ← List.lookup_append,
      List.singleton_append]

/-- The prefixes that declarations give; the first declaration of a prefix wins. -/
def ofDeclarations (ds : List (String × String)) : Prefixes := ds.foldl add [("xml", xmlSpace)]

theorem lookup_ofDeclarations (ds : List (String × String)) (p : String) :
    (ofDeclarations ds).lookup p = Bindings.expand? ds p := by
  rw [ofDeclarations, lookup_foldl_add, Bindings.expand?]
  by_cases hp : p = "xml"
  · simp [hp]
  · simp [List.lookup_cons, beq_false_of_ne hp]

end Prefixes

namespace Document

theorem ofBytes_encoding (bs : List UInt8) :
    (∃ bigEndian, (Encoding.ofBytes bs).1 = .utf16 bigEndian) ∨
      bs = (Encoding.ofBytes bs).2 ∨ bs = 0xef :: 0xbb :: 0xbf :: (Encoding.ofBytes bs).2 := by
  fun_cases Encoding.ofBytes bs with
  | case1 bs => exact .inr (.inr rfl)
  | case2 => exact .inl ⟨_, rfl⟩
  | case3 => exact .inl ⟨_, rfl⟩
  | case4 => exact .inl ⟨_, rfl⟩
  | case5 => exact .inl ⟨_, rfl⟩
  | case6 => exact .inr (.inl rfl)

theorem named_utf16 (bigEndian : Bool) (name : String) :
    Encoding.named (.utf16 bigEndian) name ≠ .ok .utf8 := by
  intro h
  simp only [Encoding.named] at h
  repeat' split at h
  all_goals cases h

theorem encodingOf_utf8 {bs rest : List UInt8} (h : encodingOf bs = .ok (.utf8, rest)) :
    bs = rest ∨ bs = 0xef :: 0xbb :: 0xbf :: rest := by
  have hcases := ofBytes_encoding bs
  rw [encodingOf] at h
  rcases hof : Encoding.ofBytes bs with ⟨found, left⟩
  rw [hof] at h hcases
  obtain ⟨d, -, h⟩ := exists_of_bind h
  dsimp only at h hcases
  split at h
  · rename_i name _
    obtain ⟨e, hnamed, h⟩ := exists_of_bind h
    cases h
    rcases hcases with ⟨bigEndian, h⟩ | h
    · rw [h] at hnamed
      exact absurd hnamed (named_utf16 bigEndian name)
    · exact h
  · cases h
    rcases hcases with ⟨_, h⟩ | h
    · cases h
    · exact h

end Document

section Utf8
open Text.Utf8

theorem decodeStrict_of_whole {bs : List UInt8} (h : (decodeStrict bs).2 = true) :
    (decodeStrict bs).1 = decodeLossy bs := by
  simp only [decodeStrict, decodeLossy] at h ⊢
  generalize pieces 0 bs = found at h ⊢
  induction found with
  | nil => rfl
  | cons piece found ih =>
    simp only [List.map_cons, List.all_cons, Bool.and_eq_true] at h
    obtain ⟨c, hc⟩ := Option.isSome_iff_exists.1 h.1
    rw [List.map_cons, List.takeWhile_cons_of_pos h.1, List.map_cons, ← ih h.2, hc]
    rfl

theorem pieces_mark (bs : List UInt8) :
    pieces 0 (0xef :: 0xbb :: 0xbf :: bs) = .char 0xfeff 3 :: pieces 0 bs := rfl

theorem decodeLossy_mark (bs : List UInt8) :
    decodeLossy (0xef :: 0xbb :: 0xbf :: bs) = '\ufeff' :: decodeLossy bs := by
  rw [decodeLossy, pieces_mark]
  rfl

theorem whole_mark (bs : List UInt8) :
    (decodeStrict (0xef :: 0xbb :: 0xbf :: bs)).2 = (decodeStrict bs).2 := by
  simp only [decodeStrict, pieces_mark]
  rfl

end Utf8

/-- A document in UTF-8 that a search of its bytes reads as it is meant: its declarations are
written plainly, the document type has no part in them, and nothing else looks like one. -/
structure Scoped.IsPlain (bytes : List UInt8) (t : Scoped) : Prop where
  read : Scoped.ofBytes bytes = .ok t
  utf8 : ∃ rest, Document.encodingOf bytes = .ok (.utf8, rest)
  whole : (Text.Utf8.decodeStrict bytes).2 = true
  plain : ∀ w ∈ t.written, w.IsPlain
  counting : t.written.map Written.pair = t.declarations
  only : Prefixes.shapes (Text.Utf8.decodeLossy bytes) ≤ t.declarations.length

/-- Whether a document is in UTF-8. -/
def Document.isUtf8 (bytes : List UInt8) : Bool :=
  match encodingOf bytes with
  | .ok (.utf8, _) => true
  | _ => false

theorem Document.exists_of_isUtf8 {bytes : List UInt8} (h : isUtf8 bytes = true) :
    ∃ rest, encodingOf bytes = .ok (.utf8, rest) := by
  unfold isUtf8 at h
  split at h
  · rename_i rest hfound
    exact ⟨rest, hfound⟩
  · cases h

theorem Scoped.ofChars_of_ofBytes {bytes rest : List UInt8} {t : Scoped}
    (read : Scoped.ofBytes bytes = .ok t) (utf8 : Document.encodingOf bytes = .ok (.utf8, rest))
    (whole : (Text.Utf8.decodeStrict rest).2 = true) :
    Scoped.ofChars .standard (Text.Utf8.decodeLossy rest) = .ok t := by
  have decoded : Encoding.utf8.decode rest = (Text.Utf8.decodeLossy rest, true) := by
    rw [← decodeStrict_of_whole whole, Encoding.decode]
    dsimp only
    rw [whole, if_pos rfl]
  rw [Scoped.ofBytes, utf8] at read
  obtain ⟨found, hfound, read⟩ := exists_of_bind read
  cases hfound
  dsimp only at read
  rw [decoded] at read
  obtain ⟨t', ht', read⟩ := exists_of_bind read
  cases read
  exact ht'

/-- The search finds the declarations of the document. -/
theorem Prefixes.ofBytes_eq {bytes : List UInt8} {t : Scoped} (h : Scoped.IsPlain bytes t) :
    ofBytes bytes = ofDeclarations t.declarations := by
  obtain ⟨rest, utf8⟩ := h.utf8
  have only := h.only
  rw [← h.counting, List.length_map] at only
  rw [ofBytes, ofChars, ofDeclarations, ← h.counting]
  rcases Document.encodingOf_utf8 utf8 with rfl | rfl
  · have read := Scoped.ofChars_of_ofBytes h.read utf8 h.whole
    rw [declarationsFrom_document read h.plain only (Nat.le_refl _)]
  · have read := Scoped.ofChars_of_ofBytes h.read utf8 (whole_mark rest ▸ h.whole)
    have mark := declaration?_cons (c := '\ufeff') (by decide) (Text.Utf8.decodeLossy rest)
    rw [decodeLossy_mark, shapes_cons_none mark] at only
    rw [decodeLossy_mark, List.length_cons, declarationsFrom_skip mark,
      declarationsFrom_document read h.plain only (Nat.le_refl _)]

/-- The search gives every prefix the namespace that the document declares first for it. -/
theorem Prefixes.lookup_ofBytes {bytes : List UInt8} {t : Scoped} (h : Scoped.IsPlain bytes t)
    (p : String) : (ofBytes bytes).lookup p = Bindings.expand? t.declarations p := by
  rw [ofBytes_eq h, lookup_ofDeclarations]

end Markup
end SchemaPaths
