/-
A reader of rows with quoted fields.

Fields are parted by commas and rows by line ends.  A field that begins with a quote goes on to the
next quote that is not doubled, whatever stands in between; in any other field a quote is refused.
What an export writes as it is comes back from this reader exactly if it is plain.
-/
import Mathlib.Data.List.Forall2
import SchemaPaths.Export.Record

namespace SchemaPaths
namespace Export
namespace Decoding

/-! ## The reader -/

/-- Where a reader is: before a field, inside one, inside a quoted one, behind a quote inside that,
or behind the first half of a line end. -/
inductive Place where
  | field
  | plain
  | quoted
  | closed
  | turned
deriving DecidableEq

/-- What a reader does with a character. -/
inductive Act where
  | keep (next : Place)
  | drop (next : Place)
  | part
  | turn
  | refuse

def act : Place → Char → Act
  | .quoted, '"' => .drop .closed
  | .quoted, _ => .keep .quoted
  | .turned, '\n' => .turn
  | .turned, _ => .refuse
  | _, ',' => .part
  | _, '\n' => .turn
  | _, '\r' => .drop .turned
  | .field, '"' => .drop .quoted
  | .plain, '"' => .refuse
  | .closed, '"' => .keep .quoted
  | .closed, _ => .refuse
  | _, _ => .keep .plain

abbrev Fields := List (List Char)

/-- What is still to come: the rest of a field, the rest of its row, and the other rows. -/
structure Reading where
  field : List Char := []
  fields : Fields := []
  rows : List Fields := []
deriving DecidableEq

/-- What is to come when some characters of the field come first. -/
def Reading.after (v : List Char) (r : Reading) : Reading := { r with field := v ++ r.field }

def Reading.all (r : Reading) : List Fields := (r.field :: r.fields) :: r.rows

/-- A line end at the very end does not begin another row. -/
def read : Place → List Char → Option Reading
  | .quoted, [] => none
  | .turned, [] => none
  | _, [] => some {}
  | p, c :: cs =>
    match act p c with
    | .keep next => (read next cs).map (.after [c])
    | .drop next => read next cs
    | .part => (read .field cs).map fun r => { fields := r.field :: r.fields, rows := r.rows }
    | .turn =>
      if cs.isEmpty then some {} else (read .field cs).map fun r => { rows := r.all }
    | .refuse => none

def readAll (cs : List Char) : Option (List Fields) :=
  if cs.isEmpty then some [] else (read .field cs).map (·.all)

/-- The rows that a text holds, if it can be read. -/
def rowsOfText? (text : String) : Option (List (List String)) :=
  (readAll text.toList).map fun rows => rows.map fun row => row.map String.ofList

example : rowsOfText? "a,\"b,\"\"c\"\r\n,d" = some [["a", "b,\"c"], ["", "d"]] := by decide

example : rowsOfText? "a\"b\"" = none := by decide

/-! ## Plain text -/

/-- Whether a character means something to a reader. -/
def special (c : Char) : Bool := c == ',' || c == '"' || c == '\n' || c == '\r'

def PlainChars (v : List Char) : Prop := ∀ c ∈ v, special c = false

-- named, as there is also an instance that goes through all characters there are
instance (v : List Char) : Decidable (PlainChars v) :=
  List.decidableBAll (fun c => special c = false) v

def Plain (text : String) : Prop := PlainChars text.toList

instance (text : String) : Decidable (Plain text) :=
  inferInstanceAs (Decidable (PlainChars text.toList))

theorem special_eq_false {c : Char} :
    special c = false ↔ c ≠ ',' ∧ c ≠ '"' ∧ c ≠ '\n' ∧ c ≠ '\r' := by
  simp [special, and_assoc]

section Texts

variable {a b : String} {l : List String}

theorem Plain.append (ha : Plain a) (hb : Plain b) : Plain (a ++ b) := by
  rw [Plain, String.toList_append]
  exact List.forall_mem_append.2 ⟨ha, hb⟩

theorem Plain.intercalate (ha : Plain a) (hl : ∀ b ∈ l, Plain b) : Plain (a.intercalate l) := by
  induction l with
  | nil => exact nofun
  | cons b l ih =>
    obtain ⟨hb, hl⟩ := List.forall_mem_cons.1 hl
    cases l with
    | nil => rwa [String.intercalate_singleton]
    | cons c l =>
      rw [String.intercalate_cons_cons]
      exact (hb.append ha).append (ih hl)

end Texts

/-- What ends a field. -/
def EndsField (c : Char) : Prop := c = ',' ∨ c = '\n'

section Reader

variable {c sep : Char} {v cs t : List Char} {r : Reading}

theorem after_after (v w : List Char) (r : Reading) :
    (r.after w).after v = r.after (v ++ w) := by
  simp [Reading.after, List.append_assoc]

theorem after_injective (v : List Char) : Function.Injective (Reading.after v) := by
  rintro ⟨field, fields, rows⟩ ⟨field', fields', rows'⟩ h
  obtain ⟨hfield, rfl, rfl⟩ := Reading.mk.inj h
  obtain rfl : field = field' := List.append_cancel_left hfield
  rfl

theorem all_injective : Function.Injective Reading.all := by
  rintro ⟨field, fields, rows⟩ ⟨field', fields', rows'⟩ h
  cases h
  rfl

theorem map_after_nil (r : Option Reading) : r.map (.after []) = r := by
  cases r <;> rfl

theorem map_after (v w : List Char) (r : Option Reading) :
    (r.map (Reading.after w)).map (Reading.after v) = r.map (Reading.after (v ++ w)) := by
  rw [Option.map_map]
  exact congrArg (Option.map · r) (funext fun _ => after_after v w _)

/-- Apart from a quote, what comes first in a field does what it does further on. -/
theorem read_field (h : c ≠ '"') : read .field (c :: cs) = read .plain (c :: cs) := by
  have hact : act .field c = act .plain c := by
    unfold act
    split <;> simp_all
  rw [read, read, hact]

theorem read_keep (h : special c = false) :
    read .plain (c :: cs) = (read .plain cs).map (.after [c]) := by
  obtain ⟨hcomma, hquote, hline, hreturn⟩ := special_eq_false.1 h
  have hact : act .plain c = .keep .plain := by
    unfold act
    split <;> simp_all
  rw [read, hact]

theorem read_quoted_keep (h : c ≠ '"') :
    read .quoted (c :: cs) = (read .quoted cs).map (.after [c]) := by
  have hact : act .quoted c = .keep .quoted := by
    unfold act
    split <;> simp_all
  rw [read, hact]

/-- A line end begins the next row, if there is one. -/
theorem read_turn : read .plain ('\n' :: cs) = (readAll cs).map fun rows => { rows } := by
  rw [readAll, read]
  dsimp only [act]
  cases cs with
  | nil => rfl
  | cons c cs =>
    simp only [List.isEmpty_cons, Bool.false_eq_true, if_false, Option.map_map]
    rfl

theorem read_part : read .plain (',' :: cs) =
    (read .field cs).map fun r => { fields := r.field :: r.fields, rows := r.rows } := rfl

theorem EndsField.ne_quote (h : EndsField sep) : sep ≠ '"' := by
  obtain rfl | rfl := h <;> decide

/-- Behind a quoted field nothing but its end is read. -/
theorem read_closed (h : c ≠ '"') :
    read .closed (c :: cs) = if special c then read .plain (c :: cs) else none := by
  cases hc : special c with
  | true =>
    have hcases : c = ',' ∨ c = '"' ∨ c = '\n' ∨ c = '\r' := by
      simpa [special, or_assoc] using hc
    obtain rfl | rfl | rfl | rfl := hcases
    · rfl
    · exact absurd rfl h
    · rfl
    · rfl
  | false =>
    obtain ⟨hcomma, -, hline, hreturn⟩ := special_eq_false.1 hc
    have hact : act .closed c = .refuse := by
      unfold act
      split <;> simp_all
    rw [read, hact]
    rfl

/-! ## Fields that come back -/

/-- A reader takes `enc` for the field `v`. -/
def Encodes (enc v : List Char) : Prop :=
  ∀ sep t, EndsField sep → read .field (enc ++ sep :: t) = (read .plain (sep :: t)).map (.after v)

theorem read_plain_append (h : PlainChars v) :
    read .plain (v ++ t) = (read .plain t).map (.after v) := by
  induction v with
  | nil => exact (map_after_nil _).symm
  | cons c v ih =>
    rw [List.cons_append, read_keep (h c List.mem_cons_self),
      ih fun d hd => h d (List.mem_cons_of_mem _ hd), map_after]
    rfl

theorem encodes_plain (h : PlainChars v) : Encodes v v := by
  intro sep t hsep
  rw [← read_plain_append h]
  cases v with
  | nil => exact read_field hsep.ne_quote
  | cons c v => exact read_field (special_eq_false.1 (h c List.mem_cons_self)).2.1

theorem quoteChars_quote (v : List Char) : quoteChars ('"' :: v) = '"' :: '"' :: quoteChars v := rfl

theorem quoteChars_cons (h : c ≠ '"') (v : List Char) : quoteChars (c :: v) = c :: quoteChars v := by
  rw [quoteChars, if_neg (by simpa using h)]

theorem read_quoted_append (v t : List Char) :
    read .quoted (quoteChars v ++ t) = (read .quoted t).map (.after v) := by
  induction v with
  | nil => exact (map_after_nil _).symm
  | cons c v ih =>
    have hkeep : read .quoted (quoteChars (c :: v) ++ t) =
        (read .quoted (quoteChars v ++ t)).map (.after [c]) := by
      by_cases hc : c = '"'
      · subst hc
        rw [quoteChars_quote]
        rfl
      · rw [quoteChars_cons hc, List.cons_append, read_quoted_keep hc]
    rw [hkeep, ih, map_after]
    rfl

theorem encodes_quoted (v : List Char) : Encodes ('"' :: quoteChars v ++ ['"']) v := by
  intro sep t hsep
  have hopen : read .field ('"' :: quoteChars v ++ ['"'] ++ sep :: t) =
      read .quoted (quoteChars v ++ '"' :: sep :: t) := by
    rw [List.append_assoc]
    rfl
  have hspecial : special sep = true := by obtain rfl | rfl := hsep <;> rfl
  have hclose : read .quoted ('"' :: sep :: t) = read .plain (sep :: t) :=
    (read_closed hsep.ne_quote).trans (if_pos hspecial)
  rw [hopen, read_quoted_append, hclose]

/-! ## Fields that do not come back -/

theorem field_of_read_turned (h : read .turned cs = some r) : r.field = [] := by
  cases cs with
  | nil => cases h
  | cons c cs =>
    by_cases hc : c = '\n'
    · subst hc
      rw [show read .turned ('\n' :: cs) = read .plain ('\n' :: cs) from rfl, read_turn] at h
      obtain ⟨rows, -, rfl⟩ := Option.map_eq_some_iff.1 h
      rfl
    · have hact : act .turned c = .refuse := by
        unfold act
        split <;> simp_all
      rw [read, hact] at h
      cases h

/-- A character that means something is not kept. -/
theorem field_of_read_special (hc : special c = true) (h : read .plain (c :: cs) = some r) :
    r.field = [] := by
  have hcases : c = ',' ∨ c = '"' ∨ c = '\n' ∨ c = '\r' := by simpa [special, or_assoc] using hc
  obtain rfl | rfl | rfl | rfl := hcases
  · rw [read_part] at h
    obtain ⟨_, -, rfl⟩ := Option.map_eq_some_iff.1 h
    rfl
  · cases h
  · rw [read_turn] at h
    obtain ⟨_, -, rfl⟩ := Option.map_eq_some_iff.1 h
    rfl
  · exact @field_of_read_turned cs r h

/-- A field that is read without quotes is plain. -/
theorem plain_of_read_plain (h : read .plain (v ++ t) = some r) (hv : r.field = v) :
    PlainChars v := by
  suffices ∀ w, r.field = v ++ w → PlainChars v from this [] (by simpa using hv)
  clear hv
  induction v generalizing r with
  | nil => exact fun _ _ => nofun
  | cons c v ih =>
    intro w hv
    cases hc : special c with
    | true =>
      rw [field_of_read_special hc h] at hv
      cases hv
    | false =>
      rw [List.cons_append, read_keep hc] at h
      obtain ⟨r', hr', rfl⟩ := Option.map_eq_some_iff.1 h
      exact List.forall_mem_cons.2 ⟨hc, ih hr' w (List.tail_eq_of_cons_eq hv)⟩

/-- What is read inside quotes stood there with its quotes doubled. -/
theorem eq_of_read_quoted (cs : List Char) :
    (∀ r, read .quoted cs = some r → ∃ t, cs = quoteChars r.field ++ '"' :: t) ∧
      ∀ r, read .closed cs = some r → ∃ t, '"' :: cs = quoteChars r.field ++ '"' :: t := by
  induction cs with
  | nil => exact ⟨nofun, fun r h => ⟨[], by rw [← Option.some.inj h]; rfl⟩⟩
  | cons c cs ih =>
    by_cases hc : c = '"'
    · subst hc
      refine ⟨fun r h => ih.2 r h, fun r h => ?_⟩
      obtain ⟨r', hr', rfl⟩ := Option.map_eq_some_iff.1 h
      obtain ⟨t, ht⟩ := ih.1 r' hr'
      exact ⟨t, by rw [ht]; rfl⟩
    · constructor
      · intro r h
        rw [read_quoted_keep hc] at h
        obtain ⟨r', hr', rfl⟩ := Option.map_eq_some_iff.1 h
        obtain ⟨t, ht⟩ := ih.1 r' hr'
        refine ⟨t, ?_⟩
        rw [show (r'.after [c]).field = c :: r'.field from rfl, quoteChars_cons hc, ht]
        rfl
      · intro r h
        rw [read_closed hc] at h
        split at h
        · rename_i hspecial
          exact ⟨c :: cs, by rw [field_of_read_special hspecial h]; rfl⟩
        · cases h

/-- A text in quotes is not the field that is read from it. -/
theorem ne_quoted (hsep : sep ≠ '"') (v t u : List Char) (k : Nat) :
    v ++ sep :: t ≠ List.replicate (k + 1) '"' ++ (quoteChars v ++ '"' :: u) := by
  induction v generalizing k with
  | nil =>
    intro h
    rw [List.replicate_succ] at h
    exact hsep (List.head_eq_of_cons_eq h)
  | cons c v ih =>
    intro h
    rw [List.replicate_succ] at h
    obtain rfl : c = '"' := List.head_eq_of_cons_eq h
    refine ih (k + 1) ?_
    have htail : v ++ sep :: t = List.replicate k '"' ++ (quoteChars ('"' :: v) ++ '"' :: u) :=
      List.tail_eq_of_cons_eq h
    rw [htail, quoteChars_quote, List.replicate_succ', List.replicate_succ']
    simp

/-- A field that comes back from a reader as it was written is plain. -/
theorem plain_of_read (hsep : EndsField sep) (h : read .field (v ++ sep :: t) = some r)
    (hv : r.field = v) : PlainChars v := by
  cases v with
  | nil => exact nofun
  | cons c v =>
    by_cases hc : c = '"'
    · subst hc
      obtain ⟨u, hu⟩ := (eq_of_read_quoted (v ++ sep :: t)).1 r h
      rw [hv, quoteChars_quote] at hu
      exact absurd hu (ne_quoted hsep.ne_quote v t u 1)
    · rw [List.cons_append, read_field hc] at h
      exact plain_of_read_plain h hv

theorem encodes_self_iff : Encodes v v ↔ PlainChars v := by
  refine ⟨fun h => ?_, encodes_plain⟩
  have hread : read .field (v ++ '\n' :: []) = some { field := v } := by
    rw [h '\n' [] (.inr rfl), read_turn]
    simp [readAll, Reading.after]
  exact plain_of_read (.inr rfl) hread rfl

/-! ## Rows -/

/-- A field is written so that it can be read, or as it is. -/
def Fits (enc v : List Char) : Prop := Encodes enc v ∨ enc = v

def rowChars (encs : Fields) : List Char := [','].intercalate encs ++ ['\n']

theorem readAll_cons (hcs : cs ≠ []) : readAll cs = (read .field cs).map (·.all) :=
  if_neg (by simpa using hcs)

theorem read_part_iff {vs : Fields} {rows : List Fields} :
    read .plain (',' :: cs) = some ⟨[], v :: vs, rows⟩ ↔ read .field cs = some ⟨v, vs, rows⟩ := by
  rw [read_part, Option.map_eq_some_iff]
  constructor
  · rintro ⟨⟨field, fields, rows'⟩, hr, heq⟩
    cases heq
    exact hr
  · exact fun hr => ⟨_, hr, rfl⟩

/-- A field that fits is read if it is encoded, and nothing else is read in its place. -/
theorem read_field_iff {enc : List Char} {fields : Fields} {rows : List Fields} (h : Fits enc v)
    (hsep : EndsField sep) : read .field (enc ++ sep :: t) = some ⟨v, fields, rows⟩ ↔
      Encodes enc v ∧ read .plain (sep :: t) = some ⟨[], fields, rows⟩ := by
  have hrun (henc : Encodes enc v) : read .field (enc ++ sep :: t) = some ⟨v, fields, rows⟩ ↔
      read .plain (sep :: t) = some ⟨[], fields, rows⟩ := by
    have hafter : some ⟨v, fields, rows⟩ = (some ⟨[], fields, rows⟩).map (Reading.after v) := by
      simp [Reading.after]
    rw [henc sep t hsep, hafter, (Option.map_injective (after_injective v)).eq_iff]
  constructor
  · intro hread
    have henc : Encodes enc v := by
      obtain henc | rfl := h
      · exact henc
      · exact encodes_plain (plain_of_read hsep hread rfl)
    exact ⟨henc, (hrun henc).1 hread⟩
  · exact fun ⟨henc, hrest⟩ => (hrun henc).2 hrest

theorem read_row_iff {enc : List Char} {encs vs : Fields} {rows : List Fields}
    (h : Fits enc v) (hs : List.Forall₂ Fits encs vs) :
    read .field (rowChars (enc :: encs) ++ t) = some ⟨v, vs, rows⟩ ↔
      (Encodes enc v ∧ List.Forall₂ Encodes encs vs) ∧ readAll t = some rows := by
  induction hs generalizing enc v with
  | nil =>
    have hrow : rowChars [enc] ++ t = enc ++ '\n' :: t := by simp [rowChars]
    rw [hrow, read_field_iff h (.inr rfl), read_turn, and_assoc]
    simp
  | @cons enc' v' encs vs h' hs ih =>
    have hrow : rowChars (enc :: enc' :: encs) ++ t =
        enc ++ ',' :: (rowChars (enc' :: encs) ++ t) := by
      simp [rowChars, List.append_assoc]
    rw [hrow, read_field_iff h (.inl rfl), read_part_iff, ih h', List.forall₂_cons]
    simp only [and_assoc]

/-- A row that fits is read if all of its fields are encoded, and nothing else is read in its
place. -/
theorem readAll_row_iff {encs vs : Fields} {rows : List Fields} (hne : encs ≠ [])
    (h : List.Forall₂ Fits encs vs) :
    readAll (rowChars encs ++ t) = some (vs :: rows) ↔
      List.Forall₂ Encodes encs vs ∧ readAll t = some rows := by
  cases h with
  | nil => exact absurd rfl hne
  | @cons enc v encs vs h hs =>
    have hcs : rowChars (enc :: encs) ++ t ≠ [] := by simp [rowChars]
    rw [readAll_cons hcs, List.forall₂_cons, ← read_row_iff h hs]
    exact (Option.map_injective all_injective).eq_iff (b := some ⟨v, vs, rows⟩)

/-- Rows that fit are all read if all of their fields are encoded. -/
theorem readAll_rows_iff {rows : List (Fields × Fields)}
    (h : ∀ row ∈ rows, row.1 ≠ [] ∧ List.Forall₂ Fits row.1 row.2) :
    readAll (rows.flatMap fun row => rowChars row.1) = some (rows.map (·.2)) ↔
      ∀ row ∈ rows, List.Forall₂ Encodes row.1 row.2 := by
  induction rows with
  | nil => simp [readAll]
  | cons row rows ih =>
    obtain ⟨⟨hne, hrow⟩, hrows⟩ := List.forall_mem_cons.1 h
    rw [List.flatMap_cons, List.map_cons, readAll_row_iff hne hrow, ih hrows, List.forall_mem_cons]

theorem rowsOfText?_eq_some {text : String} {rows : List (List String)} :
    rowsOfText? text = some rows ↔
      readAll text.toList = some (rows.map fun row => row.map String.toList) := by
  have hback (r : List Fields) :
      (r.map fun row => row.map String.ofList).map (fun row => row.map String.toList) = r := by
    simp [Function.comp_def]
  have hforth (r : List (List String)) :
      (r.map fun row => row.map String.toList).map (fun row => row.map String.ofList) = r := by
    simp [Function.comp_def]
  rw [rowsOfText?, Option.map_eq_some_iff]
  constructor
  · rintro ⟨r, hr, rfl⟩
    rw [hr, hback]
  · exact fun h => ⟨_, h, hforth rows⟩

end Reader
end Decoding
end Export
end SchemaPaths
