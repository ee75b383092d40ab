/-
What writing a file does to a disk.

A path to write through leads to a directory and names a place in it that is no directory itself.
Once the file is there the same path leads to it, since no way through the directories passes the
new file, and everything else is where it was.
-/
import Mathlib.Data.List.Basic
import SchemaPaths.Disk
import SchemaPaths.Proofs.Ensures

namespace SchemaPaths
namespace Disk

variable {d d' : Disk} {path : String} {place p q : List String} {bytes : List UInt8}

/-! ## One place among the files -/

theorem lookup_put (fs : List (List String × List UInt8)) :
    (put place bytes fs).lookup p = if p = place then some bytes else fs.lookup p := by
  have hcons (k : List String) (b : List UInt8) (fs : List (List String × List UInt8)) :
      ((k, b) :: fs).lookup p = if p = k then some b else fs.lookup p := by
    rw [List.lookup_cons]
    by_cases hp : p = k
    · rw [if_pos hp, beq_iff_eq.2 hp]
    · rw [if_neg hp, beq_eq_false_iff_ne.2 hp]
  induction fs with
  | nil => exact hcons place bytes []
  | cons f fs ih =>
    obtain ⟨k, b⟩ := f
    rw [put]
    by_cases hk : k = place
    · subst hk
      rw [if_pos rfl, hcons, hcons]
      split <;> rfl
    · rw [if_neg hk, hcons, hcons, ih]
      by_cases hp : p = k
      · rw [if_pos hp, if_pos hp, if_neg (hp ▸ hk)]
      · rw [if_neg hp, if_neg hp]

theorem mem_keys_put (place : List String) (bytes : List UInt8)
    {fs : List (List String × List UInt8)} (h : p ∈ fs.map (·.1)) :
    p ∈ (put place bytes fs).map (·.1) := by
  induction fs with
  | nil => cases h
  | cons f fs ih =>
    rw [put]
    split
    · rename_i hf
      rwa [List.map_cons, hf] at h
    · rw [List.map_cons, List.mem_cons] at h ⊢
      exact h.imp_right ih

theorem file?_learn : (d.learn place (.file bytes)).file? p =
    if p = place then some bytes else d.file? p := lookup_put d.files

/-! ## Where a path writes to -/

/-- How a path leads to a place to write to: through a directory, by a name in it. -/
structure LeadsInto (d : Disk) (path : String) (directory : List String) (name : String) : Prop where
  short : path.utf8ByteSize ≤ pathLimit
  way : ∃ before, Location.steps path = before ++ [name] ∧
    follow d (d.start path) before = .ok directory
  holder : d.entryAt directory = .ok .directory
  given : path ≠ ""
  named : name ≠ "" ∧ name ≠ "." ∧ name ≠ ".."
  nameShort : name.utf8ByteSize ≤ nameLimit
  free : d.isDirectory (directory ++ [name]) = false
  allowed : d.mayPut (directory ++ [name]) = true

theorem steps_of_fileStep? {before : List String} {name : String}
    (h : fileStep? path = .ok (before, name)) (hname : name ≠ "") :
    path ≠ "" ∧ Location.steps path = before ++ [name] := by
  unfold fileStep? at h
  split at h
  · cases h
  rename_i hpath
  refine ⟨fun heq => hpath (beq_iff_eq.2 heq), ?_⟩
  dsimp only at h
  split at h
  · cases h
  rename_i last rest hsteps
  cases h
  split at hname
  · exact absurd rfl hname
  rename_i hlast
  rw [if_neg hlast]
  -- no empty step stands at the end, so none was dropped there
  rcases List.eq_nil_or_concat (Location.steps path) with hnil | ⟨front, step, hconcat⟩
  · rw [hnil] at hsteps
    cases hsteps
  rw [List.concat_eq_append] at hconcat
  rw [hconcat, List.getLast?_concat, beq_iff_eq, Option.some_inj] at hlast
  rw [hconcat, List.reverse_append, List.reverse_singleton, List.singleton_append,
    List.dropWhile_cons_of_neg (by simpa using hlast)] at hsteps
  obtain ⟨rfl, rfl⟩ := List.cons.inj hsteps
  rw [hconcat, List.reverse_reverse]

theorem leadsInto_of_placeFor (h : d.placeFor path = .ok place) :
    ∃ directory name, place = directory ++ [name] ∧ d.LeadsInto path directory name := by
  unfold placeFor at h
  split at h
  · cases h
  rename_i hshort
  obtain ⟨⟨before, name⟩, hstep, h⟩ := exists_of_bind h
  obtain ⟨directory, hway, h⟩ := exists_of_bind h
  obtain ⟨entry, hentry, h⟩ := exists_of_bind h
  cases entry with
  | file _ => cases h
  | directory =>
    dsimp only at h
    split at h
    · cases h
    rename_i hnamed
    split at h
    · cases h
    rename_i hnameShort
    split at h
    · cases h
    rename_i hfree
    split at h
    · cases h
    rename_i hallowed
    cases h
    rw [Bool.or_eq_true, Bool.or_eq_true, not_or, not_or, beq_iff_eq, beq_iff_eq, beq_iff_eq,
      and_assoc] at hnamed
    obtain ⟨hgiven, hsteps⟩ := steps_of_fileStep? hstep hnamed.1
    exact ⟨directory, name, rfl, Nat.not_lt.1 hshort, ⟨before, hsteps, hway⟩, hentry, hgiven, hnamed,
      Nat.not_lt.1 hnameShort, Bool.not_eq_true _ ▸ hfree, by simpa using hallowed⟩

theorem mayPut_of_placeFor (h : d.placeFor path = .ok place) : d.mayPut place = true := by
  obtain ⟨_, _, rfl, hinto⟩ := leadsInto_of_placeFor h
  exact hinto.allowed

/-! ## Ways -/

/-- Where a step leads from a directory, unless it is too long to be taken. -/
def stepTo? (place : List String) (s : String) : Option (List String) :=
  if s == "" || s == "." then some place
  else if s == ".." then some place.dropLast
  else if s.utf8ByteSize > nameLimit then none
  else some (place ++ [s])

theorem follow_cons_iff {s : String} {ss : List String} : follow d p (s :: ss) = .ok q ↔
    d.entryAt p = .ok .directory ∧ ∃ next, stepTo? p s = some next ∧ follow d next ss = .ok q := by
  rw [follow]
  rcases d.entryAt p with o | _ | _
  · exact ⟨nofun, nofun⟩
  · exact ⟨nofun, nofun⟩
  · unfold stepTo?
    dsimp only
    split
    · simp
    split
    · simp
    split
    · simp [throw, throwThe, MonadExceptOf.throw]
    · simp

theorem follow_append {before after : List String} {r : List String}
    (h : follow d p before = .ok q) (h' : follow d q after = .ok r) :
    follow d p (before ++ after) = .ok r := by
  induction before generalizing p with
  | nil =>
    cases h
    exact h'
  | cons s ss ih =>
    obtain ⟨hentry, next, hnext, hrest⟩ := follow_cons_iff.1 h
    exact follow_cons_iff.2 ⟨hentry, next, hnext, ih hrest⟩

/-! ## The disk with the new file -/

section Written

variable (hfree : d.isDirectory place = false)
include hfree

/-- A directory is still one, and no file has taken its place. -/
theorem entryAt_learn_directory (h : d.entryAt p = .ok .directory) :
    (d.learn place (.file bytes)).entryAt p = .ok .directory := by
  unfold entryAt at h ⊢
  split at h
  · cases h
  rename_i hfile
  split at h
  · rename_i hdirectory
    have hne : p ≠ place := by
      rintro rfl
      rw [hfree] at hdirectory
      cases hdirectory
    have hstill : (d.learn place (.file bytes)).isDirectory p = true := by
      simp only [isDirectory, Bool.or_eq_true, List.any_eq_true] at hdirectory ⊢
      refine hdirectory.imp_right fun ⟨f, hf, hunder⟩ => ?_
      obtain ⟨f', hf', hsame⟩ := List.mem_map.1
        (mem_keys_put place bytes (List.mem_map.2 ⟨f, hf, rfl⟩))
      exact ⟨f', hf', hsame ▸ hunder⟩
    rw [file?_learn, if_neg hne, hfile]
    exact if_pos hstill
  · cases h

/-- Each way through the directories leads where it did. -/
theorem follow_learn {steps : List String} (h : follow d p steps = .ok q) :
    follow (d.learn place (.file bytes)) p steps = .ok q := by
  induction steps generalizing p with
  | nil => exact h
  | cons s ss ih =>
    obtain ⟨hentry, next, hnext, hrest⟩ := follow_cons_iff.1 h
    exact follow_cons_iff.2 ⟨entryAt_learn_directory hfree hentry, next, hnext, ih hrest⟩

end Written

/-- The path that a file was written through leads to it. -/
theorem read_learn (h : d.placeFor path = .ok place) :
    (d.learn place (.file bytes)).read path = .ok bytes := by
  obtain ⟨directory, name, rfl, hinto⟩ := leadsInto_of_placeFor h
  obtain ⟨before, hsteps, hway⟩ := hinto.way
  have hfile : (d.learn (directory ++ [name]) (.file bytes)).entryAt (directory ++ [name]) =
      .ok (.file bytes) := by
    rw [entryAt, file?_learn, if_pos rfl]
  have hlast : follow (d.learn (directory ++ [name]) (.file bytes)) directory [name] =
      .ok (directory ++ [name]) := by
    obtain ⟨hempty, hdot, hup⟩ := hinto.named
    have hnext : stepTo? directory name = some (directory ++ [name]) := by
      simp [stepTo?, hempty, hdot, hup, Nat.not_lt.2 hinto.nameShort]
    exact follow_cons_iff.2 ⟨entryAt_learn_directory hinto.free hinto.holder, _, hnext, rfl⟩
  have hfind : (d.learn (directory ++ [name]) (.file bytes)).find path = .ok (.file bytes) := by
    have hwhole := follow_append (follow_learn hinto.free hway) hlast
    unfold find locate
    rw [if_neg (by simpa using hinto.given), if_neg (Nat.not_lt.2 hinto.short), hsteps]
    change (follow _ (d.start path) _ >>= _) = _
    rw [hwhole]
    exact hfile
  rw [read, hfind]
  rfl

end Disk
end SchemaPaths
