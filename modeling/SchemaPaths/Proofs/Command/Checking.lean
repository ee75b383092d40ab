/-
What the check of the files lets through, and how a run ends on a complaint.

A target may be new, and then only its directory has to be there.  One that is there already has to
be writable: otherwise the run says so, ends with 1 and has changed nothing.
-/
import SchemaPaths.Command.Run
import SchemaPaths.Proofs.Ensures

namespace SchemaPaths
namespace Command

variable {d : Disk} {source target : String}

/-- The directory of a target is there. -/
structure Housed (d : Disk) (target : String) : Prop where
  sayable : hasZero (Location.directory target) = false
  there : leadsTo d Disk.Entry.isDirectory
    (Location.ofSteps (d.resolve (Location.directory target))) = .ok true

/-- A target that an export can write: nothing is there yet, or what is there may be written. -/
structure Usable (d : Disk) (target : String) : Prop extends Housed d target where
  writable : leadsTo d (fun _ => true) target = .ok false ∨
    leadsTo d (fun _ => true) target = .ok true ∧ d.mayWrite (Location.plain target) = true

/-! ## The target -/

theorem Housed.checkTarget (h : Housed d target) : checkTarget d target =
    (leadsTo d (fun _ => true) target >>= fun there =>
      if there && !d.mayWrite (Location.plain target) then
        pure (some (.readOnly (Location.lastStep target)))
      else pure none) := by
  unfold Command.checkTarget
  simp only [h.sayable, h.there, Bool.false_eq_true, if_false]
  rfl

theorem housed_of_checkTarget (h : checkTarget d target = .ok none) : Housed d target := by
  unfold Command.checkTarget at h
  dsimp only at h
  split at h
  · cases h
  rename_i hsayable
  obtain ⟨there, hthere, h⟩ := exists_of_bind h
  cases there with
  | false => cases h
  | true => exact ⟨Bool.not_eq_true _ ▸ hsayable, hthere⟩

theorem checkTarget_passes_iff : checkTarget d target = .ok none ↔ Usable d target := by
  constructor
  · intro h
    have hhoused := housed_of_checkTarget h
    rw [hhoused.checkTarget] at h
    obtain ⟨there, hthere, h⟩ := exists_of_bind h
    refine ⟨hhoused, ?_⟩
    cases there with
    | false => exact .inl hthere
    | true =>
      cases hwritable : d.mayWrite (Location.plain target) with
      | false =>
        rw [hwritable] at h
        cases h
      | true => exact .inr ⟨hthere, rfl⟩
  · intro h
    rw [h.toHoused.checkTarget]
    rcases h.writable with hnew | ⟨hthere, hwritable⟩
    · rw [hnew]
      rfl
    · rw [hthere, hwritable]
      rfl

/-- What is there and must not be written is complained about by its name. -/
theorem Housed.readOnly (h : Housed d target)
    (hthere : leadsTo d (fun _ => true) target = .ok true)
    (hlocked : d.mayWrite (Location.plain target) = false) :
    Command.checkTarget d target = .ok (some (.readOnly (Location.lastStep target))) := by
  rw [h.checkTarget, hthere, hlocked]
  rfl

/-! ## Both files -/

theorem checkFiles_passes_iff : checkFiles d source (some target) = .ok none ↔
    leadsTo d Disk.Entry.isFile source = .ok true ∧ Usable d target := by
  rw [← checkTarget_passes_iff]
  unfold checkFiles
  rcases leadsTo d Disk.Entry.isFile source with f | _ | _
  · exact ⟨nofun, nofun⟩
  · exact ⟨nofun, nofun⟩
  · exact ⟨fun h => ⟨rfl, h⟩, fun h => h.2⟩

theorem checkFiles_readOnly (hsource : leadsTo d Disk.Entry.isFile source = .ok true)
    (h : Housed d target) (hthere : leadsTo d (fun _ => true) target = .ok true)
    (hlocked : d.mayWrite (Location.plain target) = false) :
    checkFiles d source (some target) = .ok (some (.readOnly (Location.lastStep target))) := by
  rw [checkFiles, hsource]
  exact h.readOnly hthere hlocked

example : checkFiles
    { here := ["w"], files := [(["w", "a"], []), (["w", "o"], [])], directories := []
      readOnly := [["w", "o"]] } "a" (some "./o") = .ok (some (.readOnly "o")) := by
  decide +kernel

/-! ## Runs -/

section Runs

variable {a : Arguments} {c : Complaint}

/-- The work of an export ends with the complaint about its files. -/
theorem ensures_check_refused (hexport : a.listRoots = false) (hsource : a.source = .text source)
    (htarget : a.target = some target) (hgiven : target ≠ "")
    (hc : checkFiles d source (some target) = .ok (some c)) :
    Ensures (check a) { disk := d } (fun _ _ => False) fun e w =>
      e = .exit 1 ∧ w = { lines := [.notice (.argumentRefused c.message)], disk := d } := by
  unfold check
  simp only [hexport, hsource, htarget, Arguments.sourceText, Option.getD_some, beq_iff_eq, hgiven,
    Bool.not_false, Bool.true_and, reduceCtorEq, Bool.false_eq_true, if_false]
  refine ensures_bind.2 (ensures_get.2 ?_)
  simp only [Given.text?, Option.getD_some, hc]
  exact ensures_bind.2 (ensures_modify.2 (ensures_throw.2 ⟨rfl, rfl⟩))

/-- An export with a complaint about its files comes to nothing else: the complaint is what it says,
as far as the level lets it, it ends with 1, and the disk is as it was. -/
theorem run_refused {env : Environment} {line : List String} {least : Nat}
    (hline : Arguments.ofLine line = .ok a) (hexport : a.listRoots = false)
    (hsource : a.source = .text source) (htarget : a.target = some target) (hgiven : target ≠ "")
    (hlevel : Threshold.ofName? (levelOf a (Settings.ofEnvironment env)) = some least)
    (hc : checkFiles d source (some target) = .ok (some c)) :
    run env d line = {
      exit := .ok 1
      output := [Line.notice (.argumentRefused c.message)].filter (Line.shownAt least)
      errors := (Settings.remarks env).map (·.text)
      disk := d } := by
  have hwork : Ensures (work a (Settings.ofEnvironment env)) { disk := d } (fun _ _ => False)
      fun e w => e = .exit 1 ∧ w = { lines := [.notice (.argumentRefused c.message)], disk := d } :=
    (ensures_check_refused hexport hsource htarget hgiven hc).bind fun _ _ h => h.elim
  unfold Ensures at hwork
  unfold run
  rw [hline]
  show runWork a _ _ d = _
  unfold runWork
  rw [hlevel]
  dsimp only
  split at hwork
  · exact hwork.elim
  · rename_i e w heq
    obtain ⟨rfl, rfl⟩ := hwork
    rw [heq]

/-- So an export ends onto what is there already and must not be written. -/
theorem run_readOnly {env : Environment} {line : List String} {least : Nat}
    (hline : Arguments.ofLine line = .ok a) (hexport : a.listRoots = false)
    (hsource : a.source = .text source) (htarget : a.target = some target) (hgiven : target ≠ "")
    (hlevel : Threshold.ofName? (levelOf a (Settings.ofEnvironment env)) = some least)
    (hfile : leadsTo d Disk.Entry.isFile source = .ok true) (hhoused : Housed d target)
    (hthere : leadsTo d (fun _ => true) target = .ok true)
    (hlocked : d.mayWrite (Location.plain target) = false) :
    (run env d line).exit = .ok 1 ∧ (run env d line).disk = d := by
  have hc := checkFiles_readOnly hfile hhoused hthere hlocked
  rw [run_refused hline hexport hsource htarget hgiven hlevel hc]
  exact ⟨rfl, rfl⟩

end Runs

end Command
end SchemaPaths
