/-
What a run of the command leaves behind.

All the work before the export keeps the disk as it is, and so does the export until its text is
complete.  Writing that text to the target is the last thing that can fail, and where it fails
nothing was written.  So a run changes at most its target, and that only if it ends well.
-/
import SchemaPaths.Command.Run
import SchemaPaths.Proofs.Command.Checking
import SchemaPaths.Proofs.Command.Files

namespace SchemaPaths
namespace Command

open Schema

/-! ## Work that keeps the disk -/

/-- Work that leaves the disk `d` as it is, whether it succeeds, with a good result, or fails; it
does not break off as if all were well. -/
def Keeps {α : Type} (d : Disk) (m : Working α) (good : α → Prop) : Prop :=
  ∀ w : Work, w.disk = d → Ensures m w (fun a w' => w'.disk = d ∧ good a)
    fun e w' => e ≠ .exit 0 ∧ w'.disk = d

namespace Keeps

variable {α β : Type} {d : Disk} {m : Working α} {f : α → Working β} {good : α → Prop}
  {ok : β → Prop}

theorem pure {a : α} (h : good a) : Keeps d (Pure.pure a) good :=
  fun _ hw => ensures_pure.2 ⟨hw, h⟩

theorem fault {f : Fault} : Keeps d (throw (.fault f) : Working α) good :=
  fun _ hw => ensures_throw.2 ⟨nofun, hw⟩

theorem bind (h : Keeps d m good) (hf : ∀ a, good a → Keeps d (f a) ok) : Keeps d (m >>= f) ok :=
  fun w hw => (h w hw).bind fun a w' ha => hf a ha.2 w' ha.1

/-- Work that keeps the disk, and then work that need not. -/
theorem followedBy {ok : β → Work → Prop} {w : Work} (h : Keeps d m good) (hw : w.disk = d)
    (hf : ∀ a, good a → ∀ w' : Work, w'.disk = d →
      Ensures (f a) w' ok fun e w'' => e ≠ .exit 0 ∧ w''.disk = d) :
    Ensures (m >>= f) w ok fun e w' => e ≠ .exit 0 ∧ w'.disk = d :=
  (h w hw).bind fun a w' ha => hf a ha.2 w' ha.1

theorem get {f : Work → Working β} (h : ∀ w, w.disk = d → Keeps d (f w) ok) :
    Keeps d (MonadState.get >>= f) ok :=
  fun w hw => ensures_bind.2 (ensures_get.2 (h w hw w hw))

theorem say (ns : List Notice) : Keeps d (Command.say ns) fun _ => True :=
  fun _ hw => ensures_modify.2 ⟨hw, trivial⟩

theorem print (s : String) : Keeps d (Command.print s) fun _ => True :=
  fun _ hw => ensures_modify.2 ⟨hw, trivial⟩

theorem exitOne : Keeps d (throw (.exit 1) : Working α) good :=
  fun _ hw => ensures_throw.2 ⟨by simp, hw⟩

theorem giveUp {good : Unit → Prop} (n : Notice) : Keeps d (Command.giveUp n) good :=
  (say [n]).bind fun _ _ => exitOne

/-- Where work breaks off on a condition, what follows may rely on the contrary. -/
theorem breakOff {c : Prop} [Decidable c] {f : Unit → Working β} {m : Working Unit}
    (hm : Keeps d m fun _ => False) (hf : ¬ c → Keeps d (f ()) ok) :
    Keeps d (if c then m >>= f else f ()) ok := by
  split
  · exact hm.bind fun _ h => h.elim
  · rename_i hc
    exact hf hc

/-- A result is good if there is one. -/
theorem orReport (a : Arguments) {r : Except Failure α} (h : ∀ x, r = .ok x → good x) :
    Keeps d (Command.orReport a r) good := by
  unfold Command.orReport
  split
  · exact pure (h _ rfl)
  · exact (say _).bind fun _ _ => exitOne
  · exact fault

end Keeps

/-! ## The parts of the work -/

section Parts

variable {a : Arguments} {d : Disk}

/-- What the check finds out before the work goes on. -/
structure Checked (a : Arguments) (d : Disk) : Prop where
  source : a.source = .text a.sourceText
  target : a.listRoots = false → ∃ target, a.target = some target
  files : checkFiles d a.sourceText (if a.listRoots then none else a.target) = .ok none

theorem keeps_check : Keeps d (check a) fun _ => Checked a d := by
  unfold check
  refine Keeps.breakOff (.giveUp _) fun htarget => Keeps.breakOff .fault fun hsource => ?_
  have hgiven : a.source = .text a.sourceText := by
    rw [Arguments.sourceText]
    cases hgiven : a.source with
    | text source => rfl
    | nothing => exact absurd (beq_iff_eq.2 hgiven) hsource
  have hnamed (hexport : a.listRoots = false) : ∃ target, a.target = some target := by
    cases hgiven : a.target with
    | some target => exact ⟨target, rfl⟩
    | none => simp [hexport, hgiven] at htarget
  refine .get fun w hw => ?_
  rw [hw]
  rcases hfiles : checkFiles d a.sourceText (if a.listRoots then none else a.target) with
    f | _ | complaint
  · exact .fault
  · exact .pure ⟨hgiven, hnamed, hfiles⟩
  · exact .giveUp _

theorem keeps_loadSource : Keeps d (loadSource a) fun s =>
    ∃ loader, Loader.load { source := .disk d } a.sourceText = (loader, .ok ()) ∧
      s = loader.set := by
  unfold loadSource
  refine (Keeps.say _).bind fun _ _ => .get fun w hw => ?_
  rw [hw]
  rcases hload : Loader.load { source := .disk d } a.sourceText with ⟨loader, outcome⟩
  have hreport : Keeps d (orReport a outcome) fun _ => outcome = .ok () := .orReport a fun _ h => h
  refine (Keeps.say _).bind fun _ _ => hreport.bind fun _ hok => (Keeps.say _).bind fun _ _ => .pure ?_
  exact ⟨loader, by rw [hok], rfl⟩

theorem keeps_listRoots (s : SchemaSet) (groups strict : Bool) :
    Keeps d (listRoots a s groups strict) fun _ => True := by
  unfold listRoots
  refine (Keeps.say _).bind fun _ _ => (Keeps.orReport a fun _ _ => trivial).bind fun _ _ => ?_
  refine (Keeps.orReport a fun _ _ => trivial).bind fun _ _ => (Keeps.print _).bind fun _ _ => ?_
  refine (Keeps.orReport a fun _ _ => trivial).bind fun _ _ => (Keeps.say _).bind fun _ _ => ?_
  exact (Keeps.orReport a fun _ _ => trivial).bind fun _ _ => Keeps.print _

end Parts

/-! ## The export -/

/-- What was given, or else what is to be taken otherwise. -/
def Taken (given : Option (List Given)) (otherwise taken : List String) : Prop :=
  match given with
  | some gs => gs = taken.map Given.text
  | none => taken = otherwise

/-- What an export goes by: what the arguments give, or else what the environment says. -/
structure EffectiveOrder (env : Environment) (a : Arguments) (order : Export.Order) : Prop where
  root : order.root = a.root.bind Given.text?
  skip : Taken a.ignore (Settings.listed env Settings.skipKey) order.skip
  columns : Taken a.add (Settings.listed env Settings.columnsKey) order.columns
  groups : order.groups = (a.expandGroups || (env.flag? Settings.groupsKey).getD false)

/-- The disk has become `after` by an export: the source, a file, was loaded and exported with the
effective settings, the target, which might be written, holds exactly the text of that, and nothing
else has changed. -/
structure Exported (env : Environment) (a : Arguments) (before after : Disk) (source target : String)
    (loader : Loader) (order : Export.Order) (result : Export.Result) (place : List String) :
    Prop where
  isSource : a.source = .text source
  isTarget : a.target = some target
  isFile : leadsTo before Disk.Entry.isFile source = .ok true
  usable : Usable before target
  loaded : Loader.load { source := .disk before } source = (loader, .ok ())
  effective : EffectiveOrder env a order
  written : (Export.write loader.set order).outcome = .ok result
  placed : before.placeFor target = .ok place
  allowed : before.mayPut place = true
  read : after.read target = .ok (Export.write loader.set order).text.toUTF8.toList
  there : after.file? place = some (Export.write loader.set order).text.toUTF8.toList
  elsewhere : ∀ other, other ≠ place → after.file? other = before.file? other
  directories : after.directories = before.directories
  readOnly : after.readOnly = before.readOnly
  here : after.here = before.here

theorem taken_texts {given : Option (List Given)} (h : given.any Given.lacksText = false)
    (otherwise : List String) : Taken given otherwise ((given.map Given.texts).getD otherwise) := by
  cases given with
  | none => rfl
  | some gs =>
    show gs = (Given.texts gs).map Given.text
    induction gs with
    | nil => rfl
    | cons g gs ih =>
      cases g with
      | nothing => cases h
      | text s => exact congrArg (Given.text s :: ·) (ih h)

theorem effectiveOrder (env : Environment) {a : Arguments}
    (hadd : a.add.any Given.lacksText = false) (hignore : a.ignore.any Given.lacksText = false) :
    EffectiveOrder env a (orderOf a (Settings.ofEnvironment env)) where
  root := rfl
  skip := taken_texts hignore _
  columns := taken_texts hadd _
  groups := rfl

section Export

variable {a : Arguments} {d : Disk} {w : Work}

theorem ensures_writeTarget (target text : String) (hw : w.disk = d) :
    Ensures (writeTarget target text) w
      (fun _ w' => ∃ place, d.placeFor target = .ok place ∧
        w'.disk = d.learn place (.file text.toUTF8.toList))
      fun e w' => e ≠ .exit 0 ∧ w'.disk = d := by
  unfold writeTarget
  dsimp only
  split
  · exact ensures_bind.2 (ensures_throw.2 ⟨nofun, hw⟩)
  refine ensures_bind.2 (ensures_get.2 ?_)
  rw [hw, Disk.write]
  cases hplace : d.placeFor target with
  | error o => exact ensures_throw.2 ⟨nofun, hw⟩
  | ok place => exact ensures_modify.2 ⟨place, rfl, rfl⟩

/-- The disk is changed last, when nothing can fail any more. -/
theorem ensures_exportTo (s : SchemaSet) (order : Export.Order) (hw : w.disk = d) :
    Ensures (exportTo a s order) w
      (fun _ w' => a.add.any Given.lacksText = false ∧ a.ignore.any Given.lacksText = false ∧
        ∃ result place, (Export.write s order).outcome = .ok result ∧
          d.placeFor (a.target.getD "") = .ok place ∧
          w'.disk = d.learn place (.file (Export.write s order).text.toUTF8.toList))
      fun e w' => e ≠ .exit 0 ∧ w'.disk = d := by
  unfold exportTo
  dsimp only
  split
  · exact ensures_bind.2 (ensures_throw.2 ⟨nofun, hw⟩)
  rename_i hadd
  split
  · refine (Keeps.say _).followedBy hw fun _ _ w₁ hw₁ => ?_
    refine (Keeps.orReport a fun _ _ => trivial).followedBy hw₁ fun _ _ w₂ hw₂ => ?_
    exact ensures_bind.2 (ensures_throw.2 ⟨nofun, hw₂⟩)
  rename_i hignore
  refine (Keeps.say _).followedBy hw fun _ _ w₁ hw₁ => ?_
  refine (Keeps.orReport a fun _ h => h).followedBy hw₁ fun result hresult w₂ hw₂ => ?_
  refine (ensures_writeTarget _ _ hw₂).bind fun _ w₃ hw₃ => ?_
  obtain ⟨place, hplace, hdisk⟩ := hw₃
  refine ensures_modify.2 ⟨?_, ?_, result, place, hresult, hplace, hdisk⟩
  · exact Bool.not_eq_true _ ▸ hadd
  · exact Bool.not_eq_true _ ▸ hignore

end Export

/-! ## Whole runs -/

section Runs

variable (env : Environment) (a : Arguments) (d : Disk)

theorem ensures_work : Ensures (work a (Settings.ofEnvironment env)) { disk := d }
    (fun _ w => (a.listRoots = true → w.disk = d) ∧
      (a.listRoots = false → ∃ source target loader order result place,
        Exported env a d w.disk source target loader order result place))
    fun e w => e ≠ .exit 0 ∧ w.disk = d := by
  unfold work
  refine keeps_check.followedBy rfl fun _ hcheck w₁ hw₁ => ?_
  refine keeps_loadSource.followedBy hw₁ fun s hs w₂ hw₂ => ?_
  obtain ⟨loader, hload, rfl⟩ := hs
  dsimp only
  split
  · rename_i hlist
    refine (keeps_listRoots _ _ _ w₂ hw₂).mono (fun _ w hw => ?_) fun _ _ he => he
    exact ⟨fun _ => hw.1, fun hexport => by rw [hlist] at hexport; cases hexport⟩
  · rename_i hlist
    refine (ensures_exportTo _ _ hw₂).mono (fun _ w hw => ⟨fun h => absurd h hlist, fun hexport => ?_⟩)
      fun _ _ he => he
    obtain ⟨hadd, hignore, result, place, hresult, hplace, hdisk⟩ := hw
    obtain ⟨target, htarget⟩ := hcheck.target hexport
    rw [htarget] at hplace
    have hfiles : checkFiles d a.sourceText (some target) = .ok none := by
      simpa [hexport, htarget] using hcheck.files
    obtain ⟨hfile, husable⟩ := checkFiles_passes_iff.1 hfiles
    refine ⟨a.sourceText, target, loader, _, result, place, hcheck.source, htarget, hfile, husable,
      hload, effectiveOrder env hadd hignore, hresult, hplace, Disk.mayPut_of_placeFor hplace, ?_,
      ?_, fun other hother => ?_, ?_, ?_, ?_⟩
    · rw [hdisk]
      exact Disk.read_learn hplace
    · rw [hdisk, Disk.file?_learn, if_pos rfl]
    · rw [hdisk, Disk.file?_learn, if_neg hother]
    all_goals
      rw [hdisk]
      rfl

theorem runWork_cases (errors : List String) :
    let ran := runWork a (Settings.ofEnvironment env) errors d
    (ran.exit ≠ .ok 0 → ran.disk = d) ∧ (a.listRoots = true → ran.disk = d) ∧
      (a.listRoots = false → ran.exit = .ok 0 → ∃ source target loader order result place,
        Exported env a d ran.disk source target loader order result place) := by
  intro ran
  have hwork := ensures_work env a d
  unfold Ensures at hwork
  unfold ran runWork
  split
  · exact ⟨fun _ => rfl, fun _ => rfl, fun _ => nofun⟩
  split at hwork
  · rename_i heq
    rw [heq]
    exact ⟨fun h => absurd rfl h, hwork.1, fun h _ => hwork.2 h⟩
  · rename_i e w heq
    rw [heq]
    refine ⟨fun _ => hwork.2, fun _ => hwork.2, fun _ hexit => ?_⟩
    cases e with
    | fault f => cases hexit
    | exit code =>
      cases hexit
      exact absurd rfl hwork.1

end Runs

/-- A run that does not end well leaves the disk as it was, and so does one that only lists the
roots or comes to no work.  An export that ends well changes its target and nothing else. -/
theorem run_changes_target_only (env : Environment) (disk : Disk) (line : List String) :
    let ran := run env disk line
    (ran.exit ≠ .ok 0 → ran.disk = disk) ∧
      ((∀ a, Arguments.ofLine line = .ok a → a.listRoots = true) → ran.disk = disk) ∧
      ∀ a, Arguments.ofLine line = .ok a → a.listRoots = false → ran.exit = .ok 0 →
        ∃ source target loader order result place,
          Exported env a disk ran.disk source target loader order result place := by
  intro ran
  unfold ran run
  cases hline : Arguments.ofLine line with
  | error stop =>
    cases stop with
    | help => exact ⟨fun _ => rfl, fun _ => rfl, fun _ h => by cases h⟩
    | refused r => exact ⟨fun _ => rfl, fun _ => rfl, fun _ h => by cases h⟩
  | ok a =>
    obtain ⟨hfailed, hlist, hexport⟩ := runWork_cases env a disk
      ((Settings.remarks env).map (·.text))
    refine ⟨hfailed, fun h => hlist (h a rfl), fun a' ha' hno hexit => ?_⟩
    cases ha'
    exact hexport hno hexit

/-! ## One export -/

/-- A directory with one document, and a line that exports it. -/
def documentDisk : Disk where
  here := ["w"]
  files := [(["w", "a"], ("<schema xmlns=\"" ++ xsSpace ++
    "\"><element name=\"e\"/></schema>").toUTF8.toList)]
  directories := []

def exportLine : List String := ["-s", "a", "-t", "o", "-r", "e"]

/-- The same directory with a target in it that must not be written. -/
def lockedDisk : Disk :=
  { (documentDisk.learn ["w", "o"] (.file [])) with readOnly := [["w", "o"]] }

/-- The export changes its target where that is new, and nothing where it must not be written. -/
theorem export_changes_target_only : (run [] documentDisk exportLine).exit = .ok 0 ∧
    (∃ a, Arguments.ofLine exportLine = .ok a ∧ a.listRoots = false ∧
      ∃ source target loader order result place, Exported [] a documentDisk
        (run [] documentDisk exportLine).disk source target loader order result place) ∧
    (run [] lockedDisk exportLine).exit = .ok 1 ∧
      (run [] lockedDisk exportLine).disk = lockedDisk := by
  have hexit : (run [] documentDisk exportLine).exit = .ok 0 := by decide +kernel
  have hline : Arguments.ofLine exportLine =
      .ok { source := .text "a", target := some "o", root := some (.text "e") } := by
    decide +kernel
  have hrefused : (run [] lockedDisk exportLine).exit = .ok 1 := by decide +kernel
  have hrun := run_changes_target_only [] documentDisk exportLine
  have hkept := (run_changes_target_only [] lockedDisk exportLine).1 (by rw [hrefused]; decide)
  exact ⟨hexit, ⟨_, hline, rfl, hrun.2.2 _ hline rfl hexit⟩, hrefused, hkept⟩

end Command
end SchemaPaths
