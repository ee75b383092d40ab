/-
Locations in their plain form.

What a load takes for the location of a document is in plain form: the steps that stay where they
are and those that are undone later are gone.  Finding the plain form once more changes nothing, so
the location of a document, given from outside, means the same document.
-/
import SchemaPaths.Proofs.Loading.Locations
import SchemaPaths.Schema.Loading

namespace SchemaPaths
namespace Location

/-! ## The steps of a walk -/

section Walks

variable {rooted : Bool} {taken : List String}

/-- What holds of the steps taken and of those that lead somewhere holds of all that are left. -/
theorem forall_mem_walk {p : String → Prop} {ss : List String} (htaken : ∀ s ∈ taken, p s)
    (hss : ∀ s ∈ ss, s ≠ "" → p s) : ∀ s ∈ walk rooted taken ss, p s := by
  fun_induction walk rooted taken ss with
  | case1 taken => exact fun s hs => htaken s (List.mem_reverse.1 hs)
  | case2 taken s ss hblank ih => exact ih htaken (List.forall_mem_cons.1 hss).2
  | case3 s ss hblank hup hroot ih => exact ih htaken (List.forall_mem_cons.1 hss).2
  | case4 s ss hblank hup hroot ih =>
    obtain rfl : s = ".." := by simpa using hup
    obtain ⟨hs, hss⟩ := List.forall_mem_cons.1 hss
    exact ih (by simpa using hs) hss
  | case5 s ss hblank hup t ts ht ih =>
    obtain rfl : s = ".." := by simpa using hup
    obtain ⟨hs, hss⟩ := List.forall_mem_cons.1 hss
    exact ih (List.forall_mem_cons.2 ⟨hs (by decide), htaken⟩) hss
  | case6 s ss hblank hup t ts ht ih =>
    exact ih (List.forall_mem_cons.1 htaken).2 (List.forall_mem_cons.1 hss).2
  | case7 taken s ss hblank hup ih =>
    obtain ⟨hs, hss⟩ := List.forall_mem_cons.1 hss
    have hne : s ≠ "" := by
      intro hempty
      simp [hempty] at hblank
    exact ih (List.forall_mem_cons.2 ⟨hs hne, htaken⟩) hss

theorem forall_mem_walk_start {p : String → Prop} {ss : List String}
    (hss : ∀ s ∈ ss, s ≠ "" → p s) : ∀ s ∈ walk rooted [] ss, p s := by
  apply forall_mem_walk _ hss
  intro s hs
  cases hs

/-- Each step was kept when it was taken.  The last step comes first. -/
def Kept (rooted : Bool) : List String → Prop
  | [] => True
  | s :: taken =>
    (∀ ss, walk rooted taken (s :: ss) = walk rooted (s :: taken) ss) ∧ Kept rooted taken

/-- Steps that were kept are kept once more. -/
theorem walk_kept (h : Kept rooted taken) (ss : List String) :
    walk rooted [] (taken.reverse ++ ss) = walk rooted taken ss := by
  induction taken generalizing ss with
  | nil => rfl
  | cons s taken ih =>
    rw [List.reverse_cons, List.append_assoc, List.singleton_append, ih h.2, h.1]

theorem walk_walk_of_kept (h : Kept rooted taken) (ss : List String) :
    walk rooted [] (walk rooted taken ss) = walk rooted taken ss := by
  -- a step that is undone was the last of those kept, so the others are kept without it
  fun_induction walk rooted taken ss with
  | case1 taken =>
    have hkept := walk_kept h []
    rwa [List.append_nil, walk] at hkept
  | case2 taken s ss hblank ih => exact ih h
  | case3 s ss hblank hup hroot ih => exact ih h
  | case4 s ss hblank hup hroot ih =>
    refine ih ⟨fun ss => ?_, h⟩
    rw [walk_cons, if_neg (by decide), if_pos (by decide)]
    exact if_neg hroot
  | case5 s ss hblank hup t ts ht ih =>
    refine ih ⟨fun ss => ?_, h⟩
    rw [walk_cons, if_neg (by decide), if_pos (by decide)]
    exact if_pos ht
  | case6 s ss hblank hup t ts ht ih => exact ih h.2
  | case7 taken s ss hblank hup ih =>
    refine ih ⟨fun ss => ?_, h⟩
    rw [walk_cons, if_neg hblank, if_neg hup]

/-- A walk along the steps that are left of a walk leaves all of them. -/
theorem walk_walk (ss : List String) :
    walk rooted [] (walk rooted [] ss) = walk rooted [] ss := by
  have hnone : Kept rooted [] := trivial
  exact walk_walk_of_kept hnone ss

theorem isStep_walk {ss : List String} (h : ∀ s ∈ ss, '/' ∉ s.toList) :
    ∀ s ∈ walk rooted [] ss, IsStep s :=
  forall_mem_walk_start fun s hs hne => ⟨hne, h s hs⟩

end Walks

/-! ## The plain form -/

/-- Some slashes and then steps with slashes between them. -/
def behind (slashes : Nat) (names : List String) : String :=
  String.ofList (List.replicate slashes '/') ++ under names

theorem toList_behind (slashes : Nat) (names : List String) :
    (behind slashes names).toList = List.replicate slashes '/' ++ (under names).toList := by
  rw [behind, String.toList_append, String.toList_ofList]

theorem behind_succ (slashes : Nat) (names : List String) :
    behind (slashes + 1) names = "/" ++ behind slashes names := by
  apply String.toList_injective
  rw [String.toList_append, toList_behind, toList_behind]
  rfl

theorem rootSlashes_le (cs : List Char) : rootSlashes cs ≤ 2 := by
  unfold rootSlashes
  split <;> omega

theorem rootSlashes_replicate {slashes : Nat} (hle : slashes ≤ 2) {cs : List Char}
    (h : cs.head? ≠ some '/') : rootSlashes (List.replicate slashes '/' ++ cs) = slashes := by
  obtain rfl | rfl | rfl : slashes = 0 ∨ slashes = 1 ∨ slashes = 2 := by omega
  all_goals
    cases cs with
    | nil => rfl
    | cons c cs =>
      have hc : c ≠ '/' := by simpa using h
      simp [rootSlashes, hc]

/-- The steps of a location in plain form, with nothing before the first for each slash. -/
theorem walk_steps_behind {names : List String} (h : ∀ n ∈ names, IsStep n) (rooted : Bool)
    (slashes : Nat) : walk rooted [] (steps (behind slashes names)) = walk rooted [] names := by
  induction slashes with
  | zero =>
    have hunder : behind 0 names = under names := String.empty_append
    rw [hunder]
    by_cases hne : names = []
    · rw [hne]
      rfl
    · rw [steps_under h hne]
  | succ slashes ih => rw [behind_succ, steps_slash_append, walk_cons, if_pos (by rfl), ih]

theorem normalize_def (s : String) : normalize s =
    if behind (rootSlashes s.toList) (walk (rootSlashes s.toList != 0) [] (steps s)) == "" then "."
    else behind (rootSlashes s.toList) (walk (rootSlashes s.toList != 0) [] (steps s)) := rfl

theorem normalize_behind {slashes : Nat} {names : List String} (hle : slashes ≤ 2)
    (hnames : ∀ n ∈ names, IsStep n) (hwalk : walk (slashes != 0) [] names = names)
    (hne : behind slashes names ≠ "") : normalize (behind slashes names) = behind slashes names := by
  have hhead : (under names).toList.head? ≠ some '/' := by
    simpa [isRooted] using isRooted_under hnames
  have hslashes : rootSlashes (behind slashes names).toList = slashes := by
    rw [toList_behind, rootSlashes_replicate hle hhead]
  rw [normalize_def, hslashes, walk_steps_behind hnames, hwalk, if_neg (by simpa using hne)]

/-- The plain form of a location is its own. -/
theorem normalize_normalize (s : String) : normalize (normalize s) = normalize s := by
  have hs := normalize_def s
  split at hs
  · rw [hs]
    rfl
  · rename_i hne
    rw [hs]
    exact normalize_behind (rootSlashes_le _) (isStep_walk fun _ => noSlash_of_mem_steps)
      (walk_walk _) (by simpa using hne)

/-! ## Characters -/

theorem mem_normalize {s : String} {c : Char} (h : c ∈ (normalize s).toList) :
    c = '/' ∨ c = '.' ∨ c ∈ s.toList := by
  have hsteps : ∀ n ∈ walk (rootSlashes s.toList != 0) [] (steps s),
      ∀ c ∈ n.toList, c ∈ s.toList :=
    forall_mem_walk_start fun n hn _ c hc => (mem_of_mem_steps hn hc).1
  rw [normalize_def] at h
  split at h
  · exact .inr (.inl (List.mem_singleton.1 h))
  · rw [toList_behind, List.mem_append] at h
    rcases h with h | h
    · exact .inl (List.eq_of_mem_replicate h)
    · rcases mem_under h with h | ⟨n, hn, h⟩
      · exact .inl h
      · exact .inr (.inr (hsteps n hn c h))

theorem mem_parent {s : String} {c : Char} (h : c ∈ (parent s).toList) : c ∈ s.toList := by
  have hhead : ∀ c ∈ (s.toList.reverse.dropWhile (· != '/')).reverse, c ∈ s.toList := fun c hc =>
    List.mem_reverse.1 ((List.dropWhile_sublist _).mem (List.mem_reverse.1 hc))
  unfold parent at h
  dsimp only at h
  split at h
  · rw [String.toList_ofList] at h
    exact hhead c h
  · rw [String.toList_ofList] at h
    exact hhead c (List.mem_reverse.1 ((List.dropWhile_sublist _).mem (List.mem_reverse.1 h)))

theorem noBackslash_withSlashes (s : String) : '\\' ∉ (withSlashes s).toList := by
  intro h
  rw [withSlashes, String.toList_ofList] at h
  obtain ⟨c, -, hc⟩ := List.mem_map.1 h
  split at hc
  · exact absurd hc (by decide)
  · rename_i hne
    simp [hc] at hne

theorem noBackslash_normalize {s : String} (h : '\\' ∉ s.toList) :
    '\\' ∉ (normalize s).toList := by
  intro hc
  obtain hc | hc | hc := mem_normalize hc
  · exact absurd hc (by decide)
  · exact absurd hc (by decide)
  · exact h hc

/-! ## Absolute places -/

theorem absolute_ofSteps {names : List String} (h : ∀ n ∈ names, IsStep n) (here : List String)
    (hwalk : walk true [] names = names) : absolute here (ofSteps names) = names := by
  rw [absolute, isRooted_ofSteps, if_pos rfl, List.nil_append]
  by_cases hne : names = []
  · rw [hne]
    rfl
  · rw [steps_ofSteps h hne, walk_cons, if_pos (by rfl), hwalk]

end Location

/-! ## Where documents come from -/

namespace Schema
namespace Source

open Location

/-- The work is done in a directory that has a path. -/
def Placed : Source → Prop
  | .upload _ => True
  | .disk d => ∀ n ∈ d.here, '/' ∉ n.toList ∧ '\x00' ∉ n.toList

variable {source : Source} {base path location : String}

theorem place_place {d : Disk} (hhere : ∀ n ∈ d.here, '/' ∉ n.toList ∧ '\x00' ∉ n.toList)
    (h : place path d = .ok location) : place location d = .ok location := by
  unfold place at h
  split at h
  · cases h
  · rename_i hzero
    obtain rfl : ofSteps (d.resolve path) = location := Except.ok.inj h
    have hzero : '\x00' ∉ path.toList := by simpa using hzero
    have hstart : ∀ n ∈ (if isRooted path then [] else d.here) ++ steps path,
        '/' ∉ n.toList ∧ '\x00' ∉ n.toList := by
      intro n hn
      rcases List.mem_append.1 hn with hn | hn
      · by_cases hrooted : isRooted path = true
        · simp [hrooted] at hn
        · rw [if_neg hrooted] at hn
          exact hhere n hn
      · exact ⟨noSlash_of_mem_steps hn, noZero_of_mem_steps hzero hn⟩
    have hsteps : ∀ n ∈ d.resolve path, IsStep n := isStep_walk fun n hn => (hstart n hn).1
    have hnone : ∀ n ∈ d.resolve path, '\x00' ∉ n.toList :=
      forall_mem_walk_start fun n hn _ => (hstart n hn).2
    have hagain : d.resolve (ofSteps (d.resolve path)) = d.resolve path :=
      absolute_ofSteps hsteps d.here (walk_walk _)
    unfold place
    rw [hagain, if_neg]
    simpa using zero_not_mem_ofSteps hnone

/-- The location that a path means stands for itself. -/
theorem normalize_of_normalize (hsource : source.Placed)
    (h : source.normalize path = .ok location) : source.normalize location = .ok location := by
  cases source with
  | upload files =>
    obtain rfl : Location.normalize (withSlashes path) = location := Except.ok.inj h
    show Except.ok _ = _
    rw [withSlashes_eq (noBackslash_normalize (noBackslash_withSlashes path)), normalize_normalize]
  | disk d => exact place_place hsource h

-- A document that was handed over is resolved from its own location, which may not bring in a
-- backslash; on disk only the outcome matters.
/-- So does the location that a path means in a document. -/
theorem normalize_of_resolve (hsource : source.Placed)
    (hbase : source.normalize base = .ok base) (h : source.resolve base path = .ok location) :
    source.normalize location = .ok location := by
  unfold resolve at h
  split at h
  · cases h
  cases source with
  | upload files =>
    have hbase : '\\' ∉ base.toList := by
      have hplain : Location.normalize (withSlashes base) = base := Except.ok.inj hbase
      rw [← hplain]
      exact noBackslash_normalize (noBackslash_withSlashes base)
    have hnone : '\\' ∉ (join (parent base) (withSlashes path)).toList := by
      intro hc
      rcases mem_join hc with hc | hc | hc
      · exact hbase (mem_parent hc)
      · exact absurd hc (by decide)
      · exact noBackslash_withSlashes path hc
    obtain rfl := Except.ok.inj h
    show Except.ok _ = _
    rw [withSlashes_eq (noBackslash_normalize hnone), normalize_normalize]
  | disk d => exact place_place hsource h

end Source
end Schema
end SchemaPaths
