/-
Locations under a directory.

A document of a directory tree has a location in the tree, its steps from the directory, and a place
on disk, the steps of the directory and then these.  A location that is written in it is resolved
from where the document stands, in both ways step by step.  As long as the steps never lead above the
directory, they lead to the same place.
-/
import SchemaPaths.Disk
import SchemaPaths.Proofs.Ensures

namespace SchemaPaths
namespace Location

/-! ## Steps and strings -/

theorem pieces_ne_nil (cs : List Char) : pieces cs ≠ [] := by
  cases cs with
  | nil => exact List.cons_ne_nil _ _
  | cons c cs =>
    rw [pieces]
    split
    · exact List.cons_ne_nil _ _
    · split <;> exact List.cons_ne_nil _ _

theorem pieces_of_noSlash {cs : List Char} (h : '/' ∉ cs) : pieces cs = [cs] := by
  induction cs with
  | nil => rfl
  | cons c cs ih =>
    obtain ⟨hc, hcs⟩ := List.ne_and_not_mem_of_not_mem_cons h
    have hc : (c == '/') = false := by simpa using Ne.symm hc
    rw [pieces, ih hcs]
    simp [hc]

theorem pieces_append_slash (cs ds : List Char) :
    pieces (cs ++ '/' :: ds) = pieces cs ++ pieces ds := by
  induction cs with
  | nil =>
    obtain ⟨p, ps, hds⟩ := List.exists_cons_of_ne_nil (pieces_ne_nil ds)
    simp [pieces, hds]
  | cons c cs ih =>
    obtain ⟨p, ps, hcs⟩ := List.exists_cons_of_ne_nil (pieces_ne_nil cs)
    rw [List.cons_append, pieces, pieces, ih, hcs, List.cons_append]
    dsimp only
    split <;> rfl

theorem mem_of_mem_pieces {cs p : List Char} {c : Char} (hp : p ∈ pieces cs) (hc : c ∈ p) :
    c ∈ cs ∧ c ≠ '/' := by
  induction cs generalizing p with
  | nil =>
    rw [List.mem_singleton.1 hp] at hc
    cases hc
  | cons d cs ih =>
    obtain ⟨q, qs, hcs⟩ := List.exists_cons_of_ne_nil (pieces_ne_nil cs)
    rw [hcs] at ih
    have later {r : List Char} (hr : r ∈ q :: qs) (h : c ∈ r) : c ∈ d :: cs ∧ c ≠ '/' :=
      (ih hr h).imp_left (List.mem_cons_of_mem d)
    rw [pieces, hcs] at hp
    dsimp only at hp
    split at hp
    · rcases List.mem_cons.1 hp with rfl | hp
      · cases hc
      · exact later hp hc
    · rename_i hd
      rcases List.mem_cons.1 hp with rfl | hp
      · rcases List.mem_cons.1 hc with rfl | hc
        · exact ⟨List.mem_cons_self, by simpa using hd⟩
        · exact later List.mem_cons_self hc
      · exact later (List.mem_cons_of_mem q hp) hc

theorem steps_append_slash (s t : String) : steps (s ++ "/" ++ t) = steps s ++ steps t := by
  have hchars : (s ++ "/" ++ t).toList = s.toList ++ '/' :: t.toList := by
    simp [String.toList_append]
  rw [steps, hchars, pieces_append_slash, List.map_append, steps, steps]

theorem steps_of_noSlash {s : String} (h : '/' ∉ s.toList) : steps s = [s] := by
  rw [steps, pieces_of_noSlash h, List.map_singleton, String.ofList_toList]

theorem mem_of_mem_steps {s step : String} {c : Char} (hstep : step ∈ steps s)
    (hc : c ∈ step.toList) : c ∈ s.toList ∧ c ≠ '/' := by
  obtain ⟨p, hp, rfl⟩ := List.mem_map.1 hstep
  rw [String.toList_ofList] at hc
  exact mem_of_mem_pieces hp hc

theorem noSlash_of_mem_steps {s step : String} (h : step ∈ steps s) : '/' ∉ step.toList :=
  fun hc => (mem_of_mem_steps h hc).2 rfl

theorem noZero_of_mem_steps {s step : String} (hs : '\x00' ∉ s.toList) (h : step ∈ steps s) :
    '\x00' ∉ step.toList := fun hc => hs (mem_of_mem_steps h hc).1

/-- What stands between slashes when there is something. -/
structure IsStep (s : String) : Prop where
  notEmpty : s ≠ ""
  noSlash : '/' ∉ s.toList

/-- What a step may be called that leads on from a directory. -/
structure IsName (s : String) : Prop where
  notEmpty : s ≠ ""
  notSame : s ≠ "."
  notUp : s ≠ ".."
  noSlash : '/' ∉ s.toList
  noZero : '\x00' ∉ s.toList

instance (s : String) : Decidable (IsName s) :=
  decidable_of_iff (s ≠ "" ∧ s ≠ "." ∧ s ≠ ".." ∧ '/' ∉ s.toList ∧ '\x00' ∉ s.toList)
    ⟨fun ⟨h₁, h₂, h₃, h₄, h₅⟩ => ⟨h₁, h₂, h₃, h₄, h₅⟩,
      fun h => ⟨h.notEmpty, h.notSame, h.notUp, h.noSlash, h.noZero⟩⟩

theorem forall_isStep {names : List String} (h : ∀ n ∈ names, IsName n) :
    ∀ n ∈ names, IsStep n := fun n hn => ⟨(h n hn).notEmpty, (h n hn).noSlash⟩

/-- The names one after the other, from the directory that the first is in. -/
def under (names : List String) : String := "/".intercalate names

theorem under_cons {name : String} {names : List String} (h : names ≠ []) :
    under (name :: names) = name ++ "/" ++ under names := String.intercalate_cons_of_ne_nil h

theorem under_snoc {names : List String} (h : names ≠ []) (name : String) :
    under (names ++ [name]) = under names ++ "/" ++ name :=
  String.intercalate_append_of_ne_nil h (List.cons_ne_nil _ _)

theorem steps_under {names : List String} (h : ∀ n ∈ names, IsStep n) (hne : names ≠ []) :
    steps (under names) = names := by
  induction names with
  | nil => exact absurd rfl hne
  | cons n ns ih =>
    obtain ⟨hn, hns⟩ := List.forall_mem_cons.1 h
    cases ns with
    | nil => exact steps_of_noSlash hn.noSlash
    | cons m ns =>
      rw [under_cons (List.cons_ne_nil _ _), steps_append_slash, steps_of_noSlash hn.noSlash,
        ih hns (List.cons_ne_nil _ _), List.singleton_append]

theorem mem_under {names : List String} {c : Char} (h : c ∈ (under names).toList) :
    c = '/' ∨ ∃ n ∈ names, c ∈ n.toList := by
  induction names with
  | nil => cases h
  | cons n ns ih =>
    have here (hc : c ∈ n.toList) : c = '/' ∨ ∃ n' ∈ n :: ns, c ∈ n'.toList :=
      .inr ⟨n, List.mem_cons_self, hc⟩
    by_cases hne : ns = []
    · rw [hne] at h
      exact here h
    · rw [under_cons hne, String.toList_append, String.toList_append, List.mem_append,
        List.mem_append] at h
      rcases h with (h | h) | h
      · exact here h
      · exact .inl (List.mem_singleton.1 h)
      · exact (ih h).imp_right fun ⟨n', hn', hc⟩ => ⟨n', List.mem_cons_of_mem n hn', hc⟩

/-! ## Where a location is seen from -/

theorem toList_append_slash (s t : String) :
    (s ++ "/" ++ t).toList = s.toList ++ '/' :: t.toList := by simp [String.toList_append]

/-- What is left of the last slash, with the slash. -/
theorem head_of_noSlash (front : List Char) {name : List Char} (h : '/' ∉ name) :
    ((front ++ '/' :: name).reverse.dropWhile (· != '/')).reverse = front ++ ['/'] := by
  have hname : ∀ c ∈ name.reverse, (c != '/') = true := fun c hc => by
    simpa using fun hslash : c = '/' => h (hslash ▸ List.mem_reverse.1 hc)
  rw [List.reverse_append, List.reverse_cons, List.append_assoc,
    List.dropWhile_append_of_pos hname]
  simp

/-- The directory of a name in a directory that ends with no slash. -/
theorem parent_append_slash {s name : String} (hname : '/' ∉ name.toList) {c : Char}
    (hlast : s.toList.getLast? = some c) (hc : c ≠ '/') : parent (s ++ "/" ++ name) = s := by
  obtain ⟨front, hs⟩ := List.getLast?_eq_some_iff.1 hlast
  have hall : (s.toList ++ ['/']).all (· == '/') = false := by
    rw [hs]
    simp [hc]
  have hdrop : ((s.toList ++ ['/']).reverse.dropWhile (· == '/')).reverse = s.toList := by
    rw [hs]
    simp [hc]
  rw [parent, toList_append_slash, head_of_noSlash _ hname, hall]
  simp only [Bool.false_eq_true, if_false]
  rw [hdrop, String.ofList_toList]

theorem parent_of_noSlash {name : String} (h : '/' ∉ name.toList) : parent name = "" := by
  have hname : ∀ c ∈ name.toList.reverse, (c != '/') = true := fun c hc => by
    simpa using fun hslash : c = '/' => h (hslash ▸ List.mem_reverse.1 hc)
  have hnone : name.toList.reverse.dropWhile (· != '/') = [] := by
    rw [← List.append_nil name.toList.reverse, List.dropWhile_append_of_pos hname]
    rfl
  rw [parent, hnone]
  rfl

theorem IsStep.exists_last {name : String} (h : IsStep name) :
    ∃ c, name.toList.getLast? = some c ∧ c ≠ '/' := by
  have hne : name.toList ≠ [] := fun hnil => h.notEmpty (String.toList_eq_nil_iff.1 hnil)
  refine ⟨name.toList.getLast hne, List.getLast?_eq_some_getLast hne, fun hslash => ?_⟩
  exact h.noSlash (hslash ▸ List.getLast_mem hne)

theorem exists_last_under {names : List String} (h : ∀ n ∈ names, IsStep n) (hne : names ≠ []) :
    ∃ c, (under names).toList.getLast? = some c ∧ c ≠ '/' := by
  obtain ⟨front, name, rfl⟩ := (List.eq_nil_or_concat' names).resolve_left hne
  obtain ⟨c, hlast, hc⟩ := (h name (by simp)).exists_last
  refine ⟨c, ?_, hc⟩
  by_cases hfront : front = []
  · rw [hfront]
    exact hlast
  · rw [under_snoc hfront, String.toList_append, List.getLast?_append, hlast, Option.some_or]

/-- The directory of a file, by its location in the tree. -/
theorem parent_under {names : List String} {name : String} (h : ∀ n ∈ names, IsName n)
    (hname : IsName name) : parent (under (names ++ [name])) = under names := by
  by_cases hnames : names = []
  · rw [hnames]
    exact parent_of_noSlash hname.noSlash
  · obtain ⟨c, hlast, hc⟩ := exists_last_under (forall_isStep h) hnames
    rw [under_snoc hnames, parent_append_slash hname.noSlash hlast hc]

theorem ofSteps_eq (names : List String) : ofSteps names = "/" ++ under names := rfl

/-- The directory of a file, by its place on disk. -/
theorem parent_ofSteps {names : List String} {name : String} (h : ∀ n ∈ names, IsName n)
    (hname : IsName name) : parent (ofSteps (names ++ [name])) = ofSteps names := by
  by_cases hnames : names = []
  · have hhead := head_of_noSlash [] hname.noSlash
    have hchars : (ofSteps [name]).toList = [] ++ '/' :: name.toList := by
      simp [ofSteps, String.toList_append]
    rw [hnames, List.nil_append, parent, hchars, hhead]
    rfl
  · obtain ⟨c, hlast, hc⟩ := exists_last_under (forall_isStep h) hnames
    have hlast' : (ofSteps names).toList.getLast? = some c := by
      rw [ofSteps_eq, String.toList_append, List.getLast?_append, hlast, Option.some_or]
    rw [ofSteps_eq, under_snoc hnames, ← String.append_assoc, ← String.append_assoc,
      ← ofSteps_eq, parent_append_slash hname.noSlash hlast' hc]

theorem steps_slash_append (s : String) : steps ("/" ++ s) = "" :: steps s := by
  rw [← String.empty_append (s := "/"), steps_append_slash]
  rfl

theorem steps_ofSteps {names : List String} (h : ∀ n ∈ names, IsStep n) (hne : names ≠ []) :
    steps (ofSteps names) = "" :: names := by
  rw [ofSteps_eq, steps_slash_append, steps_under h hne]

theorem isRooted_ofSteps (names : List String) : isRooted (ofSteps names) = true := by
  simp [isRooted, ofSteps, String.toList_append]

theorem under_ne_empty {names : List String} (h : ∀ n ∈ names, IsStep n) (hne : names ≠ []) :
    under names ≠ "" := by
  obtain ⟨c, hlast, -⟩ := exists_last_under h hne
  intro hempty
  rw [hempty] at hlast
  cases hlast

theorem isRooted_append {s t : String} (h : s ≠ "") : isRooted (s ++ t) = isRooted s := by
  cases hs : s.toList with
  | nil => exact absurd (String.toList_eq_nil_iff.1 hs) h
  | cons c cs => rw [isRooted, isRooted, String.toList_append, hs, List.cons_append]; rfl

theorem isRooted_under {names : List String} (h : ∀ n ∈ names, IsStep n) :
    isRooted (under names) = false := by
  cases names with
  | nil => rfl
  | cons n ns =>
    obtain ⟨hn, -⟩ := List.forall_mem_cons.1 h
    have hname : isRooted n = false := by
      cases hchars : n.toList with
      | nil => exact absurd (String.toList_eq_nil_iff.1 hchars) hn.notEmpty
      | cons c cs =>
        have hc : c ≠ '/' := fun hslash => hn.noSlash (by rw [hchars, hslash]; exact List.mem_cons_self)
        simp [isRooted, hchars, hc]
    by_cases hns : ns = []
    · rw [hns]
      exact hname
    · rw [under_cons hns, String.append_assoc, isRooted_append hn.notEmpty, hname]

/-- Beside a directory of the tree that is not the tree itself. -/
theorem join_of_last {base path : String} {c : Char} (hpath : isRooted path = false)
    (hlast : base.toList.getLast? = some c) (hc : c ≠ '/') :
    join base path = base ++ "/" ++ path := by
  have hne : (base == "") = false := by
    rw [beq_eq_false_iff_ne]
    rintro rfl
    cases hlast
  have hslash : (some c == some '/') = false := by simpa using hc
  simp [join, hpath, hlast, hne, hslash]

/-- A location without a root, seen from a directory of the tree. -/
theorem steps_join_under {names : List String} {path : String} (h : ∀ n ∈ names, IsName n)
    (hpath : isRooted path = false) :
    steps (join (under names) path) = names ++ steps path ∧
      isRooted (join (under names) path) = false := by
  by_cases hnames : names = []
  · subst hnames
    have hjoin : join (under []) path = path := by
      simp [join, hpath, under]
    rw [hjoin]
    exact ⟨rfl, hpath⟩
  · obtain ⟨c, hlast, hc⟩ := exists_last_under (forall_isStep h) hnames
    rw [join_of_last hpath hlast hc, steps_append_slash, steps_under (forall_isStep h) hnames,
      String.append_assoc, isRooted_append (under_ne_empty (forall_isStep h) hnames),
      isRooted_under (forall_isStep h)]
    exact ⟨rfl, rfl⟩

/-- The same, seen from the place of the directory on disk. -/
theorem steps_join_ofSteps {names : List String} {path : String} (h : ∀ n ∈ names, IsName n)
    (hpath : isRooted path = false) :
    steps (join (ofSteps names) path) = "" :: (names ++ steps path) ∧
      isRooted (join (ofSteps names) path) = true := by
  by_cases hnames : names = []
  · subst hnames
    have hjoin : join (ofSteps []) path = "/" ++ path := by
      simp [join, hpath, ofSteps]
    rw [hjoin, steps_slash_append, isRooted_append (by decide)]
    exact ⟨rfl, by decide⟩
  · obtain ⟨c, hlast, hc⟩ := exists_last_under (forall_isStep h) hnames
    have hlast' : (ofSteps names).toList.getLast? = some c := by
      rw [ofSteps_eq, String.toList_append, List.getLast?_append, hlast, Option.some_or]
    have hne : ofSteps names ≠ "" := fun hempty => by
      rw [hempty] at hlast'
      cases hlast'
    rw [join_of_last hpath hlast' hc, steps_append_slash, steps_ofSteps (forall_isStep h) hnames,
      ofSteps_eq, String.append_assoc, ← ofSteps_eq, isRooted_append hne, isRooted_ofSteps]
    exact ⟨rfl, rfl⟩

/-- The place on disk of a location in the tree. -/
theorem join_ofSteps_under {dir names : List String} (hdir : ∀ n ∈ dir, IsName n)
    (hnames : ∀ n ∈ names, IsName n) (hne : names ≠ []) :
    join (ofSteps dir) (under names) = ofSteps (dir ++ names) := by
  have hrooted := isRooted_under (forall_isStep hnames)
  by_cases hnil : dir = []
  · rw [hnil, List.nil_append]
    have hjoin : join (ofSteps []) (under names) = "/" ++ under names := by
      simp [join, hrooted, ofSteps]
    rw [hjoin, ofSteps_eq]
  · obtain ⟨c, hlast, hc⟩ := exists_last_under (forall_isStep hdir) hnil
    have hlast' : (ofSteps dir).toList.getLast? = some c := by
      rw [ofSteps_eq, String.toList_append, List.getLast?_append, hlast, Option.some_or]
    have hboth : under (dir ++ names) = under dir ++ "/" ++ under names :=
      String.intercalate_append_of_ne_nil hnil hne
    rw [join_of_last hrooted hlast' hc, ofSteps_eq, ofSteps_eq, hboth, String.append_assoc,
      String.append_assoc, String.append_assoc]

theorem mem_join {base path : String} {c : Char} (h : c ∈ (join base path).toList) :
    c ∈ base.toList ∨ c = '/' ∨ c ∈ path.toList := by
  unfold join at h
  split at h
  · exact .inr (.inr h)
  · split at h
    · rw [String.toList_append, List.mem_append] at h
      exact h.imp_right .inr
    · rw [toList_append_slash, List.mem_append, List.mem_cons] at h
      exact h

theorem zero_not_mem_ofSteps {names : List String} (h : ∀ n ∈ names, '\x00' ∉ n.toList) :
    '\x00' ∉ (ofSteps names).toList := by
  intro hc
  rw [ofSteps_eq, String.toList_append, List.mem_append] at hc
  rcases hc with hc | hc
  · exact absurd (List.mem_singleton.1 hc) (by decide)
  · rcases mem_under hc with hc | ⟨n, hn, hc⟩
    · exact absurd hc (by decide)
    · exact h n hn hc

/-! ## Walking -/

/-- The steps, taken one after the other from so far below a directory, never lead above it. -/
def staysBelow : Nat → List String → Bool
  | _, [] => true
  | depth, s :: ss =>
    if s == "" || s == "." then staysBelow depth ss
    else if s == ".." then
      match depth with
      | 0 => false
      | depth + 1 => staysBelow depth ss
    else staysBelow (depth + 1) ss

theorem staysBelow_cons (depth : Nat) (s : String) (ss : List String) :
    staysBelow depth (s :: ss) =
      if s == "" || s == "." then staysBelow depth ss
      else if s == ".." then
        match depth with
        | 0 => false
        | depth + 1 => staysBelow depth ss
      else staysBelow (depth + 1) ss := rfl

theorem walk_cons (rooted : Bool) (taken : List String) (s : String) (ss : List String) :
    walk rooted taken (s :: ss) =
      if s == "" || s == "." then walk rooted taken ss
      else if s == ".." then
        match taken with
        | [] => if rooted then walk rooted [] ss else walk rooted [".."] ss
        | t :: ts => if t == ".." then walk rooted (".." :: t :: ts) ss else walk rooted ts ss
      else walk rooted (s :: taken) ss := rfl

theorem walk_name {rooted : Bool} {taken : List String} {name : String} (h : IsName name)
    (ss : List String) : walk rooted taken (name :: ss) = walk rooted (name :: taken) ss := by
  simp [walk_cons, h.notEmpty, h.notSame, h.notUp]

theorem walk_names {rooted : Bool} {taken names : List String} (h : ∀ n ∈ names, IsName n)
    (ss : List String) : walk rooted taken (names ++ ss) = walk rooted (names.reverse ++ taken) ss := by
  induction names generalizing taken with
  | nil => rfl
  | cons n ns ih =>
    obtain ⟨hn, hns⟩ := List.forall_mem_cons.1 h
    rw [List.cons_append, walk_name hn, ih hns, List.reverse_cons, List.append_assoc]
    rfl

/-- Steps that stay below a directory lead from there to the same place, whether they are walked
from the directory or from the root. -/
theorem walk_staysBelow {ss : List String}
    (hss : ∀ s ∈ ss, '/' ∉ s.toList ∧ '\x00' ∉ s.toList) (base : List String)
    {taken : List String} (h : ∀ n ∈ taken, IsName n) (hbelow : staysBelow taken.length ss) :
    ∃ names, (∀ n ∈ names, IsName n) ∧ walk false taken ss = names ∧
      walk true (taken ++ base) ss = base.reverse ++ names := by
  induction ss generalizing taken with
  | nil =>
    refine ⟨taken.reverse, fun n hn => h n (List.mem_reverse.1 hn), rfl, ?_⟩
    rw [walk, List.reverse_append]
  | cons s ss ih =>
    obtain ⟨hs, hss⟩ := List.forall_mem_cons.1 hss
    rw [staysBelow_cons] at hbelow
    rw [walk_cons, walk_cons]
    by_cases hsame : (s == "" || s == ".") = true
    · rw [if_pos hsame] at hbelow ⊢
      rw [if_pos hsame]
      exact ih hss h hbelow
    rw [if_neg hsame] at hbelow ⊢
    rw [if_neg hsame]
    by_cases hup : (s == "..") = true
    · rw [if_pos hup] at hbelow ⊢
      rw [if_pos hup]
      cases taken with
      | nil => cases hbelow
      | cons t ts =>
        obtain ⟨ht, hts⟩ := List.forall_mem_cons.1 h
        have hdown : (t == "..") = false := by simpa using ht.notUp
        simp only [List.cons_append, hdown]
        exact ih hss hts hbelow
    · rw [if_neg hup] at hbelow ⊢
      rw [if_neg hup]
      simp only [Bool.or_eq_true, beq_iff_eq, not_or] at hsame hup
      have hname : IsName s := ⟨hsame.1, hsame.2, hup, hs.1, hs.2⟩
      exact ih hss (List.forall_mem_cons.2 ⟨hname, h⟩) hbelow

/-! ## Plain locations -/

theorem rootSlashes_of_not_isRooted {s : String} (h : isRooted s = false) :
    rootSlashes s.toList = 0 := by
  unfold isRooted at h
  unfold rootSlashes
  split <;> first | rfl | simp_all

theorem ofPlainSteps_of_ne_nil {names : List String} (hne : names ≠ []) :
    ofPlainSteps false names = under names := by
  cases names with
  | nil => exact absurd rfl hne
  | cons n ns => rfl

theorem normalize_eq {s : String} (h : isRooted s = false) {names : List String}
    (hnames : ∀ n ∈ names, IsName n) (hwalk : walk false [] (steps s) = names) :
    normalize s = ofPlainSteps false names := by
  have hwhole : "" ++ under names = under names := String.empty_append
  unfold normalize
  rw [rootSlashes_of_not_isRooted h]
  dsimp only
  rw [show (0 != 0) = false from rfl, hwalk]
  by_cases hne : names = []
  · rw [hne]
    rfl
  · rw [ofPlainSteps_of_ne_nil hne]
    change (if ("" ++ under names == "") = true then "." else "" ++ under names) = under names
    rw [hwhole, if_neg (by simpa using under_ne_empty (forall_isStep hnames) hne)]

theorem normalize_under {names : List String} (h : ∀ n ∈ names, IsName n) (hne : names ≠ []) :
    normalize (under names) = under names := by
  rw [normalize_eq (isRooted_under (forall_isStep h)) h, ofPlainSteps_of_ne_nil hne]
  have hwalk : walk false [] (names ++ []) = walk false (names.reverse ++ []) [] := walk_names h []
  rw [List.append_nil, List.append_nil] at hwalk
  rw [steps_under (forall_isStep h) hne, hwalk, walk, List.reverse_reverse]

theorem withSlashes_eq {s : String} (h : '\\' ∉ s.toList) : withSlashes s = s := by
  have hmap : s.toList.map (fun c => if c == '\\' then '/' else c) = s.toList := by
    refine (List.map_congr_left fun c hc => ?_).trans (List.map_id _)
    exact if_neg fun hback => h (by rw [← eq_of_beq hback]; exact hc)
  rw [withSlashes, hmap, String.ofList_toList]

/-- A location that is written in a document of a directory tree, and stays in the tree, means the
same place from the location of the document as from its place on disk. -/
theorem resolve_below {dir names : List String} {path : String} (hdir : ∀ n ∈ dir, IsName n)
    (hnames : ∀ n ∈ names, IsName n) (hpath : isRooted path = false)
    (hzero : '\x00' ∉ path.toList) (hbelow : staysBelow names.length (steps path)) :
    ∃ target, (∀ n ∈ target, IsName n) ∧
      normalize (join (under names) path) = ofPlainSteps false target ∧
      ∀ here, absolute here (join (ofSteps (dir ++ names)) path) = dir ++ target := by
  have hsteps : ∀ s ∈ steps path, '/' ∉ s.toList ∧ '\x00' ∉ s.toList := fun _ hs =>
    ⟨noSlash_of_mem_steps hs, noZero_of_mem_steps hzero hs⟩
  have htaken : ∀ n ∈ names.reverse, IsName n := fun n hn => hnames n (List.mem_reverse.1 hn)
  rw [← List.length_reverse] at hbelow
  obtain ⟨target, htarget, hup, hdisk⟩ := walk_staysBelow hsteps dir.reverse htaken hbelow
  have hboth : ∀ n ∈ dir ++ names, IsName n := List.forall_mem_append.2 ⟨hdir, hnames⟩
  obtain ⟨hjoin, hunrooted⟩ := steps_join_under hnames hpath
  obtain ⟨hjoin', hrooted⟩ := steps_join_ofSteps hboth hpath
  refine ⟨target, htarget, normalize_eq hunrooted htarget ?_, fun here => ?_⟩
  · rw [hjoin, walk_names hnames, List.append_nil, hup]
  · rw [absolute, hrooted, if_pos rfl, List.nil_append, hjoin', walk_cons, if_pos (by rfl),
      walk_names hboth, List.append_nil, List.reverse_append, hdisk, List.reverse_reverse]

theorem under_injective {names names' : List String} (h : ∀ n ∈ names, IsName n)
    (h' : ∀ n ∈ names', IsName n) (hne : names ≠ []) (hne' : names' ≠ [])
    (heq : under names = under names') : names = names' := by
  rw [← steps_under (forall_isStep h) hne, heq, steps_under (forall_isStep h') hne']

theorem ofPlainSteps_eq_under {names target : List String} (h : ∀ n ∈ names, IsName n)
    (hne : names ≠ []) (htarget : ∀ n ∈ target, IsName n)
    (heq : ofPlainSteps false target = under names) : target = names := by
  by_cases hnil : target = []
  · subst hnil
    have hsteps := steps_under (forall_isStep h) hne
    rw [← heq] at hsteps
    have hsame : IsName "." := h "." (by rw [← hsteps]; exact List.mem_singleton_self _)
    exact absurd rfl hsame.notSame
  · rw [ofPlainSteps_of_ne_nil hnil] at heq
    exact under_injective htarget h hnil hne heq

theorem ofSteps_injective {names names' : List String} (h : ∀ n ∈ names, IsName n)
    (h' : ∀ n ∈ names', IsName n) (heq : ofSteps names = ofSteps names') : names = names' := by
  have hsame : under names = under names' := by
    have hchars := congrArg String.toList heq
    rw [ofSteps_eq, ofSteps_eq, String.toList_append, String.toList_append] at hchars
    exact String.toList_injective (List.append_cancel_left hchars)
  by_cases hne : names = []
  · by_cases hne' : names' = []
    · rw [hne, hne']
    · rw [hne] at hsame
      exact absurd hsame.symm (under_ne_empty (forall_isStep h') hne')
  · by_cases hne' : names' = []
    · rw [hne'] at hsame
      exact absurd hsame (under_ne_empty (forall_isStep h) hne)
    · exact under_injective h h' hne hne' hsame

end Location

/-! ## Files on disk -/

namespace Disk

open Location

theorem follow_names {d : Disk} {names : List String} (h : ∀ n ∈ names, IsName n)
    {place place' : List String} (hfollow : follow d place names = .ok place') :
    place' = place ++ names := by
  induction names generalizing place with
  | nil =>
    rw [List.append_nil]
    exact (Except.ok.inj hfollow).symm
  | cons n ns ih =>
    obtain ⟨hn, hns⟩ := List.forall_mem_cons.1 h
    rw [follow] at hfollow
    simp only [hn.notEmpty, hn.notSame, hn.notUp, beq_iff_eq, Bool.or_eq_true, or_self,
      if_false] at hfollow
    split at hfollow
    · cases hfollow
    · cases hfollow
    · split at hfollow
      · cases hfollow
      · rw [ih hns hfollow, List.append_assoc]
        rfl

/-- Blank steps lead nowhere. -/
theorem follow_blank {d : Disk} {place place' : List String} {ss : List String}
    (hfollow : follow d place ("" :: ss) = .ok place') : follow d place ss = .ok place' := by
  rw [follow] at hfollow
  split at hfollow
  · cases hfollow
  · cases hfollow
  · exact hfollow

theorem follow_ofSteps {d : Disk} {names : List String} (h : ∀ n ∈ names, IsName n)
    {place : List String} (hfollow : follow d [] (steps (ofSteps names)) = .ok place) :
    place = names := by
  by_cases hne : names = []
  · subst hne
    have hblank : follow d [] [""] = .ok place := follow_blank hfollow
    exact (Except.ok.inj (follow_blank hblank)).symm
  · rw [steps_ofSteps (forall_isStep h) hne] at hfollow
    rw [follow_names h (follow_blank hfollow), List.nil_append]

/-- What is read at a place is a file that is known there. -/
theorem file?_of_read {d : Disk} {names : List String} (h : ∀ n ∈ names, IsName n)
    {bytes : List UInt8} (hread : d.read (ofSteps names) = .ok bytes) :
    d.file? names = some bytes := by
  obtain ⟨entry, hfind, hentry⟩ := exists_of_bind hread
  have hplace : d.entryAt names = .ok entry := by
    obtain ⟨place, hfollow, hfind⟩ := exists_of_bind hfind
    unfold locate at hfollow
    dsimp only at hfollow
    split at hfollow
    · cases hfollow
    split at hfollow
    · cases hfollow
    rw [start, isRooted_ofSteps, if_pos rfl] at hfollow
    rwa [follow_ofSteps h hfollow] at hfind
  unfold entryAt at hplace
  split at hplace
  · rename_i found hfound
    cases hplace
    cases hentry
    exact hfound
  · split at hplace
    · cases hplace
      cases hentry
    · cases hplace

end Disk
end SchemaPaths
