/-
A directory tree, loaded from disk and as files that were handed over.

The files of a directory can be loaded where they lie, or handed over under their locations in the
directory.  As long as the documents refer to each other by locations that stay in the directory, both
loads go the same way, step by step.  Main statement: they end in the same way, and where they
succeed the sets are the same, but for the directory in front of the places of the documents.
-/
import SchemaPaths.Proofs.Loading
import SchemaPaths.Proofs.Loading.Following
import SchemaPaths.Proofs.Loading.Locations
import SchemaPaths.Proofs.Markup.Allowed
import SchemaPaths.Proofs.Schema.Placing
import SchemaPaths.Proofs.Schema.Sets

namespace SchemaPaths

open Schema Relation

/-! ## Directory trees -/

namespace Disk

open Location

/-- The files under a directory, by their steps from there. -/
def filesUnder (d : Disk) (dir : List String) : List (List String × List UInt8) :=
  d.files.filterMap fun f => (dir.isPrefixOf? f.1).map (·, f.2)

/-- The files under a directory as they are handed over, by their locations in it. -/
def handedOver (d : Disk) (dir : List String) : List (String × List UInt8) :=
  (d.filesUnder dir).map fun f => (under f.1, f.2)

/-- What is known under a directory are files that can be read where they are, and their names hold no
backslashes. -/
structure IsTree (d : Disk) (dir : List String) : Prop where
  directory : ∀ n ∈ dir, IsName n
  named : ∀ f ∈ d.filesUnder dir, f.1 ≠ [] ∧ ∀ n ∈ f.1, IsName n ∧ '\\' ∉ n.toList
  readable : ∀ f ∈ d.filesUnder dir, d.read (ofSteps (dir ++ f.1)) = .ok f.2

end Disk

namespace Schema

/-- A location that is written in a document of a directory tree.  It is refused wherever it leads
when it names a way to get there; otherwise it leads from the directory of the document, without
backslashes, and never above the tree. -/
def StaysInTree (document path : String) : Prop :=
  Location.isRemote path ∨ Location.isRooted path = false ∧ '\\' ∉ path.toList ∧
    Location.staysBelow (Location.steps document).dropLast.length (Location.steps path)

instance (document path : String) : Decidable (StaysInTree document path) :=
  inferInstanceAs (Decidable (_ ∨ _ ∧ _ ∧ _))

/-- So do all locations in the documents that can be reached from one. -/
def Source.StaysInTree (source : Source) (start : String) : Prop :=
  ∀ document, ReflTransGen source.Refers start document →
    ∀ tree, source.schema document = .ok tree → ∀ d ∈ directivesOf tree.content,
      ∀ path ∈ d.path?, Schema.StaysInTree document path

/-- Failures that are reported alike: all that a load reports about a document are. -/
inductive Failure.SameClass : Failure → Failure → Prop
  | load (problem problem' : LoadProblem) (place place' : Option String) :
      SameClass (.load problem place) (.load problem' place')
  | same (f : Failure) : SameClass f f

theorem Failure.sameClass_movedTo (f : Failure) (place : String) :
    SameClass f (f.movedTo place) := by
  unfold movedTo
  split
  · exact .load ..
  · exact .same f

/-- Both succeed with the same result, or they fail alike. -/
inductive SameWay {α : Type} : Except Failure α → Except Failure α → Prop
  | ok (a : α) : SameWay (.ok a) (.ok a)
  | error {e e' : Failure} (h : e.SameClass e') : SameWay (.error e) (.error e')

theorem SameWay.bind {α β : Type} {r r' : Except Failure α} {f f' : α → Except Failure β}
    (h : SameWay r r') (hf : ∀ a, SameWay (f a) (f' a)) : SameWay (r >>= f) (r' >>= f') := by
  cases h with
  | ok a => exact hf a
  | error h => exact .error h

namespace Loader

open Location

/-! ## Loads that go the same way -/

/-- The second loader is the first with the directory in front of the places of its documents. -/
structure Mirror (held : List (String × List UInt8)) (d : Disk) (dir : List String)
    (l l' : Loader) : Prop where
  upload : l.source = .upload held
  disk : l'.source = .disk d
  set : l'.set = l.set.placed (join (ofSteps dir))
  named : ∀ x ∈ l.locations, ∃ names, names ≠ [] ∧ (∀ n ∈ names, IsName n) ∧ x = under names

/-- From mirrored loaders the two computations come to the same end, unless the first never ends. -/
def Mirrors {α : Type} (held : List (String × List UInt8)) (d : Disk) (dir : List String)
    (m m' : Load α) : Prop :=
  ∀ l l', Mirror held d dir l l' → Ensures m l
    (fun a t => Ensures m' l' (fun a' t' => a' = a ∧ Mirror held d dir t t') fun _ _ => False)
    fun e _ => e ≠ .endless → Ensures m' l' (fun _ _ => False) fun e' _ => e.SameClass e'

namespace Mirrors

variable {held : List (String × List UInt8)} {d : Disk} {dir : List String} {α β : Type}
  {m m' : Load α}

theorem pure (a : α) : Mirrors held d dir (Pure.pure a) (Pure.pure a) := fun _ _ h => ⟨rfl, h⟩

theorem fail {e e' : Failure} (h : e ≠ .endless → e.SameClass e') :
    Mirrors held d dir (throw e : Load α) (throw e') := fun _ _ _ he => h he

/-- Two computations put behind others, where the first of these has a result of some kind. -/
theorem bind_of {f f' : α → Load β} {p : α → Prop} (h : Mirrors held d dir m m')
    (hm : ∀ l, Ensures m l (fun a _ => p a) fun _ _ => True)
    (hf : ∀ a, p a → Mirrors held d dir (f a) (f' a)) :
    Mirrors held d dir (m >>= f) (m' >>= f') := by
  intro l l' hl
  refine ensures_bind.2 (((h l l' hl).and (hm l)).mono (fun a t ha => ?_) fun e _ he hne => ?_)
  · obtain ⟨_, t', ⟨rfl, ht⟩, hrun⟩ := ha.1.exists_ok
    refine (hf _ ha.2 t t' ht).mono (fun b u hb => ensures_bind.2 (hrun.2 hb)) fun e _ he hne => ?_
    exact ensures_bind.2 (hrun.2 (he hne))
  · exact ensures_bind.2 ((he.1 hne).mono (fun _ _ h => h.elim) fun _ _ h => h)

theorem bind {f f' : α → Load β} (h : Mirrors held d dir m m')
    (hf : ∀ a, Mirrors held d dir (f a) (f' a)) : Mirrors held d dir (m >>= f) (m' >>= f') :=
  h.bind_of (fun _ => ensures_any) fun a _ => hf a

/-- What is taken up from the loader at first. -/
theorem get {f f' : Loader → Load β}
    (hf : ∀ l l', Mirror held d dir l l' → Mirrors held d dir (f l) (f' l')) :
    Mirrors held d dir (MonadState.get >>= f) (MonadState.get >>= f') :=
  fun l l' hl => ensures_bind.2 (ensures_get.2 ((hf l l' hl l l' hl).mono
    (fun _ _ h => ensures_bind.2 (ensures_get.2 h))
    fun _ _ h hne => ensures_bind.2 (ensures_get.2 (h hne))))

theorem say (n n' : Notice) : Mirrors held d dir (Loader.say n) (Loader.say n') :=
  fun _ _ hl => ⟨rfl, { hl with }⟩

theorem lift {r r' : Except Failure α} (h : SameWay r r') :
    Mirrors held d dir (Loader.lift r) (Loader.lift r') := by
  cases h with
  | ok a => exact pure a
  | error h => exact fail fun _ => h

theorem bind_lift {r r' : Except Failure α} {f f' : α → Load β} (h : SameWay r r')
    (hf : ∀ a, r = .ok a → Mirrors held d dir (f a) (f' a)) :
    Mirrors held d dir (Loader.lift r >>= f) (Loader.lift r' >>= f') :=
  (lift h).bind_of (fun _ => ensures_lift (fun _ ha => ha) fun _ _ => trivial) hf

theorem forM {list : List α} {f f' : α → Load PUnit}
    (h : ∀ a ∈ list, Mirrors held d dir (f a) (f' a)) :
    Mirrors held d dir (list.forM f) (list.forM f') := by
  induction list with
  | nil => exact fun _ _ h => ⟨rfl, h⟩
  | cons a list ih =>
    exact (h a List.mem_cons_self).bind fun _ => ih fun b hb => h b (List.mem_cons_of_mem a hb)

end Mirrors

/-! ## Files of the tree -/

section Files

theorem names_holdFile (done : List (String × List UInt8)) (name : String) (bytes : List UInt8) :
    name ∈ (holdFile done name bytes).map (·.1) ∧
      ∀ x ∈ done.map (·.1), x ∈ (holdFile done name bytes).map (·.1) := by
  unfold holdFile
  split
  · rename_i hany
    have hnames : (done.map fun f => if f.1 == name then (name, bytes) else f).map (·.1) =
        done.map (·.1) := by
      rw [List.map_map]
      refine List.map_congr_left fun f _ => ?_
      by_cases hf : f.1 = name
      · simp [hf]
      · simp [hf]
    obtain ⟨f, hf, hname⟩ := List.any_eq_true.1 hany
    rw [hnames]
    exact ⟨List.mem_map.2 ⟨f, hf, eq_of_beq hname⟩, fun x hx => hx⟩
  · rw [List.map_append]
    exact ⟨List.mem_append_right _ (List.mem_singleton_self name),
      fun x hx => List.mem_append_left _ hx⟩

/-- Every file that was handed over is held under its location. -/
theorem exists_held {files : List (String × List UInt8)} {g : String × List UInt8}
    (h : g ∈ files) : ∃ bytes, (heldFiles files).lookup (uploadName g.1) = some bytes := by
  have hheld (files : List (String × List UInt8)) : ∀ done x,
      x ∈ done.map (·.1) ∨ x ∈ files.map (fun f => uploadName f.1) →
      x ∈ (files.foldl (fun done f => holdFile done (uploadName f.1) f.2) done).map (·.1) := by
    induction files with
    | nil => exact fun done x hx => hx.resolve_right List.not_mem_nil
    | cons f files ih =>
      intro done x hx
      obtain ⟨hnew, hkept⟩ := names_holdFile done (uploadName f.1) f.2
      refine ih _ x ?_
      rcases hx with hx | hx
      · exact .inl (hkept x hx)
      · rcases List.mem_cons.1 hx with hx | hx
        · rw [hx]
          exact .inl hnew
        · exact .inr hx
  have hname := hheld files [] (uploadName g.1) (.inr (List.mem_map.2 ⟨g, h, rfl⟩))
  obtain ⟨f, hf, hfname⟩ := List.mem_map.1 hname
  cases hlook : (heldFiles files).lookup (uploadName g.1) with
  | some bytes => exact ⟨bytes, rfl⟩
  | none =>
    have hne := List.lookup_eq_none_iff.1 hlook f hf
    simp [hfname] at hne

variable {d : Disk} {dir : List String}

theorem mem_filesUnder {f : List String × List UInt8} :
    f ∈ d.filesUnder dir ↔ (dir ++ f.1, f.2) ∈ d.files := by
  unfold Disk.filesUnder
  rw [List.mem_filterMap]
  constructor
  · rintro ⟨g, hg, hf⟩
    obtain ⟨rest, hrest, rfl⟩ := Option.map_eq_some_iff.1 hf
    have hplace : dir ++ rest = g.1 := List.isPrefixOf?_eq_some_iff_append_eq.1 hrest
    rw [hplace]
    exact hg
  · intro hf
    refine ⟨_, hf, ?_⟩
    have hrest : dir.isPrefixOf? (dir ++ f.1) = some f.1 :=
      List.isPrefixOf?_eq_some_iff_append_eq.2 rfl
    rw [hrest]
    rfl

variable (h : d.IsTree dir)
include h

theorem uploadName_under {f : List String × List UInt8} (hf : f ∈ d.filesUnder dir) :
    uploadName (under f.1) = under f.1 := by
  obtain ⟨hne, hnamed⟩ := h.named f hf
  have hback : '\\' ∉ (under f.1).toList := fun hc => by
    rcases mem_under hc with hslash | ⟨n, hn, hc⟩
    · cases hslash
    · exact (hnamed n hn).2 hc
  rw [uploadName, withSlashes_eq hback, normalize_under (fun n hn => (hnamed n hn).1) hne]

/-- What is handed over under a location in the tree is what is read from disk at its place. -/
theorem read_sameWay {names : List String} (hnames : ∀ n ∈ names, IsName n) :
    SameWay ((Source.ofFiles (d.handedOver dir)).read (ofPlainSteps false names))
        ((Source.disk d).read (ofSteps (dir ++ names))) ∧
      ∀ bytes, (Source.ofFiles (d.handedOver dir)).read (ofPlainSteps false names) = .ok bytes →
        names ≠ [] := by
  rw [ofFiles_eq, Source.read, Source.read]
  cases hlook : (heldFiles (d.handedOver dir)).lookup (ofPlainSteps false names) with
  | some bytes =>
    obtain ⟨g, hg, hheld⟩ := mem_heldFiles (mem_of_lookup hlook)
    obtain ⟨f, hf, rfl⟩ := List.mem_map.1 hg
    obtain ⟨hne, hnamed⟩ := h.named f hf
    rw [uploadName_under h hf, Prod.mk.injEq] at hheld
    obtain rfl := ofPlainSteps_eq_under (fun n hn => (hnamed n hn).1) hne hnames hheld.1
    rw [h.readable f hf, hheld.2]
    exact ⟨.ok _, fun _ _ => hne⟩
  | none =>
    refine ⟨?_, nofun⟩
    cases hdisk : d.read (ofSteps (dir ++ names)) with
    | error o => exact .error (.load ..)
    | ok bytes =>
      -- a file that can be read at the place was handed over, too
      have hboth : ∀ n ∈ dir ++ names, IsName n := List.forall_mem_append.2 ⟨h.directory, hnames⟩
      have hfile : (names, bytes) ∈ d.filesUnder dir :=
        mem_filesUnder.2 (mem_of_lookup (Disk.file?_of_read hboth hdisk))
      obtain ⟨hne, -⟩ := h.named _ hfile
      have hgiven : (under names, bytes) ∈ d.handedOver dir := List.mem_map.2 ⟨_, hfile, rfl⟩
      obtain ⟨held, hheld⟩ := exists_held hgiven
      rw [uploadName_under h hfile, ← ofPlainSteps_of_ne_nil hne, hlook] at hheld
      cases hheld

end Files

/-! ## What stands in a document -/

section Documents

theorem schemaOf_sameWay (location location' : String) (bytes : List UInt8) :
    SameWay (schemaOf location bytes) (schemaOf location' bytes) := by
  refine SameWay.bind ?_ fun tree => ?_
  · unfold treeOf
    split
    · exact .ok _
    · exact .error (.load ..)
    · exact .error (.same _)
    · exact .error (.same _)
  · dsimp only
    split
    · exact .ok _
    · exact .error (.load ..)

theorem mem_trim {s : String} {c : Char} (h : c ∈ (Text.trim s).toList) : c ∈ s.toList := by
  rw [Text.trim, String.toList_ofList, Text.trimChars] at h
  have hdropped := (List.dropWhile_suffix _).mem (List.mem_reverse.1 h)
  exact (List.dropWhile_suffix _).mem (List.mem_reverse.1 hdropped)

/-- What a document refers to is written without the zero character. -/
theorem zero_not_mem_path {location path : String} {bytes : List UInt8} {tree : Markup.Tree}
    (h : schemaOf location bytes = .ok tree) {r : Directive} (hr : r ∈ directivesOf tree.content)
    (hpath : r.path? = some path) : '\x00' ∉ path.toList := by
  have hread := ofBytes_of_schemaOf h
  obtain ⟨t, ht, hdirective⟩ := List.mem_filterMap.1 hr
  have hall : Markup.Tree.AllAllowed tree.content := by
    have hallowed := Markup.Document.allowed_ofBytes hread
    cases tree with
    | text s => trivial
    | element n as content => exact hallowed.2
  have htree := Markup.Tree.allAllowed_iff.1 hall t ht
  cases t with
  | text s => cases hdirective
  | element n as content =>
    obtain ⟨c, -, hc⟩ := Option.bind_eq_some_iff.1 hdirective
    split at hc
    · cases hc
      obtain ⟨location, hlocation, htrim⟩ := Option.bind_eq_some_iff.1 hpath
      have hvalue := htree.1 _ (mem_of_lookup hlocation)
      split at htrim
      · cases htrim
      · cases htrim
        exact fun hzero => Markup.zero_not_mem hvalue (mem_trim hzero)
    · cases hc

variable {d : Disk} {dir : List String}

/-- A location that is written in a document of the tree is refused in both ways, or leads to the
same place. -/
theorem resolve_cases (h : d.IsTree dir) {names : List String}
    (hnames : ∀ n ∈ names, IsName n) (hne : names ≠ []) {path : String}
    (hstays : StaysInTree (under names) path) (hzero : '\x00' ∉ path.toList) :
    (∃ target, (∀ n ∈ target, IsName n) ∧
      (Source.ofFiles (d.handedOver dir)).resolve (under names) path =
        .ok (ofPlainSteps false target) ∧
      (Source.disk d).resolve (ofSteps (dir ++ names)) path = .ok (ofSteps (dir ++ target))) ∨
    ∃ e e', (Source.ofFiles (d.handedOver dir)).resolve (under names) path = .error e ∧
      (Source.disk d).resolve (ofSteps (dir ++ names)) path = .error e' ∧ e.SameClass e' := by
  obtain ⟨front, last, rfl⟩ := (List.eq_nil_or_concat' names).resolve_left hne
  obtain ⟨hfront, hlast⟩ := List.forall_mem_append.1 hnames
  have hlast : IsName last := List.forall_mem_singleton.1 hlast
  rw [ofFiles_eq, Source.resolve, Source.resolve]
  by_cases hremote : isRemote path = true
  · rw [if_pos hremote, if_pos hremote]
    exact .inr ⟨_, _, rfl, rfl, .load ..⟩
  obtain ⟨hrooted, hback, hbelow⟩ := hstays.resolve_left hremote
  rw [steps_under (forall_isStep hnames) hne, List.dropLast_concat] at hbelow
  obtain ⟨target, htarget, hupload, hdisk⟩ :=
    resolve_below h.directory hfront hrooted hzero hbelow
  have hboth : ∀ n ∈ dir ++ front, IsName n := List.forall_mem_append.2 ⟨h.directory, hfront⟩
  have hplace : '\x00' ∉ (join (ofSteps (dir ++ front)) path).toList := fun hc => by
    rcases mem_join hc with hc | hc | hc
    · exact zero_not_mem_ofSteps (fun n hn => (hboth n hn).noZero) hc
    · cases hc
    · exact hzero hc
  refine .inl ⟨target, htarget, ?_, ?_⟩
  · rw [if_neg hremote, parent_under hfront hlast, withSlashes_eq hback, hupload]
  · rw [if_neg hremote, ← List.append_assoc, parent_ofSteps hboth hlast, Source.place,
      if_neg (by simpa using hplace), Disk.resolve, hdisk]

end Documents

/-! ## Mirrored loads -/

section Loads

variable {d : Disk} {dir : List String}

/-- Whether a document is there already is the same for both loaders. -/
theorem Mirror.known_iff (h : d.IsTree dir) {held : List (String × List UInt8)} {l l' : Loader}
    (hl : Mirror held d dir l l') {names : List String} (hnames : ∀ n ∈ names, IsName n) :
    ofSteps (dir ++ names) ∈ l'.locations ↔ ofPlainSteps false names ∈ l.locations := by
  have hplaces : l'.locations = l.locations.map (join (ofSteps dir)) := by
    rw [locations, hl.set, locations, SchemaSet.placed, List.map_map, List.map_map]
    rfl
  have hboth {ns : List String} (hns : ∀ n ∈ ns, IsName n) : ∀ n ∈ dir ++ ns, IsName n :=
    List.forall_mem_append.2 ⟨h.directory, hns⟩
  rw [hplaces, List.mem_map]
  constructor
  · rintro ⟨x, hx, hplace⟩
    obtain ⟨ns, hne, hns, rfl⟩ := hl.named x hx
    rw [join_ofSteps_under h.directory hns hne] at hplace
    have hsame := List.append_cancel_left (ofSteps_injective (hboth hns) (hboth hnames) hplace)
    rwa [← hsame, ofPlainSteps_of_ne_nil hne]
  · intro hx
    obtain ⟨ns, hne, hns, hplain⟩ := hl.named _ hx
    have hsame := ofPlainSteps_eq_under hns hne hnames hplain
    refine ⟨under ns, hplain ▸ hx, ?_⟩
    rw [join_ofSteps_under h.directory hns hne, hsame]

theorem enter_mirrors (h : d.IsTree dir) {held : List (String × List UInt8)}
    {names : List String} (hnames : ∀ n ∈ names, IsName n) (hne : names ≠ []) {setting : Setting}
    (hsource : setting.source = under names) (content : List Markup.Tree) :
    Mirrors held d dir (enter setting content)
      (enter (setting.movedTo (ofSteps (dir ++ names))) content) := by
  have hplace : ofSteps (dir ++ names) = join (ofSteps dir) setting.source := by
    rw [hsource, join_ofSteps_under h.directory hnames hne]
  intro l l' hl
  have hread := @read_placed (join (ofSteps dir)) l.set setting content
  rw [← hl.set, ← hplace] at hread
  obtain ⟨e, f, -, hrun⟩ | ⟨e, doc, hdoc, -, hrun⟩ := read_places l.set setting content
  · rw [hrun] at hread
    refine (ensures_enter_of_error hrun).2 fun _ => (ensures_enter_of_error hread).2 ?_
    exact f.sameClass_movedTo _
  · rw [hrun] at hread
    refine (ensures_enter_of_ok hrun).2 ((ensures_enter_of_ok hread).2 ⟨rfl, hl.upload, hl.disk,
      rfl, ?_⟩)
    intro x hx
    obtain ⟨doc', hdoc', rfl⟩ := List.mem_map.1 hx
    rcases List.mem_append.1 hdoc' with hdoc' | hdoc'
    · exact hl.named _ (List.mem_map.2 ⟨doc', hdoc', rfl⟩)
    · rw [List.mem_singleton.1 hdoc']
      exact ⟨names, hne, hnames, hdoc.trans hsource⟩

theorem follow_mirrors (h : d.IsTree dir) {fuel fuel' : Nat} {start : String}
    (inside : (Source.ofFiles (d.handedOver dir)).StaysInTree start)
    (ih : ∀ names, (∀ n ∈ names, IsName n) →
      ReflTransGen (Source.ofFiles (d.handedOver dir)).Refers start (ofPlainSteps false names) →
      ∀ adopted, Mirrors (heldFiles (d.handedOver dir)) d dir
        (loadDocument fuel (ofPlainSteps false names) adopted)
        (loadDocument fuel' (ofSteps (dir ++ names)) adopted))
    {names : List String} (hnames : ∀ n ∈ names, IsName n) (hne : names ≠ [])
    (hreach : ReflTransGen (Source.ofFiles (d.handedOver dir)).Refers start (under names))
    {tree : Markup.Tree}
    (htree : (Source.ofFiles (d.handedOver dir)).schema (under names) = .ok tree) (space : String)
    {r : Directive} (hr : r ∈ directivesOf tree.content) :
    Mirrors (heldFiles (d.handedOver dir)) d dir (follow fuel (under names) space r)
      (follow fuel' (ofSteps (dir ++ names)) space r) := by
  unfold follow
  cases hpath : r.path? with
  | none =>
    dsimp only
    split
    · exact .say _ _
    · exact .fail fun _ => .load ..
  | some path =>
    obtain ⟨bytes, -, hschema⟩ := exists_of_bind htree
    have hstays := inside (under names) hreach tree htree r hr path hpath
    have hresolve := resolve_cases h hnames hne hstays (zero_not_mem_path hschema hr hpath)
    refine .get fun l l' hl => ?_
    rw [hl.upload, hl.disk, ← ofFiles_eq]
    obtain ⟨target, htarget, hupload, hdisk⟩ | ⟨e, e', hupload, hdisk, hsame⟩ := hresolve
    · rw [hupload, hdisk]
      have hrefers : (Source.ofFiles (d.handedOver dir)).Refers (under names)
          (ofPlainSteps false target) := ⟨tree, htree, r, hr, path, hpath, hupload⟩
      exact (Mirrors.say _ _).bind fun _ => ih target htarget (hreach.tail hrefers) _
    · rw [hupload, hdisk]
      exact .bind_lift (.error hsame) fun _ ha => by cases ha

/-- A document of the tree and what it refers to are loaded in both ways, with as many steps for the
load from disk at least. -/
theorem loadDocument_mirrors (h : d.IsTree dir) {start : String}
    (inside : (Source.ofFiles (d.handedOver dir)).StaysInTree start) (fuel : Nat) :
    ∀ fuel', fuel ≤ fuel' → ∀ names, (∀ n ∈ names, IsName n) →
      ReflTransGen (Source.ofFiles (d.handedOver dir)).Refers start (ofPlainSteps false names) →
      ∀ adopted, Mirrors (heldFiles (d.handedOver dir)) d dir
        (loadDocument fuel (ofPlainSteps false names) adopted)
        (loadDocument fuel' (ofSteps (dir ++ names)) adopted) := by
  induction fuel with
  | zero => exact fun _ _ _ _ _ _ _ _ _ hne => absurd rfl hne
  | succ fuel ih =>
    intro fuel' hle names hnames hreach adopted
    obtain ⟨fuel', rfl⟩ : ∃ k, fuel' = k + 1 := ⟨fuel' - 1, by omega⟩
    rw [loadDocument_succ, loadDocument_succ]
    refine .get fun l l' hl => ?_
    have hloaded : l'.isLoaded (ofSteps (dir ++ names)) =
        l.isLoaded (ofPlainSteps false names) := by
      rw [Bool.eq_iff_iff, isLoaded_iff, isLoaded_iff, hl.known_iff h hnames]
    rw [hloaded]
    split
    · exact (Mirrors.say _ _).bind fun _ => .pure ()
    · obtain ⟨hread, hfile⟩ := read_sameWay h hnames
      refine .get fun l l' hl => ?_
      rw [hl.upload, hl.disk, ← ofFiles_eq]
      refine .bind_lift hread fun bytes hbytes => ?_
      have hne := hfile bytes hbytes
      rw [ofPlainSteps_of_ne_nil hne] at hbytes hreach ⊢
      refine .bind_lift (schemaOf_sameWay ..) fun tree htree => ?_
      have hschema : (Source.ofFiles (d.handedOver dir)).schema (under names) = .ok tree := by
        rw [Source.schema, hbytes]
        exact htree
      refine .bind_of (p := (· = directivesOf tree.content)) (enter_mirrors h hnames hne rfl _)
        (fun l => (ensures_enter _ _ l).mono (fun _ _ h => h.1) fun _ _ _ => trivial) ?_
      rintro _ rfl
      exact .forM fun r hr => follow_mirrors h inside
        (ih fuel' (by omega)) hnames hne hreach hschema _ hr

end Loads

/-! ## Whole loads -/

theorem linkAll_mirrors {held : List (String × List UInt8)} {d : Disk} {dir : List String} :
    Mirrors held d dir linkAll linkAll := by
  intro l l' hl
  have hset : l'.set.link = (l.set.link.1.placed (join (ofSteps dir)), l.set.link.2) := by
    rw [hl.set, SchemaSet.placed, link_documents]
    rfl
  have hlinked : Mirror held d dir { l with set := l.set.link.1 } { l' with set := l'.set.link.1 } :=
    ⟨hl.upload, hl.disk, by rw [hset], hl.named⟩
  have hsame : l'.set.link.2 = l.set.link.2 := by rw [hset]
  have hrest : Mirrors held d dir
      (do lift l.set.link.2
          say (.linked l.set.link.1.elements.length l.set.link.1.types.length
            l.set.link.1.groups.length))
      (do lift l'.set.link.2
          say (.linked l'.set.link.1.elements.length l'.set.link.1.types.length
            l'.set.link.1.groups.length)) := by
    refine .bind_lift ?_ fun _ _ => .say _ _
    rw [hsame]
    cases l.set.link.2 with
    | ok => exact .ok _
    | error e => exact .error (.same e)
  exact hrest _ _ hlinked

section

variable {d : Disk} {dir : List String}

theorem length_heldFiles_le (files : List (String × List UInt8)) :
    (heldFiles files).length ≤ files.length := by
  have hle (files : List (String × List UInt8)) : ∀ done : List (String × List UInt8),
      (files.foldl (fun done f => holdFile done (uploadName f.1) f.2) done).length ≤
        done.length + files.length := by
    induction files with
    | nil => exact fun done => Nat.le_refl _
    | cons f files ih =>
      intro done
      have hone : (holdFile done (uploadName f.1) f.2).length ≤ done.length + 1 := by
        unfold holdFile
        split
        · rw [List.length_map]
          omega
        · rw [List.length_append, List.length_singleton]
      have hrest := ih (holdFile done (uploadName f.1) f.2)
      rw [List.length_cons]
      exact hrest.trans (by omega)
  exact (hle files []).trans_eq (Nat.zero_add _)

theorem fileCount_le (d : Disk) (dir : List String) :
    (Source.upload (heldFiles (d.handedOver dir))).fileCount ≤ (Source.disk d).fileCount := by
  have hheld := length_heldFiles_le (d.handedOver dir)
  rw [Disk.handedOver, List.length_map] at hheld
  exact hheld.trans (List.length_filterMap_le _ _)

/-- A load of files that were handed over comes to an end. -/
theorem loadAll_ends (files : List (String × List UInt8)) (primary : String) :
    Ensures (loadAll primary) (ofUpload files) (fun _ _ => True) fun e _ => e ≠ .endless := by
  refine ensures_bind.2 (((readAll_walks_closure files primary).and
    (leads_readAll steps_closed primary (ofUpload files))).mono ?_ fun _ _ h => h.1)
  rintro - l ⟨-, hclosed⟩
  refine (ensures_linkAll_outcome l).mono (fun _ _ _ => trivial) fun e _ he => ?_
  intro hend
  cases Fault.of_link (hclosed SchemaSet.closed_empty) he.2.2 with
  | unresolved =>
    unfold Failure.unresolved at hend
    split at hend <;> cases hend
  | noBase => cases hend
  | circular => cases hend

variable {names : List String} {onDisk inUpload : String}

theorem readAll_mirrors (h : d.IsTree dir) (hnames : ∀ n ∈ names, IsName n) (hne : names ≠ [])
    (hdisk : (Source.disk d).normalize onDisk = .ok (ofSteps (dir ++ names)))
    (hupload : uploadName inUpload = under names)
    (inside : (Source.ofFiles (d.handedOver dir)).StaysInTree (under names)) :
    Mirrors (heldFiles (d.handedOver dir)) d dir (readAll inUpload) (readAll onDisk) := by
  have hstart : (Source.upload (heldFiles (d.handedOver dir))).normalize inUpload =
      .ok (under names) := congrArg Except.ok hupload
  refine .get fun l l' hl => ?_
  rw [hl.upload, hl.disk, hstart, hdisk]
  have hbegin (location : String) (f : String → Load Unit) :
      (lift (.ok location) >>= f) = f location := pure_bind location f
  rw [hbegin, hbegin]
  have hcount := fileCount_le d dir
  refine .get fun l l' hl => ?_
  rw [hl.upload, hl.disk]
  have hdocument := loadDocument_mirrors h inside _ _ (Nat.add_le_add_right hcount 2) names hnames
  rw [ofPlainSteps_of_ne_nil hne] at hdocument
  exact (hdocument .refl none).bind fun _ => .get fun _ _ _ => .say _ _

/-- The files of a directory are loaded from disk as they are when they are handed over under their
locations in it: both loads fail with failures that are reported alike, or both succeed with the same
documents in the same order and the same declarations and tables, the documents of the one lying in
the directory. -/
theorem load_disk_like_upload (h : d.IsTree dir) {bytes : List UInt8}
    (hfile : (names, bytes) ∈ d.filesUnder dir)
    (hdisk : (Source.disk d).normalize onDisk = .ok (ofSteps (dir ++ names)))
    (hupload : uploadName inUpload = under names)
    (inside : (Source.ofFiles (d.handedOver dir)).StaysInTree (under names)) :
    let uploaded := (ofUpload (d.handedOver dir)).load inUpload
    let read := ({ source := .disk d } : Loader).load onDisk
    (∃ e e', uploaded.2 = .error e ∧ read.2 = .error e' ∧ e.SameClass e') ∨
      uploaded.2 = .ok () ∧ read.2 = .ok () ∧
        read.1.set = uploaded.1.set.placed (join (ofSteps dir)) := by
  intro uploaded read
  obtain ⟨hne, hnamed⟩ := h.named _ hfile
  have hmirrors : Mirrors (heldFiles (d.handedOver dir)) d dir (loadAll inUpload)
      (loadAll onDisk) :=
    (readAll_mirrors h (fun n hn => (hnamed n hn).1) hne hdisk hupload inside).bind
      fun _ => linkAll_mirrors
  have hstart : Mirror (heldFiles (d.handedOver dir)) d dir (ofUpload (d.handedOver dir))
      { source := .disk d } := ⟨ofFiles_eq _, rfl, rfl, List.forall_mem_nil _⟩
  have hrun := (hmirrors _ _ hstart).and (loadAll_ends (d.handedOver dir) inUpload)
  cases huploaded : uploaded.2 with
  | ok =>
    have hdone := (load_ok hrun huploaded).1
    cases hread : read.2 with
    | ok => exact .inr ⟨rfl, rfl, (load_ok hdone hread).2.set⟩
    | error e => exact (load_error hdone hread).elim
  | error e =>
    have hfailed := (load_error hrun huploaded).1 (load_error hrun huploaded).2
    cases hread : read.2 with
    | ok => exact (load_ok hfailed hread).elim
    | error e' => exact .inl ⟨e, e', rfl, rfl, load_error hfailed hread⟩

end

/-! ## A tree of three documents -/

/-- What can be checked of the files one by one. -/
theorem staysInTree_of_files {files : List (String × List UInt8)} {start : String}
    (h : ∀ f ∈ heldFiles files, ∀ tree ∈ (schemaOf f.1 f.2).toOption,
      ∀ r ∈ directivesOf tree.content, ∀ path ∈ r.path?, StaysInTree f.1 path) :
    (Source.ofFiles files).StaysInTree start := by
  intro document _ tree htree
  obtain ⟨bytes, hread, hschema⟩ := exists_of_bind htree
  rw [ofFiles_eq, Source.read] at hread
  split at hread
  · rename_i found hfound
    cases hread
    exact h _ (mem_of_lookup hfound) tree (by rw [hschema]; rfl)
  · cases hread

/-- The first document leads to the second in a directory beside it, and that back up to the third. -/
def treeFiles : List (List String × List UInt8) :=
  [(["t", "a"], schemaBytes "" "<include schemaLocation=\"s//./b\"/><element name=\"x\"/>"),
    (["t", "s", "b"], schemaBytes "" "<include schemaLocation=\"../s/../c\"/>"),
    (["t", "c"], schemaBytes "" "<complexType name=\"u\"/>")]

def treeDisk : Disk := { here := ["w"], files := treeFiles, directories := [] }

theorem isTree_treeDisk : treeDisk.IsTree ["t"] where
  directory := by decide
  named := by decide +kernel
  readable := by decide +kernel

theorem staysInTree_treeDisk :
    (Source.ofFiles (treeDisk.handedOver ["t"])).StaysInTree (under ["a"]) :=
  staysInTree_of_files (by decide +kernel)

theorem treeDisk_like_upload :
    let uploaded := (ofUpload (treeDisk.handedOver ["t"])).load "a"
    let read := ({ source := .disk treeDisk } : Loader).load "../t/a"
    uploaded.2 = .ok () ∧ uploaded.1.locations = ["a", "s/b", "c"] ∧
      ((∃ e e', uploaded.2 = .error e ∧ read.2 = .error e' ∧ e.SameClass e') ∨
        uploaded.2 = .ok () ∧ read.2 = .ok () ∧
          read.1.set = uploaded.1.set.placed (join (ofSteps ["t"]))) := by
  have hloaded : ((ofUpload (treeDisk.handedOver ["t"])).load "a").2 = .ok () ∧
      ((ofUpload (treeDisk.handedOver ["t"])).load "a").1.locations = ["a", "s/b", "c"] := by
    decide +kernel
  have hfile : (["a"], schemaBytes "" "<include schemaLocation=\"s//./b\"/><element name=\"x\"/>") ∈
      treeDisk.filesUnder ["t"] := mem_filesUnder.2 List.mem_cons_self
  exact ⟨hloaded.1, hloaded.2, load_disk_like_upload isTree_treeDisk hfile (by decide) (by decide)
    staysInTree_treeDisk⟩

end Loader
end Schema
end SchemaPaths
