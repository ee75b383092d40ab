/-
What an element keeps of attributes of other namespaces.

Such an attribute is kept under its expanded name and under one prefixed name, though its namespace
may have several prefixes: the one that was declared first.  No two attributes share a key, so what
is looked up under a prefixed name is the attribute of the namespace that the prefix stands for, if
the prefix is the first of that, and nothing otherwise.
-/
import SchemaPaths.Proofs.Markup.Giving
import SchemaPaths.Proofs.Markup.Searching
import SchemaPaths.Proofs.Schema.StartTags

namespace SchemaPaths
namespace Markup

/-! ## Prefixes that are found -/

namespace Prefixes

section Lists

variable {ds : List (String × String)} {ps : Prefixes} {p u : String}

/-- Each prefix is found with the namespace that it is listed with. -/
def Settled (ps : Prefixes) : Prop := ∀ d ∈ ps, ps.lookup d.1 = some d.2

theorem Settled.add (h : Settled ps) (d : String × String) : Settled (add ps d) := by
  intro e he
  rw [lookup_add]
  unfold Prefixes.add at he
  split at he
  · rw [h e he, Option.some_or]
  · rename_i hnew
    rcases List.mem_append.1 he with he | he
    · rw [h e he, Option.some_or]
    · obtain rfl := List.mem_singleton.1 he
      rw [Option.not_isSome_iff_eq_none.1 hnew, Option.none_or]
      exact List.lookup_cons_self

theorem settled_ofDeclarations (ds : List (String × String)) : Settled (ofDeclarations ds) :=
  List.foldlRecOn ds add (by simp [Settled]) fun _ h d _ => h.add d

theorem mem_of_prefixOf? (h : ps.prefixOf? u = some p) : (p, u) ∈ ps ∧ p ≠ "" := by
  obtain ⟨⟨q, w⟩, hfind, rfl⟩ := Option.map_eq_some_iff.1 h
  have hfound := List.find?_some hfind
  simp only [Bool.and_eq_true, beq_iff_eq, bne_iff_ne] at hfound
  obtain ⟨rfl, hp⟩ := hfound
  exact ⟨List.mem_of_find?_eq_some hfind, hp⟩

theorem Settled.lookup_of_prefixOf? (hs : Settled ps) (h : ps.prefixOf? u = some p) :
    ps.lookup p = some u := hs _ (mem_of_prefixOf? h).1

/-- A prefix is the first of its namespace if it is the only one. -/
theorem prefixOf?_of_only (hmem : (p, u) ∈ ps) (hp : p ≠ "")
    (honly : ∀ d ∈ ps, d.2 = u → d.1 = p ∨ d.1 = "") : ps.prefixOf? u = some p := by
  have hsome : (ps.prefixOf? u).isSome := by
    rw [prefixOf?, Option.isSome_map, List.find?_isSome]
    exact ⟨(p, u), hmem, by simpa using hp⟩
  obtain ⟨q, hq⟩ := Option.isSome_iff_exists.1 hsome
  obtain ⟨hq', hne⟩ := mem_of_prefixOf? hq
  have heq : q = p := (honly (q, u) hq' rfl).resolve_right hne
  rw [hq, heq]

theorem mem_ofDeclarations {d : String × String} (h : d ∈ ofDeclarations ds) :
    d = ("xml", xmlSpace) ∨ d ∈ ds := by
  refine List.foldlRecOn (motive := fun ps => d ∈ ps → d = ("xml", xmlSpace) ∨ d ∈ ds) ds add
    (fun h => .inl (List.mem_singleton.1 h)) (fun ps hps e he h => ?_) h
  unfold add at h
  split at h
  · exact hps h
  · rcases List.mem_append.1 h with h | h
    · exact hps h
    · exact .inr (List.mem_singleton.1 h ▸ he)

end Lists

/-! ## The letters of prefixes -/

/-- All prefixes are of the letters that are searched for. -/
def Lettered (ps : Prefixes) : Prop := ∀ d ∈ ps, ∀ c ∈ d.1.toList, isPrefixChar c

theorem lettered_declaration? {cs rest : List Char} {d : String × String}
    (h : declaration? cs = some (d, rest)) : ∀ c ∈ d.1.toList, isPrefixChar c := by
  rw [declaration?.eq_def] at h
  split at h
  · rename_i text
    dsimp only at h
    split at h
    · cases h
    · obtain ⟨_, -, ⟨⟩⟩ := Option.map_eq_some_iff.1 h
      rw [String.toList_ofList]
      exact List.all_eq_true.1 List.all_takeWhile
  · obtain ⟨_, -, ⟨⟩⟩ := Option.map_eq_some_iff.1 h
    exact List.forall_mem_nil _
  · cases h

theorem lettered_declarationsFrom (fuel : Nat) (cs : List Char) :
    Lettered (declarationsFrom fuel cs) := by
  fun_induction declarationsFrom fuel cs with
  | case1 => exact nofun
  | case2 => exact nofun
  | case3 fuel c cs d rest found ih =>
    exact List.forall_mem_cons.2 ⟨lettered_declaration? found, ih⟩
  | case4 fuel c cs none ih => exact ih

theorem lettered_ofBytes (bytes : List UInt8) : Lettered (ofBytes bytes) := by
  intro d hd
  rcases mem_ofDeclarations hd with rfl | hd
  · exact List.all_eq_true.1 rfl
  · exact lettered_declarationsFrom _ _ d hd

end Prefixes
end Markup

namespace Schema
open Markup (Name Tree Prefixes)

namespace Declaring

/-! ## Keys -/

/-- What an attribute is kept under. -/
def extraKeys (ps : Prefixes) (n : Name) : List String :=
  if n.space == "" || n.space == xsSpace then []
  else match ps.prefixOf? n.space with
    | some p => [n.text, p ++ ":" ++ n.localPart]
    | none => [n.text]

theorem extras_cons (s : Setting) (n : Name) (v : String) (as : Attributes) :
    extras s ((n, v) :: as) = (extraKeys s.prefixes n).map (·, v) ++ extras s as := by
  unfold extras extraKeys
  rw [List.flatMap_cons]
  congr 1
  dsimp only
  split
  · rfl
  · cases s.prefixes.prefixOf? n.space <;> rfl

section Keys

variable {ps : Prefixes} {s : Setting} {as : Attributes} {m n : Name} {k p u x : String}

theorem mem_extraKeys : k ∈ extraKeys ps n ↔ (n.space ≠ "" ∧ n.space ≠ xsSpace) ∧
    (k = n.text ∨ ∃ p, ps.prefixOf? n.space = some p ∧ k = p ++ ":" ++ n.localPart) := by
  unfold extraKeys
  split
  · rename_i hown
    have hno : ¬ (n.space ≠ "" ∧ n.space ≠ xsSpace) := by
      simpa [or_iff_not_imp_left] using hown
    simp [hno]
  · rename_i hforeign
    have hspace : n.space ≠ "" ∧ n.space ≠ xsSpace := by simpa using hforeign
    split
    · rename_i p hp
      simp [hspace, hp]
    · rename_i hp
      simp [hspace, hp]

theorem lookup_map_of_mem {keys : List String} {v : String} (h : k ∈ keys) :
    (keys.map (·, v)).lookup k = some v := by
  induction keys with
  | nil => cases h
  | cons l keys ih =>
    by_cases hl : k = l
    · simp [hl]
    · rw [List.map_cons, List.lookup_cons, beq_false_of_ne hl]
      exact ih ((List.mem_cons.1 h).resolve_left hl)

theorem lookup_map_of_not_mem {keys : List String} {v : String} (h : k ∉ keys) :
    (keys.map (·, v)).lookup k = none := by
  rw [List.lookup_eq_none_iff]
  intro e he
  obtain ⟨l, hl, rfl⟩ := List.mem_map.1 he
  simpa using fun heq : k = l => h (heq ▸ hl)

/-- Under a key that no other attribute shares the attribute is found. -/
theorem lookup_extras (hkey : k ∈ extraKeys s.prefixes n)
    (honly : ∀ a ∈ as, k ∈ extraKeys s.prefixes a.1 → a.1 = n) :
    (extras s as).lookup k = as.lookup n := by
  induction as with
  | nil => rfl
  | cons a as ih =>
    obtain ⟨m, w⟩ := a
    obtain ⟨hfirst, hrest⟩ := List.forall_mem_cons.1 honly
    rw [extras_cons, List.lookup_append, ih hrest]
    by_cases hm : m = n
    · rw [hm, lookup_map_of_mem hkey, Option.some_or, List.lookup_cons_self]
    · rw [lookup_map_of_not_mem fun hmem => hm (hfirst hmem), List.lookup_cons,
        beq_false_of_ne (Ne.symm hm), Option.none_or]

/-- Under what is the key of none nothing is found. -/
theorem lookup_extras_eq_none (h : ∀ a ∈ as, k ∉ extraKeys s.prefixes a.1) :
    (extras s as).lookup k = none := by
  induction as with
  | nil => rfl
  | cons a as ih =>
    obtain ⟨hfirst, hrest⟩ := List.forall_mem_cons.1 h
    rw [extras_cons, List.lookup_append, lookup_map_of_not_mem hfirst, Option.none_or, ih hrest]

/-! ## What is found -/

/-- Texts that are parted by a mark which neither has before it are the same if their parts are. -/
theorem eq_of_append_cons {c : Char} {cs cs' ds ds' : List Char} (h : c ∉ cs) (h' : c ∉ cs')
    (heq : cs ++ c :: ds = cs' ++ c :: ds') : cs = cs' ∧ ds = ds' := by
  induction cs generalizing cs' with
  | nil =>
    cases cs' with
    | nil => exact ⟨rfl, (List.cons.inj heq).2⟩
    | cons d cs' => exact absurd ((List.cons.inj heq).1 ▸ List.mem_cons_self) h'
  | cons d cs ih =>
    cases cs' with
    | nil => exact absurd ((List.cons.inj heq).1 ▸ List.mem_cons_self) h
    | cons d' cs' =>
      obtain ⟨rfl, hrest⟩ := List.cons.inj heq
      obtain ⟨rfl, rfl⟩ := ih (List.not_mem_of_not_mem_cons h) (List.not_mem_of_not_mem_cons h')
        hrest
      exact ⟨rfl, rfl⟩

theorem toList_text (h : n.space ≠ "") :
    n.text.toList = '\x7b' :: (n.space.toList ++ '\x7d' :: n.localPart.toList) := by
  simp [Name.text, h]

/-- Names in braces are told apart by what is in them and behind them. -/
theorem text_inj (hm : m.space ≠ "") (hn : n.space ≠ "") (hm' : '\x7d' ∉ m.space.toList)
    (hn' : '\x7d' ∉ n.space.toList) (h : m.text = n.text) : m = n := by
  have hlist := congrArg String.toList h
  rw [toList_text hm, toList_text hn] at hlist
  obtain ⟨hspace, hlocal⟩ := eq_of_append_cons hm' hn' (List.cons.inj hlist).2
  exact congrArg₂ Name.mk (String.toList_inj.1 hspace) (String.toList_inj.1 hlocal)

/-- A prefixed name is no name in braces. -/
theorem prefixed_ne_text (hp : ∀ c ∈ p.toList, Prefixes.isPrefixChar c) (hn : n.space ≠ "") :
    p ++ ":" ++ x ≠ n.text := by
  intro h
  have hlist := congrArg String.toList h
  rw [toList_text hn, String.toList_append, String.toList_append] at hlist
  cases hcs : p.toList with
  | nil =>
    rw [hcs] at hlist
    cases hlist
  | cons c cs =>
    rw [hcs] at hlist
    have hc := hp c (hcs ▸ List.mem_cons_self)
    rw [(List.cons.inj hlist).1] at hc
    exact absurd hc (by decide)

theorem prefixed_inj {q y : String} (hp : ∀ c ∈ p.toList, Prefixes.isPrefixChar c)
    (hq : ∀ c ∈ q.toList, Prefixes.isPrefixChar c) (h : p ++ ":" ++ x = q ++ ":" ++ y) :
    p = q ∧ x = y := by
  have hcolon {r : String} (hr : ∀ c ∈ r.toList, Prefixes.isPrefixChar c) : ':' ∉ r.toList :=
    fun hmem => absurd (hr _ hmem) (by decide)
  have hlist := congrArg String.toList h
  simp only [String.toList_append, List.append_assoc] at hlist
  obtain ⟨hpre, hlocal⟩ := eq_of_append_cons (hcolon hp) (hcolon hq) hlist
  exact ⟨String.toList_inj.1 hpre, String.toList_inj.1 hlocal⟩

/-- An attribute of another namespace is found under its expanded name. -/
theorem lookup_extras_text (hps : s.prefixes.Lettered)
    (has : ∀ a ∈ as, '\x7d' ∉ a.1.space.toList) (hspace : n.space ≠ "") (hown : n.space ≠ xsSpace)
    {v : String} (h : as.lookup n = some v) : (extras s as).lookup n.text = some v := by
  have hn : '\x7d' ∉ n.space.toList := by
    obtain ⟨before, after, heq, -⟩ := List.lookup_eq_some_iff.1 h
    exact has (n, v) (heq ▸ List.mem_append_right _ List.mem_cons_self)
  have hkey : n.text ∈ extraKeys s.prefixes n := mem_extraKeys.2 ⟨⟨hspace, hown⟩, .inl rfl⟩
  rw [lookup_extras hkey fun a ha hmem => ?_, h]
  obtain ⟨⟨ha', -⟩, htext | ⟨p, hp, hkey⟩⟩ := mem_extraKeys.1 hmem
  · exact text_inj ha' hspace (has a ha) hn htext.symm
  · have hletters := hps _ (Prefixes.mem_of_prefixOf? hp).1
    exact absurd hkey.symm (prefixed_ne_text hletters hspace)

/-- The attribute that has a prefixed name among its keys is of the namespace that is found for the
prefix. -/
theorem eq_of_mem_extraKeys (hps : ps.Settled) (hletters : ps.Lettered)
    (hlookup : ps.lookup p = some u) (h : p ++ ":" ++ x ∈ extraKeys ps m) :
    ps.prefixOf? u = some p ∧ m = ⟨u, x⟩ := by
  have hp : ∀ c ∈ p.toList, Prefixes.isPrefixChar c := by
    obtain ⟨before, after, heq, -⟩ := List.lookup_eq_some_iff.1 hlookup
    exact hletters (p, u) (heq ▸ List.mem_append_right _ List.mem_cons_self)
  obtain ⟨⟨hm, -⟩, htext | ⟨q, hq, hkey⟩⟩ := mem_extraKeys.1 h
  · exact absurd htext (prefixed_ne_text hp hm)
  · have hq' := hletters _ (Prefixes.mem_of_prefixOf? hq).1
    obtain ⟨rfl, rfl⟩ := prefixed_inj hp hq' hkey
    have hspace : m.space = u :=
      Option.some.inj ((hps.lookup_of_prefixOf? hq).symm.trans hlookup)
    subst hspace
    exact ⟨hq, rfl⟩

/-- Under a prefixed name the attribute of the namespace of the prefix is found, if that has no
other prefix before it, and otherwise nothing is. -/
theorem lookup_extras_prefixed (hps : s.prefixes.Settled) (hletters : s.prefixes.Lettered)
    (hlookup : s.prefixes.lookup p = some u) (hspace : u ≠ "") (hown : u ≠ xsSpace) :
    (extras s as).lookup (p ++ ":" ++ x) =
      if s.prefixes.prefixOf? u = some p then as.lookup ⟨u, x⟩ else none := by
  split
  · rename_i hfirst
    have hkey : p ++ ":" ++ x ∈ extraKeys s.prefixes ⟨u, x⟩ :=
      mem_extraKeys.2 ⟨⟨hspace, hown⟩, .inr ⟨p, hfirst, rfl⟩⟩
    exact lookup_extras hkey fun a _ hmem => (eq_of_mem_extraKeys hps hletters hlookup hmem).2
  · rename_i hother
    exact lookup_extras_eq_none fun a _ hmem =>
      hother (eq_of_mem_extraKeys hps hletters hlookup hmem).1

end Keys

/-! ## Start tags of a tree -/

section Tags

variable {P : Name × String → Prop}

/-- All attributes in the start tags satisfy `P`. -/
def TagsBear (P : Name × String → Prop) (tags : List Attributes) : Prop :=
  ∀ as ∈ tags, ∀ a ∈ as, P a

theorem tagsBear_nil : TagsBear P [] := List.forall_mem_nil _

theorem TagsBear.append {tags more : List Attributes} (h : TagsBear P tags)
    (h' : TagsBear P more) : TagsBear P (tags ++ more) := List.forall_mem_append.2 ⟨h, h'⟩

theorem TagsBear.getD {o : Option (List Attributes)} {tags : List Attributes}
    (h : ∀ ts ∈ o, TagsBear P ts) (h' : TagsBear P tags) : TagsBear P (o.getD tags) := by
  cases o with
  | none => exact h'
  | some ts => exact h ts rfl

theorem TagsBear.of_eq {tags ts : List Attributes} (h : TagsBear P tags) :
    ts ∈ some tags → TagsBear P ts := fun hts => Option.some.inj hts ▸ h

mutual

theorem inlineTags_bear : ∀ t : Tree, t.Bears P → TagsBear P (inlineTags t)
  | .text _, _ => tagsBear_nil
  | .element n _ content, h => by
    rw [Tree.Bears] at h
    rw [inlineTags]
    split
    · exact .getD (modelTags_bear content h.2) (particleTags_bear content h.2)
    · exact tagsBear_nil

theorem inlineTagsList_bear : ∀ ts : List Tree, Tree.AllBear P ts → TagsBear P (inlineTagsList ts)
  | [], _ => tagsBear_nil
  | t :: ts, h => by
    rw [Tree.AllBear] at h
    rw [inlineTagsList]
    exact (inlineTags_bear t h.1).append (inlineTagsList_bear ts h.2)

theorem itemTags_bear : ∀ t : Tree, t.Bears P → TagsBear P (itemTags t)
  | .text _, _ => tagsBear_nil
  | .element n as content, h => by
    rw [Tree.Bears] at h
    rw [itemTags]
    split
    · exact (inlineTagsList_bear content h.2).append (List.forall_mem_singleton.2 h.1)
    · exact itemTagsList_bear content h.2
    · exact itemTagsList_bear content h.2
    · exact tagsBear_nil

theorem itemTagsList_bear : ∀ ts : List Tree, Tree.AllBear P ts → TagsBear P (itemTagsList ts)
  | [], _ => tagsBear_nil
  | t :: ts, h => by
    rw [Tree.AllBear] at h
    rw [itemTagsList]
    exact (itemTags_bear t h.1).append (itemTagsList_bear ts h.2)

theorem particleTags?_bear : ∀ t : Tree, t.Bears P → ∀ ts ∈ particleTags? t, TagsBear P ts
  | .text _, _ => by
    rw [particleTags?]
    exact nofun
  | .element n as content, h => by
    rw [Tree.Bears] at h
    rw [particleTags?]
    intro ts
    split
    · exact (itemTagsList_bear content h.2).of_eq
    · exact (itemTagsList_bear content h.2).of_eq
    · exact (itemTagsList_bear content h.2).of_eq
    · split
      · exact nofun
      · exact tagsBear_nil.of_eq
    · exact nofun

theorem particleTags_bear : ∀ ts : List Tree, Tree.AllBear P ts → TagsBear P (particleTags ts)
  | [], _ => by
    rw [particleTags]
    exact tagsBear_nil
  | t :: ts, h => by
    rw [Tree.AllBear] at h
    rw [particleTags]
    exact .getD (particleTags?_bear t h.1) (particleTags_bear ts h.2)

theorem derivedTags?_bear : ∀ t : Tree, t.Bears P → ∀ ts ∈ derivedTags? t, TagsBear P ts
  | .text _, _ => by
    rw [derivedTags?]
    exact nofun
  | .element n _ content, h => by
    rw [Tree.Bears] at h
    rw [derivedTags?]
    intro ts
    split
    · exact (particleTags_bear content h.2).of_eq
    · exact (particleTags_bear content h.2).of_eq
    · exact nofun

theorem derivedTags_bear : ∀ ts : List Tree, Tree.AllBear P ts → TagsBear P (derivedTags ts)
  | [], _ => by
    rw [derivedTags]
    exact tagsBear_nil
  | t :: ts, h => by
    rw [Tree.AllBear] at h
    rw [derivedTags]
    exact .getD (derivedTags?_bear t h.1) (derivedTags_bear ts h.2)

theorem modelTags?_bear : ∀ t : Tree, t.Bears P → ∀ ts ∈ modelTags? t, TagsBear P ts
  | .text _, _ => by
    rw [modelTags?]
    exact nofun
  | .element n _ content, h => by
    rw [Tree.Bears] at h
    rw [modelTags?]
    intro ts
    split
    · exact (derivedTags_bear content h.2).of_eq
    · exact (derivedTags_bear content h.2).of_eq
    · exact nofun

theorem modelTags_bear : ∀ ts : List Tree, Tree.AllBear P ts → ∀ us ∈ modelTags ts, TagsBear P us
  | [], _ => by
    rw [modelTags]
    exact nofun
  | t :: ts, h => by
    rw [Tree.AllBear] at h
    rw [modelTags]
    intro us hus
    rcases Option.or_eq_some_iff.1 hus with hus | ⟨-, hus⟩
    · exact modelTags?_bear t h.1 us hus
    · exact modelTags_bear ts h.2 us hus

end

theorem topTags_bear {t : Tree} (h : t.Bears P) : TagsBear P (topTags t) := by
  cases t with
  | text => exact tagsBear_nil
  | element n as content =>
    rw [Tree.Bears] at h
    rw [topTags]
    split
    · exact (inlineTagsList_bear content h.2).append (List.forall_mem_singleton.2 h.1)
    · exact .getD (modelTags_bear content h.2) (particleTags_bear content h.2)
    · exact particleTags_bear content h.2
    · exact tagsBear_nil

/-- What holds of the attributes of a document holds in the start tags of its declarations. -/
theorem elementTags_bear {t : Tree} (h : t.Bears P) : TagsBear P (elementTags t.content) := by
  cases t with
  | text => exact tagsBear_nil
  | element n as content =>
    rw [Tree.Bears] at h
    intro as has
    obtain ⟨t, ht, has⟩ := List.mem_flatMap.1 has
    exact topTags_bear (Tree.allBear_iff.1 h.2 t ht) as has

end Tags

end Declaring
end Schema
end SchemaPaths
