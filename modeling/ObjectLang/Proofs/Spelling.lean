import ObjectLang.Syntax.Numbering
import ObjectLang.Proofs.Labels
import ObjectLang.Proofs.TreeShape

/-! # How declarations are spelled

Longer names are put together from the declared ones with dots, brackets and marks.  If no declared
name has one of these characters, what was put together can be taken apart again.
-/

namespace ObjectLang

/-- The name has none of the characters that longer names are put together with; so has every name
of letters, digits and underscores. -/
def Plain (s : String) : Prop := '.' ∉ s.toList ∧ '<' ∉ s.toList ∧ Unmarked s

instance (s : String) : Decidable (Plain s) := inferInstanceAs (Decidable (_ ∧ _))

/-- A text can be taken apart at a character that its pieces do not have. -/
theorem intercalate_inj {c : Char} {xs ys : List String} (hxs : ∀ x ∈ xs, c ∉ x.toList)
    (hx : xs ≠ []) (hys : ∀ y ∈ ys, c ∉ y.toList) (hy : ys ≠ []) :
    (String.singleton c).intercalate xs = (String.singleton c).intercalate ys ↔ xs = ys := by
  refine ⟨fun h => ?_, congrArg _⟩
  have hsplit {zs : List String} (hzs : ∀ z ∈ zs, c ∉ z.toList) (hz : zs ≠ []) :
      ((String.singleton c).intercalate zs).toList.splitOn c = zs.map (·.toList) := by
    rw [String.toList_intercalate, String.toList_singleton]
    refine List.splitOn_intercalate c (fun l hl => ?_) (by simpa using hz)
    obtain ⟨z, hmem, rfl⟩ := List.mem_map.mp hl
    exact hzs z hmem
  refine List.map_injective_iff.mpr (fun _ _ => String.toList_inj.mp) ?_
  rw [← hsplit hxs hx, ← hsplit hys hy, h]

end ObjectLang

/-! ### As written -/

namespace ObjectLang.Syntax

variable {α β γ : Type}

/-- What is declared and may be linked: functions, structures and the members of these. -/
def Decl.names : Decl α → List String
  | .function f => [f.name]
  | .cls c => c.name :: (c.init.toList ++ c.methods).map (·.name)
  | .protocol p => p.name :: p.methods.map (·.name)
  | .enum e => [e.name]

/-- The namespace of a file and the names that it declares. -/
def File.outline (f : File α) : List String × List (List String) := (f.ns, f.decls.map (·.names))

/-- All names of the file are plain, and there is one for each part of its namespace. -/
def File.Plain (f : File α) : Prop :=
  (∀ x ∈ f.outline.1, x ≠ "" ∧ ObjectLang.Plain x) ∧
    ∀ xs ∈ f.outline.2, ∀ x ∈ xs, ObjectLang.Plain x

instance (f : File α) : Decidable f.Plain := inferInstanceAs (Decidable (_ ∧ _))

theorem File.Plain.path {f : File α} (h : f.Plain) : ∀ x ∈ f.ns, x ≠ "" ∧ ObjectLang.Plain x := h.1

theorem File.Plain.names {f : File α} (h : f.Plain) {d : Decl α} (hd : d ∈ f.decls) :
    ∀ x ∈ d.names, ObjectLang.Plain x := h.2 _ (List.mem_map_of_mem hd)

theorem Decl.name_mem_names {d : Decl Mark} {decl : Scope.StructureDecl}
    (h : d.structure? = some decl) :
    decl.name ∈ d.names := by
  cases d <;> cases h <;> exact List.mem_cons_self

theorem Decl.member_mem_names {d : Decl Mark} {decl : Scope.StructureDecl}
    (h : d.structure? = some decl) {kind : Scope.FunctionKind} {g : Function Mark}
    (hg : (kind, g) ∈ decl.members) : g.name ∈ d.names := by
  cases d <;> cases h <;> grind [Scope.StructureDecl.members, Decl.names]

theorem Numbering.map_mapM {g : α → Numbering β} {k : β → γ} {k' : α → γ}
    (hg : ∀ a c, k ((g a).run c).1 = k' a) (as : List α) (c : Counter) :
    ((as.mapM g).run c).1.map k = as.map k' := by
  induction as generalizing c with
  | nil => rfl
  | cons a as ih =>
    rw [List.mapM_cons]
    exact congrArg₂ List.cons (hg a c) (ih _)

theorem Function.name_number (file : Nat) (f : Function Hint) (c : Counter) :
    ((f.number file).run c).1.name = f.name := by
  obtain ⟨_, _, _, _, _, _, body, _, _⟩ := f
  cases body <;> rfl

theorem Decl.names_number (file : Nat) (d : Decl Hint) (c : Counter) :
    ((d.number file).run c).1.names = d.names := by
  have hmethods (fs : List (Function Hint)) (c : Counter) :
      ((fs.mapM (Function.number file)).run c).1.map (·.name) = fs.map (·.name) :=
    Numbering.map_mapM (Function.name_number file) fs c
  have hinit (f : Option (Function Hint)) (c : Counter) :
      ((Function.numberOption file f).run c).1.toList.map (·.name) = f.toList.map (·.name) := by
    cases f with
    | none => rfl
    | some f => exact congrArg (fun n => [n]) (f.name_number file c)
  cases d with
  | function f => exact congrArg (fun n => [n]) (f.name_number file c)
  | cls cls =>
    refine congrArg (cls.name :: ·) ?_
    rw [List.map_append, List.map_append]
    exact congrArg₂ (· ++ ·) (hinit cls.init _) (hmethods cls.methods _)
  | protocol p => exact congrArg (p.name :: ·) (hmethods p.methods _)
  | enum e => rfl

theorem outline_numberFiles (files : List (File Hint)) :
    (numberFiles files).1.map (·.outline) = files.map (·.outline) :=
  Numbering.map_mapM (fun f _ =>
    congrArg (f.ns, ·) (Numbering.map_mapM (Decl.names_number f.id) f.decls _))
    files {}

theorem plain_numberFiles {files : List (File Hint)} (h : ∀ f ∈ files, f.Plain) :
    ∀ f ∈ (numberFiles files).1, f.Plain := by
  intro f hf
  have hmem := List.mem_map_of_mem (f := File.outline) hf
  rw [outline_numberFiles] at hmem
  obtain ⟨f', hf', heq⟩ := List.mem_map.mp hmem
  rw [File.Plain, ← heq]
  exact h f' hf'

end ObjectLang.Syntax

/-! ### In the tree -/

namespace ObjectLang.Scope

open Syntax

namespace Tree

variable {t t' : Tree} {ns : NamespaceId}

/-- The namespace is the one of a path of plain names. -/
def Clear (t : Tree) (ns : NamespaceId) : Prop :=
  ∃ path, t.lookup path = some ns ∧ ∀ x ∈ path, x ≠ "" ∧ Plain x

theorem clear_root (t : Tree) : t.Clear root := ⟨[], rfl, by simp⟩

theorem Clear.deepens (h : t.Clear ns) (hdeepens : t.Deepens t') : t'.Clear ns :=
  h.imp fun _ hpath => ⟨hdeepens.lookupFrom hpath.1, hpath.2⟩

theorem Clear.segments (h : t.Clear ns) (ht : t.Rooted) :
    ns < t.namespaces.size ∧ ∀ x ∈ t.segments ns, x ≠ "" ∧ Plain x := by
  obtain ⟨path, hlookup, hpath⟩ := h
  obtain ⟨hlt, hsegments⟩ := ht.segments_lookup hlookup
  exact ⟨hlt, hsegments ▸ hpath⟩

/-- All that is declared has a plain name and stands in a namespace that has a plain path; and what
stands in a namespace itself is a free function or an extension. -/
structure Spelled (t : Tree) : Prop where
  names : ∀ f, Plain (t.functionAt f).name
  functions : ∀ {f ns}, (t.functionAt f).owner = .ns ns → t.Clear ns ∧
    ((t.functionAt f).kind = .free ∨ (t.functionAt f).kind = .extension)
  structures : ∀ s, Plain (t.structureAt s).name ∧ t.Clear (t.structureAt s).ns
  declared : ∀ s, (t.structureAt s).decl.name = (t.structureAt s).name

namespace Spelled

/-- The declarations are the same, and their namespaces are still there. -/
theorem keep (h : t.Spelled) (hfunctions : t'.functions = t.functions)
    (hstructures : t'.structures = t.structures) (hdeepens : t.Deepens t') : t'.Spelled := by
  have hfunction (f : SymbolId) : t'.functionAt f = t.functionAt f := by
    rw [functionAt, hfunctions, functionAt]
  have hstructure (s : StructureId) : t'.structureAt s = t.structureAt s := by
    rw [structureAt, hstructures, structureAt]
  refine ⟨fun f => ?_, fun {f ns} howner => ?_, fun s => ?_, fun s => hstructure s ▸ h.declared s⟩
  · rw [hfunction]
    exact h.names f
  · rw [hfunction] at howner ⊢
    exact (h.functions howner).imp_left (·.deepens hdeepens)
  · rw [hstructure]
    exact (h.structures s).imp_right (·.deepens hdeepens)

theorem enters (h : t.Spelled) {sym : FunctionSymbol} (henters : t.Enters sym t')
    (hname : Plain sym.name)
    (howner : ∀ ns, sym.owner = .ns ns → t.Clear ns ∧ (sym.kind = .free ∨ sym.kind = .extension)) :
    t'.Spelled := by
  have hdeepens := henters.sameLinks.deepens
  refine ⟨fun f => ?_, fun {f ns} hns => ?_, fun s => ?_, fun s => ?_⟩
  · rw [henters.functionAt]
    split
    · exact hname
    · exact h.names f
  · rw [henters.functionAt] at hns ⊢
    split at hns
    · next heq =>
      rw [if_pos heq]
      exact (howner ns hns).imp_left (·.deepens hdeepens)
    · next heq =>
      rw [if_neg heq]
      exact (h.functions hns).imp_left (·.deepens hdeepens)
  · obtain ⟨hns, -, hname'⟩ := henters.structureAt s
    rw [hns, hname']
    exact (h.structures s).imp_right (·.deepens hdeepens)
  · obtain ⟨-, hdecl, hname'⟩ := henters.structureAt s
    rw [hdecl, hname']
    exact h.declared s

theorem settle (h : t.Spelled) {file : Nat} {decl : StructureDecl}
    (hsettled : t.Settled ns file decl decl.name t') (hname : Plain decl.name) (hns : t.Clear ns) :
    t'.Spelled := by
  have hdeepens := hsettled.links.deepens
  refine ⟨fun f => ?_, fun {f ns'} howner => ?_, fun s => ?_, fun s => ?_⟩
  · rw [functionAt, hsettled.functions]
    exact h.names f
  · rw [functionAt, hsettled.functions] at howner ⊢
    exact (h.functions howner).imp_left (·.deepens hdeepens)
  · rw [hsettled.structureAt]
    split
    · exact ⟨hname, hns.deepens hdeepens⟩
    · exact (h.structures s).imp_right (·.deepens hdeepens)
  · rw [hsettled.structureAt]
    split
    · rfl
    · exact h.declared s

theorem change (h : t.Spelled) {files : List (File Mark)} (hplain : ∀ f ∈ files, f.Plain)
    (hchange : Change files t t') : t'.Spelled := by
  have hdeepens := hchange.deepens
  cases hchange with
  | scope hparent name project =>
    have hsame := sameEntries_addScope hparent name project
    exact h.keep hsame.functions hsame.structures hdeepens
  | listFile ns file => exact h.keep rfl rfl hdeepens
  | @settle f d decl ns t' hf hd hdecl hns hsettled =>
    refine h.settle hsettled ((hplain f hf).names hd _ (d.name_mem_names hdecl))
      ⟨f.ns, hns, (hplain f hf).path⟩
  | @function f decl ns t' hf hd hns henters =>
    refine h.enters henters ((hplain f hf).names hd _ List.mem_cons_self) fun ns' hns' => ?_
    cases hns'
    refine ⟨⟨f.ns, hns, (hplain f hf).path⟩, ?_⟩
    dsimp only
    split
    · exact .inr rfl
    · exact .inl rfl
  | @member f d decl s kind g t' hf hd hdecl hs hat hg henters =>
    exact h.enters henters ((hplain f hf).names hd _ (d.member_mem_names hdecl hg)) (by simp)

end Spelled

end Tree

/-! ### Names as seen from the root -/

namespace Tree

variable {t : Tree} {ns ns' : NamespaceId} {name name' : String}

theorem Clear.qualify_eq (h : t.Clear ns) (ht : t.Rooted) (name : String) :
    t.qualify ns name = ".".intercalate (t.segments ns ++ [name]) := by
  rw [qualify, namespacePath]
  cases hsegments : t.segments ns with
  | nil => simp
  | cons x xs =>
    have hx : x ≠ "" := ((h.segments ht).2 x (hsegments ▸ List.mem_cons_self)).1
    have hpath : (".".intercalate (x :: xs)).isEmpty = false := by
      rw [Bool.eq_false_iff, Ne, String.isEmpty_iff]
      cases xs with
      | nil => simpa using hx
      | cons y ys =>
        rw [String.intercalate_cons_cons]
        simp
    rw [hpath, if_neg Bool.false_ne_true, String.intercalate_append_of_ne_nil (by simp) (by simp),
      String.intercalate_singleton]

theorem Clear.unmarked_qualify (h : t.Clear ns) (ht : t.Rooted) (hname : Plain name) :
    ObjectLang.Unmarked (t.qualify ns name) := by
  rw [h.qualify_eq ht]
  refine unmarked_intercalate (by decide) fun x hx => ?_
  rcases List.mem_append.mp hx with hx | hx
  · exact ((h.segments ht).2 x hx).2.2.2
  · rw [List.mem_singleton.mp hx]
    exact hname.2.2

theorem Spelled.unmarked (h : t.Spelled) (ht : t.Rooted) : t.Unmarked where
  structures s := h.declared s ▸ (h.structures s).1.2.2
  paths s := (h.structures s).2.unmarked_qualify ht (h.structures s).1
  functions f := (h.names f).2.2
  qualified howner := (h.functions howner).1.unmarked_qualify ht (h.names _)

/-- A name as seen from the root tells where it is declared. -/
theorem Rooted.qualify_inj (ht : t.Rooted) (hns : t.Clear ns) (hname : Plain name)
    (hns' : t.Clear ns') (hname' : Plain name') :
    t.qualify ns name = t.qualify ns' name' ↔ ns = ns' ∧ name = name' := by
  refine ⟨fun h => ?_, fun ⟨hns, hname⟩ => by rw [hns, hname]⟩
  have hdots {ns : NamespaceId} {name : String} (hns : t.Clear ns) (hname : Plain name) :
      ∀ x ∈ t.segments ns ++ [name], '.' ∉ x.toList := by
    intro x hx
    rcases List.mem_append.mp hx with hx | hx
    · exact ((hns.segments ht).2 x hx).2.1
    · rw [List.mem_singleton.mp hx]
      exact hname.1
  rw [hns.qualify_eq ht, hns'.qualify_eq ht] at h
  have hpieces :=
    (intercalate_inj (c := '.') (hdots hns hname) (by simp) (hdots hns' hname') (by simp)).mp h
  obtain ⟨hsegments, hlast⟩ := List.append_inj' hpieces rfl
  refine ⟨?_, List.singleton_inj.mp hlast⟩
  have hlookup := ht.lookup_segments (hns.segments ht).1
  rw [hsegments, ht.lookup_segments (hns'.segments ht).1] at hlookup
  exact (Option.some.inj hlookup).symm

theorem Rooted.qualify_root (ht : t.Rooted) (name : String) : t.qualify root name = name := by
  rw [(clear_root t).qualify_eq ht, ht.segments_root, List.nil_append, String.intercalate_singleton]

/-- A free function is known by its namespace and its name. -/
theorem Filed.free_unique (h : t.Filed) {f g : SymbolId} (hf : f < t.functions.size)
    (hg : g < t.functions.size)
    (hfree : (t.functionAt f).kind = .free) (hfree' : (t.functionAt g).kind = .free)
    (howner : (t.functionAt f).owner = .ns ns) (howner' : (t.functionAt g).owner = .ns ns)
    (hname : (t.functionAt f).name = (t.functionAt g).name) : f = g := by
  have hplace {f : SymbolId} (hf : f < t.functions.size) (hfree : (t.functionAt f).kind = .free)
      (howner : (t.functionAt f).owner = .ns ns) :
      Place.entry t (.named ns (t.functionAt f).name) = some f := by
    obtain ⟨p, hp⟩ := h.filed f hf (by simp [hfree])
    obtain ⟨-, hplace, hfits⟩ := h.fits hp
    rw [howner] at hplace
    cases p with
    | named ns' name' =>
      cases hplace
      rw [← hfits.1]
      exact hp
    | extension ns' index => cases hfree.symm.trans hfits
    | method s name' => cases hplace
  have hentry := hplace hf hfree howner
  rw [hname, hplace hg hfree' howner'] at hentry
  exact (Option.some.inj hentry).symm

end Tree

theorem Registry.spelled_ofFiles (project : String) (dependencies : List String)
    {files : List (File Mark)}
    (h : ∀ f ∈ files, f.Plain) : (ofFiles project dependencies files).tree.Spelled := by
  have hplain : Plain "" := by decide
  refine (ofFiles_induction (P := Tree.Spelled) project dependencies
    ⟨fun f => hplain, fun {f ns} hns => ?_, fun s => ⟨hplain, Tree.clear_root _⟩, fun _ => rfl⟩
    (fun _ ht hchange => ht.change h hchange) fun _ ht => ht.keep rfl rfl (.refl _)).2
  cases hns
  exact ⟨Tree.clear_root _, .inl rfl⟩

end ObjectLang.Scope
