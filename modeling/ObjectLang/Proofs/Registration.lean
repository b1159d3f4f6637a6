import Mathlib.Data.List.Infix
import Mathlib.Logic.Relation
import ObjectLang.Proofs.Namespaces

/-! # Registration, one change at a time

To register files is to make changes of a few kinds to the tree of declarations, one after the
other.  What each of them preserves holds of every registered tree.
-/

namespace ObjectLang.Scope

open Source Syntax Diagnostic

/-- The functions that a declaration lists as members, and what they are. -/
def StructureDecl.members : StructureDecl → List (FunctionKind × Function Mark)
  | cls c => c.init.toList.map (.init, ·) ++ c.methods.map (.method, ·)
  | protocol p => p.methods.map (.requirement, ·)
  | enum _ => []

end ObjectLang.Scope

namespace ObjectLang.Syntax

open Source Scope

/-- The structure that is declared. -/
def Decl.structure? : Decl Mark → Option StructureDecl
  | .function _ => none
  | .cls c => some (.cls c)
  | .protocol p => some (.protocol p)
  | .enum e => some (.enum e)

end ObjectLang.Syntax

namespace ObjectLang.Scope

open Source Syntax Diagnostic

namespace Tree

variable {t t' t'' : Tree}

/-! ### Paths -/

/-- Every child is still where it was. -/
def Deepens (t t' : Tree) : Prop :=
  ∀ ns (segment : String) child, (t.namespaceAt ns).children[segment]? = some child →
    (t'.namespaceAt ns).children[segment]? = some child

theorem Deepens.refl (t : Tree) : t.Deepens t := fun _ _ _ h => h

theorem Deepens.trans (h : t.Deepens t') (h' : t'.Deepens t'') : t.Deepens t'' :=
  fun ns segment child hchild => h' ns segment child (h ns segment child hchild)

theorem SameLinks.refl (t : Tree) : t.SameLinks t := ⟨rfl, fun _ => ⟨rfl, rfl, rfl⟩⟩

theorem SameLinks.deepens (h : t.SameLinks t') : t.Deepens t' := fun ns _ _ hchild => by
  rwa [(h.2 ns).2.2]

variable {ns : NamespaceId} {path : List String}

theorem Deepens.lookupFrom (h : t.Deepens t') {start : NamespaceId}
    (hlookup : t.lookupFrom start path = some ns) : t'.lookupFrom start path = some ns := by
  induction path generalizing start with
  | nil => exact hlookup
  | cons segment rest ih =>
    rw [Tree.lookupFrom] at hlookup ⊢
    cases hchild : (t.namespaceAt start).children[segment]? with
    | none =>
      rw [hchild] at hlookup
      cases hlookup
    | some child =>
      rw [hchild] at hlookup
      rw [h start segment child hchild]
      exact ih hlookup

theorem deepens_addScope {parent : NamespaceId} (hparent : parent < t.namespaces.size)
    (name project : String) :
    t.Deepens (t.addScope parent name project).2 := by
  cases hchild : (t.namespaceAt parent).children[name]? with
  | some child =>
    rw [addScope_of_some project hchild]
    exact .refl t
  | none =>
    intro ns segment child h
    rw [children_addScope hparent project hchild, if_neg, h]
    rintro ⟨rfl, rfl⟩
    rw [hchild] at h
    cases h

theorem child_addScope {parent : NamespaceId} (hparent : parent < t.namespaces.size)
    (name project : String) :
    ((t.addScope parent name project).2.namespaceAt parent).children[name]? =
      some (t.addScope parent name project).1 := by
  cases hchild : (t.namespaceAt parent).children[name]? with
  | some child =>
    rw [addScope_of_some project hchild]
    exact hchild
  | none =>
    rw [children_addScope hparent project hchild, if_pos ⟨rfl, rfl⟩,
      (addScope_of_none project hchild).1]

theorem lookup_concat {segment : String} (h : t.lookup (path ++ [segment]) = some ns) :
    ∃ outer, t.lookup path = some outer ∧ (t.namespaceAt outer).children[segment]? = some ns := by
  rw [lookup, lookupFrom_append] at h
  obtain ⟨outer, houter, hstep⟩ := Option.bind_eq_some_iff.1 h
  refine ⟨outer, houter, ?_⟩
  rw [lookupFrom] at hstep
  cases hchild : (t.namespaceAt outer).children[segment]? with
  | none =>
    rw [hchild] at hstep
    cases hstep
  | some child =>
    rw [hchild] at hstep
    exact hstep

/-- A path leads to a namespace of the tree, whose names are the parts of the path. -/
theorem Rooted.segments_lookup (h : t.Rooted) (hlookup : t.lookup path = some ns) :
    ns < t.namespaces.size ∧ t.segments ns = path := by
  induction path using List.reverseRecOn generalizing ns with
  | nil =>
    cases hlookup
    exact ⟨h.top.1, h.segments_root⟩
  | append_singleton path segment ih =>
    obtain ⟨outer, houter, hchild⟩ := lookup_concat hlookup
    obtain ⟨hlt, hroot, hparent, hname⟩ := h.child hchild
    rw [h.segments_of_parent hroot hparent, (ih houter).2, hname]
    exact ⟨hlt, rfl⟩

/-! ### Declarations -/

theorem not_nameTaken {name : String} (h : ¬t.nameTaken ns name) :
    (t.namespaceAt ns).structures[name]? = none ∧ (t.namespaceAt ns).functions[name]? = none := by
  simp only [nameTaken, Bool.or_eq_true, not_or, Bool.not_eq_true] at h
  exact ⟨Std.TreeMap.getElem?_eq_none_of_contains_eq_false h.1,
    Std.TreeMap.getElem?_eq_none_of_contains_eq_false h.2⟩

/-- The tree with one more function, which is not entered anywhere. -/
abbrev withFunction (t : Tree) (sym : FunctionSymbol) : Tree :=
  { t with functions := t.functions.push sym }

/-- What becomes of a tree when a function is declared. -/
inductive Enters (t : Tree) (sym : FunctionSymbol) : Tree → Prop where
  | extension {ns : NamespaceId} (howner : sym.owner = .ns ns) (hkind : sym.kind = .extension) :
      Enters t sym ((t.withFunction sym).updateNamespace ns fun n =>
        { n with extensions := n.extensions ++ [t.functions.size] })
  | named {ns : NamespaceId} (howner : sym.owner = .ns ns) (hkind : sym.kind ≠ .extension)
      (hfree : ¬t.nameTaken ns sym.name) :
      Enters t sym ((t.withFunction sym).updateNamespace ns fun n =>
        { n with functions := n.functions.insert sym.name t.functions.size })
  | init {s : StructureId} (howner : sym.owner = .struct s) (hkind : sym.kind = .init) :
      Enters t sym ((t.withFunction sym).updateStructure s fun n =>
        { n with init := some t.functions.size })
  | method {s : StructureId} (howner : sym.owner = .struct s) (hkind : sym.kind ≠ .init)
      (hfree : (t.structureAt s).methods[sym.name]? = none) :
      Enters t sym ((t.withFunction sym).updateStructure s fun n =>
        { n with methods := n.methods.insert sym.name t.functions.size })

theorem enters_of_addFunction {owner : Owner} {kind : FunctionKind} {file : Nat}
    {decl : Function Mark}
    {r : SymbolId × Tree} (hr : t.addFunction? owner kind file decl = some r) :
    t.Enters { owner, kind, file, decl } r.2 := by
  cases owner with
  | ns ns =>
    rw [addFunction?] at hr
    split at hr
    · next hkind =>
      cases hr
      exact .extension rfl hkind
    · next hkind =>
      split at hr
      · cases hr
      · next hfree =>
        cases hr
        exact .named rfl hkind hfree
  | struct s =>
    rw [addFunction?] at hr
    split at hr
    · next hkind =>
      cases hr
      exact .init rfl hkind
    · next hkind =>
      split at hr
      · cases hr
      · next hfree =>
        cases hr
        refine .method rfl hkind (Std.TreeMap.getElem?_eq_none ?_)
        rwa [Std.TreeMap.contains_iff_mem] at hfree

namespace Enters

variable {sym : FunctionSymbol}

theorem functions (h : t.Enters sym t') : t'.functions = t.functions.push sym := by
  cases h <;> rfl

theorem files (h : t.Enters sym t') : t'.files = t.files := by
  cases h <;> rfl

theorem functionAt (h : t.Enters sym t') (f : SymbolId) :
    t'.functionAt f = if f = t.functions.size then sym else t.functionAt f := by
  rw [Tree.functionAt, h.functions]
  exact getD_push ..

theorem sameLinks (h : t.Enters sym t') : t.SameLinks t' := by
  cases h with
  | extension | named => exact sameLinks_update _ (fun _ => rfl) (fun _ => rfl) fun _ => rfl
  | init | method => exact ⟨rfl, fun _ => ⟨rfl, rfl, rfl⟩⟩

theorem size_structures (h : t.Enters sym t') : t'.structures.size = t.structures.size := by
  cases h with
  | extension | named => rfl
  | init | method => exact size_updateStructure _ _

theorem structureAt (h : t.Enters sym t') (s : StructureId) :
    (t'.structureAt s).ns = (t.structureAt s).ns ∧
      (t'.structureAt s).decl = (t.structureAt s).decl ∧
      (t'.structureAt s).name = (t.structureAt s).name := by
  have hupdate (s' : StructureId) {u : Structure → Structure}
      (hu : ∀ n, (u n).ns = n.ns ∧ (u n).decl = n.decl ∧ (u n).name = n.name) :
      let n := ((t.withFunction sym).updateStructure s' u).structureAt s
      n.ns = (t.structureAt s).ns ∧ n.decl = (t.structureAt s).decl ∧
        n.name = (t.structureAt s).name := by
    rcases (t.withFunction sym).structureAt_updateStructure s' s u with heq | ⟨rfl, heq⟩ <;>
      rw [heq]
    · exact ⟨rfl, rfl, rfl⟩
    · exact hu _
  cases h with
  | extension | named => exact ⟨rfl, rfl, rfl⟩
  | init | method => exact hupdate _ fun _ => ⟨rfl, rfl, rfl⟩

end Enters

section

variable {ns : NamespaceId} {file : Nat} {decl : StructureDecl} {name : String}
  {r : StructureId × Tree}

/-- What is known of the tree when a structure has been declared under a name. -/
structure Settled (t : Tree) (ns : NamespaceId) (file : Nat) (decl : StructureDecl) (name : String)
    (t' : Tree) : Prop where
  free : (t.namespaceAt ns).structures[name]? = none ∧ (t.namespaceAt ns).functions[name]? = none
  structures : t'.structures = t.structures.push { ns, file, decl, name }
  functions : t'.functions = t.functions
  files : t'.files = t.files
  links : t.SameLinks t'
  table : ∀ ns' (other : String), (t'.namespaceAt ns').structures[other]? =
    if ns' = ns ∧ other = name then some t.structures.size
    else (t.namespaceAt ns').structures[other]?
  others : ∀ ns', (t'.namespaceAt ns').functions = (t.namespaceAt ns').functions ∧
    (t'.namespaceAt ns').extensions = (t.namespaceAt ns').extensions

theorem settled_of_addStructure (hns : ns < t.namespaces.size)
    (hr : t.addStructure? ns file decl name = some r) :
    t.Settled ns file decl name r.2 ∧ r.1 = t.structures.size := by
  rw [addStructure?] at hr
  split at hr
  · cases hr
  · next hfree =>
    cases hr
    have hat := namespaceAt_update hns fun n =>
      { n with structures := n.structures.insert name t.structures.size }
    refine ⟨⟨not_nameTaken hfree, rfl, rfl, rfl, ?_, fun ns' other => ?_, fun ns' => ?_⟩, rfl⟩
    · exact sameLinks_update ns (fun _ => rfl) (fun _ => rfl) fun _ => rfl
    · refine (congrArg (·.structures[other]?) (hat ns')).trans ?_
      by_cases heq : ns' = ns
      · subst heq
        simp only [if_true, true_and, Std.TreeMap.getElem?_insert, Std.compare_eq_iff_eq,
          eq_comm (a := name)]
      · simp [heq]
    · have hat' := hat ns'
      split at hat'
      · next heq =>
        subst heq
        exact ⟨congrArg (·.functions) hat', congrArg (·.extensions) hat'⟩
      · exact ⟨congrArg (·.functions) hat', congrArg (·.extensions) hat'⟩

theorem Settled.structureAt (h : t.Settled ns file decl name t') (s : StructureId) :
    t'.structureAt s =
      if s = t.structures.size then { ns, file, decl, name } else t.structureAt s := by
  rw [Tree.structureAt, h.structures]
  exact structureAt_push _ s

end

/-! ### Changes -/

theorem sameLinks_listFile (ns : NamespaceId) (file : Nat) :
    t.SameLinks (t.updateNamespace ns fun n => { n with files := n.files ++ [file] }) :=
  sameLinks_update ns (fun _ => rfl) (fun _ => rfl) fun _ => rfl

/-- A change that is made to the tree while the files are registered. -/
inductive Change (files : List (File Mark)) (t : Tree) : Tree → Prop where
  | scope {parent : NamespaceId} (hparent : parent < t.namespaces.size) (name project : String) :
      Change files t (t.addScope parent name project).2
  | listFile (ns : NamespaceId) (file : Nat) :
      Change files t (t.updateNamespace ns fun n => { n with files := n.files ++ [file] })
  | settle {f : File Mark} {d : Decl Mark} {decl : StructureDecl} {ns : NamespaceId} {t' : Tree}
      (hf : f ∈ files) (hd : d ∈ f.decls) (hdecl : d.structure? = some decl)
      (hns : t.lookup f.ns = some ns) (h : t.Settled ns f.id decl decl.name t') : Change files t t'
  | function {f : File Mark} {decl : Function Mark} {ns : NamespaceId} {t' : Tree} (hf : f ∈ files)
      (hd : .function decl ∈ f.decls) (hns : t.lookup f.ns = some ns)
      (h : t.Enters ⟨.ns ns, if decl.receiver.isSome then .extension else .free, f.id, decl⟩ t') :
      Change files t t'
  | member {f : File Mark} {d : Decl Mark} {decl : StructureDecl} {s : StructureId}
      {kind : FunctionKind}
      {g : Function Mark} {t' : Tree} (hf : f ∈ files) (hd : d ∈ f.decls)
      (hdecl : d.structure? = some decl)
      (hs : s < t.structures.size) (hat : (t.structureAt s).decl = decl)
      (hg : (kind, g) ∈ decl.members)
      (h : t.Enters ⟨.struct s, kind, f.id, g⟩ t') : Change files t t'

namespace Change

variable {files : List (File Mark)}

theorem deepens (h : Change files t t') : t.Deepens t' := by
  cases h with
  | scope hparent name project => exact deepens_addScope hparent name project
  | listFile ns file => exact (sameLinks_listFile ns file).deepens
  | settle _ _ _ _ h => exact h.links.deepens
  | function _ _ _ h => exact h.sameLinks.deepens
  | member _ _ _ _ _ _ h => exact h.sameLinks.deepens

theorem rooted (h : Change files t t') (ht : t.Rooted) : t'.Rooted := by
  cases h with
  | scope hparent name project => exact ht.addScope hparent name project
  | listFile ns file => exact ht.same (sameLinks_listFile ns file)
  | settle _ _ _ _ h => exact ht.same h.links
  | function _ _ _ h => exact ht.same h.sameLinks
  | member _ _ _ _ _ _ h => exact ht.same h.sameLinks

theorem files_eq (h : Change files t t') : t'.files = t.files := by
  cases h with
  | scope hparent name project =>
    rw [addScope]
    split <;> rfl
  | listFile ns file => rfl
  | settle _ _ _ _ h => exact h.files
  | function _ _ _ h => exact h.files
  | member _ _ _ _ _ _ h => exact h.files

end Change

/-- Changes one after the other. -/
abbrev Changes (files : List (File Mark)) : Tree → Tree → Prop :=
  Relation.ReflTransGen (Change files)

namespace Changes

variable {files : List (File Mark)}

theorem rooted (h : Changes files t t') (ht : t.Rooted) : t'.Rooted := by
  induction h with
  | refl => exact ht
  | tail _ hchange ih => exact hchange.rooted ih

theorem deepens (h : Changes files t t') : t.Deepens t' := by
  induction h with
  | refl => exact .refl t
  | tail _ hchange ih => exact ih.trans hchange.deepens

theorem files_eq (h : Changes files t t') : t'.files = t.files := by
  induction h with
  | refl => rfl
  | tail _ hchange ih => exact hchange.files_eq.trans ih

theorem preserve {P : Tree → Prop} (hP : ∀ {t t'}, t.Rooted → P t → Change files t t' → P t')
    (h : Changes files t t') (ht : t.Rooted) (hstart : P t) : P t' := by
  induction h with
  | refl => exact hstart
  | tail hbefore hchange ih => exact hP (Changes.rooted hbefore ht) ih hchange

end Changes

/-- The tree with one more file, in a namespace. -/
abbrev withFile (t : Tree) (f : File Mark) (ns : NamespaceId) : Tree :=
  { t with files := t.files.push { source := f, ns } }

end Tree

namespace Registry

open Scope.Tree

variable {r : Registry} {files : List (File Mark)} {f : File Mark} {d : Decl Mark}
  {decl : StructureDecl}

theorem changes_members (hf : f ∈ files) (hd : d ∈ f.decls) (hdecl : d.structure? = some decl)
    {s : StructureId}
    (kind : FunctionKind) (gs : List (Function Mark)) (hgs : ∀ g ∈ gs, (kind, g) ∈ decl.members)
    (hr : s < r.tree.structures.size ∧ (r.tree.structureAt s).decl = decl) :
    Changes files r.tree (r.declareFunctions (.struct s) kind f.id gs).tree ∧
      s < (r.declareFunctions (.struct s) kind f.id gs).tree.structures.size ∧
      ((r.declareFunctions (.struct s) kind f.id gs).tree.structureAt s).decl = decl := by
  refine List.foldlRecOn (motive := fun r' : Registry => Changes files r.tree r'.tree ∧
    s < r'.tree.structures.size ∧ (r'.tree.structureAt s).decl = decl) gs _ ⟨.refl, hr⟩ ?_
  rintro r' ⟨hchanges, hs, hat⟩ g hg
  rw [declareFunction]
  split
  · next hadd =>
    have henters := enters_of_addFunction hadd
    exact ⟨hchanges.tail (.member hf hd hdecl hs hat (hgs g hg) henters),
      henters.size_structures ▸ hs, (henters.structureAt s).2.1.trans hat⟩
  · exact ⟨hchanges, hs, hat⟩

variable {ns : NamespaceId}

theorem changes_declareStructure (hf : f ∈ files) (hd : d ∈ f.decls)
    (hdecl : d.structure? = some decl) (hr : r.tree.Rooted) (hns : r.tree.lookup f.ns = some ns)
    {members : StructureId → Registry → Registry}
    (hmembers : ∀ s (r : Registry), s < r.tree.structures.size ∧
    (r.tree.structureAt s).decl = decl →
      Changes files r.tree (members s r).tree) :
    Changes files r.tree (r.declareStructure ns f.id decl members).tree := by
  rw [declareStructure]
  split
  · next s tree hadd =>
    obtain ⟨hsettled, hs⟩ := settled_of_addStructure (hr.segments_lookup hns).1 hadd
    refine .head (.settle hf hd hdecl hns hsettled) (hmembers s { r with tree } ⟨?_, ?_⟩)
    · rw [hsettled.structures, Array.size_push, show s = r.tree.structures.size from hs]
      exact Nat.lt_succ_self _
    · rw [hsettled.structureAt, if_pos hs]
  · exact .refl

theorem changes_declare (hf : f ∈ files) (hd : d ∈ f.decls) (hr : r.tree.Rooted)
    (hns : r.tree.lookup f.ns = some ns) : Changes files r.tree (r.declare ns f.id d).tree := by
  cases d with
  | function g =>
    rw [declare, declareFunction]
    split
    · next hadd => exact .single (.function hf hd hns (enters_of_addFunction hadd))
    · exact .refl
  | cls c =>
    refine changes_declareStructure hf hd rfl hr hns fun s r hs => ?_
    obtain ⟨hinit, hs⟩ :=
      changes_members hf hd rfl .init c.init.toList (by simp [StructureDecl.members]) hs
    exact hinit.trans (changes_members hf hd rfl .method c.methods (by simp [StructureDecl.members])
      hs).1
  | protocol p =>
    exact changes_declareStructure hf hd rfl hr hns fun s r hs =>
      (changes_members hf hd rfl .requirement p.methods (by simp [StructureDecl.members]) hs).1
  | enum e =>
    have hreported : ((repeats [] e.variants).foldl
        (fun r name => r.report (.alreadyDeclared name) e.mark.span) r).tree = r.tree :=
      List.foldlRecOn (motive := fun r' : Registry => r'.tree = r.tree) _ _ rfl fun _ h _ _ => h
    rw [← hreported] at hr hns ⊢
    exact changes_declareStructure hf hd rfl hr hns fun s r _ => .refl

theorem changes_declareAll (hf : f ∈ files) (hr : r.tree.Rooted)
    (hns : r.tree.lookup f.ns = some ns) :
    Changes files r.tree (f.decls.foldl (fun r d => r.declare ns f.id d) r).tree := by
  refine List.foldlRecOn (motive := fun r' : Registry => Changes files r.tree r'.tree) f.decls _
    .refl ?_
  exact fun r' h d hd => h.trans (changes_declare hf hd (h.rooted hr) (h.deepens.lookupFrom hns))

theorem changes_openPath {t : Tree} (h : t.Rooted) (hns : ns < t.namespaces.size)
    (path : List String) :
    Changes files t (openPath t ns path).2 ∧
      (openPath t ns path).2.lookupFrom ns path = some (openPath t ns path).1 := by
  induction path generalizing t ns with
  | nil => exact ⟨.refl, rfl⟩
  | cons segment rest ih =>
    let added := t.addScope ns segment (t.namespaceAt ns).project
    have hadded : added.1 < added.2.namespaces.size := h.addScope_lt ns segment _
    obtain ⟨hchanges, hlookup⟩ := ih (h.addScope hns segment _) hadded
    have hchild := hchanges.deepens _ _ _ (child_addScope hns segment (t.namespaceAt ns).project)
    refine ⟨.head (.scope hns segment _) hchanges, ?_⟩
    rw [openPath, Tree.lookupFrom, hchild]
    exact hlookup

/-- A file is entered after the changes that it makes. -/
theorem changes_registerFile (hf : f ∈ files) (hr : r.tree.Rooted) :
    ∃ t, Changes files r.tree t ∧ t.lookup f.ns = some (r.registerFile f).1 ∧
      (r.registerFile f).2.tree = t.withFile f (r.registerFile f).1 := by
  obtain ⟨hopen, hns⟩ : Changes files r.tree _ ∧ _ := changes_openPath hr hr.top.1 f.ns
  have hlist : Change files (openPath r.tree root f.ns).2 _ :=
    .listFile (openPath r.tree root f.ns).1 f.id
  have hstart : Changes files r.tree _ := hopen.tail hlist
  have hns := hlist.deepens.lookupFrom hns
  have hall := changes_declareAll (r := { r with tree := _ }) hf (hstart.rooted hr) hns
  exact ⟨_, hstart.trans hall, hall.deepens.lookupFrom hns, rfl⟩

theorem changes_seed (project : String) (dependencies : List String) :
    Changes files (ofProject project) ((ofProject project).seed dependencies) := by
  refine List.foldlRecOn (motive := Changes files (ofProject project)) dependencies _ .refl ?_
  exact fun t h name _ => h.tail (.scope (h.rooted (rooted_ofProject project)).top.1 name name)

/-- What holds at the start and is preserved by every change holds of every registered tree. -/
theorem ofFiles_induction {P : Tree → Prop} (project : String) (dependencies : List String)
    (hstart : P (ofProject project)) (hchange : ∀ {t t'}, t.Rooted → P t → Change files t t' → P t')
    (hfile : ∀ {t f ns}, t.lookup f.ns = some ns → P t → P (t.withFile f ns)) :
    (ofFiles project dependencies files).tree.Rooted ∧
    P (ofFiles project dependencies files).tree := by
  have hseed : Changes files _ _ := changes_seed project dependencies
  have hrooted := rooted_ofProject project
  refine List.foldlRecOn (motive := fun r : Registry => r.tree.Rooted ∧ P r.tree) files _
    ⟨hseed.rooted hrooted, hseed.preserve hchange hrooted hstart⟩ ?_
  rintro r ⟨hr, hP⟩ f hf
  obtain ⟨t, hchanges, hns, htree⟩ := changes_registerFile hf hr
  rw [htree]
  exact ⟨(hchanges.rooted hr).same (.refl t), hfile hns (hchanges.preserve hchange hr hP)⟩

/-- The tree holds the files in the order in which they were registered. -/
theorem sources_ofFiles (project : String) (dependencies : List String) (files : List (File Mark)) :
    (ofFiles project dependencies files).tree.files.toList.map (·.source) = files := by
  have hfold (files : List (File Mark)) (r : Registry) (hr : r.tree.Rooted) :
      (files.foldl (fun r f => (r.registerFile f).2) r).tree.files.toList.map (·.source) =
        r.tree.files.toList.map (·.source) ++ files := by
    induction files generalizing r with
    | nil => simp
    | cons f files ih =>
      obtain ⟨t, hchanges, -, htree⟩ := changes_registerFile (List.mem_singleton_self f) hr
      have hrooted : (r.registerFile f).2.tree.Rooted := htree ▸ (hchanges.rooted hr).same (.refl t)
      rw [List.foldl_cons, ih _ hrooted, htree, ← hchanges.files_eq]
      simp
  have hseed : Changes [] _ _ := changes_seed project dependencies
  rw [ofFiles, hfold _ _ (hseed.rooted (rooted_ofProject project)), hseed.files_eq]
  rfl

end Registry

end ObjectLang.Scope
