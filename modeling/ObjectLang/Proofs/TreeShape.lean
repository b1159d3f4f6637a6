import ObjectLang.Proofs.Registration

/-! # The shape of the tree of declarations

Structures and functions are entered where they belong, once each, and the namespaces form a tree.
This holds however the tree was put together.
-/

namespace ObjectLang.Scope

open Source Syntax Diagnostic

namespace Tree

variable {t t' : Tree}

/-! ### Where structures and functions are entered -/

/-- The function is in the tree and is such. -/
def Declares (t : Tree) (f : SymbolId) (P : FunctionSymbol → Prop) : Prop :=
  f < t.functions.size ∧ P (t.functionAt f)

section

variable {sym : FunctionSymbol} {f : SymbolId} {P : FunctionSymbol → Prop}

/-- The functions of the one tree are among those of the other. -/
def Keeps (t t' : Tree) : Prop :=
  ∀ f < t.functions.size, f < t'.functions.size ∧ t'.functionAt f = t.functionAt f

theorem Declares.keep (h : t.Declares f P) (hkeeps : t.Keeps t') : t'.Declares f P := by
  rcases hkeeps f h.1 with ⟨hlt, heq⟩
  exact ⟨hlt, heq ▸ h.2⟩

theorem keeps_of_eq (h : t'.functions = t.functions) : t.Keeps t' := fun f hf =>
  ⟨h ▸ hf, by rw [functionAt, h, functionAt]⟩

theorem keeps_of_push (h : t'.functions = t.functions.push sym) : t.Keeps t' := by
  intro f hf
  refine ⟨?_, ?_⟩
  · rw [h, Array.size_push]
    exact Nat.lt_succ_of_lt hf
  · simp [functionAt, h, Array.getElem?_push_lt, hf]

theorem declares_of_push (h : t'.functions = t.functions.push sym) (hP : P sym) :
    t'.Declares t.functions.size P := by
  refine ⟨by simp [h], ?_⟩
  simpa [functionAt, h] using hP

end

/-- A place where a function can be entered. -/
inductive Place where
  | named (ns : NamespaceId) (name : String)
  | extension (ns : NamespaceId) (index : Nat)
  | method (s : StructureId) (name : String)
  deriving DecidableEq, Repr

namespace Place

def owner : Place → Owner
  | named ns _ | extension ns _ => .ns ns
  | method s _ => .struct s

/-- The function that is entered at the place. -/
def entry (t : Tree) : Place → Option SymbolId
  | named ns name => (t.namespaceAt ns).functions[name]?
  | extension ns index => (t.namespaceAt ns).extensions[index]?
  | method s name => (t.structureAt s).methods[name]?

/-- The place is one for the function: in its owner, by its name or among the extensions. -/
def Fits (f : FunctionSymbol) (p : Place) : Prop :=
  p.owner = f.owner ∧ match p with
    | named _ name => name = f.name ∧ f.kind ≠ .extension
    | extension _ _ => f.kind = .extension
    | method _ name => name = f.name ∧ f.kind ≠ .init

end Place

/-- Every function that is no initializer has one place, and it is one for it. -/
structure Filed (t : Tree) : Prop where
  fits : ∀ {p f}, Place.entry t p = some f → t.Declares f (Place.Fits · p)
  once : ∀ {p p' f}, Place.entry t p = some f → Place.entry t p' = some f → p = p'
  filed : ∀ f < t.functions.size, (t.functionAt f).kind ≠ .init → ∃ p, Place.entry t p = some f

/-- No name is that of a structure and that of a function, and the structures are entered in their
namespaces under their names. -/
structure Housed (t : Tree) : Prop where
  apart : ∀ ns (name : String), (t.namespaceAt ns).structures[name]? = none ∨
    (t.namespaceAt ns).functions[name]? = none
  entered : ∀ {ns s} {name : String}, (t.namespaceAt ns).structures[name]? = some s ↔
    s < t.structures.size ∧ ns = (t.structureAt s).ns ∧ name = (t.structureAt s).name

/-- The trees agree in what is declared and where it is entered. -/
structure SameEntries (t t' : Tree) : Prop where
  structures : t'.structures = t.structures
  functions : t'.functions = t.functions
  tables : ∀ ns, (t'.namespaceAt ns).structures = (t.namespaceAt ns).structures ∧
    (t'.namespaceAt ns).functions = (t.namespaceAt ns).functions ∧
      (t'.namespaceAt ns).extensions = (t.namespaceAt ns).extensions

theorem SameEntries.entry (h : t.SameEntries t') (p : Place) : p.entry t' = p.entry t := by
  cases p with
  | named ns name => exact congrArg (·[name]?) (h.tables ns).2.1
  | extension ns index => exact congrArg (·[index]?) (h.tables ns).2.2
  | method s name => rw [Place.entry, structureAt, h.structures, ← structureAt, Place.entry]

theorem Filed.keep (h : t.Filed) (hkeeps : t.Keeps t') (hentry : ∀ p, Place.entry t' p = p.entry t)
    (hinit : ∀ f < t'.functions.size, f < t.functions.size ∨ (t'.functionAt f).kind = .init) :
    t'.Filed := by
  refine ⟨fun {p f} hp => ?_, fun {p p' f} hp hp' => ?_, fun f hf hkind => ?_⟩
  · rw [hentry] at hp
    exact (h.fits hp).keep hkeeps
  · rw [hentry] at hp hp'
    exact h.once hp hp'
  · have hlt := (hinit f hf).resolve_right hkind
    rw [(hkeeps f hlt).2] at hkind
    simpa only [hentry] using h.filed f hlt hkind

theorem Housed.keep (h : t.Housed) (hsize : t'.structures.size = t.structures.size)
    (hat : ∀ s, (t'.structureAt s).ns = (t.structureAt s).ns ∧
      (t'.structureAt s).name = (t.structureAt s).name)
    (htables : ∀ ns, (t'.namespaceAt ns).structures = (t.namespaceAt ns).structures)
    (hfunctions : ∀ ns (name : String), (t.namespaceAt ns).structures[name]? = none ∨
      (t'.namespaceAt ns).functions[name]? = (t.namespaceAt ns).functions[name]?) : t'.Housed := by
  refine ⟨fun ns name => ?_, fun {ns s name} => ?_⟩
  · rw [htables]
    rcases hfunctions ns name with hnone | heq
    · exact .inl hnone
    · rw [heq]
      exact h.apart ns name
  · rw [htables, hsize, (hat s).1, (hat s).2]
    exact h.entered

theorem Filed.same (h : t.Filed) (hsame : t.SameEntries t') : t'.Filed :=
  h.keep (keeps_of_eq hsame.functions) hsame.entry fun _ hf => .inl (hsame.functions ▸ hf)

theorem Housed.same (h : t.Housed) (hsame : t.SameEntries t') : t'.Housed := by
  have hat (s : StructureId) : t'.structureAt s = t.structureAt s := by
    rw [structureAt, hsame.structures, structureAt]
  refine h.keep (by rw [hsame.structures]) (fun s => by rw [hat]; exact ⟨rfl, rfl⟩)
    (fun ns => (hsame.tables ns).1) fun ns name => .inr ?_
  rw [(hsame.tables ns).2.1]

theorem sameEntries_listFile (ns : NamespaceId) (file : Nat) :
    t.SameEntries (t.updateNamespace ns fun n => { n with files := n.files ++ [file] }) := by
  refine ⟨rfl, rfl, fun ns' => ?_⟩
  rcases t.namespaceAt_updateNamespace ns ns' _ with heq | ⟨rfl, heq⟩ <;> rw [heq] <;>
    exact ⟨rfl, rfl, rfl⟩

theorem sameEntries_addScope {parent : NamespaceId} (hparent : parent < t.namespaces.size)
    (name project : String) : t.SameEntries (t.addScope parent name project).2 := by
  cases hchild : (t.namespaceAt parent).children[name]? with
  | some child =>
    rw [addScope_of_some project hchild]
    exact ⟨rfl, rfl, fun _ => ⟨rfl, rfl, rfl⟩⟩
  | none =>
    refine ⟨?_, ?_, fun ns => ?_⟩
    · rw [addScope, hchild]
      rfl
    · rw [addScope, hchild]
      rfl
    · rw [namespaceAt_addScope hparent project hchild]
      split
      · next heq =>
        rw [namespaceAt_of_le (Nat.le_of_eq heq.symm)]
        exact ⟨rfl, rfl, rfl⟩
      · split <;> exact ⟨rfl, rfl, rfl⟩

/-! ### Entering a function -/

section

variable {sym : FunctionSymbol} {place : Place}

theorem lt_or_of_push (h : t'.functions = t.functions.push sym) {f : SymbolId}
    (hf : f < t'.functions.size) :
    f < t.functions.size ∨ f = t.functions.size ∧ t'.functionAt f = sym := by
  rw [h, Array.size_push] at hf
  rcases Nat.lt_or_eq_of_le (Nat.le_of_lt_succ hf) with hlt | rfl
  · exact .inl hlt
  · exact .inr ⟨rfl, (declares_of_push (P := (· = sym)) h rfl).2⟩

/-- A function was declared and entered at a place for it. -/
theorem Filed.enter (h : t.Filed) (hfunctions : t'.functions = t.functions.push sym)
    (hentry : ∀ p, Place.entry t' p = if p = place then some t.functions.size else p.entry t)
    (hfree : place.entry t = none) (hfits : place.Fits sym) : t'.Filed := by
  have hkeeps : t.Keeps t' := keeps_of_push hfunctions
  have hnew {p : Place} : p.entry t ≠ some t.functions.size := fun hp =>
    Nat.lt_irrefl _ (h.fits hp).1
  refine ⟨fun {p f} hp => ?_, fun {p p' f} hp hp' => ?_, fun f hf hkind => ?_⟩
  · rw [hentry] at hp
    split at hp
    · next heq =>
      cases hp
      exact declares_of_push hfunctions (heq ▸ hfits)
    · exact (h.fits hp).keep hkeeps
  · rw [hentry] at hp hp'
    split at hp <;> split at hp'
    · simp_all
    · cases hp
      exact absurd hp' hnew
    · cases hp'
      exact absurd hp hnew
    · exact h.once hp hp'
  · rcases lt_or_of_push hfunctions hf with hlt | ⟨rfl, -⟩
    · rw [(hkeeps f hlt).2] at hkind
      obtain ⟨p, hp⟩ := h.filed f hlt hkind
      refine ⟨p, ?_⟩
      rw [hentry, if_neg, hp]
      rintro rfl
      rw [hfree] at hp
      cases hp
    · exact ⟨place, by rw [hentry, if_pos rfl]⟩

end

section

variable {ns : NamespaceId} {s : StructureId} {name : String} {f : SymbolId}

theorem entry_enterNamed (hns : ns < t.namespaces.size) (p : Place) :
    p.entry (t.updateNamespace ns fun n => { n with functions := n.functions.insert name f }) =
      if p = .named ns name then some f else p.entry t := by
  cases p with
  | named ns' name' =>
    simp only [Place.entry, namespaceAt_update hns, Place.named.injEq]
    by_cases heq : ns' = ns
    · subst heq
      simp only [if_true, true_and, Std.TreeMap.getElem?_insert, Std.compare_eq_iff_eq,
        eq_comm (a := name)]
    · simp [heq]
  | extension ns' index =>
    simp only [Place.entry, namespaceAt_update hns]
    by_cases heq : ns' = ns
    · subst heq
      simp
    · simp [heq]
  | method s' name' => rfl

theorem entry_enterExtension (hns : ns < t.namespaces.size) (p : Place) :
    p.entry (t.updateNamespace ns fun n => { n with extensions := n.extensions ++ [f] }) =
      if p = .extension ns (t.namespaceAt ns).extensions.length then some f else p.entry t := by
  cases p with
  | named ns' name' =>
    simp only [Place.entry, namespaceAt_update hns]
    by_cases heq : ns' = ns
    · subst heq
      simp
    · simp [heq]
  | extension ns' index =>
    simp only [Place.entry, namespaceAt_update hns, Place.extension.injEq]
    by_cases heq : ns' = ns
    · subst heq
      simp only [if_true, true_and, List.getElem?_append, List.getElem?_singleton]
      grind
    · simp [heq]
  | method s' name' => rfl

theorem entry_enterMethod (hs : s < t.structures.size) (p : Place) :
    p.entry (t.updateStructure s fun n => { n with methods := n.methods.insert name f }) =
      if p = .method s name then some f else p.entry t := by
  cases p with
  | named ns' name' => rfl
  | extension ns' index => rfl
  | method s' name' =>
    simp only [Place.entry, structureAt_update hs, Place.method.injEq]
    by_cases heq : s' = s
    · subst heq
      simp only [if_true, true_and, Std.TreeMap.getElem?_insert, Std.compare_eq_iff_eq,
        eq_comm (a := name)]
    · simp [heq]

theorem entry_enterInit (hs : s < t.structures.size) (p : Place) :
    p.entry (t.updateStructure s fun n => { n with init := some f }) = p.entry t := by
  cases p with
  | named ns' name' => rfl
  | extension ns' index => rfl
  | method s' name' =>
    simp only [Place.entry, structureAt_update hs]
    split
    · next heq => rw [heq]
    · rfl

end

/-- The owner is in the tree. -/
def Holds (t : Tree) : Owner → Prop
  | .ns ns => ns < t.namespaces.size
  | .struct s => s < t.structures.size

section

variable {sym : FunctionSymbol}

theorem Filed.enters (h : t.Filed) (howner : t.Holds sym.owner) (henters : t.Enters sym t') :
    t'.Filed := by
  cases henters with
  | extension hns hkind =>
    rw [hns] at howner
    refine h.enter rfl (entry_enterExtension (t := t.withFunction sym) howner) ?_ ⟨hns.symm, hkind⟩
    exact List.getElem?_eq_none (Nat.le_refl _)
  | named hns hkind hfree =>
    rw [hns] at howner
    exact h.enter rfl (entry_enterNamed (t := t.withFunction sym) howner) (not_nameTaken hfree).2
      ⟨hns.symm, rfl, hkind⟩
  | init hs hkind =>
    rw [hs] at howner
    refine h.keep (keeps_of_push rfl) (entry_enterInit (t := t.withFunction sym) howner)
      fun f hf => ?_
    refine (lt_or_of_push rfl hf).imp_right fun hnew => ?_
    rw [hnew.2]
    exact hkind
  | method hs hkind hfree =>
    rw [hs] at howner
    exact h.enter rfl (entry_enterMethod (t := t.withFunction sym) howner) hfree
      ⟨hs.symm, rfl, hkind⟩

/-- Something was entered into a structure. -/
theorem Housed.updateStructure (h : t.Housed) {s : StructureId} {u : Structure → Structure}
    (hns : ∀ n, (u n).ns = n.ns) (hname : ∀ n, (u n).name = n.name) :
    (t.updateStructure s u).Housed := by
  refine h.keep (by simp) (fun s' => ?_) (fun _ => rfl) fun _ _ => .inr rfl
  rcases t.structureAt_updateStructure s s' u with heq | ⟨rfl, heq⟩ <;> rw [heq]
  · exact ⟨rfl, rfl⟩
  · exact ⟨hns _, hname _⟩

/-- Something other than a structure was entered into a namespace. -/
theorem Housed.updateNamespace (h : t.Housed) {ns : NamespaceId} {u : Namespace → Namespace}
    (hstructures : (u (t.namespaceAt ns)).structures = (t.namespaceAt ns).structures)
    (hfunctions : ∀ name : String, (t.namespaceAt ns).structures[name]? = none ∨
      (u (t.namespaceAt ns)).functions[name]? = (t.namespaceAt ns).functions[name]?) :
    (t.updateNamespace ns u).Housed := by
  refine h.keep rfl (fun _ => ⟨rfl, rfl⟩) (fun ns' => ?_) fun ns' name => ?_
  · rcases t.namespaceAt_updateNamespace ns ns' u with heq | ⟨rfl, heq⟩ <;> rw [heq]
    exact hstructures
  · rcases t.namespaceAt_updateNamespace ns ns' u with heq | ⟨rfl, heq⟩ <;> rw [heq]
    · exact .inr rfl
    · exact hfunctions name

theorem Housed.enters (h : t.Housed) (henters : t.Enters sym t') : t'.Housed := by
  have hpush : (t.withFunction sym).Housed := ⟨h.apart, h.entered⟩
  cases henters with
  | extension hns hkind =>
    exact hpush.updateNamespace (u := fun n =>
      { n with extensions := n.extensions ++ [t.functions.size] })
      rfl fun _ => .inr rfl
  | named hns hkind hfree =>
    refine hpush.updateNamespace (u := fun n =>
      { n with functions := n.functions.insert sym.name t.functions.size }) rfl fun name => ?_
    by_cases heq : sym.name = name
    · subst heq
      exact .inl (not_nameTaken hfree).1
    · refine .inr ?_
      rw [Std.TreeMap.getElem?_insert, if_neg (by simpa using heq)]
  | init hs hkind =>
    exact hpush.updateStructure (u := fun n => { n with init := some t.functions.size })
      (fun _ => rfl) fun _ => rfl
  | method hs hkind hfree =>
    exact hpush.updateStructure (u := fun n =>
      { n with methods := n.methods.insert sym.name t.functions.size }) (fun _ => rfl) fun _ => rfl

end

/-! ### Entering a structure -/

section

variable {ns : NamespaceId} {file : Nat} {decl : StructureDecl} {name : String}

theorem Filed.settle (h : t.Filed) (hsettled : t.Settled ns file decl name t') : t'.Filed := by
  have hentry (p : Place) : p.entry t' = p.entry t := by
    cases p with
    | named ns name => exact congrArg (·[name]?) (hsettled.others ns).1
    | extension ns index => exact congrArg (·[index]?) (hsettled.others ns).2
    | method s name =>
      rw [Place.entry, hsettled.structureAt, Place.entry]
      split
      · next heq =>
        rw [structureAt_of_le (Nat.le_of_eq heq.symm)]
        rfl
      · rfl
  exact h.keep (keeps_of_eq hsettled.functions) hentry fun _ hf => .inl (hsettled.functions ▸ hf)

theorem Housed.settle (h : t.Housed) (hsettled : t.Settled ns file decl name t') : t'.Housed := by
  obtain ⟨hstructure, hfunction⟩ := hsettled.free
  refine ⟨fun ns' name => ?_, fun {ns' s name} => ?_⟩
  · rw [hsettled.table, (hsettled.others ns').1]
    split
    · next heq =>
      obtain ⟨rfl, rfl⟩ := heq
      exact .inr hfunction
    · exact h.apart ns' name
  · rw [hsettled.table, hsettled.structureAt, hsettled.structures, Array.size_push]
    have hold : (t.namespaceAt ns').structures[name]? = some s ↔ _ := h.entered
    grind

end

/-! ### All of it -/

/-- What holds of every tree, however it was put together. -/
structure Ordered (t : Tree) : Prop where
  rooted : t.Rooted
  filed : t.Filed
  housed : t.Housed

theorem ordered_ofProject (project : String) : (ofProject project).Ordered := by
  have hempty (ns : NamespaceId) : ((ofProject project).namespaceAt ns).structures = ∅ ∧
      ((ofProject project).namespaceAt ns).functions = ∅ ∧
        ((ofProject project).namespaceAt ns).extensions = [] := by
    cases ns with
    | zero => exact ⟨rfl, rfl, rfl⟩
    | succ n => exact ⟨rfl, rfl, rfl⟩
  have hentry (p : Place) : p.entry (ofProject project) = none := by
    cases p with
    | named ns name => rw [Place.entry, (hempty ns).2.1, Std.TreeMap.getElem?_emptyc]
    | extension ns index => rw [Place.entry, (hempty ns).2.2, List.getElem?_nil]
    | method s name => rfl
  refine ⟨rooted_ofProject project, ⟨fun hp => ?_, fun hp => ?_, fun f hf => ?_⟩,
    ⟨fun ns name => ?_, ?_⟩⟩
  · simp [hentry] at hp
  · simp [hentry] at hp
  · cases hf
  · rw [(hempty ns).1]
    exact .inl Std.TreeMap.getElem?_emptyc
  · intro ns s name
    rw [(hempty ns).1]
    simp [ofProject]

namespace Ordered

theorem addScope (h : t.Ordered) {parent : NamespaceId} (hparent : parent < t.namespaces.size)
    (name project : String) : (t.addScope parent name project).2.Ordered := by
  have hsame := sameEntries_addScope hparent name project
  exact ⟨h.rooted.addScope hparent name project, h.filed.same hsame, h.housed.same hsame⟩

theorem settle (h : t.Ordered) {ns : NamespaceId} {file : Nat} {decl : StructureDecl}
    {name : String} (hsettled : t.Settled ns file decl name t') : t'.Ordered :=
  ⟨h.rooted.same hsettled.links, h.filed.settle hsettled, h.housed.settle hsettled⟩

theorem enters (h : t.Ordered) {sym : FunctionSymbol} (henters : t.Enters sym t')
    (howner : t.Holds sym.owner) :
    t'.Ordered :=
  ⟨h.rooted.same henters.sameLinks, h.filed.enters howner henters, h.housed.enters henters⟩

theorem same (h : t.Ordered) (hlinks : t.SameLinks t') (hsame : t.SameEntries t') : t'.Ordered :=
  ⟨h.rooted.same hlinks, h.filed.same hsame, h.housed.same hsame⟩

theorem change (h : t.Ordered) {files : List (File Mark)} (hchange : Change files t t') :
    t'.Ordered := by
  cases hchange with
  | scope hparent name project => exact h.addScope hparent name project
  | listFile ns file => exact h.same (sameLinks_listFile ns file) (sameEntries_listFile ns file)
  | settle _ _ _ _ hsettled => exact h.settle hsettled
  | function _ _ hns henters => exact h.enters henters (h.rooted.segments_lookup hns).1
  | member _ _ _ hs _ _ henters => exact h.enters henters hs

theorem withFile (h : t.Ordered) (f : File Mark) (ns : NamespaceId) : (t.withFile f ns).Ordered :=
  h.same (.refl t) ⟨rfl, rfl, fun _ => ⟨rfl, rfl, rfl⟩⟩

theorem seed (h : t.Ordered) (dependencies : List String) : (t.seed dependencies).Ordered :=
  List.foldlRecOn (motive := Ordered) dependencies _ h fun _ h name _ =>
    h.addScope h.rooted.top.1 name name

end Ordered

end Tree

/-! ### Registration -/

namespace Registry

open Scope.Tree

variable {r : Registry}

theorem ordered_registerFile (h : r.tree.Ordered) (f : File Mark) :
    (r.registerFile f).2.tree.Ordered := by
  obtain ⟨t, hchanges, -, htree⟩ := changes_registerFile (List.mem_singleton_self f) h.rooted
  rw [htree]
  exact (hchanges.preserve (fun _ h hchange => h.change hchange) h.rooted h).withFile f _

theorem ordered_ofFiles (project : String) (dependencies : List String) (files : List (File Mark)) :
    (ofFiles project dependencies files).tree.Ordered :=
  (ofFiles_induction project dependencies (ordered_ofProject project)
    (fun _ h hchange => h.change hchange) fun _ h => h.withFile _ _).2

/-! ### Any sequence of operations -/

/-- Something that can be done to a registry. -/
inductive Operation where
  | seed (dependencies : List String)
  | addScope (parent : NamespaceId) (name project : String)
  | addStructure (ns : NamespaceId) (file : Nat) (decl : StructureDecl) (name : String)
  | addFunction (owner : Owner) (kind : FunctionKind) (file : Nat) (decl : Function Mark)
  | registerFile (f : File Mark)

namespace Operation

/-- What the operation adds to is in the tree. -/
def Applies (t : Tree) : Operation → Prop
  | seed _ | registerFile _ => True
  | addScope parent _ _ => t.Holds (.ns parent)
  | addStructure ns _ _ _ => t.Holds (.ns ns)
  | addFunction owner _ _ _ => t.Holds owner

def apply (r : Registry) : Operation → Registry
  | seed dependencies => { r with tree := r.tree.seed dependencies }
  | addScope parent name project => { r with tree := (r.tree.addScope parent name project).2 }
  | addStructure ns file decl name =>
    { r with tree := (r.tree.addStructure? ns file decl name).elim r.tree (·.2) }
  | addFunction owner kind file decl =>
    { r with tree := (r.tree.addFunction? owner kind file decl).elim r.tree (·.2) }
  | registerFile f => (r.registerFile f).2

theorem ordered_apply (h : r.tree.Ordered) {o : Operation} (ho : o.Applies r.tree) :
    (o.apply r).tree.Ordered := by
  cases o with
  | seed dependencies => exact h.seed dependencies
  | addScope parent name project => exact h.addScope ho name project
  | addStructure ns file decl name =>
    rw [apply]
    cases hadd : r.tree.addStructure? ns file decl name with
    | none => exact h
    | some added => exact h.settle (settled_of_addStructure ho hadd).1
  | addFunction owner kind file decl =>
    rw [apply]
    cases hadd : r.tree.addFunction? owner kind file decl with
    | none => exact h
    | some added => exact h.enters (enters_of_addFunction hadd) ho
  | registerFile f => exact ordered_registerFile h f

end Operation

/-- What operations make of the empty tree of a project. -/
inductive Built (project : String) : Registry → Prop where
  | start : Built project { tree := Tree.ofProject project }
  | step {r : Registry} (h : Built project r) (o : Operation) (ho : o.Applies r.tree) :
      Built project (o.apply r)

theorem Built.ordered {project : String} (h : Built project r) : r.tree.Ordered := by
  induction h with
  | start => exact ordered_ofProject project
  | step _ _ ho ih => exact Operation.ordered_apply ih ho

end Registry

namespace Tree

/-- What there is to say of the shape of a tree. -/
structure WellShaped (t : Tree) : Prop where
  top : root < t.namespaces.size ∧ (t.namespaceAt root).parent = none
  /-- A namespace is the child of its parent, of no other one, and only under its name. -/
  parents : ∀ ns < t.namespaces.size, ns ≠ root →
    ∃ outer < ns, (t.namespaceAt ns).parent = some outer ∧
    ∀ ns' (name : String), (t.namespaceAt ns').children[name]? = some ns ↔
      ns' = outer ∧ name = (t.namespaceAt ns).name
  chains : ∀ ns < t.namespaces.size, (t.chain ns).head? = some ns ∧ t.Climbs (t.chain ns) ∧
    (t.chain ns).getLast? = some root
  lookups : ∀ ns < t.namespaces.size, t.lookup (t.segments ns) = some ns
  disjoint : ∀ ns (name : String), ¬((t.namespaceAt ns).structures.contains name ∧
    (t.namespaceAt ns).functions.contains name)
  structures : ∀ s < t.structures.size, ∀ ns (name : String),
    (t.namespaceAt ns).structures[name]? = some s ↔
      ns = (t.structureAt s).ns ∧ name = (t.structureAt s).name
  functions : ∀ f < t.functions.size, (t.functionAt f).kind ≠ .init →
    ∃ p : Place, p.Fits (t.functionAt f) ∧ ∀ p' : Place, p'.entry t = some f ↔ p' = p

/-- However a tree was put together, its namespaces form a tree, and every declaration is entered
where it belongs and nowhere else. -/
theorem wellShaped_of_built {project : String} {r : Registry} (h : r.Built project) :
    r.tree.WellShaped := by
  obtain ⟨hrooted, hfiled, hhoused⟩ := h.ordered
  refine ⟨hrooted.top, fun ns hns hroot => ?_, fun ns hns => ?_,
    fun ns hns => hrooted.lookup_segments hns,
    fun ns name => ?_, fun s hs ns name => ?_, fun f hf hkind => ?_⟩
  · obtain ⟨outer, hlt, hparent, hchild⟩ := hrooted.parent ns hns hroot
    refine ⟨outer, hlt, hparent, fun ns' name => ⟨fun hentry => ?_, ?_⟩⟩
    · obtain ⟨-, -, hparent', hname⟩ := hrooted.child hentry
      exact ⟨Option.some.inj (hparent'.symm.trans hparent), hname.symm⟩
    · rintro ⟨rfl, rfl⟩
      exact hchild
  · obtain ⟨hclimbs, hhead, hlast⟩ := hrooted.chain_climbs hns
    exact ⟨hhead, hclimbs, hlast⟩
  · rintro ⟨hstructure, hfunction⟩
    rw [Std.TreeMap.contains_eq_isSome_getElem?] at hstructure hfunction
    rcases hhoused.apart ns name with hnone | hnone <;> simp [hnone] at hstructure hfunction
  · rw [hhoused.entered]
    exact ⟨fun hentry => hentry.2, fun hplace => ⟨hs, hplace⟩⟩
  · obtain ⟨p, hp⟩ := hfiled.filed f hf hkind
    refine ⟨p, (hfiled.fits hp).2, fun p' => ⟨fun hp' => hfiled.once hp' hp, ?_⟩⟩
    rintro rfl
    exact hp

/-- The second `quack` and the function `Duck` are refused. -/
def birds : File Mark where
  id := 0
  ns := ["zoo", "birds"]
  decls := [
    .cls {
      mark := default, name := "Duck", init := some { mark := default, name := "init" }
      methods := [{ mark := default, name := "quack" }, { mark := default, name := "quack" }] },
    .function { mark := default, name := "Duck" },
    .function { mark := default, name := "feed", receiver := some default },
    .enum { mark := default, name := "Color", variants := ["red"] }]

/-- A dependency, a file and a namespace below that of the file. -/
def aviary : Registry :=
  [.seed ["zoo"], .registerFile birds, .addScope 2 "nest" "zoo"].foldl Registry.Operation.apply
    { tree := ofProject "app" }

theorem wellShaped_aviary : aviary.Built "app" ∧ aviary.errors.length = 2 ∧
    aviary.tree.segments 3 = ["zoo", "birds", "nest"] ∧ aviary.tree.WellShaped := by
  have hbuilt : aviary.Built "app" := by
    refine .step (.step (.step .start (.seed ["zoo"]) trivial) (.registerFile birds) trivial)
      (.addScope 2 "nest" "zoo") ?_
    change 2 < _
    decide +kernel
  exact ⟨hbuilt, by decide +kernel, by decide +kernel, wellShaped_of_built hbuilt⟩

end Tree

end ObjectLang.Scope
