import ObjectLang.Analysis
import ObjectLang.Proofs.ClassBuilding
import ObjectLang.Proofs.Fragments
import ObjectLang.Proofs.TreeShape

/-! # Declarations

What the tree of declarations says of members is so: a method is found under its name in the
structure that owns it, and the methods of a class are told apart by their nodes, since every node
that is numbered gets an id of its own.
-/

namespace ObjectLang.Syntax

open Source Names

/-- The methods of a class are told apart by their nodes. -/
def Class.Distinct (c : Class Mark) : Prop := (c.methods.map (·.mark.node)).Nodup

/-- If the declaration is one of a class, the class is such. -/
def Decl.Holds (P : Class Mark → Prop) : Decl Mark → Prop
  | .cls c => P c
  | _ => True

theorem distinct_numberFiles (files : List (File Hint)) :
    ∀ f ∈ (numberFiles files).1, ∀ d ∈ f.decls, d.Holds Class.Distinct := by
  intro f hf d hd
  cases d with
  | cls c =>
    have hids := nodup_numberFiles files
    rw [List.map_flatMap, List.nodup_flatMap] at hids
    have hfile := hids.1 f hf
    rw [File.sites, sitesOf, List.map_flatMap, List.nodup_flatMap] at hfile
    have hclass :=
      hfile.1 (.cls c) (List.mem_append_right _ (List.mem_map_of_mem (f := Fragment.ofDecl) hd))
    rw [Fragment.sites_eq, List.map_append, List.nodup_append] at hclass
    have hmethods := (ids_sublist [.cls c] (Fragment.cls c).parts).nodup hclass.1
    simp only [Fragment.parts, List.map_append, List.nodup_append, List.map_map] at hmethods
    exact hmethods.2.1.2.1.2.1.2.1
  | _ => trivial

end ObjectLang.Syntax

namespace ObjectLang.Scope

open Source Syntax Diagnostic

namespace Tree

variable {t t' : Tree} {C : Class Mark → Prop}

/-- All classes are such, and members are what the declarations of their structures list. -/
structure Listed (t : Tree) (C : Class Mark → Prop) : Prop where
  classes : ∀ {s decl}, (t.structureAt s).decl.cls? = some decl → C decl
  members : ∀ {f s}, f < t.functions.size → (t.functionAt f).owner = .struct s →
    s < t.structures.size ∧
    ((t.functionAt f).kind, (t.functionAt f).decl) ∈ (t.structureAt s).decl.members
  init : ∀ {s f}, (t.structureAt s).init = some f →
    t.Declares f fun sym => sym.owner = .struct s ∧ sym.kind = .init

theorem Enters.init_eq {sym : FunctionSymbol} (h : t.Enters sym t') {s : StructureId} {f : SymbolId}
    (hf : (t'.structureAt s).init = some f) : (t.structureAt s).init = some f ∨
      f = t.functions.size ∧ sym.owner = .struct s ∧ sym.kind = .init := by
  cases h with
  | extension | named => exact .inl hf
  | @init s' howner hkind =>
    rcases (t.withFunction sym).structureAt_updateStructure s' s _ with heq | ⟨rfl, heq⟩ <;>
      rw [heq] at hf
    · exact .inl hf
    · cases hf
      exact .inr ⟨rfl, howner, hkind⟩
  | @method s' =>
    rcases (t.withFunction sym).structureAt_updateStructure s' s _ with heq | ⟨rfl, heq⟩ <;>
      rw [heq] at hf <;> exact .inl hf

namespace Listed

theorem same (h : t.Listed C) (hstructures : t'.structures = t.structures)
    (hfunctions : t'.functions = t.functions) : t'.Listed C := by
  have hstructure (s : StructureId) : t'.structureAt s = t.structureAt s := by
    rw [structureAt, hstructures, structureAt]
  have hfunction (f : SymbolId) : t'.functionAt f = t.functionAt f := by
    rw [functionAt, hfunctions, functionAt]
  refine ⟨fun hs => h.classes (hstructure _ ▸ hs), fun {f s} hf howner => ?_, fun hf => ?_⟩
  · rw [hfunction] at howner ⊢
    rw [hstructure, hstructures]
    exact h.members (hfunctions ▸ hf) howner
  · exact (h.init (hstructure _ ▸ hf)).keep (keeps_of_eq hfunctions)

theorem settle (h : t.Listed C) {ns : NamespaceId} {file : Nat} {decl : StructureDecl}
    {name : String} (hsettled : t.Settled ns file decl name t')
    (hdecl : ∀ c, decl.cls? = some c → C c) : t'.Listed C := by
  refine ⟨fun {s c} hs => ?_, fun {f s} hf howner => ?_, fun {s f} hf => ?_⟩
  · rw [hsettled.structureAt] at hs
    split at hs
    · exact hdecl c hs
    · exact h.classes hs
  · rw [functionAt, hsettled.functions] at howner ⊢
    obtain ⟨hs, hmem⟩ := h.members (hsettled.functions ▸ hf) howner
    rw [hsettled.structureAt, if_neg (Nat.ne_of_lt hs), hsettled.structures, Array.size_push]
    exact ⟨Nat.lt_succ_of_lt hs, hmem⟩
  · rw [hsettled.structureAt] at hf
    split at hf
    · cases hf
    · exact (h.init hf).keep (keeps_of_eq hsettled.functions)

theorem enters (h : t.Listed C) {sym : FunctionSymbol} (henters : t.Enters sym t')
    (hsym : ∀ s, sym.owner = .struct s → s < t.structures.size ∧
      (sym.kind, sym.decl) ∈ (t.structureAt s).decl.members) : t'.Listed C := by
  refine ⟨fun {s c} hs => ?_, fun {f s} hf howner => ?_, fun {s f} hf => ?_⟩
  · rw [(henters.structureAt s).2.1] at hs
    exact h.classes hs
  · rw [henters.functionAt] at howner ⊢
    rw [(henters.structureAt s).2.1, henters.size_structures]
    rw [henters.functions, Array.size_push] at hf
    split at howner
    · next heq =>
      rw [if_pos heq]
      exact hsym s howner
    · next hne =>
      rw [if_neg hne]
      exact h.members (Nat.lt_of_le_of_ne (Nat.le_of_lt_succ hf) hne) howner
  · rcases henters.init_eq hf with hold | ⟨rfl, hnew⟩
    · exact (h.init hold).keep (keeps_of_push henters.functions)
    · exact declares_of_push henters.functions hnew

theorem change (h : t.Listed C) {files : List (File Mark)}
    (hC : ∀ f ∈ files, ∀ d ∈ f.decls, d.Holds C) (hchange : Change files t t') : t'.Listed C := by
  cases hchange with
  | scope hparent name project =>
    have hsame := sameEntries_addScope hparent name project
    exact h.same hsame.structures hsame.functions
  | listFile ns file => exact h.same rfl rfl
  | @settle f d decl ns t' hf hd hdecl _ hsettled =>
    refine h.settle hsettled fun c hc => ?_
    cases d with
    | cls c' =>
      cases hdecl
      cases hc
      exact hC f hf _ hd
    | function g => cases hdecl
    | protocol p | enum p =>
      cases hdecl
      cases hc
  | function _ _ _ henters => exact h.enters henters (by simp)
  | member _ _ _ hs hat hg henters =>
    refine h.enters henters fun s' hs' => ?_
    cases hs'
    exact ⟨hs, hat ▸ hg⟩

/-- The methods of a class are among those of its declaration. -/
theorem mem_methods (h : t.Listed C) (hfiled : t.Filed) {s : StructureId} {c : Class Mark}
    {f : SymbolId} {n : String} (hc : (t.structureAt s).decl.cls? = some c)
    (hf : (t.structureAt s).methods[n]? = some f) :
    (t.functionAt f).decl ∈ c.methods := by
  obtain ⟨hlt, howner, -, hkind⟩ := hfiled.fits (p := .method s n) hf
  have hmem := (h.members hlt howner.symm).2
  cases hdecl : (t.structureAt s).decl with
  | cls c' =>
    rw [hdecl] at hc hmem
    cases hc
    simp only [StructureDecl.members, List.mem_append, List.mem_map, Prod.mk.injEq] at hmem
    rcases hmem with ⟨g, -, hinit, -⟩ | ⟨g, hg, -, heq⟩
    · exact absurd hinit.symm hkind
    · exact heq ▸ hg
  | protocol p | enum p =>
    rw [hdecl] at hc
    cases hc

/-- What is no member stands in a namespace. -/
theorem placed (h : t.Listed C) {f : SymbolId} (hf : f < t.functions.size)
    (hkind : (t.functionAt f).kind = .free ∨ (t.functionAt f).kind = .extension) :
    ∃ ns, (t.functionAt f).owner = .ns ns := by
  cases howner : (t.functionAt f).owner with
  | ns ns => exact ⟨ns, rfl⟩
  | struct s =>
    have hmem := (h.members hf howner).2
    cases hdecl : (t.structureAt s).decl <;> rcases hkind with hkind | hkind <;>
      simp [hdecl, hkind, StructureDecl.members] at hmem

end Listed

end Tree

open Scope.Tree in
theorem Registry.listed_ofFiles {C : Class Mark → Prop} (project : String)
    (dependencies : List String)
    {files : List (File Mark)} (hempty : C default) (h : ∀ f ∈ files, ∀ d ∈ f.decls, d.Holds C) :
    (ofFiles project dependencies files).tree.Listed C := by
  refine (ofFiles_induction (P := (Listed · C)) project dependencies ⟨fun hs => ?_, nofun, nofun⟩
    (fun _ ht hchange => ht.change h hchange) fun _ ht => ht.same rfl rfl).2
  cases hs
  exact hempty

end ObjectLang.Scope

namespace ObjectLang

open Syntax Scope Check

/-- A project as it is written, with its nodes numbered. -/
def Project.ofWritten (name : String) (dependencies : List String) (files : List (File Hint)) :
    Project :=
  { name, dependencies, files := (numberFiles files).1 }

theorem regular_sources (name : String) (dependencies : List String) (files : List (File Hint)) :
    (Project.ofWritten name dependencies files).resolve.sources.Regular := by
  have hlisted :=
    Registry.listed_ofFiles name dependencies List.nodup_nil (distinct_numberFiles files)
  have hfiled := (Registry.ordered_ofFiles name dependencies (numberFiles files).1).filed
  refine ⟨hlisted.classes, fun {s f n} hf => ?_, fun hf => (hlisted.init hf).2,
    fun {ns f n} hf => ?_, fun {ns f n} hf => ?_⟩
  · obtain ⟨-, howner, hname, -⟩ := hfiled.fits (p := .method s n) hf
    exact ⟨howner.symm, hname.symm⟩
  · obtain ⟨hlt, howner, -⟩ := hfiled.fits (p := .named ns n) hf
    exact ⟨hlt, ns, howner.symm⟩
  · obtain ⟨index, hindex⟩ := List.mem_iff_getElem?.mp (List.mem_filter.mp hf).1
    obtain ⟨-, howner, hkind⟩ := hfiled.fits (p := .extension ns index) hindex
    exact ⟨⟨ns, howner.symm⟩, hkind⟩

end ObjectLang
