import ObjectLang.Proofs.NameRecords

/-! # What the names of types mean

A qualified name is looked up from the root.  A single name is a type parameter around it, else a
structure of the innermost namespace of the file that has one, else one of the first import that has
one.  Every named type of every file is looked up in that order, once, and those that mean nothing
are reported, once each.
-/

namespace ObjectLang.Names

open Source Syntax Scope Diagnostic

/-- The first of the namespaces that has a structure of the name has this one. -/
def First (t : Tree) (name : String) (spaces : List NamespaceId) (s : StructureId) : Prop :=
  ∃ before ns after, spaces = before ++ ns :: after ∧ (∀ n ∈ before, t.structureIn n name = none) ∧
    t.structureIn ns name = some s

/-- What a path means below type parameters. -/
inductive View.Finds (v : View) (params : List String) : List String → Target → Prop where
  | qualified {outer : List String} {name : String} {ns : NamespaceId} {s : StructureId}
      (h : outer ≠ [])
      (hns : v.tree.lookup outer = some ns) (hs : v.tree.structureIn ns name = some s) :
      Finds v params (outer ++ [name]) (.struct s)
  | param {name : String} (h : name ∈ params) : Finds v params [name] (.typeParam name)
  | inner {name : String} {s : StructureId} (hparam : name ∉ params)
      (h : First v.tree name v.spaces s) :
      Finds v params [name] (.struct s)
  | imported {name : String} {s : StructureId} (hparam : name ∉ params)
      (hinner : ∀ ns ∈ v.spaces, v.tree.structureIn ns name = none)
      (h : First v.tree name v.imports s) :
      Finds v params [name] (.struct s)

theorem firstStructure_eq_some_iff {t : Tree} {name : String} {spaces : List NamespaceId}
    {s : StructureId} :
    firstStructure t name spaces = some s ↔ First t name spaces s := by
  rw [firstStructure, List.findSome?_eq_some_iff, First]
  simp only [and_comm]

namespace View

variable {v : View} {params : List String}

theorem find_single (name : String) :
    v.find params [name] = if name ∈ params then .typeParam name else
      .ofFound ((firstStructure v.tree name v.spaces).or
        (firstStructure v.tree name v.imports)) := by
  rw [firstStructure, firstStructure, ← List.findSome?_append]
  rfl

theorem find_qualified {outer : List String} (h : outer ≠ []) (name : String) :
    v.find params (outer ++ [name]) =
      .ofFound ((v.tree.lookup outer).bind fun ns => v.tree.structureIn ns name) := by
  obtain ⟨last, rest, hreverse⟩ := List.exists_cons_of_ne_nil (mt List.reverse_eq_nil_iff.1 h)
  have hpath : (outer ++ [name]).reverse = name :: last :: rest := by simp [hreverse]
  have hback : (last :: rest).reverse = outer := by simp [← hreverse]
  rw [find, hpath]
  simp only [hback]

theorem Finds.find_eq {path : List String} {t : Target} (h : v.Finds params path t) :
    v.find params path = t := by
  cases h with
  | qualified h hns hs =>
    rw [find_qualified h, hns, Option.bind_some, hs]
    rfl
  | param h => rw [find_single, if_pos h]
  | inner hparam h =>
    rw [find_single, if_neg hparam, firstStructure_eq_some_iff.2 h]
    rfl
  | imported hparam hinner h =>
    have hnone : firstStructure v.tree _ v.spaces = none := List.findSome?_eq_none_iff.2 hinner
    rw [find_single, if_neg hparam, hnone, firstStructure_eq_some_iff.2 h]
    rfl

theorem finds_find {path : List String} (h : v.find params path ≠ .unknown) :
    v.Finds params path (v.find params path) := by
  rcases List.eq_nil_or_concat path with rfl | ⟨outer, name, rfl⟩
  · exact absurd rfl h
  · rw [List.concat_eq_append] at h ⊢
    by_cases houter : outer = []
    · subst houter
      rw [List.nil_append, find_single] at h ⊢
      split at h
      · next hparam =>
        rw [if_pos hparam]
        exact .param hparam
      · next hparam =>
        rw [if_neg hparam]
        cases hspaces : firstStructure v.tree name v.spaces with
        | some s => exact .inner hparam (firstStructure_eq_some_iff.1 hspaces)
        | none =>
          cases himports : firstStructure v.tree name v.imports with
          | some s =>
            exact .imported hparam (List.findSome?_eq_none_iff.1 hspaces)
              (firstStructure_eq_some_iff.1 himports)
          | none => exact absurd (by rw [hspaces, himports]; rfl) h
    · rw [find_qualified houter] at h ⊢
      cases hfound : (v.tree.lookup outer).bind fun ns => v.tree.structureIn ns name with
      | none => exact absurd (by rw [hfound]; rfl) h
      | some s =>
        obtain ⟨ns, hns, hs⟩ := Option.bind_eq_some_iff.1 hfound
        exact .qualified houter hns hs

/-- Look-up follows the order. -/
theorem find_eq_iff {path : List String} {t : Target} (ht : t ≠ .unknown) :
    v.find params path = t ↔ v.Finds params path t :=
  ⟨fun h => h ▸ finds_find (h ▸ ht), Finds.find_eq⟩

end View

end ObjectLang.Names

namespace ObjectLang

open Syntax Scope Names

/-- Every named type of every file has the target that the order of look-up gives it, `unknown` if
there is none; and what is reported is one error for each use that names no namespace and one for
each named type without a target. -/
theorem type_names_resolve_in_order (project : String) (dependencies : List String)
    (files : List (File Mark)) (hids : ((files.flatMap File.sites).map Site.id).Nodup) :
    let tree := (Registry.ofFiles project dependencies files).tree
    let names := (Resolver.resolve tree).names
    (∀ f ∈ files, (∀ path ∈ f.ns.inits, (tree.lookup path).isSome) ∧
      ∀ x ∈ f.sites, ∀ path, x.node.named? = some path →
        ∃ t, names.targets[x.id]? = some t ∧
          ∀ t', t' ≠ .unknown → (t = t' ↔ (View.ofFile tree f).Finds (paramsOf x.above) path t')) ∧
      (Resolver.resolve tree).errors =
        (files.flatMap File.sites).flatMap fun x => x.complaints tree names.targets[x.id]? := by
  intro tree names
  have hnotes := (notes_resolve project dependencies hids).1
  refine ⟨fun f hf => ⟨fun path hpath => ?_, fun x hx path hpath => ?_⟩,
    errors_resolve project dependencies hids⟩
  · rw [← Registry.sources_ofFiles project dependencies files] at hf
    obtain ⟨entry, hentry, rfl⟩ := List.mem_map.1 hf
    have hlookup := (Registry.seated_ofFiles project dependencies files).2 entry hentry
    obtain ⟨rest, hrest⟩ := (List.mem_inits path _).1 hpath
    rw [← hrest, Tree.lookup, Tree.lookupFrom_append] at hlookup
    obtain ⟨outer, houter, -⟩ := Option.bind_eq_some_iff.1 hlookup
    exact Option.isSome_iff_exists.2 ⟨outer, houter⟩
  · have htarget : names.targets[x.id]? = x.node.named?.map _ :=
      congrArg Note.target (hnotes f hf x hx)
    rw [hpath] at htarget
    exact ⟨_, htarget, fun t' ht' => View.find_eq_iff ht'⟩

/-- A class in a namespace, and one elsewhere with fields of a type parameter, of that class by its
name and of a class that is not there. -/
def shelf : List (File Hint) := [
  { id := 0, ns := ["lib"], decls := [.cls { mark := none, name := "Item" }] },
  { id := 1, uses := [{ mark := none, path := ["lib"] }, { mark := none, path := ["nowhere"] }]
    decls := [.cls {
      mark := none, name := "Shelf", typeParams := ["T"]
      fields := [
        { mark := none, name := "top", type := .named none ["T"] [] },
        { mark := none, name := "item", type := .named none ["Item"] [] },
        { mark := none, name := "none", type := .named none ["Missing"] [] }] }] }]

theorem type_names_shelf :
    ∃ files tree, files = (numberFiles shelf).1 ∧ tree = (Registry.ofFiles "app" [] files).tree ∧
      ((files.flatMap File.sites).map Site.id).Nodup ∧
      (∃ n : Nat, (Resolver.resolve tree).names.targets[n]? = some (.typeParam "T")) ∧
      (∃ (n : Nat) (s : StructureId), (Resolver.resolve tree).names.targets[n]? =
      some (.struct s)) ∧ (Resolver.resolve tree).errors.length = 2 := by
  have hids := nodup_numberFiles shelf
  have hparam : ((numberFiles shelf).1.any fun f => f.sites.any fun x =>
      x.node.named? == some ["T"] && (paramsOf x.above).contains "T") = true := by decide +kernel
  have himport : ((numberFiles shelf).1.any fun f => f.sites.any fun x =>
      x.node.named? == some ["Item"] && decide ("Item" ∉ paramsOf x.above) &&
      ((View.ofFile (Registry.ofFiles "app" [] (numberFiles shelf).1).tree f).spaces.all fun ns =>
        ((Registry.ofFiles "app" [] (numberFiles shelf).1).tree.structureIn ns "Item").isNone) &&
      (firstStructure (Registry.ofFiles "app" [] (numberFiles shelf).1).tree "Item"
        (View.ofFile (Registry.ofFiles "app" [] (numberFiles shelf).1).tree f).imports).isSome) =
        true := by
    decide +kernel
  have hcount : (((numberFiles shelf).1.flatMap File.sites).flatMap fun x =>
      x.complaints (Registry.ofFiles "app" [] (numberFiles shelf).1).tree (Resolver.resolve
        (Registry.ofFiles "app" [] (numberFiles shelf).1).tree).names.targets[x.id]?).length =
        2 := by
    decide +kernel
  obtain ⟨hfiles, herrors⟩ := type_names_resolve_in_order "app" [] (numberFiles shelf).1 hids
  generalize (numberFiles shelf).1 = files at *
  generalize htree : (Registry.ofFiles "app" [] files).tree = tree at *
  simp only [List.any_eq_true, Bool.and_eq_true, beq_iff_eq, List.contains_iff_mem,
    decide_eq_true_eq,
    List.all_eq_true, Option.isNone_iff_eq_none, Option.isSome_iff_exists] at hparam himport
  obtain ⟨f, hf, x, hx, hnode, hmem⟩ := hparam
  obtain ⟨g, hg, y, hy, ⟨⟨hnode', hnot⟩, hinner⟩, s, hs⟩ := himport
  obtain ⟨t, ht, hfinds⟩ := (hfiles f hf).2 x hx _ hnode
  obtain ⟨t', ht', hfinds'⟩ := (hfiles g hg).2 y hy _ hnode'
  have hT := (hfinds (.typeParam "T") (by simp)).2 (.param hmem)
  have hItem :=
    (hfinds' (.struct s) (by simp)).2 (.imported hnot hinner (firstStructure_eq_some_iff.1 hs))
  exact ⟨files, tree, rfl, htree.symm, hids, ⟨x.id, ht.trans (congrArg some hT)⟩,
    ⟨y.id, s, ht'.trans (congrArg some hItem)⟩, (congrArg List.length herrors).trans hcount⟩

end ObjectLang
