import Mathlib.Data.Set.Finite.Lattice
import Mathlib.Data.Set.Finite.List
import ObjectLang.Proofs.Courses
import ObjectLang.Proofs.Declarations

/-! # What is declared

There are finitely many declarations, the methods of a class that the tree knows are those that its
declaration lists, and functions that are not members stand in namespaces.
-/

namespace ObjectLang.Check

open Syntax Scope Names

/-- The numbers of structures that names stand for are bounded. -/
theorem Sources.exists_target_bound (src : Sources) :
    ∃ n : Nat, ∀ {node id}, src.names.target node = .struct id → id < n := by
  let ids := src.names.targets.toList.filterMap fun x => match x.2 with
    | .struct id => some id
    | _ => none
  obtain ⟨n, hn⟩ := ids.finite_toSet.bddAbove
  refine ⟨n + 1, fun {node id} h => Nat.lt_succ_of_le
    (hn (List.mem_filterMap.mpr ⟨(node, .struct id), ?_, rfl⟩))⟩
  rw [Std.TreeMap.mem_toList_iff_getElem?_eq_some]
  rw [Resolution.target] at h
  cases hnode : src.names.targets[node]? with
  | none =>
    rw [hnode] at h
    cases h
  | some target =>
    rw [hnode] at h
    exact congrArg some h

/-- The numbers of structures that own functions are bounded. -/
theorem Sources.exists_owner_bound (src : Sources) :
    ∃ n : Nat, ∀ {f id}, (src.tree.functionAt f).owner = .struct id → id < n := by
  -- A number without a function stands for the default one.
  let owners := (default :: src.tree.functions.toList).map fun f => f.owner
  have hfinite : {id | Owner.struct id ∈ owners}.Finite :=
    owners.finite_toSet.preimage fun _ _ _ _ h => Owner.struct.inj h
  obtain ⟨n, hn⟩ := hfinite.bddAbove
  refine ⟨n + 1, fun {f id} h => Nat.lt_succ_of_le
    (hn (List.mem_map.mpr ⟨src.tree.functionAt f, ?_, h⟩))⟩
  rw [Tree.functionAt, Array.getD_eq_getD_getElem?]
  cases hf : src.tree.functions[f]? with
  | none => exact List.mem_cons_self
  | some sym => exact List.mem_cons_of_mem _ (Array.mem_def.mp (Array.mem_of_getElem? hf))

theorem Sources.Proper.mono {src : Sources} {m n : Nat} (h : src.Proper m) (hmn : m ≤ n) :
    src.Proper n := by
  refine ⟨fun ht => Nat.lt_of_lt_of_le (h.targets ht) hmn, fun hf => ?_, fun hf => ?_, h.methods⟩
  · exact ⟨Nat.lt_of_lt_of_le (h.functions hf).1 hmn, (h.functions hf).2⟩
  · exact ⟨Nat.lt_of_lt_of_le (h.extensions hf).1 hmn, (h.extensions hf).2⟩

end ObjectLang.Check

namespace ObjectLang

open Syntax Scope Check

/-- The sources of a project as it is written. -/
abbrev sourcesOf (name : String) (dependencies : List String) (files : List (File Hint)) :
    Sources :=
  (Project.ofWritten name dependencies files).resolve.sources

theorem proper_sources (name : String) (dependencies : List String) (files : List (File Hint)) :
    ∃ n, (sourcesOf name dependencies files).Proper n := by
  have hlisted :=
    Registry.listed_ofFiles name dependencies List.nodup_nil (distinct_numberFiles files)
  have hfiled := (Registry.ordered_ofFiles name dependencies (numberFiles files).1).filed
  obtain ⟨n, htargets⟩ := (sourcesOf name dependencies files).exists_target_bound
  generalize hsrc : sourcesOf name dependencies files = src at htargets ⊢
  refine ⟨max n src.tree.functions.size, ?_, ?_, ?_, ?_⟩
  · exact fun ht => Nat.lt_of_lt_of_le (htargets ht) (Nat.le_max_left _ _)
  · intro ns f name hf
    subst hsrc
    obtain ⟨hlt, howner, -⟩ := hfiled.fits (p := .named ns name) hf
    exact ⟨Nat.lt_of_lt_of_le hlt (Nat.le_max_right _ _), ns, howner.symm⟩
  · intro ns f name hf
    subst hsrc
    obtain ⟨index, hindex⟩ := List.mem_iff_getElem?.mp (List.mem_filter.mp hf).1
    obtain ⟨hlt, howner, -⟩ := hfiled.fits (p := .extension ns index) hindex
    exact ⟨Nat.lt_of_lt_of_le hlt (Nat.le_max_right _ _), ns, howner.symm⟩
  · intro id decl f method hdecl hmethod hf hnode
    subst hsrc
    -- Methods of one class with the same node are the same.
    exact congrArg Function.typeParams (List.inj_on_of_nodup_map (hlisted.classes hdecl)
      (hlisted.mem_methods hfiled hdecl hf) hmethod hnode)

theorem placed_sources (name : String) (dependencies : List String) (files : List (File Hint))
    (f : SymbolId) (hf : f < (sourcesOf name dependencies files).tree.functions.size)
    (hkind : ((sourcesOf name dependencies files).tree.functionAt f).kind = .free ∨
      ((sourcesOf name dependencies files).tree.functionAt f).kind = .extension) :
    ∃ ns, ((sourcesOf name dependencies files).tree.functionAt f).owner = .ns ns :=
  (Registry.listed_ofFiles name dependencies List.nodup_nil (distinct_numberFiles files)).placed
    hf hkind

end ObjectLang
