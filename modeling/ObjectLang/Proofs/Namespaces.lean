import Mathlib.Data.List.Nodup
import ObjectLang.Proofs.Instances
import ObjectLang.Scope.Registry

/-! # Namespaces

Namespaces form a tree under the root: a child and its parent know each other, so every chain of
parents ends at the root and the names on the way down lead to the namespace again.
-/

namespace ObjectLang.Scope

open Source Syntax Diagnostic

namespace Tree

variable {t t' : Tree}

/-! ### Look-up after a change -/

theorem namespaceAt_updateNamespace (ns ns' : NamespaceId) (u : Namespace → Namespace) :
    (t.updateNamespace ns u).namespaceAt ns' = t.namespaceAt ns' ∨
      ns' = ns ∧ (t.updateNamespace ns u).namespaceAt ns' = u (t.namespaceAt ns) :=
  getD_set_cases ..

theorem structureAt_updateStructure (s s' : StructureId) (u : Structure → Structure) :
    (t.updateStructure s u).structureAt s' = t.structureAt s' ∨
      s' = s ∧ (t.updateStructure s u).structureAt s' = u (t.structureAt s) :=
  getD_set_cases ..

theorem namespaceAt_update {ns : NamespaceId} (h : ns < t.namespaces.size)
    (u : Namespace → Namespace) (ns' : NamespaceId) :
    (t.updateNamespace ns u).namespaceAt ns' =
      if ns' = ns then u (t.namespaceAt ns) else t.namespaceAt ns' :=
  getD_set _ _ _ ns' h

theorem structureAt_update {s : StructureId} (h : s < t.structures.size)
    (u : Structure → Structure) (s' : StructureId) :
    (t.updateStructure s u).structureAt s' =
      if s' = s then u (t.structureAt s) else t.structureAt s' :=
  getD_set _ _ _ s' h

@[simp]
theorem size_updateNamespace (ns : NamespaceId) (u : Namespace → Namespace) :
    (t.updateNamespace ns u).namespaces.size = t.namespaces.size := by
  simp [updateNamespace]

@[simp]
theorem size_updateStructure (s : StructureId) (u : Structure → Structure) :
    (t.updateStructure s u).structures.size = t.structures.size := by
  simp [updateStructure]

theorem namespaceAt_push (n : Namespace) (ns : NamespaceId) :
    namespaceAt { t with namespaces := t.namespaces.push n } ns =
      if ns = t.namespaces.size then n else t.namespaceAt ns :=
  getD_push ..

theorem structureAt_push (s : Structure) (id : StructureId) :
    structureAt { t with structures := t.structures.push s } id =
      if id = t.structures.size then s else t.structureAt id :=
  getD_push ..

theorem namespaceAt_of_le {ns : NamespaceId} (h : t.namespaces.size ≤ ns) :
    t.namespaceAt ns = default :=
  getD_of_le _ _ h

theorem structureAt_of_le {s : StructureId} (h : t.structures.size ≤ s) :
    t.structureAt s = default :=
  getD_of_le _ _ h

/-! ### Parents and children -/

/-- A namespace and the one around it know each other, and the outer one is the older. -/
structure Rooted (t : Tree) : Prop where
  top : root < t.namespaces.size ∧ (t.namespaceAt root).parent = none
  parent : ∀ ns < t.namespaces.size, ns ≠ root →
    ∃ outer < ns, (t.namespaceAt ns).parent = some outer ∧
    (t.namespaceAt outer).children[(t.namespaceAt ns).name]? = some ns
  child : ∀ {outer ns} {name : String}, (t.namespaceAt outer).children[name]? = some ns →
    ns < t.namespaces.size ∧ ns ≠ root ∧ (t.namespaceAt ns).parent = some outer ∧
      (t.namespaceAt ns).name = name

theorem rooted_ofProject (project : String) : (ofProject project).Rooted := by
  refine ⟨⟨Nat.zero_lt_one, rfl⟩, fun ns hns hroot => ?_, fun {outer ns name} h => ?_⟩
  · exact absurd (Nat.lt_one_iff.mp hns) hroot
  · cases outer with
    | zero => cases h
    | succ n => cases h

/-- The trees agree in how namespaces are linked. -/
def SameLinks (t t' : Tree) : Prop :=
  t'.namespaces.size = t.namespaces.size ∧
    ∀ ns, (t'.namespaceAt ns).name = (t.namespaceAt ns).name ∧
    (t'.namespaceAt ns).parent = (t.namespaceAt ns).parent ∧
      (t'.namespaceAt ns).children = (t.namespaceAt ns).children

theorem sameLinks_update (ns : NamespaceId) {u : Namespace → Namespace}
    (hname : ∀ n, (u n).name = n.name)
    (hparent : ∀ n, (u n).parent = n.parent) (hchildren : ∀ n, (u n).children = n.children) :
    t.SameLinks (t.updateNamespace ns u) := by
  refine ⟨by simp, fun ns' => ?_⟩
  rcases t.namespaceAt_updateNamespace ns ns' u with heq | ⟨rfl, heq⟩ <;> rw [heq]
  · exact ⟨rfl, rfl, rfl⟩
  · exact ⟨hname _, hparent _, hchildren _⟩

variable {parent : NamespaceId} {name : String}

theorem namespaceAt_addScope (hparent : parent < t.namespaces.size) (project : String)
    (hnew : (t.namespaceAt parent).children[name]? = none) (ns : NamespaceId) :
    (t.addScope parent name project).2.namespaceAt ns =
      if ns = t.namespaces.size then { name, project, parent := some parent }
      else if ns = parent then
        { t.namespaceAt ns with
          children := (t.namespaceAt ns).children.insert name t.namespaces.size }
      else t.namespaceAt ns := by
  rw [addScope, hnew]
  refine (namespaceAt_push _ ns).trans ?_
  rw [size_updateNamespace, namespaceAt_update hparent]
  by_cases heq : ns = parent
  · subst heq
    rfl
  · rw [if_neg heq, if_neg heq]

theorem children_addScope (hparent : parent < t.namespaces.size) (project : String)
    (hnew : (t.namespaceAt parent).children[name]? = none) (ns : NamespaceId) (segment : String) :
    ((t.addScope parent name project).2.namespaceAt ns).children[segment]? =
      if ns = parent ∧ segment = name then some t.namespaces.size
      else (t.namespaceAt ns).children[segment]? := by
  rw [namespaceAt_addScope hparent project hnew]
  split
  · next hns =>
    subst hns
    rw [if_neg fun h => Nat.ne_of_gt hparent h.1, namespaceAt_of_le (Nat.le_refl _)]
    rfl
  · split
    · next hns =>
      simp only [hns, true_and, Std.TreeMap.getElem?_insert, Std.compare_eq_iff_eq,
        eq_comm (a := name)]
    · next hns => rw [if_neg fun h => hns h.1]

theorem addScope_of_some {child : NamespaceId} (project : String)
    (h : (t.namespaceAt parent).children[name]? = some child) :
    t.addScope parent name project = (child, t) := by
  rw [addScope, h]

theorem addScope_of_none (project : String) (h : (t.namespaceAt parent).children[name]? = none) :
    (t.addScope parent name project).1 = t.namespaces.size ∧
      (t.addScope parent name project).2.namespaces.size = t.namespaces.size + 1 := by
  rw [addScope, h]
  simp

namespace Rooted

theorem same (h : t.Rooted) (hlinks : t.SameLinks t') : t'.Rooted := by
  obtain ⟨hsize, hlinks⟩ := hlinks
  have hname ns := (hlinks ns).1
  have hparent ns := (hlinks ns).2.1
  have hchildren ns := (hlinks ns).2.2
  refine ⟨?_, ?_, fun {outer ns name} hchild => ?_⟩
  · simpa only [hsize, hparent] using h.top
  · simpa only [hsize, hname, hparent, hchildren] using h.parent
  · rw [hchildren] at hchild
    simpa only [hsize, hname, hparent] using h.child hchild

theorem addScope (h : t.Rooted) {parent : NamespaceId} (hparent : parent < t.namespaces.size)
    (name project : String) : (t.addScope parent name project).2.Rooted := by
  cases hchild : (t.namespaceAt parent).children[name]? with
  | some child =>
    rw [addScope_of_some project hchild]
    exact h
  | none =>
    obtain ⟨-, hsize⟩ := addScope_of_none project hchild
    have hchildren := children_addScope hparent project hchild
    have hnew := namespaceAt_addScope hparent project hchild t.namespaces.size
    rw [if_pos rfl] at hnew
    have hold {ns : NamespaceId} (hns : ns < t.namespaces.size) :
        ((t.addScope parent name project).2.namespaceAt ns).name = (t.namespaceAt ns).name ∧
          ((t.addScope parent name project).2.namespaceAt ns).parent =
          (t.namespaceAt ns).parent := by
      rw [namespaceAt_addScope hparent project hchild, if_neg (Nat.ne_of_lt hns)]
      split <;> exact ⟨rfl, rfl⟩
    refine ⟨?_, fun ns hns hroot => ?_, fun {outer ns segment} hentry => ?_⟩
    · exact ⟨hsize ▸ Nat.lt_succ_of_lt h.top.1, (hold h.top.1).2.trans h.top.2⟩
    · rcases Nat.lt_or_eq_of_le (Nat.le_of_lt_succ (hsize ▸ hns)) with hlt | rfl
      · obtain ⟨outer, houter, hup, hdown⟩ := h.parent ns hlt hroot
        refine ⟨outer, houter, (hold hlt).2.trans hup, ?_⟩
        rw [hchildren, (hold hlt).1, if_neg, hdown]
        -- The name would be new below `parent`.
        rintro ⟨rfl, hname⟩
        rw [hname, hchild] at hdown
        cases hdown
      · refine ⟨parent, hparent, by rw [hnew], ?_⟩
        rw [hchildren, hnew, if_pos ⟨rfl, rfl⟩]
    · rw [hchildren] at hentry
      split at hentry
      · next heq =>
        obtain ⟨rfl, rfl⟩ := heq
        cases hentry
        rw [hnew]
        exact ⟨hsize ▸ Nat.lt_succ_self _, Nat.ne_of_gt h.top.1, rfl, rfl⟩
      · obtain ⟨hlt, hroot, hup, hname⟩ := h.child hentry
        exact ⟨hsize ▸ Nat.lt_succ_of_lt hlt, hroot, (hold hlt).2.trans hup,
          (hold hlt).1.trans hname⟩

theorem addScope_lt (h : t.Rooted) (parent : NamespaceId) (name project : String) :
    (t.addScope parent name project).1 < (t.addScope parent name project).2.namespaces.size := by
  cases hchild : (t.namespaceAt parent).children[name]? with
  | some child =>
    rw [addScope_of_some project hchild]
    exact (h.child hchild).1
  | none =>
    obtain ⟨hid, hsize⟩ := addScope_of_none project hchild
    rw [hid, hsize]
    exact Nat.lt_succ_self _

end Rooted

/-! ### The way to the root -/

section

variable {ns outer : NamespaceId}

theorem Rooted.parent_lt (h : t.Rooted) (hparent : (t.namespaceAt ns).parent = some outer) :
    outer < ns := by
  have hlt : ns < t.namespaces.size := by
    by_contra hge
    rw [namespaceAt_of_le (Nat.le_of_not_lt hge)] at hparent
    cases hparent
  have hroot : ns ≠ root := by
    rintro rfl
    rw [h.top.2] at hparent
    cases hparent
  obtain ⟨outer', hlt', hparent', -⟩ := h.parent ns hlt hroot
  rw [hparent] at hparent'
  cases hparent'
  exact hlt'

/-- The bound of a chain is no limit. -/
theorem Rooted.chainWithin_eq (h : t.Rooted) {bound : Nat} (hbound : ns < bound) :
    t.chainWithin bound ns = t.chain ns := by
  induction ns using Nat.strongRecOn generalizing bound with
  | ind ns ih =>
    obtain ⟨bound, rfl⟩ := Nat.exists_eq_add_of_lt hbound
    rw [chain, chainWithin, chainWithin]
    split
    · next outer hparent =>
      have hlt := h.parent_lt hparent
      rw [ih outer hlt (Nat.lt_of_lt_of_le hlt (Nat.le_add_right ns bound)), ih outer hlt hlt]
    · rfl

theorem Rooted.chain_of_parent (h : t.Rooted) (hparent : (t.namespaceAt ns).parent = some outer) :
    t.chain ns = ns :: t.chain outer := by
  rw [chain, chainWithin, hparent]
  exact congrArg (ns :: ·) (h.chainWithin_eq (h.parent_lt hparent))

theorem Rooted.chain_root (h : t.Rooted) : t.chain root = [root] := by
  rw [chain, chainWithin, h.top.2]

/-- One namespace after the other towards the root, as far as there is a parent. -/
def Climbs (t : Tree) : List NamespaceId → Prop :=
  List.IsChain fun inner outer => (t.namespaceAt inner).parent = some outer

/-- A chain starts at its namespace, goes from each namespace to its parent and stops at the
root. -/
theorem Rooted.chain_climbs (h : t.Rooted) (hns : ns < t.namespaces.size) :
    t.Climbs (t.chain ns) ∧ (t.chain ns).head? = some ns ∧ (t.chain ns).getLast? = some root := by
  induction ns using Nat.strongRecOn with
  | ind ns ih =>
    by_cases hroot : ns = root
    · subst hroot
      rw [h.chain_root]
      exact ⟨.singleton _, rfl, rfl⟩
    · obtain ⟨outer, hlt, hparent, -⟩ := h.parent ns hns hroot
      obtain ⟨hclimbs, hhead, hlast⟩ := ih outer hlt (Nat.lt_trans hlt hns)
      rw [h.chain_of_parent hparent]
      obtain ⟨rest, hrest⟩ : ∃ rest, t.chain outer = outer :: rest := ⟨_, rfl⟩
      rw [hrest] at hclimbs hlast ⊢
      refine ⟨.cons_cons hparent hclimbs, rfl, ?_⟩
      rw [List.getLast?_cons_cons, hlast]

theorem Rooted.segments_of_parent (h : t.Rooted) (hroot : ns ≠ root)
    (hparent : (t.namespaceAt ns).parent = some outer) :
    t.segments ns = t.segments outer ++ [(t.namespaceAt ns).name] := by
  rw [segments, h.chain_of_parent hparent, List.filter_cons_of_pos (by simpa using hroot), segments]
  simp

theorem Rooted.segments_root (h : t.Rooted) : t.segments root = [] := by
  rw [segments, h.chain_root]
  rfl

theorem lookupFrom_append (t : Tree) (start : NamespaceId) (path rest : List String) :
    t.lookupFrom start (path ++ rest) = (t.lookupFrom start path).bind (t.lookupFrom · rest) := by
  induction path generalizing start with
  | nil => rfl
  | cons segment path ih =>
    rw [List.cons_append, lookupFrom, lookupFrom]
    cases (t.namespaceAt start).children[segment]? with
    | none => rfl
    | some child => exact ih child

theorem Rooted.lookup_segments (h : t.Rooted) (hns : ns < t.namespaces.size) :
    t.lookup (t.segments ns) = some ns := by
  induction ns using Nat.strongRecOn with
  | ind ns ih =>
    by_cases hroot : ns = root
    · subst hroot
      rw [h.segments_root]
      rfl
    · obtain ⟨outer, hlt, hparent, hchild⟩ := h.parent ns hns hroot
      rw [h.segments_of_parent hroot hparent, lookup, lookupFrom_append]
      have hlookup : t.lookupFrom root (t.segments outer) = some outer :=
        ih outer hlt (Nat.lt_trans hlt hns)
      rw [hlookup, Option.bind_some, lookupFrom, hchild]
      rfl

end

end Tree

end ObjectLang.Scope
