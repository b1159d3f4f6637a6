import ObjectLang.Proofs.Chains
import ObjectLang.Proofs.Instances

/-! # The table of classes

What holds of the classes of a program while some of them are still being built.  A class is entered
into its inheritance tree, with its fields and the slots that it inherits, in one step; so what is
said here holds of half-built classes as well, except that only a class that has been built has a
filled table and can be an ancestor.
-/

namespace ObjectLang.Checked

/-- Nothing has been recorded about the class yet. -/
structure ClassInst.Blank (c : ClassInst) (id : ClassId) : Prop where
  root : c.root = id
  chainId : c.chainId = 0
  nextChainId : 0 < c.nextChainId
  ancestor : c.ancestor = none
  fields : c.fields = []
  methods : ∀ name : String, c.methods[name]? = none
  slotOwners : c.slotOwners = []
  virtualMethods : c.virtualMethods = []
  init : c.init = none
  inProgress : c.inProgress = true

/-- The class stands where it stood; the counter of a root may have moved on. -/
structure ClassInst.SamePlace (c d : ClassInst) : Prop where
  chainId : d.chainId = c.chainId
  root : d.root = c.root
  ancestor : d.ancestor = c.ancestor
  nextChainId : c.nextChainId ≤ d.nextChainId

/-- The class has the methods and slots that it had. -/
structure ClassInst.SameSlots (c d : ClassInst) : Prop extends c.SamePlace d where
  methods : d.methods = c.methods
  slotOwners : d.slotOwners = c.slotOwners

/-- The part of a class that the table is about is the same. -/
structure ClassInst.SameTable (c d : ClassInst) : Prop extends c.SameSlots d where
  fields : d.fields = c.fields
  vtable : d.vtable = c.vtable
  inProgress : d.inProgress = c.inProgress

/-- The part of a function that the table is about is the same. -/
structure FuncInst.SameDispatch (f g : FuncInst) : Prop where
  owner : g.owner = f.owner
  name : g.name = f.name
  slot : g.slot = f.slot
  isVirtual : g.isVirtual = f.isVirtual
  overrides : g.overrides = f.overrides

/-- A function that stands in no slot and in whose slot nothing stands. -/
structure FuncInst.Plain (f : FuncInst) : Prop where
  slot : f.slot = none
  overrides : ∀ id : Nat, f.overrides[id]? = none

theorem FuncInst.SameDispatch.refl (f : FuncInst) : f.SameDispatch f := ⟨rfl, rfl, rfl, rfl, rfl⟩

theorem FuncInst.plain_default : (default : FuncInst).Plain := ⟨rfl, fun _ => rfl⟩

theorem ClassInst.SameTable.refl (c : ClassInst) : c.SameTable c :=
  ⟨⟨⟨rfl, rfl, rfl, Nat.le_refl _⟩, rfl, rfl⟩, rfl, rfl, rfl⟩

namespace Program

variable {p q : Program} {c d a b : ClassId} {f g o : FuncId} {n : String} {k : Nat}

theorem functionAt_of_size_le (h : p.functions.size ≤ f) : p.functionAt f = default := by
  simp [functionAt, Array.getElem?_eq_none h]

/-! ### Inheritance trees -/

/-- Every class stands in the tree of a root, under a number that no other class of the tree has. -/
structure Placed (p : Program) : Prop where
  root_of_none : ∀ {c}, c < p.classes.size → (p.classAt c).ancestor = none →
    (p.classAt c).root = c ∧ (p.classAt c).chainId = 0
  built : ∀ {c a}, (p.classAt c).ancestor = some a → p.Built a
  root_of_some : ∀ {c a}, (p.classAt c).ancestor = some a → (p.classAt c).root = (p.classAt a).root
  chainId_lt : ∀ {c a}, (p.classAt c).ancestor = some a →
    (p.classAt a).chainId < (p.classAt c).chainId
  distinct : ∀ {c d}, c < p.classes.size → d < p.classes.size →
    (p.classAt c).root = (p.classAt d).root → (p.classAt c).chainId = (p.classAt d).chainId → c = d
  counted : ∀ {c}, c < p.classes.size →
    (p.classAt c).chainId < (p.classAt (p.classAt c).root).nextChainId

namespace Placed

theorem ranked (hp : p.Placed) : p.Ranked := fun _ _ h => ⟨(hp.built h).1, hp.chainId_lt h⟩

theorem built_of_mem_chain (hp : p.Placed) (hc : p.Built c) (hd : d ∈ p.chain c) : p.Built d := by
  induction c using ancestor_induction hp.ranked with
  | _ c ih =>
    rcases mem_chain_cases hp.ranked hd with rfl | ⟨a, ha, hd⟩
    · exact hc
    · exact ih a ha (hp.built ha) hd

/-- Above the class itself a chain holds built classes only. -/
theorem eq_or_built_of_mem_chain (hp : p.Placed) (hd : d ∈ p.chain c) : d = c ∨ p.Built d := by
  rcases mem_chain_cases hp.ranked hd with rfl | ⟨a, ha, hd⟩
  · exact .inl rfl
  · exact .inr (hp.built_of_mem_chain (hp.built ha) hd)

theorem root_of_mem_chain (hp : p.Placed) (hd : d ∈ p.chain c) :
    (p.classAt d).root = (p.classAt c).root := by
  induction c using ancestor_induction hp.ranked with
  | _ c ih =>
    rcases mem_chain_cases hp.ranked hd with rfl | ⟨a, ha, hd⟩
    · rfl
    · rw [ih a ha hd, hp.root_of_some ha]

theorem built_root (hp : p.Placed) (hc : p.Built c) : p.Built (p.classAt c).root := by
  induction c using ancestor_induction hp.ranked with
  | _ c ih =>
    cases ha : (p.classAt c).ancestor with
    | none =>
      rw [(hp.root_of_none hc.1 ha).1]
      exact hc
    | some a =>
      rw [hp.root_of_some ha]
      exact ih a ha (hp.built ha)

/-- A class that is not its own root stands below one that has been built. -/
theorem root_eq_or_built (hp : p.Placed) (hc : c < p.classes.size) :
    (p.classAt c).root = c ∨ p.Built (p.classAt c).root := by
  cases ha : (p.classAt c).ancestor with
  | none => exact .inl (hp.root_of_none hc ha).1
  | some a =>
    rw [hp.root_of_some ha]
    exact .inr (hp.built_root (hp.built ha))

theorem mem_chain_lt (hp : p.Placed) (hc : c < p.classes.size) (hd : d ∈ p.chain c) :
    d < p.classes.size :=
  lt_size_of_mem_chainWithin hp.ranked hc hd

end Placed

/-! ### Fields -/

/-- The inherited fields come first, and every field knows its place and where it comes from. -/
structure FieldsLaid (p : Program) (c : ClassId) : Prop where
  inherited : ∀ {a}, (p.classAt c).ancestor = some a → (p.classAt a).fields <+: (p.classAt c).fields
  indexed : ∀ {i} {field : FieldInst}, (p.classAt c).fields[i]? = some field → field.index = i
  distinct : ((p.classAt c).fields.map (·.name)).Nodup
  declared : ∀ field ∈ (p.classAt c).fields, field.declaredIn ∈ p.chain c

/-! ### Slots -/

/-- Classes, slots and overrides agree with each other. -/
structure Dispatching (p : Program) : Prop where
  inherited : ∀ {c a}, (p.classAt c).ancestor = some a →
    (p.classAt a).slotOwners <+: (p.classAt c).slotOwners
  opened : ∀ {c k o}, (p.classAt c).slotOwners[k]? = some o →
    (p.functionAt o).isVirtual = true ∧ (p.functionAt o).slot = some k ∧
      ∃ d ∈ p.chain c, (p.functionAt o).owner = some d ∧
        (p.functionAt o).overrides[(p.classAt d).chainId]? = some o
  entered : ∀ {c n f}, (p.classAt c).methods[n]? = some (.inst f) →
    f < p.functions.size ∧ (p.functionAt f).owner = some c ∧ (p.functionAt f).name = n
  joined : ∀ {c n f k}, (p.classAt c).methods[n]? = some (.inst f) →
    (p.functionAt f).slot = some k → ∃ o, (p.classAt c).slotOwners[k]? = some o ∧
      (p.functionAt o).name = n ∧ (p.functionAt o).overrides[(p.classAt c).chainId]? = some f
  slotted : ∀ {f k}, (p.functionAt f).slot = some k → ∃ c, (p.functionAt f).owner = some c ∧
    (p.classAt c).methods[(p.functionAt f).name]? = some (.inst f)
  registered : ∀ {o i f}, (p.functionAt o).overrides[i]? = some f →
    ∃ c d k, (p.functionAt o).owner = some c ∧ (p.functionAt f).owner = some d ∧
      (p.classAt d).root = (p.classAt c).root ∧ (p.classAt d).chainId = i ∧
      (p.functionAt o).slot = some k ∧ (p.functionAt f).slot = some k ∧
      (p.functionAt f).name = (p.functionAt o).name

/-- A method that is not generic stands in every slot of its class that bears its name. -/
def Exact (p : Program) : Prop :=
  ∀ ⦃c k o f⦄, (p.classAt c).slotOwners[k]? = some o →
    (p.classAt c).methods[(p.functionAt o).name]? = some (.inst f) → (p.functionAt f).slot = some k

structure ClassTable (p : Program) : Prop where
  placed : p.Placed
  laid : ∀ {c}, c < p.classes.size → p.FieldsLaid c
  dispatching : p.Dispatching
  filled : ∀ {c}, p.Built c →
    (p.classAt c).vtable = (p.classAt c).slotOwners.map fun base => p.resolveOverride base c

theorem methods_of_size_le (h : p.classes.size ≤ c) (n : String) :
    (p.classAt c).methods[n]? = none := by
  rw [classAt_of_size_le h]
  rfl

theorem lt_size_of_methods {entry : MethodEntry} (h : (p.classAt c).methods[n]? = some entry) :
    c < p.classes.size := by
  by_contra hc
  rw [methods_of_size_le (Nat.le_of_not_lt hc)] at h
  cases h

theorem lt_size_of_slot (h : (p.functionAt f).slot = some k) : f < p.functions.size := by
  by_contra hf
  rw [functionAt_of_size_le (Nat.le_of_not_lt hf)] at h
  cases h

/-! ### What a method call finds -/

/-- The nearest declaration of a method hides those further up, and only those. -/
theorem findMethod_some (hp : p.Ranked) {entry : MethodEntry}
    (h : p.findMethod c n = some (b, entry)) :
    b ∈ p.chain c ∧ (p.classAt b).methods[n]? = some entry ∧
      ∀ d ∈ p.chain c, (p.classAt d).methods[n]? ≠ none → d ∈ p.chain b := by
  induction c using ancestor_induction hp with
  | _ c ih =>
    rw [findMethod, chain_eq hp, List.findSome?_cons] at h
    cases hc : (p.classAt c).methods[n]? with
    | some e =>
      simp only [hc, Option.map_some, Option.some.injEq, Prod.mk.injEq] at h
      rcases h with ⟨rfl, rfl⟩
      exact ⟨p.self_mem_chain c, hc, fun d hd _ => hd⟩
    | none =>
      simp only [hc, Option.map_none] at h
      cases ha : (p.classAt c).ancestor with
      | none => simp [ha] at h
      | some a =>
        rw [ha, Option.elim_some] at h
        rcases ih a ha h with ⟨hb, hentry, hnear⟩
        refine ⟨mem_chain_of_ancestor hp ha hb, hentry, fun d hd hne => ?_⟩
        rcases mem_chain_cases hp hd with rfl | ⟨a', ha', hd⟩
        · exact absurd hc hne
        · rw [ha, Option.some.injEq] at ha'
          subst ha'
          exact hnear d hd hne

theorem findMethod_none (h : p.findMethod c n = none) (hd : d ∈ p.chain c) :
    (p.classAt d).methods[n]? = none := by
  have := List.findSome?_eq_none_iff.mp h d hd
  simpa using this

namespace ClassTable

theorem slotOwners_prefix (hp : p.ClassTable) (hd : d ∈ p.chain c) :
    (p.classAt d).slotOwners <+: (p.classAt c).slotOwners := by
  induction c using ancestor_induction hp.placed.ranked with
  | _ c ih =>
    rcases mem_chain_cases hp.placed.ranked hd with rfl | ⟨a, ha, hd⟩
    · exact List.prefix_rfl
    · exact (ih a ha hd).trans (hp.dispatching.inherited ha)

theorem slotOwner_of_mem_chain (hp : p.ClassTable) (hd : d ∈ p.chain c)
    (ho : (p.classAt d).slotOwners[k]? = some o) : (p.classAt c).slotOwners[k]? = some o := by
  rcases hp.slotOwners_prefix hd with ⟨rest, hrest⟩
  rw [← hrest, List.getElem?_append_left (List.getElem?_eq_some_iff.mp ho).1]
  exact ho

/-- The class that opened a slot declares the method that opened it. -/
theorem owner_of_slot (hp : p.ClassTable) (ho : (p.classAt c).slotOwners[k]? = some o) :
    ∃ d ∈ p.chain c, (p.functionAt o).owner = some d ∧
      (p.classAt d).methods[(p.functionAt o).name]? = some (.inst o) ∧
      (p.classAt d).slotOwners[k]? = some o := by
  rcases hp.dispatching.opened ho with ⟨-, hslot, d, hd, howner, -⟩
  rcases hp.dispatching.slotted hslot with ⟨d', howner', hentry⟩
  obtain rfl : d = d' := Option.some.inj (howner.symm.trans howner')
  rcases hp.dispatching.joined hentry hslot with ⟨o', ho', -⟩
  have := hp.slotOwner_of_mem_chain hd ho'
  rw [ho, Option.some.injEq] at this
  subst this
  exact ⟨d, hd, howner, hentry, ho'⟩

/-- A class is found in the registry of a slot under its number exactly when it declares what is
found there. -/
theorem entry_of_override (hp : p.ClassTable) (hc : c < p.classes.size)
    (ho : (p.classAt c).slotOwners[k]? = some o)
    (hf : (p.functionAt o).overrides[(p.classAt c).chainId]? = some f) :
    (p.classAt c).methods[(p.functionAt o).name]? = some (.inst f) ∧
      (p.functionAt f).slot = some k := by
  rcases hp.dispatching.registered hf with ⟨e, d, k', howner, hfd, hroot, hid, hk, hfk, hname⟩
  rcases hp.dispatching.opened ho with ⟨-, hslot, d', hd', howner', -⟩
  obtain rfl : e = d' := Option.some.inj (howner.symm.trans howner')
  obtain rfl : k = k' := Option.some.inj (hslot.symm.trans hk)
  rcases hp.dispatching.slotted hfk with ⟨d'', hfd', hentry⟩
  obtain rfl : d = d'' := Option.some.inj (hfd.symm.trans hfd')
  have hdc : d = c := hp.placed.distinct (lt_size_of_methods hentry) hc
    (hroot.trans (hp.placed.root_of_mem_chain hd')) hid
  subst hdc
  exact ⟨hname ▸ hentry, hfk⟩

end ClassTable

/-- The method that is not generic and that the class itself declares under a name. -/
def ownMethod (p : Program) (n : String) (c : ClassId) : Option FuncId :=
  match (p.classAt c).methods[n]? with
  | some (.inst f) => some f
  | _ => none

theorem ownMethod_eq_some :
    p.ownMethod n c = some f ↔ (p.classAt c).methods[n]? = some (.inst f) := by
  rw [ownMethod]
  split
  · next h => simp [h]
  · next h =>
    constructor
    · intro h'
      cases h'
    · intro h'
      exact absurd h' (h f)

/-- What stands in a slot is what the nearest class that declares the slot's method declares. -/
theorem findSome?_overrides (hp : p.ClassTable) (he : p.Exact) (hc : c < p.classes.size)
    (ho : (p.classAt c).slotOwners[k]? = some o) :
    ∃ f, ((p.chain c).findSome? fun a => (p.functionAt o).overrides[(p.classAt a).chainId]?) =
    some f ∧
      (p.chain c).findSome? (p.ownMethod (p.functionAt o).name) = some f ∧
      (p.functionAt f).slot = some k := by
  induction c using ancestor_induction hp.placed.ranked with
  | _ c ih =>
    rw [chain_eq hp.placed.ranked, List.findSome?_cons, List.findSome?_cons]
    cases hreg : (p.functionAt o).overrides[(p.classAt c).chainId]? with
    | some f =>
      rcases hp.entry_of_override hc ho hreg with ⟨hentry, hslot⟩
      rw [ownMethod_eq_some.mpr hentry]
      exact ⟨f, rfl, rfl, hslot⟩
    | none =>
      have hown : p.ownMethod (p.functionAt o).name c = none := by
        by_contra hne
        rcases Option.ne_none_iff_exists'.mp hne with ⟨f, hf⟩
        rw [ownMethod_eq_some] at hf
        rcases hp.dispatching.joined hf (he ho hf) with ⟨o', ho', -, hreg'⟩
        rw [ho, Option.some.injEq] at ho'
        subst ho'
        simp [hreg] at hreg'
      rw [hown]
      -- The slot was opened further up, since its own class is registered in it.
      rcases hp.dispatching.opened ho with ⟨-, -, d, hd, howner, hself⟩
      rcases hp.owner_of_slot ho with ⟨d', -, howner', -, hd'⟩
      obtain rfl : d = d' := Option.some.inj (howner.symm.trans howner')
      rcases mem_chain_cases hp.placed.ranked hd with rfl | ⟨a, ha, hda⟩
      · simp [hreg] at hself
      · rw [ha, Option.elim_some]
        exact ih a ha (hp.placed.built ha).1 (hp.slotOwner_of_mem_chain hda hd')

theorem resolveOverride_eq (hp : p.ClassTable) (he : p.Exact) (hc : c < p.classes.size)
    (ho : (p.classAt c).slotOwners[k]? = some o) :
    (p.chain c).findSome? (p.ownMethod (p.functionAt o).name) = some (p.resolveOverride o c) ∧
      (p.functionAt (p.resolveOverride o c)).slot = some k := by
  rcases findSome?_overrides hp he hc ho with ⟨f, hreg, hown, hslot⟩
  rw [resolveOverride, hreg]
  exact ⟨hown, hslot⟩

theorem findSome?_ownMethod (h : p.findMethod c n = some (b, .inst f)) :
    (p.chain c).findSome? (p.ownMethod n) = some f := by
  rw [findMethod] at h
  generalize p.chain c = chain at h ⊢
  induction chain with
  | nil => cases h
  | cons a as ih =>
    rw [List.findSome?_cons] at h ⊢
    cases ha : (p.classAt a).methods[n]? with
    | none =>
      rw [ha] at h
      rw [ownMethod, ha]
      exact ih h
    | some entry =>
      rw [ha] at h
      cases h
      rw [ownMethod_eq_some.mpr ha]

/-- A method that is found in a class has a slot of the class's table, if it has one. -/
theorem slot_lt_vtable (hp : p.ClassTable) (hc : p.Built c)
    (h : p.findMethod c n = some (b, .inst f))
    (hk : (p.functionAt f).slot = some k) : k < (p.classAt c).vtable.length := by
  rcases findMethod_some hp.placed.ranked h with ⟨hb, hentry, -⟩
  rcases hp.dispatching.joined hentry hk with ⟨o, ho, -⟩
  rw [hp.filled hc, List.length_map]
  exact (List.getElem?_eq_some_iff.mp (hp.slotOwner_of_mem_chain hb ho)).1

theorem vtable_lt_functions (hp : p.ClassTable) (h : (p.classAt c).vtable[k]? = some f)
    (hc : p.Built c) :
    f < p.functions.size := by
  rw [hp.filled hc, List.getElem?_map] at h
  rcases Option.map_eq_some_iff.mp h with ⟨o, ho, rfl⟩
  rw [resolveOverride]
  cases hfound : (p.chain c).findSome? fun a =>
    (p.functionAt o).overrides[(p.classAt a).chainId]? with
  | none => exact lt_size_of_slot (hp.dispatching.opened ho).2.1
  | some f =>
    rcases List.exists_of_findSome?_eq_some hfound with ⟨a, -, ha⟩
    rcases hp.dispatching.registered ha with ⟨_, _, _, -, -, -, -, -, hslot, -⟩
    exact lt_size_of_slot hslot

/-- A method that is found in a class stands in the table of the class, if it has a slot. -/
theorem vtable_of_findMethod (hp : p.ClassTable) (he : p.Exact) (hc : p.Built c)
    (h : p.findMethod c n = some (b, .inst f)) (hk : (p.functionAt f).slot = some k) :
    (p.classAt c).vtable[k]? = some f := by
  rcases findMethod_some hp.placed.ranked h with ⟨hb, hentry, -⟩
  rcases hp.dispatching.joined hentry hk with ⟨o, ho, hname, -⟩
  have ho := hp.slotOwner_of_mem_chain hb ho
  have hresolve := (resolveOverride_eq hp he hc.1 ho).1
  rw [hname, findSome?_ownMethod h] at hresolve
  rw [hp.filled hc, List.getElem?_map, ho, Option.map_some, hresolve]

end Program

end ObjectLang.Checked
