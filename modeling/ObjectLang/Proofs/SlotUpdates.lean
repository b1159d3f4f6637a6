import ObjectLang.Proofs.ClassUpdates

/-! # Changes to a class that is being built

Placing the class below its ancestor, entering a method, which may join or open a slot, and filling
the table.  A class that has not been built is nobody's ancestor, so the chains of the others do not
pass through it.
-/

namespace ObjectLang.Checked.Program

variable {p q : Program} {cls c d a b : ClassId} {f g o : FuncId} {n : String} {k : Nat}

/-- Only the record of one class is changed. -/
structure SameButClass (p q : Program) (cls : ClassId) : Prop where
  size : q.classes.size = p.classes.size
  other : ∀ c, c ≠ cls → q.classAt c = p.classAt c

theorem sameButClass_updateClass (p : Program) (hcls : cls < p.classes.size)
    (u : ClassInst → ClassInst) : p.SameButClass (p.updateClass cls u) cls where
  size := size_updateClass p cls u
  other c hc := by rw [classAt_updateClass p c hcls, if_neg hc]

theorem Placed.not_mem_chain (hp : p.Placed) (hcls : ¬p.Built cls) (hc : c ≠ cls) :
    cls ∉ p.chain c := by
  intro hmem
  rcases hp.eq_or_built_of_mem_chain hmem with rfl | hbuilt
  · exact hc rfl
  · exact hcls hbuilt

theorem Placed.root_ne (hp : p.Placed) (hcls : ¬p.Built cls) (hc : c < p.classes.size)
    (hne : c ≠ cls) : (p.classAt c).root ≠ cls := by
  rintro rfl
  rcases hp.root_eq_or_built hc with h | h
  · exact hne h.symm
  · exact hcls h

/-! ### Placing the class -/

section

variable (h : p.SameButClass q cls) (hcls : ¬p.Built cls)

include h hcls

theorem SameButClass.of_built (hc : p.Built c) : q.classAt c = p.classAt c :=
  h.other c fun he => hcls (he ▸ hc)

theorem SameButClass.built (hc : p.Built c) : q.Built c := by
  refine ⟨h.size ▸ hc.1, ?_⟩
  rw [h.of_built hcls hc]
  exact hc.2

theorem Placed.record (hp : p.Placed)
    (hnone : (q.classAt cls).ancestor = none →
      (q.classAt cls).root = cls ∧ (q.classAt cls).chainId = 0)
    (hsome : ∀ a, (q.classAt cls).ancestor = some a → p.Built a ∧
      (q.classAt cls).root = (p.classAt a).root ∧ (p.classAt a).chainId < (q.classAt cls).chainId)
    (hfresh : ∀ d, d < p.classes.size → d ≠ cls → (p.classAt d).root = (q.classAt cls).root →
      (p.classAt d).chainId ≠ (q.classAt cls).chainId)
    (hcounted : (q.classAt cls).chainId < (q.classAt (q.classAt cls).root).nextChainId) :
    q.Placed := by
  constructor
  · intro c hc ha
    by_cases hne : c = cls
    · subst hne
      exact hnone ha
    · rw [h.other c hne] at ha ⊢
      exact hp.root_of_none (h.size ▸ hc) ha
  · intro c a ha
    by_cases hne : c = cls
    · subst hne
      exact h.built hcls (hsome a ha).1
    · rw [h.other c hne] at ha
      exact h.built hcls (hp.built ha)
  · intro c a ha
    by_cases hne : c = cls
    · subst hne
      rcases hsome a ha with ⟨hbuilt, hroot, -⟩
      rw [h.of_built hcls hbuilt]
      exact hroot
    · rw [h.other c hne] at ha ⊢
      rw [h.of_built hcls (hp.built ha)]
      exact hp.root_of_some ha
  · intro c a ha
    by_cases hne : c = cls
    · subst hne
      rcases hsome a ha with ⟨hbuilt, -, hlt⟩
      rw [h.of_built hcls hbuilt]
      exact hlt
    · rw [h.other c hne] at ha ⊢
      rw [h.of_built hcls (hp.built ha)]
      exact hp.chainId_lt ha
  · intro c d hc hd hroot hid
    rw [h.size] at hc hd
    by_cases hc' : c = cls <;> by_cases hd' : d = cls
    · rw [hc', hd']
    · rw [hc', h.other d hd'] at hroot hid
      exact absurd hid.symm (hfresh d hd hd' hroot.symm)
    · rw [hd', h.other c hc'] at hroot hid
      exact absurd hid (hfresh c hc hc' hroot)
    · rw [h.other c hc', h.other d hd'] at hroot hid
      exact hp.distinct hc hd hroot hid
  · intro c hc
    by_cases hne : c = cls
    · rw [hne]
      exact hcounted
    · rw [h.size] at hc
      rw [h.other c hne, h.other _ (hp.root_ne hcls hc hne)]
      exact hp.counted hc

theorem SameButClass.chain_eq (hp : p.Placed) (hq : q.Placed) (hc : c ≠ cls) :
    q.chain c = p.chain c :=
  chain_congr hp.ranked hq.ranked fun d hd => by
    rw [h.other d fun he => hp.not_mem_chain hcls hc (he ▸ hd)]

/-- A class is placed and gets the slots of its ancestor; it has no methods yet. -/
theorem Dispatching.record (hfun : q.functions = p.functions) (hp : p.Placed) (hq : q.Placed)
    (hd : p.Dispatching) (hmethods : ∀ n : String, (p.classAt cls).methods[n]? = none)
    (hmethods' : ∀ n : String, (q.classAt cls).methods[n]? = none)
    (hnone : (q.classAt cls).ancestor = none → (q.classAt cls).slotOwners = [])
    (hsome : ∀ a, (q.classAt cls).ancestor = some a → p.Built a ∧
      (q.classAt cls).slotOwners = (p.classAt a).slotOwners) : q.Dispatching := by
  have hat (f : FuncId) : q.functionAt f = p.functionAt f := by simp [functionAt, hfun]
  have hne {c} {n : String} {e} (hc : (p.classAt c).methods[n]? = some e) : c ≠ cls := by
    rintro rfl
    simp [hmethods] at hc
  have hne' {c} {n : String} {e} (hc : (q.classAt c).methods[n]? = some e) : c ≠ cls := by
    rintro rfl
    simp [hmethods'] at hc
  have hopened {c} {k : Nat} {o} (hc : c ≠ cls) (ho : (p.classAt c).slotOwners[k]? = some o) :
      (p.functionAt o).isVirtual = true ∧ (p.functionAt o).slot = some k ∧
        ∃ d ∈ q.chain c, (p.functionAt o).owner = some d ∧
          (p.functionAt o).overrides[(q.classAt d).chainId]? = some o := by
    rcases hd.opened ho with ⟨hvirtual, hslot, d, hmem, howner, hself⟩
    rw [h.chain_eq hcls hp hq hc]
    refine ⟨hvirtual, hslot, d, hmem, howner, ?_⟩
    rw [h.other d fun he => hp.not_mem_chain hcls hc (he ▸ hmem)]
    exact hself
  constructor
  · intro c a ha
    by_cases hc : c = cls
    · subst hc
      rcases hsome a ha with ⟨hbuilt, hslots⟩
      rw [hslots, h.of_built hcls hbuilt]
    · rw [h.other c hc] at ha ⊢
      rw [h.of_built hcls (hp.built ha)]
      exact hd.inherited ha
  · intro c k o ho
    rw [hat]
    by_cases hc : c = cls
    · subst hc
      cases ha : (q.classAt c).ancestor with
      | none => simp [hnone ha] at ho
      | some a =>
        rcases hsome a ha with ⟨hbuilt, hslots⟩
        rw [hslots] at ho
        rcases hopened (fun he => hcls (he ▸ hbuilt)) ho with ⟨hvirtual, hslot, d, hmem, hrest⟩
        exact ⟨hvirtual, hslot, d, mem_chain_of_ancestor hq.ranked ha hmem, hrest⟩
    · rw [h.other c hc] at ho
      exact hopened hc ho
  · intro c n f hf
    rw [h.other c (hne' hf)] at hf
    rw [hfun, hat]
    exact hd.entered hf
  · intro c n f k hf hk
    have hc := hne' hf
    rw [h.other c hc] at hf ⊢
    simp only [hat] at hk ⊢
    exact hd.joined hf hk
  · intro f k hk
    simp only [hat] at hk ⊢
    rcases hd.slotted hk with ⟨c, howner, hentry⟩
    refine ⟨c, howner, ?_⟩
    rw [h.other c (hne hentry)]
    exact hentry
  · intro o i f hf
    simp only [hat] at hf ⊢
    rcases hd.registered hf with ⟨c, d, k, hoc, hfd, hroot, hid, hok, hfk, hname⟩
    rcases hd.slotted hok with ⟨c', hoc', hc⟩
    rcases hd.slotted hfk with ⟨d', hfd', hd⟩
    obtain rfl : c = c' := Option.some.inj (hoc.symm.trans hoc')
    obtain rfl : d = d' := Option.some.inj (hfd.symm.trans hfd')
    refine ⟨c, d, k, hoc, hfd, ?_, ?_, hok, hfk, hname⟩
    · rw [h.other c (hne hc), h.other d (hne hd)]
      exact hroot
    · rw [h.other d (hne hd)]
      exact hid

/-- The tables of the classes that have been built stay filled when only an unbuilt class and the
registries under its number are changed. -/
theorem SameButClass.filled (hp : p.ClassTable) (hq : q.Placed) (hc : p.Built c)
    (hreg : ∀ {k : Nat} {o d}, (p.classAt c).slotOwners[k]? = some o → d ∈ p.chain c →
      (q.functionAt o).overrides[(p.classAt d).chainId]? =
        (p.functionAt o).overrides[(p.classAt d).chainId]?) :
    (q.classAt c).vtable = (q.classAt c).slotOwners.map fun base => q.resolveOverride base c := by
  have hne : c ≠ cls := fun he => hcls (he ▸ hc)
  rw [h.other c hne, hp.filled hc]
  refine List.map_congr_left fun o ho => (resolveOverride_congr ?_ fun d hd => ?_).symm
  · exact h.chain_eq hcls hp.placed hq hne
  · rcases List.getElem?_of_mem ho with ⟨k, hk⟩
    rw [h.other d fun he => hp.placed.not_mem_chain hcls hne (he ▸ hd)]
    exact hreg hk hd

end

/-- The class takes its place in the tree of its ancestor, with its fields and the slots of the
ancestor. -/
theorem ClassTable.record (hp : p.ClassTable) (h : p.SameButClass q cls) (hcls : ¬p.Built cls)
    (hfun : q.functions = p.functions) (hq : q.Placed) (hlaid : q.FieldsLaid cls)
    (hprogress : (q.classAt cls).inProgress = true)
    (hmethods : ∀ n : String, (p.classAt cls).methods[n]? = none)
    (hmethods' : ∀ n : String, (q.classAt cls).methods[n]? = none)
    (hnone : (q.classAt cls).ancestor = none → (q.classAt cls).slotOwners = [])
    (hsome : ∀ a, (q.classAt cls).ancestor = some a → p.Built a ∧
      (q.classAt cls).slotOwners = (p.classAt a).slotOwners) : q.ClassTable := by
  have hat (f : FuncId) : q.functionAt f = p.functionAt f := by simp [functionAt, hfun]
  refine ⟨hq, ?_, hp.dispatching.record h hcls hfun hp.placed hq hmethods hmethods' hnone hsome, ?_⟩
  · intro c hc
    by_cases hne : c = cls
    · rw [hne]
      exact hlaid
    · refine (hp.laid (h.size ▸ hc)).congr (by rw [h.other c hne]) (by rw [h.other c hne]) ?_
        (h.chain_eq hcls hp.placed hq hne)
      intro a ha
      rw [h.of_built hcls (hp.placed.built ha)]
  · intro c hc
    have hne : c ≠ cls := by
      rintro rfl
      rw [Built, hprogress] at hc
      cases hc.2
    refine h.filled hcls hp hq ⟨h.size ▸ hc.1, h.other c hne ▸ hc.2⟩ ?_
    intro k o d _ _
    rw [hat]

theorem Exact.record (he : p.Exact) (h : p.SameButClass q cls) (hfun : q.functions = p.functions)
    (hmethods' : ∀ n : String, (q.classAt cls).methods[n]? = none) : q.Exact := by
  have hat (f : FuncId) : q.functionAt f = p.functionAt f := by simp [functionAt, hfun]
  intro c k o f ho hf
  have hne : c ≠ cls := by
    rintro rfl
    simp [hmethods'] at hf
  rw [h.other c hne] at ho hf
  rw [hat] at hf ⊢
  exact he ho hf

/-! ### Entering a method -/

/-- The class gets a method under a name that was free; it may get a slot for it. -/
structure Enters (p q : Program) (cls : ClassId) (n : String) (entry : MethodEntry) : Prop
    extends p.SameButClass q cls where
  lt : cls < p.classes.size
  unbuilt : ¬p.Built cls
  free : (p.classAt cls).methods[n]? = none
  place : (p.classAt cls).SamePlace (q.classAt cls)
  fields : (q.classAt cls).fields = (p.classAt cls).fields
  init : (q.classAt cls).init = (p.classAt cls).init
  inProgress : (q.classAt cls).inProgress = (p.classAt cls).inProgress
  methods : ∀ n' : String,
    (q.classAt cls).methods[n']? = if n = n' then some entry else (p.classAt cls).methods[n']?
  virtualMethods : ∀ g ∈ (q.classAt cls).virtualMethods,
    g ∈ (p.classAt cls).virtualMethods ∨ g < p.functions.size
  functions : q.functions.size = p.functions.size

namespace Enters

variable {entry : MethodEntry} (h : p.Enters q cls n entry)

include h

theorem of_classes {q' : Program} (hclasses : q'.classes = q.classes)
    (hfunctions : q'.functions.size = p.functions.size) : p.Enters q' cls n entry := by
  have hat (c : ClassId) : q'.classAt c = q.classAt c := by simp [classAt, hclasses]
  refine ⟨⟨hclasses ▸ h.size, fun c hc => (hat c).trans (h.other c hc)⟩, h.lt, h.unbuilt,
    h.free, ?_, ?_, ?_, ?_, ?_, ?_, hfunctions⟩ <;> rw [hat]
  · exact h.place
  · exact h.fields
  · exact h.init
  · exact h.inProgress
  · exact h.methods
  · exact h.virtualMethods

theorem samePlace (c : ClassId) : (p.classAt c).SamePlace (q.classAt c) := by
  by_cases hc : c = cls
  · rw [hc]
    exact h.place
  · rw [h.other c hc]
    exact ⟨rfl, rfl, rfl, Nat.le_refl _⟩

theorem chain_eq (c : ClassId) : q.chain c = p.chain c := chain_eq_of_samePlace h.size h.samePlace c

theorem chainId_eq (c : ClassId) : (q.classAt c).chainId = (p.classAt c).chainId :=
  (h.samePlace c).chainId

theorem root_eq (c : ClassId) : (q.classAt c).root = (p.classAt c).root := (h.samePlace c).root

theorem built_iff (c : ClassId) : q.Built c ↔ p.Built c := by
  by_cases hc : c = cls
  · rw [hc]
    exact built_congr h.size h.inProgress
  · exact built_congr h.size (by rw [h.other c hc])

theorem placed (hp : p.Placed) : q.Placed :=
  hp.congr h.size h.samePlace fun c => (h.built_iff c).mpr

theorem laid (hp : ∀ {c}, c < p.classes.size → p.FieldsLaid c) (hc : c < q.classes.size) :
    q.FieldsLaid c := by
  have hfields (c : ClassId) : (q.classAt c).fields = (p.classAt c).fields := by
    by_cases hc : c = cls
    · rw [hc]
      exact h.fields
    · rw [h.other c hc]
  exact (hp (h.size ▸ hc)).congr (hfields c) (h.samePlace c).ancestor (fun a _ => hfields a)
    (h.chain_eq c)

theorem methods_eq (c : ClassId) (n' : String) :
    (q.classAt c).methods[n']? =
      if c = cls ∧ n = n' then some entry else (p.classAt c).methods[n']? := by
  by_cases hc : c = cls
  · simp [hc, h.methods]
  · simp [hc, h.other c hc]

theorem entry_cases {e : MethodEntry} {n' : String} (he : (q.classAt c).methods[n']? = some e) :
    (c = cls ∧ n = n' ∧ e = entry) ∨
      ((p.classAt c).methods[n']? = some e ∧ (c = cls → n ≠ n')) := by
  rw [h.methods_eq] at he
  split at he
  · next hc => exact .inl ⟨hc.1, hc.2, (Option.some.inj he).symm⟩
  · next hc => exact .inr ⟨he, fun h1 h2 => hc ⟨h1, h2⟩⟩

theorem methods_of_some {e : MethodEntry} {n' : String}
    (he : (p.classAt c).methods[n']? = some e) : (q.classAt c).methods[n']? = some e := by
  rw [h.methods_eq, if_neg]
  · exact he
  · rintro ⟨rfl, rfl⟩
    simp [h.free] at he

/-- What the class itself declares under the name is the new method only. -/
theorem slot_eq_none (hd : p.Dispatching) (howner : (p.functionAt f).owner = some cls)
    (hname : (p.functionAt f).name = n) : (p.functionAt f).slot = none := by
  cases hk : (p.functionAt f).slot with
  | none => rfl
  | some k =>
    rcases hd.slotted hk with ⟨c, howner', hentry⟩
    obtain rfl : cls = c := Option.some.inj (howner.symm.trans howner')
    rw [hname, h.free] at hentry
    cases hentry

/-- A slot that bears the name was opened by a class further up. -/
theorem owner_above (hp : p.ClassTable) (ho : (p.classAt cls).slotOwners[k]? = some o)
    (hname : (p.functionAt o).name = n) :
    ∃ a d, (p.classAt cls).ancestor = some a ∧ d ∈ p.chain a ∧ (p.functionAt o).owner = some d ∧
      (p.classAt d).methods[n]? = some (.inst o) ∧ (p.classAt d).slotOwners[k]? = some o := by
  rcases hp.owner_of_slot ho with ⟨d, hd, howner, hentry, hslot⟩
  rw [hname] at hentry
  rcases mem_chain_cases hp.placed.ranked hd with rfl | ⟨a, ha, hd⟩
  · simp [h.free] at hentry
  · exact ⟨a, d, ha, hd, howner, hentry, hslot⟩

end Enters

theorem ClassTable.enter {entry : MethodEntry} (hp : p.ClassTable) (h : p.Enters q cls n entry)
    (hslots : (q.classAt cls).slotOwners = (p.classAt cls).slotOwners)
    (hfun : q.functions = p.functions)
    (hentry : ∀ f, entry = .inst f → f < p.functions.size ∧ (p.functionAt f).owner = some cls ∧
      (p.functionAt f).name = n) : q.ClassTable := by
  have hat (f : FuncId) : q.functionAt f = p.functionAt f := by simp [functionAt, hfun]
  have hslots (c : ClassId) : (q.classAt c).slotOwners = (p.classAt c).slotOwners := by
    by_cases hc : c = cls
    · rw [hc]
      exact hslots
    · rw [h.other c hc]
  refine ⟨h.placed hp.placed, h.laid hp.laid, ?_, ?_⟩
  · constructor
    · intro c a ha
      rw [hslots, hslots]
      exact hp.dispatching.inherited ((h.samePlace c).ancestor ▸ ha)
    · intro c k o ho
      rw [hslots] at ho
      simp only [hat, h.chain_eq, h.chainId_eq]
      exact hp.dispatching.opened ho
    · intro c m f hf
      rw [h.functions, hat]
      rcases h.entry_cases hf with ⟨rfl, rfl, he⟩ | ⟨hf, -⟩
      · exact hentry f he.symm
      · exact hp.dispatching.entered hf
    · intro c m f k hf hk
      rw [hat] at hk
      simp only [hat, hslots, h.chainId_eq]
      rcases h.entry_cases hf with ⟨rfl, rfl, he⟩ | ⟨hf, -⟩
      · rcases hentry f he.symm with ⟨-, howner, hname⟩
        rw [h.slot_eq_none hp.dispatching howner hname] at hk
        cases hk
      · exact hp.dispatching.joined hf hk
    · intro f k hk
      simp only [hat] at hk ⊢
      rcases hp.dispatching.slotted hk with ⟨c, howner, hc⟩
      exact ⟨c, howner, h.methods_of_some hc⟩
    · intro o i f hf
      simp only [hat, h.root_eq, h.chainId_eq] at hf ⊢
      exact hp.dispatching.registered hf
  · intro c hc
    refine h.filled h.unbuilt hp (h.placed hp.placed) ((h.built_iff c).mp hc) ?_
    intro k o d _ _
    rw [hat]

/-- Nothing further up bears the name, or a generic method is entered. -/
theorem Exact.enter {entry : MethodEntry} (he : p.Exact) (hp : p.ClassTable)
    (h : p.Enters q cls n entry) (hslots : (q.classAt cls).slotOwners = (p.classAt cls).slotOwners)
    (hfun : q.functions = p.functions)
    (hnone : (∃ f, entry = .inst f) → ∀ a, (p.classAt cls).ancestor = some a →
      p.findMethod a n = none) : q.Exact := by
  have hat (f : FuncId) : q.functionAt f = p.functionAt f := by simp [functionAt, hfun]
  intro c k o f ho hf
  rw [hat] at hf ⊢
  have ho' : (p.classAt c).slotOwners[k]? = some o := by
    by_cases hc : c = cls
    · subst hc
      rw [← hslots]
      exact ho
    · rw [← h.other c hc]
      exact ho
  rcases h.entry_cases hf with ⟨rfl, hn, hentry⟩ | ⟨hf, -⟩
  · rcases h.owner_above hp ho' hn.symm with ⟨a, d, ha, hd, -, hm, -⟩
    rw [findMethod_none (hnone ⟨f, hentry.symm⟩ a ha) hd] at hm
    cases hm
  · exact he ho' hf

/-! ### Joining a slot -/

/-- The method is entered into the slot that `o` opened further up. -/
structure Joins (p q : Program) (cls : ClassId) (n : String) (f : FuncId) (k : Nat) (o : FuncId) :
    Prop extends p.Enters q cls n (.inst f) where
  slots : (q.classAt cls).slotOwners = (p.classAt cls).slotOwners
  ltFunction : f < p.functions.size
  owner : (p.functionAt f).owner = some cls
  name : (p.functionAt f).name = n
  joins : (p.classAt cls).slotOwners[k]? = some o
  sameName : (p.functionAt o).name = n
  self : q.functionAt f = { p.functionAt f with isOverride := true, slot := some k }
  opener : q.functionAt o = { p.functionAt o with
    overrides := (p.functionAt o).overrides.insert (p.classAt cls).chainId f }
  otherFunction : ∀ g, g ≠ f → g ≠ o → q.functionAt g = p.functionAt g

namespace Joins

variable (h : p.Joins q cls n f k o)

include h

theorem slotOwners_eq (c : ClassId) : (q.classAt c).slotOwners = (p.classAt c).slotOwners := by
  by_cases hc : c = cls
  · rw [hc]
    exact h.slots
  · rw [h.other c hc]

/-- What a method is apart from its slot stays. -/
theorem kept (g : FuncId) : (q.functionAt g).owner = (p.functionAt g).owner ∧
    (q.functionAt g).name = (p.functionAt g).name ∧
      (q.functionAt g).isVirtual = (p.functionAt g).isVirtual := by
  by_cases hf : g = f
  · rw [hf, h.self]
    exact ⟨rfl, rfl, rfl⟩
  · by_cases ho : g = o
    · rw [ho, h.opener]
      exact ⟨rfl, rfl, rfl⟩
    · rw [h.otherFunction g hf ho]
      exact ⟨rfl, rfl, rfl⟩

theorem slot_eq (g : FuncId) :
    (q.functionAt g).slot = if g = f then some k else (p.functionAt g).slot := by
  split
  · next hf => rw [hf, h.self]
  · next hf =>
    by_cases ho : g = o
    · rw [ho, h.opener]
    · rw [h.otherFunction g hf ho]

theorem overrides_eq (g : FuncId) (i : Nat) :
    (q.functionAt g).overrides[i]? =
      if g = o ∧ (p.classAt cls).chainId = i then some f else (p.functionAt g).overrides[i]? := by
  by_cases ho : g = o
  · subst ho
    rw [h.opener, Std.TreeMap.getElem?_insert]
    simp
  · by_cases hf : g = f
    · subst hf
      simp [h.self, ho]
    · simp [h.otherFunction g hf ho, ho]

/-- All classes that have the slot stand in one tree. -/
theorem root_of_slot {k' : Nat} (hp : p.ClassTable)
    (ho : (p.classAt c).slotOwners[k']? = some o) : (p.classAt c).root = (p.classAt cls).root := by
  rcases hp.owner_of_slot h.joins with ⟨d, hd, howner, -, -⟩
  rcases hp.owner_of_slot ho with ⟨d', hd', howner', -, -⟩
  obtain rfl : d = d' := Option.some.inj (howner.symm.trans howner')
  rw [← hp.placed.root_of_mem_chain hd, ← hp.placed.root_of_mem_chain hd']

/-- The registries are changed at the number of the class only, which no other class of its tree
has. -/
theorem overrides_of_ne {k' : Nat} (hp : p.ClassTable) (hc : c < p.classes.size)
    (hg : (p.classAt c).slotOwners[k']? = some g) (hd : d ∈ p.chain c) (hne : d ≠ cls) :
    (q.functionAt g).overrides[(p.classAt d).chainId]? =
      (p.functionAt g).overrides[(p.classAt d).chainId]? := by
  rw [h.overrides_eq, if_neg]
  rintro ⟨rfl, hid⟩
  refine hne (hp.placed.distinct (hp.placed.mem_chain_lt hc hd) h.lt ?_ hid.symm)
  rw [hp.placed.root_of_mem_chain hd, h.root_of_slot hp hg]

theorem dispatching (hp : p.ClassTable) : q.Dispatching := by
  have hfree := h.slot_eq_none hp.dispatching h.owner h.name
  have hslot {g k'} (hg : (p.functionAt g).slot = some k') : (q.functionAt g).slot = some k' := by
    rw [h.slot_eq, if_neg]
    · exact hg
    · rintro rfl
      simp [hfree] at hg
  rcases h.owner_above hp h.joins h.sameName with ⟨-, above, -, -, habove, hentry, -⟩
  rcases hp.dispatching.opened h.joins with ⟨-, hok, -⟩
  constructor
  · intro c a ha
    rw [h.slotOwners_eq, h.slotOwners_eq]
    exact hp.dispatching.inherited ((h.samePlace c).ancestor ▸ ha)
  · intro c k' o' ho
    rw [h.slotOwners_eq] at ho
    rcases hp.dispatching.opened ho with ⟨hvirtual, hk', d, hd, howner, hself⟩
    refine ⟨(h.kept o').2.2 ▸ hvirtual, hslot hk', d, h.chain_eq c ▸ hd, (h.kept o').1 ▸ howner, ?_⟩
    rw [h.chainId_eq, h.overrides_eq, if_neg]
    · exact hself
    · rintro ⟨rfl, hid⟩
      obtain rfl : above = d := Option.some.inj (habove.symm.trans howner)
      have hroot : (p.classAt above).root = (p.classAt cls).root := by
        rw [hp.placed.root_of_mem_chain hd, h.root_of_slot hp ho]
      obtain rfl : above = cls :=
        hp.placed.distinct (lt_size_of_methods hentry) h.lt hroot hid.symm
      simp [h.free] at hentry
  · intro c m g hg
    rw [h.functions, (h.kept g).1, (h.kept g).2.1]
    rcases h.entry_cases hg with ⟨rfl, rfl, he⟩ | ⟨hg, -⟩
    · cases he
      exact ⟨h.ltFunction, h.owner, h.name⟩
    · exact hp.dispatching.entered hg
  · intro c m g k' hg hk'
    simp only [h.slotOwners_eq, fun g => (h.kept g).2.1, h.chainId_eq]
    rcases h.entry_cases hg with ⟨rfl, rfl, he⟩ | ⟨hg, hne⟩
    · cases he
      rw [h.slot_eq, if_pos rfl, Option.some.injEq] at hk'
      subst hk'
      refine ⟨o, h.joins, h.sameName, ?_⟩
      rw [h.overrides_eq, if_pos ⟨rfl, rfl⟩]
    · rcases hp.dispatching.entered hg with ⟨-, howner, hname⟩
      rw [h.slot_eq, if_neg] at hk'
      · rcases hp.dispatching.joined hg hk' with ⟨o', ho', hname', hreg⟩
        refine ⟨o', ho', hname', ?_⟩
        rw [h.overrides_eq, if_neg]
        · exact hreg
        · rintro ⟨rfl, hid⟩
          refine hne ?_ (h.sameName.symm.trans hname')
          exact hp.placed.distinct (lt_size_of_methods hg) h.lt (h.root_of_slot hp ho') hid.symm
      · rintro rfl
        exact hne (Option.some.inj (howner.symm.trans h.owner)) (h.name.symm.trans hname)
  · intro g k' hk'
    rw [(h.kept g).1, (h.kept g).2.1]
    by_cases hg : g = f
    · subst hg
      refine ⟨cls, h.owner, ?_⟩
      rw [h.name, h.methods, if_pos rfl]
    · rw [h.slot_eq, if_neg hg] at hk'
      rcases hp.dispatching.slotted hk' with ⟨c, howner, hentry⟩
      exact ⟨c, howner, h.methods_of_some hentry⟩
  · intro g i g' hg
    simp only [fun g => (h.kept g).1, fun g => (h.kept g).2.1, h.root_eq, h.chainId_eq]
    rw [h.overrides_eq] at hg
    split at hg
    · next hi =>
      obtain ⟨rfl, rfl⟩ := hi
      cases hg
      rcases hp.owner_of_slot h.joins with ⟨d, hd, howner, -, -⟩
      refine ⟨d, cls, k, howner, h.owner, (hp.placed.root_of_mem_chain hd).symm, rfl, hslot hok, ?_,
        h.name.trans h.sameName.symm⟩
      rw [h.slot_eq, if_pos rfl]
    · rcases hp.dispatching.registered hg with ⟨c, d, k', hoc, hfd, hroot, hid, hok, hfk, hname⟩
      exact ⟨c, d, k', hoc, hfd, hroot, hid, hslot hok, hslot hfk, hname⟩

theorem classTable (hp : p.ClassTable) : q.ClassTable := by
  refine ⟨h.placed hp.placed, h.laid hp.laid, h.dispatching hp, fun {c} hc => ?_⟩
  have hc := (h.built_iff c).mp hc
  refine h.filled h.unbuilt hp (h.placed hp.placed) hc fun ho hd => ?_
  refine h.overrides_of_ne hp hc.1 ho hd ?_
  rintro rfl
  exact h.unbuilt (hp.placed.built_of_mem_chain hc hd)

/-- The slot is the one of the nearest method of that name, in which every method of that name
stands. -/
theorem exact (hp : p.ClassTable) (he : p.Exact) {base : FuncId}
    (ha : (p.classAt cls).ancestor = some a)
    (hbase : p.findMethod a n = some (b, .inst base)) (hk : (p.functionAt base).slot = some k) :
    q.Exact := by
  intro c k' o' g ho hg
  rw [h.slotOwners_eq] at ho
  rw [(h.kept _).2.1] at hg
  rcases h.entry_cases hg with ⟨rfl, hn, hentry⟩ | ⟨hg, hne⟩
  · cases hentry
    rw [h.slot_eq, if_pos rfl]
    rcases h.owner_above hp ho hn.symm with ⟨a', d, ha', hd, -, hm, hslot⟩
    obtain rfl : a = a' := Option.some.inj (ha.symm.trans ha')
    rcases findMethod_some hp.placed.ranked hbase with ⟨-, hb, hnear⟩
    have hdb := hnear d hd (by rw [hm]; simp)
    have hbk := he (hp.slotOwner_of_mem_chain hdb hslot) (hn ▸ hb)
    exact hk.symm.trans hbk
  · have hslot := he ho hg
    rcases hp.dispatching.entered hg with ⟨-, howner, hname⟩
    rw [h.slot_eq, if_neg]
    · exact hslot
    · rintro rfl
      rw [h.slot_eq_none hp.dispatching h.owner h.name] at hslot
      cases hslot

end Joins

/-! ### Opening a slot -/

/-- The method is entered into a slot of its own, the first that is free. -/
structure Opens (p q : Program) (cls : ClassId) (n : String) (f : FuncId) : Prop
    extends p.Enters q cls n (.inst f) where
  slots : (q.classAt cls).slotOwners = (p.classAt cls).slotOwners ++ [f]
  ltFunction : f < p.functions.size
  owner : (p.functionAt f).owner = some cls
  name : (p.functionAt f).name = n
  self : q.functionAt f = { p.functionAt f with
    isVirtual := true
    slot := some (p.classAt cls).slotOwners.length
    overrides := (p.functionAt f).overrides.insert (p.classAt cls).chainId f }
  otherFunction : ∀ g, g ≠ f → q.functionAt g = p.functionAt g

namespace Opens

variable (h : p.Opens q cls n f)

include h

theorem slotOwners_cases {k : Nat} (ho : (q.classAt c).slotOwners[k]? = some o) :
    (c = cls ∧ k = (p.classAt cls).slotOwners.length ∧ o = f) ∨
      (p.classAt c).slotOwners[k]? = some o := by
  by_cases hc : c = cls
  · subst hc
    rw [h.slots, List.getElem?_append] at ho
    split at ho
    · exact .inr ho
    · rw [List.getElem?_singleton] at ho
      split at ho
      · exact .inl ⟨rfl, by omega, (Option.some.inj ho).symm⟩
      · cases ho
  · rw [h.other c hc] at ho
    exact .inr ho

theorem slotOwners_of_some {k : Nat} (ho : (p.classAt c).slotOwners[k]? = some o) :
    (q.classAt c).slotOwners[k]? = some o := by
  by_cases hc : c = cls
  · subst hc
    rw [h.slots, List.getElem?_append_left (List.getElem?_eq_some_iff.mp ho).1]
    exact ho
  · rw [h.other c hc]
    exact ho

theorem slotOwners_self :
    (q.classAt cls).slotOwners[(p.classAt cls).slotOwners.length]? = some f := by
  simp [h.slots]

theorem kept (g : FuncId) : (q.functionAt g).owner = (p.functionAt g).owner ∧
    (q.functionAt g).name = (p.functionAt g).name := by
  by_cases hf : g = f
  · rw [hf, h.self]
    exact ⟨rfl, rfl⟩
  · rw [h.otherFunction g hf]
    exact ⟨rfl, rfl⟩

theorem slot_self : (q.functionAt f).slot = some (p.classAt cls).slotOwners.length := by
  rw [h.self]

theorem overrides_self (hd : p.Dispatching) (i : Nat) :
    (q.functionAt f).overrides[i]? = if (p.classAt cls).chainId = i then some f else none := by
  have hnone : (p.functionAt f).overrides[i]? = none := by
    cases hi : (p.functionAt f).overrides[i]? with
    | none => rfl
    | some g =>
      rcases hd.registered hi with ⟨-, -, k, -, -, -, -, hk, -⟩
      rw [h.slot_eq_none hd h.owner h.name] at hk
      cases hk
  rw [h.self, Std.TreeMap.getElem?_insert, hnone]
  simp

/-- A function that stands in a slot is not the one that is entered. -/
theorem of_slot {k : Nat} (hd : p.Dispatching) (hg : (p.functionAt g).slot = some k) :
    q.functionAt g = p.functionAt g := by
  refine h.otherFunction g ?_
  rintro rfl
  rw [h.slot_eq_none hd h.owner h.name] at hg
  cases hg

theorem dispatching (hp : p.ClassTable) : q.Dispatching := by
  have hd := hp.dispatching
  have hentry : (q.classAt cls).methods[n]? = some (.inst f) := by rw [h.methods, if_pos rfl]
  constructor
  · intro c a ha
    rw [(h.samePlace c).ancestor] at ha
    rw [h.other a fun he => h.unbuilt (he ▸ hp.placed.built ha)]
    by_cases hc : c = cls
    · subst hc
      rw [h.slots]
      exact (hd.inherited ha).trans (List.prefix_append _ _)
    · rw [h.other c hc]
      exact hd.inherited ha
  · intro c k o ho
    simp only [h.chain_eq, h.chainId_eq]
    rcases h.slotOwners_cases ho with ⟨rfl, rfl, rfl⟩ | ho
    · refine ⟨by rw [h.self], h.slot_self, c, p.self_mem_chain c, (h.kept o).1 ▸ h.owner, ?_⟩
      rw [h.overrides_self hd, if_pos rfl]
    · rw [h.of_slot hd (hd.opened ho).2.1]
      exact hd.opened ho
  · intro c m g hg
    rw [h.functions, (h.kept g).1, (h.kept g).2]
    rcases h.entry_cases hg with ⟨rfl, rfl, he⟩ | ⟨hg, -⟩
    · cases he
      exact ⟨h.ltFunction, h.owner, h.name⟩
    · exact hd.entered hg
  · intro c m g k hg hk
    rw [h.chainId_eq]
    rcases h.entry_cases hg with ⟨rfl, rfl, he⟩ | ⟨hg, hne⟩
    · cases he
      rw [h.slot_self, Option.some.injEq] at hk
      subst hk
      refine ⟨f, h.slotOwners_self, (h.kept f).2 ▸ h.name, ?_⟩
      rw [h.overrides_self hd, if_pos rfl]
    · rcases hd.entered hg with ⟨-, howner, hname⟩
      have hgf : g ≠ f := by
        rintro rfl
        exact hne (Option.some.inj (howner.symm.trans h.owner)) (h.name.symm.trans hname)
      rw [h.otherFunction g hgf] at hk
      rcases hd.joined hg hk with ⟨o, ho, hname, hreg⟩
      refine ⟨o, h.slotOwners_of_some ho, ?_⟩
      rw [h.of_slot hd (hd.opened ho).2.1]
      exact ⟨hname, hreg⟩
  · intro g k hk
    rw [(h.kept g).1, (h.kept g).2]
    by_cases hg : g = f
    · subst hg
      exact ⟨cls, h.owner, h.name.symm ▸ hentry⟩
    · rw [h.otherFunction g hg] at hk
      rcases hd.slotted hk with ⟨c, howner, hc⟩
      exact ⟨c, howner, h.methods_of_some hc⟩
  · intro o i g hg
    simp only [fun g => (h.kept g).1, fun g => (h.kept g).2, h.root_eq, h.chainId_eq]
    by_cases ho : o = f
    · subst ho
      rw [h.overrides_self hd] at hg
      split at hg
      · next hi =>
        cases hg
        exact ⟨cls, cls, _, h.owner, h.owner, rfl, hi, h.slot_self, h.slot_self, rfl⟩
      · cases hg
    · rw [h.otherFunction o ho] at hg ⊢
      rcases hd.registered hg with ⟨c, d, k, hoc, hfd, hroot, hid, hok, hfk, hname⟩
      rw [h.of_slot hd hfk]
      exact ⟨c, d, k, hoc, hfd, hroot, hid, hok, hfk, hname⟩

theorem classTable (hp : p.ClassTable) : q.ClassTable := by
  refine ⟨h.placed hp.placed, h.laid hp.laid, h.dispatching hp, fun {c} hc => ?_⟩
  refine h.filled h.unbuilt hp (h.placed hp.placed) ((h.built_iff c).mp hc) fun ho _ => ?_
  rw [h.of_slot hp.dispatching (hp.dispatching.opened ho).2.1]

theorem exact (hp : p.ClassTable) (he : p.Exact)
    (hnone : ∀ a, (p.classAt cls).ancestor = some a → p.findMethod a n = none) : q.Exact := by
  intro c k o g ho hg
  rw [(h.kept _).2] at hg
  rcases h.slotOwners_cases ho with ⟨rfl, rfl, rfl⟩ | ho
  · rw [h.name, h.methods, if_pos rfl, Option.some.injEq, MethodEntry.inst.injEq] at hg
    rw [← hg]
    exact h.slot_self
  · rcases h.entry_cases hg with ⟨rfl, hn, -⟩ | ⟨hg, -⟩
    · rcases h.owner_above hp ho hn.symm with ⟨a, d, ha, hd, -, hm, -⟩
      rw [findMethod_none (hnone a ha) hd] at hm
      cases hm
    · rw [h.of_slot hp.dispatching (he ho hg)]
      exact he ho hg

end Opens

/-! ### Filling the table -/

/-- The slots are filled once all methods have been entered. -/
structure Finishes (p q : Program) (cls : ClassId) : Prop extends p.SameButClass q cls where
  unbuilt : ¬p.Built cls
  functions : q.functions = p.functions
  record : q.classAt cls = { p.classAt cls with
    vtable := (p.classAt cls).slotOwners.map fun base => p.resolveOverride base cls
    inProgress := false }

namespace Finishes

variable (h : p.Finishes q cls)

include h

theorem sameSlots (c : ClassId) : (p.classAt c).SameSlots (q.classAt c) := by
  by_cases hc : c = cls
  · rw [hc, h.record]
    exact ⟨⟨rfl, rfl, rfl, Nat.le_refl _⟩, rfl, rfl⟩
  · rw [h.other c hc]
    exact (ClassInst.SameTable.refl _).toSameSlots

theorem fields_eq (c : ClassId) : (q.classAt c).fields = (p.classAt c).fields := by
  by_cases hc : c = cls
  · rw [hc, h.record]
  · rw [h.other c hc]

theorem classTable (hp : p.ClassTable) : q.ClassTable := by
  have hplace (c : ClassId) := (h.sameSlots c).toSamePlace
  have hchain := chain_eq_of_samePlace h.size hplace
  have hat (f : FuncId) : q.functionAt f = p.functionAt f := by simp [functionAt, h.functions]
  have hplaced := hp.placed.congr h.size hplace fun c => h.built h.unbuilt
  refine ⟨hplaced, ?_, (SameFunctions.of_eq h.functions).dispatching h.sameSlots hchain
    hp.dispatching, ?_⟩
  · intro c hc
    exact (hp.laid (h.size ▸ hc)).congr (h.fields_eq c) (hplace c).ancestor
      (fun a _ => h.fields_eq a) (hchain c)
  · intro c hc
    by_cases hcls : c = cls
    · subst hcls
      rw [h.record]
      refine List.map_congr_left fun o _ => (resolveOverride_congr (hchain c) fun d _ => ?_).symm
      rw [hat, (hplace d).chainId]
    · refine h.filled h.unbuilt hp hplaced ⟨h.size ▸ hc.1, h.other c hcls ▸ hc.2⟩ fun _ _ => ?_
      rw [hat]

theorem exact (hp : p.ClassTable) (he : p.Exact) : q.Exact :=
  he.congr hp h.sameSlots (.of_eq h.functions)

end Finishes

end ObjectLang.Checked.Program
