import ObjectLang.Proofs.ClassTable

/-! # Changes to the table of classes

Each change that building a class makes to the table, and that the table stays in order under it.
Apart from the counters of the roots, only the record of a class that has not been built is changed.
-/

namespace ObjectLang.Checked.Program

variable {p q : Program} {cls c d a b : ClassId} {f g o : FuncId} {n : String} {k : Nat}

/-! ### Changes that the table does not see -/

/-- Functions may be new; old ones stand where they stood. -/
structure SameFunctions (p q : Program) : Prop where
  size : p.functions.size ≤ q.functions.size
  old : ∀ f < p.functions.size, (p.functionAt f).SameDispatch (q.functionAt f)
  new : ∀ f, p.functions.size ≤ f → (q.functionAt f).Plain

namespace SameFunctions

theorem of_eq (h : q.functions = p.functions) : p.SameFunctions q := by
  have hat (f : FuncId) : q.functionAt f = p.functionAt f := by simp [functionAt, h]
  refine ⟨Nat.le_of_eq (by rw [h]), fun f _ => hat f ▸ .refl _, fun f hf => ?_⟩
  rw [hat, functionAt_of_size_le hf]
  exact FuncInst.plain_default

variable (h : p.SameFunctions q)

include h

theorem slot (f : FuncId) : (q.functionAt f).slot = (p.functionAt f).slot := by
  rcases Nat.lt_or_ge f p.functions.size with hf | hf
  · exact (h.old f hf).slot
  · rw [(h.new f hf).slot, functionAt_of_size_le hf]
    rfl

theorem overrides (f : FuncId) (i : Nat) :
    (q.functionAt f).overrides[i]? = (p.functionAt f).overrides[i]? := by
  rcases Nat.lt_or_ge f p.functions.size with hf | hf
  · rw [(h.old f hf).overrides]
  · rw [(h.new f hf).overrides, functionAt_of_size_le hf]
    rfl

theorem of_slot (hf : (p.functionAt f).slot = some k) :
    (p.functionAt f).SameDispatch (q.functionAt f) :=
  h.old f (lt_size_of_slot hf)

/-- Slots are owned, opened and filled as before if classes and functions stand as before. -/
theorem dispatching (hclass : ∀ c, (p.classAt c).SameSlots (q.classAt c))
    (hchain : ∀ c, q.chain c = p.chain c) (hp : p.Dispatching) : q.Dispatching where
  inherited {c a} ha := by
    rw [(hclass c).slotOwners, (hclass a).slotOwners]
    exact hp.inherited ((hclass c).ancestor ▸ ha)
  opened {c k o} ho := by
    rw [(hclass c).slotOwners] at ho
    rcases hp.opened ho with ⟨hvirtual, hslot, d, hd, howner, hself⟩
    refine ⟨(h.of_slot hslot).isVirtual ▸ hvirtual, h.slot o ▸ hslot, d, hchain c ▸ hd,
      (h.of_slot hslot).owner ▸ howner, ?_⟩
    rw [h.overrides, (hclass d).chainId]
    exact hself
  entered {c n f} hf := by
    rw [(hclass c).methods] at hf
    rcases hp.entered hf with ⟨hlt, howner, hname⟩
    exact ⟨Nat.lt_of_lt_of_le hlt h.size, (h.old f hlt).owner ▸ howner, (h.old f hlt).name ▸ hname⟩
  joined {c n f k} hf hk := by
    rw [(hclass c).methods] at hf
    rcases hp.joined hf (h.slot f ▸ hk) with ⟨o, ho, hname, hreg⟩
    refine ⟨o, (hclass c).slotOwners ▸ ho, ?_, ?_⟩
    · rw [(h.of_slot (hp.opened ho).2.1).name]
      exact hname
    · rw [h.overrides, (hclass c).chainId]
      exact hreg
  slotted {f k} hk := by
    rw [h.slot] at hk
    rcases hp.slotted hk with ⟨c, howner, hentry⟩
    refine ⟨c, (h.of_slot hk).owner ▸ howner, ?_⟩
    rw [(hclass c).methods, (h.of_slot hk).name]
    exact hentry
  registered {o i f} hf := by
    rw [h.overrides] at hf
    rcases hp.registered hf with ⟨c, d, k, hoc, hfd, hroot, hid, hok, hfk, hname⟩
    refine ⟨c, d, k, (h.of_slot hok).owner ▸ hoc, (h.of_slot hfk).owner ▸ hfd, ?_, ?_,
      h.slot o ▸ hok, h.slot f ▸ hfk, ?_⟩
    · rw [(hclass d).root, (hclass c).root]
      exact hroot
    · rw [(hclass d).chainId]
      exact hid
    · rw [(h.of_slot hfk).name, (h.of_slot hok).name]
      exact hname

end SameFunctions

/-- Chains are read off the ancestors alone. -/
theorem chainWithin_congr (h : ∀ c, (q.classAt c).ancestor = (p.classAt c).ancestor) (bound : Nat)
    (c : ClassId) : q.chainWithin bound c = p.chainWithin bound c := by
  induction bound generalizing c with
  | zero => rfl
  | succ bound ih =>
    rw [chainWithin_succ, chainWithin_succ, h c]
    cases (p.classAt c).ancestor with
    | none => rfl
    | some a => rw [Option.elim_some, Option.elim_some, ih a]

section

variable (hsize : q.classes.size = p.classes.size)

include hsize

theorem chain_eq_of_samePlace (h : ∀ c, (p.classAt c).SamePlace (q.classAt c)) (c : ClassId) :
    q.chain c = p.chain c := by
  rw [chain, chain, hsize]
  exact chainWithin_congr (fun d => (h d).ancestor) _ c

theorem built_congr (h : (q.classAt c).inProgress = (p.classAt c).inProgress) :
    q.Built c ↔ p.Built c := by
  rw [Built, Built, hsize, h]

/-- The counter of a root may have gone up. -/
theorem Placed.congr (hp : p.Placed) (h : ∀ c, (p.classAt c).SamePlace (q.classAt c))
    (hbuilt : ∀ c, p.Built c → q.Built c) : q.Placed := by
  constructor
  · intro c hc ha
    rw [(h c).root, (h c).chainId]
    exact hp.root_of_none (hsize ▸ hc) ((h c).ancestor ▸ ha)
  · intro c a ha
    exact hbuilt a (hp.built ((h c).ancestor ▸ ha))
  · intro c a ha
    rw [(h c).root, (h a).root]
    exact hp.root_of_some ((h c).ancestor ▸ ha)
  · intro c a ha
    rw [(h c).chainId, (h a).chainId]
    exact hp.chainId_lt ((h c).ancestor ▸ ha)
  · intro c d hc hd hroot hid
    rw [(h c).root, (h d).root] at hroot
    rw [(h c).chainId, (h d).chainId] at hid
    exact hp.distinct (hsize ▸ hc) (hsize ▸ hd) hroot hid
  · intro c hc
    rw [(h c).chainId, (h c).root]
    exact Nat.lt_of_lt_of_le (hp.counted (hsize ▸ hc)) (h _).nextChainId

end

theorem findSome?_congr {α β : Type} {f g : α → Option β} {l : List α} (h : ∀ a ∈ l, f a = g a) :
    l.findSome? f = l.findSome? g := by
  induction l with
  | nil => rfl
  | cons a as ih =>
    rw [List.findSome?_cons, List.findSome?_cons, h a List.mem_cons_self,
      ih fun b hb => h b (List.mem_cons_of_mem a hb)]

theorem resolveOverride_congr (hchain : q.chain c = p.chain c)
    (h : ∀ d ∈ p.chain c, (q.functionAt o).overrides[(q.classAt d).chainId]? =
      (p.functionAt o).overrides[(p.classAt d).chainId]?) :
    q.resolveOverride o c = p.resolveOverride o c := by
  rw [resolveOverride, resolveOverride, hchain, findSome?_congr h]

/-- The layout of a class depends on its own fields, those of its ancestor and its chain. -/
theorem FieldsLaid.congr (h : p.FieldsLaid c)
    (hfields : (q.classAt c).fields = (p.classAt c).fields)
    (hancestor : (q.classAt c).ancestor = (p.classAt c).ancestor)
    (habove : ∀ a, (p.classAt c).ancestor = some a → (q.classAt a).fields = (p.classAt a).fields)
    (hchain : q.chain c = p.chain c) : q.FieldsLaid c where
  inherited {a} ha := by
    rw [hancestor] at ha
    rw [hfields, habove a ha]
    exact h.inherited ha
  indexed {i field} hi := h.indexed (hfields ▸ hi)
  distinct := hfields ▸ h.distinct
  declared := by
    rw [hfields, hchain]
    exact h.declared

/-- The table stays in order when only what it does not speak of is changed. -/
theorem ClassTable.congr (hp : p.ClassTable) (hsize : q.classes.size = p.classes.size)
    (hclass : ∀ c, (p.classAt c).SameTable (q.classAt c)) (hfun : p.SameFunctions q) :
    q.ClassTable := by
  have hplace (c : ClassId) := (hclass c).toSamePlace
  have hchain := chain_eq_of_samePlace hsize hplace
  have hbuilt (c : ClassId) : q.Built c ↔ p.Built c := built_congr hsize (hclass c).inProgress
  refine ⟨hp.placed.congr hsize hplace fun c => (hbuilt c).mpr, ?_,
    hfun.dispatching (fun c => (hclass c).toSameSlots) hchain hp.dispatching, ?_⟩
  · intro c hc
    exact (hp.laid (hsize ▸ hc)).congr (hclass c).fields (hclass c).ancestor
      (fun a _ => (hclass a).fields) (hchain c)
  · intro c hc
    rw [(hclass c).vtable, (hclass c).slotOwners, hp.filled ((hbuilt c).mp hc)]
    refine List.map_congr_left fun o _ => (resolveOverride_congr (hchain c) fun d _ => ?_).symm
    rw [hfun.overrides, (hclass d).chainId]

/-- What stands in a slot stands there as before. -/
theorem Exact.congr (he : p.Exact) (hp : p.ClassTable)
    (hclass : ∀ c, (p.classAt c).SameSlots (q.classAt c)) (hfun : p.SameFunctions q) : q.Exact := by
  intro c k o f ho hf
  rw [(hclass c).slotOwners] at ho
  rw [(hclass c).methods, (hfun.of_slot (hp.dispatching.opened ho).2.1).name] at hf
  rw [hfun.slot]
  exact he ho hf

/-! ### A new class -/

section

variable {new : ClassInst} (hclasses : q.classes = p.classes.push new)
  (hnew : new.Blank p.classes.size)

include hclasses

theorem classAt_push (c : ClassId) :
    q.classAt c = if c = p.classes.size then new else p.classAt c := by
  rw [classAt, hclasses, getD_push]
  rfl

theorem classAt_push_of_lt (hc : c < p.classes.size) : q.classAt c = p.classAt c := by
  rw [classAt_push hclasses, if_neg (Nat.ne_of_lt hc)]

theorem classAt_push_self : q.classAt p.classes.size = new := by
  rw [classAt_push hclasses, if_pos rfl]

theorem size_push : q.classes.size = p.classes.size + 1 := by
  rw [hclasses, Array.size_push]

/-- A new class is not built, and no old one stops being built. -/
theorem built_push (hc : p.Built c) : q.Built c := by
  refine ⟨?_, ?_⟩
  · rw [size_push hclasses]
    exact Nat.lt_succ_of_lt hc.1
  · rw [classAt_push_of_lt hclasses hc.1]
    exact hc.2

include hnew

theorem ancestor_push (c : ClassId) : (q.classAt c).ancestor = (p.classAt c).ancestor := by
  rw [classAt_push hclasses]
  split
  · next h =>
    rw [hnew.ancestor, classAt_of_size_le (Nat.le_of_eq h.symm)]
    rfl
  · rfl

/-- The new class is the root of a tree of its own. -/
theorem Placed.push (hp : p.Placed) : q.Placed := by
  have hlt {c : ClassId} (hc : c < q.classes.size) : c < p.classes.size ∨ c = p.classes.size := by
    rw [size_push hclasses] at hc
    exact Nat.lt_succ_iff_lt_or_eq.mp hc
  have hroot {c : ClassId} (hc : c < p.classes.size) : (p.classAt c).root < p.classes.size := by
    rcases hp.root_eq_or_built hc with h | h
    · rw [h]
      exact hc
    · exact h.1
  have hlink {c a : ClassId} (ha : (q.classAt c).ancestor = some a) :
      (p.classAt c).ancestor = some a ∧ q.classAt c = p.classAt c ∧ q.classAt a = p.classAt a := by
    rw [ancestor_push hclasses hnew] at ha
    exact ⟨ha, classAt_push_of_lt hclasses (lt_size_of_ancestor ha),
      classAt_push_of_lt hclasses (hp.built ha).1⟩
  constructor
  · intro c hc ha
    rcases hlt hc with hc | rfl
    · rw [ancestor_push hclasses hnew] at ha
      rw [classAt_push_of_lt hclasses hc]
      exact hp.root_of_none hc ha
    · rw [classAt_push_self hclasses]
      exact ⟨hnew.root, hnew.chainId⟩
  · intro c a ha
    exact built_push hclasses (hp.built (hlink ha).1)
  · intro c a ha
    rcases hlink ha with ⟨ha, hc', ha'⟩
    rw [hc', ha']
    exact hp.root_of_some ha
  · intro c a ha
    rcases hlink ha with ⟨ha, hc', ha'⟩
    rw [hc', ha']
    exact hp.chainId_lt ha
  · intro c d hc hd hcd hid
    -- An old class cannot have the new one as its root.
    rcases hlt hc with hc | rfl <;> rcases hlt hd with hd | rfl
    · rw [classAt_push_of_lt hclasses hc, classAt_push_of_lt hclasses hd] at hcd hid
      exact hp.distinct hc hd hcd hid
    · rw [classAt_push_of_lt hclasses hc, classAt_push_self hclasses, hnew.root] at hcd
      exact absurd (hroot hc) (hcd ▸ Nat.lt_irrefl _)
    · rw [classAt_push_of_lt hclasses hd, classAt_push_self hclasses, hnew.root] at hcd
      exact absurd (hroot hd) (hcd ▸ Nat.lt_irrefl _)
    · rfl
  · intro c hc
    rcases hlt hc with hc | rfl
    · rw [classAt_push_of_lt hclasses hc, classAt_push_of_lt hclasses (hroot hc)]
      exact hp.counted hc
    · rw [classAt_push_self hclasses, hnew.root, classAt_push_self hclasses, hnew.chainId]
      exact hnew.nextChainId

/-- No old class has the new one above it. -/
theorem chain_push (hp : p.Placed) (c : ClassId) : q.chain c = p.chain c :=
  chain_congr hp.ranked (hp.push hclasses hnew).ranked fun d _ => ancestor_push hclasses hnew d

theorem slotOwners_push (c : ClassId) : (q.classAt c).slotOwners = (p.classAt c).slotOwners := by
  rw [classAt_push hclasses]
  split
  · next h =>
    rw [hnew.slotOwners, classAt_of_size_le (Nat.le_of_eq h.symm)]
    rfl
  · rfl

theorem methods_push (c : ClassId) (n : String) :
    (q.classAt c).methods[n]? = (p.classAt c).methods[n]? := by
  rw [classAt_push hclasses]
  split
  · next h => rw [hnew.methods, methods_of_size_le (Nat.le_of_eq h.symm)]
  · rfl

/-- The new class has neither slots nor methods. -/
theorem Dispatching.push (hfun : q.functions = p.functions) (hp : p.Placed)
    (hd : p.Dispatching) : q.Dispatching := by
  have hat (f : FuncId) : q.functionAt f = p.functionAt f := by simp [functionAt, hfun]
  have hslots := slotOwners_push hclasses hnew
  have hmethods := methods_push hclasses hnew
  constructor
  · intro c a ha
    rw [hslots, hslots]
    exact hd.inherited (ancestor_push hclasses hnew c ▸ ha)
  · intro c k o ho
    rw [hslots] at ho
    rcases hd.opened ho with ⟨hvirtual, hslot, d, hmem, howner, hself⟩
    rcases hd.slotted hslot with ⟨d', howner', hentry⟩
    obtain rfl : d = d' := Option.some.inj (howner.symm.trans howner')
    rw [hat, chain_push hclasses hnew hp]
    refine ⟨hvirtual, hslot, d, hmem, howner, ?_⟩
    rw [classAt_push_of_lt hclasses (lt_size_of_methods hentry)]
    exact hself
  · intro c n f hf
    rw [hmethods] at hf
    rw [hfun, hat]
    exact hd.entered hf
  · intro c n f k hf hk
    rw [hmethods] at hf
    rw [hat] at hk
    rw [hslots, classAt_push_of_lt hclasses (lt_size_of_methods hf)]
    simpa only [hat] using hd.joined hf hk
  · intro f k hk
    simp only [hat, hmethods] at hk ⊢
    exact hd.slotted hk
  · intro o i f hf
    simp only [hat] at hf ⊢
    rcases hd.registered hf with ⟨c, d, k, hoc, hfd, hroot, hid, hok, hfk, hname⟩
    rcases hd.slotted hok with ⟨c', hoc', hc⟩
    rcases hd.slotted hfk with ⟨d', hfd', hd⟩
    obtain rfl : c = c' := Option.some.inj (hoc.symm.trans hoc')
    obtain rfl : d = d' := Option.some.inj (hfd.symm.trans hfd')
    refine ⟨c, d, k, hoc, hfd, ?_, ?_, hok, hfk, hname⟩
    · rw [classAt_push_of_lt hclasses (lt_size_of_methods hc),
        classAt_push_of_lt hclasses (lt_size_of_methods hd)]
      exact hroot
    · rw [classAt_push_of_lt hclasses (lt_size_of_methods hd)]
      exact hid

theorem ClassTable.push (hfun : q.functions = p.functions) (hp : p.ClassTable) : q.ClassTable := by
  have hchain := chain_push hclasses hnew hp.placed
  refine ⟨hp.placed.push hclasses hnew, ?_, hp.dispatching.push hclasses hnew hfun hp.placed, ?_⟩
  · intro c hc
    rw [size_push hclasses] at hc
    rcases Nat.lt_succ_iff_lt_or_eq.mp hc with hc | rfl
    · exact (hp.laid hc).congr (by rw [classAt_push_of_lt hclasses hc])
        (ancestor_push hclasses hnew c)
        (fun a ha => by rw [classAt_push_of_lt hclasses (hp.placed.built ha).1]) (hchain c)
    · constructor <;> simp [classAt_push_self hclasses, hnew.ancestor, hnew.fields]
  · intro c hc
    have hlt : c < p.classes.size := by
      rcases Nat.lt_succ_iff_lt_or_eq.mp (size_push hclasses ▸ hc.1) with h | rfl
      · exact h
      · have := hc.2
        rw [classAt_push_self hclasses, hnew.inProgress] at this
        cases this
    rw [classAt_push_of_lt hclasses hlt,
      hp.filled ⟨hlt, classAt_push_of_lt hclasses hlt ▸ hc.2⟩]
    refine List.map_congr_left fun o _ => (resolveOverride_congr (hchain c) fun d hd => ?_).symm
    rw [functionAt, functionAt, hfun, classAt_push_of_lt hclasses (hp.placed.mem_chain_lt hlt hd)]

theorem Exact.push (hfun : q.functions = p.functions) (he : p.Exact) : q.Exact := by
  intro c k o f ho hf
  have hat (f : FuncId) : q.functionAt f = p.functionAt f := by simp [functionAt, hfun]
  rw [slotOwners_push hclasses hnew] at ho
  rw [methods_push hclasses hnew, hat] at hf
  rw [hat]
  exact he ho hf

end

end ObjectLang.Checked.Program
