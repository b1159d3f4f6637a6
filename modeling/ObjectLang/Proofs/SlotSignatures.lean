import ObjectLang.Code.MachineType
import ObjectLang.Proofs.CheckSoundness
import ObjectLang.Proofs.NameResolution

/-! # One signature for each slot

A call through a slot is compiled with the signature of the method that the static class of the
receiver has.  If nothing was ever reported, every method that the slot holds in a class further
down has the same types, and the same machine signature.
-/

namespace ObjectLang.Code

open Checked

/-- The machine signature of a method is given by the types of its parameters and of its result. -/
theorem signature_of_sameTypes (ptr : MachineType) {f g : FuncInst} {c d : ClassId}
    (h : f.SameTypes g) (hf : f.receiver = some (.object c)) (hg : g.receiver = some (.object d)) :
    signature ptr g = signature ptr f := by
  have hreceiver (c : ClassId) : valueType ptr (.object c) = .ok ptr := rfl
  simp only [signature, passedTypes, hf, hg, h.params, h.returnType, Option.toList_some,
    List.cons_append, List.nil_append, List.mapM_cons, hreceiver]

end ObjectLang.Code

namespace ObjectLang.Checked.Program

/-- The method stands in the slot, in the class or in one above it. -/
structure Holds (p : Program) (c : ClassId) (k : Nat) (f : FuncId) : Prop where
  slot : (p.functionAt f).slot = some k
  owner : ∃ d ∈ p.chain c, (p.functionAt f).owner = some d

variable {p : Program} {c d : ClassId} {k : Nat} {f o : FuncId}

theorem Holds.of_mem_chain (hp : p.Placed) (hf : p.Holds d k f) (hd : d ∈ p.chain c) :
    p.Holds c k f := by
  obtain ⟨e, he, howner⟩ := hf.owner
  exact ⟨hf.slot, e, mem_chain_trans hp.ranked hd he, howner⟩

theorem ClassTable.sameTypes_of_holds (hp : p.ClassTable) (hagree : ∀ d, p.SlotsAgree d)
    (hf : p.Holds c k f) (ho : (p.classAt c).slotOwners[k]? = some o) :
    (p.functionAt o).SameTypes (p.functionAt f) := by
  obtain ⟨d, hd, howner⟩ := hf.owner
  obtain ⟨d', howner', hentry⟩ := hp.dispatching.slotted hf.slot
  obtain rfl : d = d' := Option.some.inj (howner.symm.trans howner')
  exact hp.sameTypes_of_slot hagree hd hentry hf.slot ho

theorem ClassTable.holds_slotOwner (hp : p.ClassTable)
    (ho : (p.classAt c).slotOwners[k]? = some o) :
    p.Holds c k o := by
  obtain ⟨-, hslot, d, hd, howner, -⟩ := hp.dispatching.opened ho
  exact ⟨hslot, d, hd, howner⟩

/-- What the table of a class has in a slot is a method that stands in the slot. -/
theorem ClassTable.holds_vtable (hp : p.ClassTable) (he : p.Exact) (hc : p.Built c)
    (ho : (p.classAt c).slotOwners[k]? = some o) :
    ∃ f, (p.classAt c).vtable[k]? = some f ∧ p.Holds c k f := by
  obtain ⟨hfound, hslot⟩ := resolveOverride_eq hp he hc.1 ho
  obtain ⟨d, hnearest⟩ := hp.nearest hfound
  obtain ⟨before, after, hchain, -⟩ := hnearest.chain
  refine ⟨p.resolveOverride o c, ?_, hslot, d, by simp [hchain], hnearest.owner⟩
  rw [hp.filled hc, List.getElem?_map, ho, Option.map_some]

end ObjectLang.Checked.Program

namespace ObjectLang

open Source Syntax Scope Checked Check Code

variable (name : String) (dependencies : List String) (files : List (File Hint)) {fuel : Nat}
  {s : State}

/-- Nothing was ever reported, neither for the names of a project nor in its check. -/
structure Resolved.Flawless (r : Resolved) (s : State) : Prop where
  names : r.nameErrors = []
  clean : s.Clean

/-- If nothing was ever reported for a project: in every slot that a class has, the method that
opened it, the methods in the tables of the class and of any class below it, and whatever else
stands in the slot there, agree in their types and in their machine signatures. -/
theorem slots_have_one_signature
    (h : checkAll (Project.ofWritten name dependencies files).resolve.sources fuel {} =
      some ((), s))
    (hflawless : (Project.ofWritten name dependencies files).resolve.Flawless s)
    {c a : ClassId} (hc : c < s.program.classes.size) (ha : a ∈ s.program.chain c) {k : Nat}
    (hk : k < (s.program.classAt a).vtable.length) :
    ∃ o f g, (s.program.classAt a).slotOwners[k]? = some o ∧
    (s.program.classAt a).vtable[k]? = some f ∧
      (s.program.classAt c).vtable[k]? = some g ∧ s.program.Holds c k o ∧ s.program.Holds c k f ∧
      s.program.Holds c k g ∧
      ∀ m, s.program.Holds c k m → (s.program.functionAt g).SameTypes (s.program.functionAt m) ∧
        ∀ ptr, signature ptr (s.program.functionAt m) = signature ptr (s.program.functionAt g) := by
  obtain ⟨hs, -⟩ := checked_orderly name dependencies files h
  have huniform := hs.uniform ⟨trivial, trivial,
    named_sources name dependencies files hflawless.names, hflawless.clean⟩
  have hp := hs.table
  have hexact := hs.exact hflawless.clean
  have hbuilt := hs.built trivial hc
  have hbuilt' := hp.placed.built_of_mem_chain hbuilt ha
  rw [(hp.completed hbuilt').vtable] at hk
  have ho : (s.program.classAt a).slotOwners[k]? = some (s.program.classAt a).slotOwners[k] :=
    List.getElem?_eq_getElem hk
  have ho' := hp.slotOwner_of_mem_chain ha ho
  obtain ⟨f, hf, hfholds⟩ := hp.holds_vtable hexact hbuilt' ho
  obtain ⟨g, hg, hgholds⟩ := hp.holds_vtable hexact hbuilt ho'
  refine ⟨_, f, g, ho, hf, hg, hp.holds_slotOwner ho', hfholds.of_mem_chain hp.placed ha, hgholds,
    fun m hm => ?_⟩
  have hsame := (hp.sameTypes_of_holds huniform.slots hgholds ho').symm.trans
    (hp.sameTypes_of_holds huniform.slots hm ho')
  obtain ⟨d, -, hd⟩ := hgholds.owner
  obtain ⟨e, -, he⟩ := hm.owner
  exact ⟨hsame, fun ptr => signature_of_sameTypes ptr hsame (hs.catalogue.owned hd)
    (hs.catalogue.owned he)⟩

theorem slots_have_one_signature_shapes :
    ∃ s, checkAll (Project.ofWritten "app" [] shapes).resolve.sources 50 {} = some ((), s) ∧
      (Project.ofWritten "app" [] shapes).resolve.Flawless s ∧ 1 ∈ s.program.chain 0 ∧
      ∃ o f g, (s.program.classAt 1).slotOwners[0]? = some o ∧
      (s.program.classAt 1).vtable[0]? = some f ∧
        (s.program.classAt 0).vtable[0]? = some g ∧ f ≠ g ∧
        (s.program.functionAt g).SameTypes (s.program.functionAt o) ∧
        (s.program.functionAt g).SameTypes (s.program.functionAt f) ∧
        ∀ ptr, signature ptr (s.program.functionAt f) = signature ptr (s.program.functionAt g) := by
  obtain ⟨s, h, hclean, hbuilt, -⟩ := checkAll_shapes
  have hnames : (Project.ofWritten "app" [] shapes).resolve.nameErrors = [] :=
    List.isEmpty_iff.mp (by decide +kernel)
  have hrun : ((checkAll (Project.ofWritten "app" [] shapes).resolve.sources 50 {}).any fun r =>
      decide (1 ∈ r.2.program.chain 0 ∧ 0 < (r.2.program.classAt 1).vtable.length ∧
        (r.2.program.classAt 1).vtable[0]? ≠ (r.2.program.classAt 0).vtable[0]?)) = true := by
    decide +kernel
  simp only [h, Option.any_some, decide_eq_true_eq] at hrun
  obtain ⟨hchain, hlength, hne⟩ := hrun
  obtain ⟨o, f, g, ho, hf, hg, hoholds, hfholds, -, hagree⟩ :=
    slots_have_one_signature "app" [] shapes h ⟨hnames, hclean⟩ hbuilt.1 hchain hlength
  refine ⟨s, h, ⟨hnames, hclean⟩, hchain, o, f, g, ho, hf, hg, ?_, (hagree o hoholds).1,
    (hagree f hfholds).1, (hagree f hfholds).2⟩
  rw [hf, hg] at hne
  exact fun heq => hne (congrArg some heq)

end ObjectLang
