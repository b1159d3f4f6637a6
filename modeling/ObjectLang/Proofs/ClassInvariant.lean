import ObjectLang.Proofs.Declarations
import ObjectLang.Proofs.Service

/-! # What holds of completed classes

After any requests, in any order, the classes that have been completed form trees by their
ancestors, lay out their fields after the inherited ones, and have a table with one entry for each
slot.
-/

namespace ObjectLang.Checked.Program

/-- What holds of a class that has been completed. -/
structure Completed (p : Program) (c : ClassId) : Prop where
  /-- The class and, if it has an ancestor, the ancestor's chain. -/
  chain : p.chain c = c :: (p.classAt c).ancestor.elim [] p.chain
  /-- A class without ancestor is the root of its tree. -/
  root : (p.classAt c).ancestor = none → (p.classAt c).root = c ∧ (p.classAt c).chainId = 0
  /-- A class with an ancestor, itself completed, stands further down in the same tree. -/
  below : ∀ a, (p.classAt c).ancestor = some a →
    p.Built a ∧ (p.classAt c).root = (p.classAt a).root ∧
      (p.classAt a).chainId < (p.classAt c).chainId
  counted : (p.classAt c).chainId < (p.classAt (p.classAt c).root).nextChainId
  inheritedFields : ∀ a, (p.classAt c).ancestor = some a →
    (p.classAt a).fields <+: (p.classAt c).fields
  fieldIndex : ∀ i (field : FieldInst), (p.classAt c).fields[i]? = some field → field.index = i
  fieldNames : ((p.classAt c).fields.map (·.name)).Nodup
  declaredIn : ∀ field ∈ (p.classAt c).fields, field.declaredIn ∈ p.chain c
  inheritedSlots : ∀ a, (p.classAt c).ancestor = some a →
    (p.classAt a).slotOwners <+: (p.classAt c).slotOwners
  /-- What opened a slot is virtual, knows its slot and is what its own class has in the slot. -/
  slotOwner : ∀ k o, (p.classAt c).slotOwners[k]? = some o →
    (p.functionAt o).isVirtual = true ∧ (p.functionAt o).slot = some k ∧
      ∃ d ∈ p.chain c, (p.functionAt o).owner = some d ∧
        (p.functionAt o).overrides[(p.classAt d).chainId]? = some o
  vtable : (p.classAt c).vtable.length = (p.classAt c).slotOwners.length
  /-- A method that is found in the class has a slot of the class, if it has one. -/
  inRange : ∀ n b f k, p.findMethod c n = some (b, .inst f) → (p.functionAt f).slot = some k →
    k < (p.classAt c).slotOwners.length

variable {p : Program} {c : ClassId}

theorem ClassTable.completed (hp : p.ClassTable) (hc : p.Built c) : p.Completed c := by
  have hlaid := hp.laid hc.1
  refine ⟨chain_eq hp.placed.ranked c, hp.placed.root_of_none hc.1, fun a ha =>
    ⟨hp.placed.built ha, hp.placed.root_of_some ha, hp.placed.chainId_lt ha⟩,
      hp.placed.counted hc.1,
    fun a => hlaid.inherited, fun i field => hlaid.indexed, hlaid.distinct, hlaid.declared,
    fun a => hp.dispatching.inherited, fun k o => hp.dispatching.opened, ?_,
      fun n b f k hfind hk => ?_⟩
  · rw [hp.filled hc, List.length_map]
  · rcases findMethod_some hp.placed.ranked hfind with ⟨hb, hentry, -⟩
    rcases hp.dispatching.joined hentry hk with ⟨o, ho, -⟩
    exact (List.getElem?_eq_some_iff.mp (hp.slotOwner_of_mem_chain hb ho)).1

theorem Placed.wellFounded (hp : p.Placed) :
    WellFounded fun a c => (p.classAt c).ancestor = some a :=
  Subrelation.wf (fun ha => hp.chainId_lt ha) (measure fun c => (p.classAt c).chainId).wf

end ObjectLang.Checked.Program

namespace ObjectLang

open Source Syntax Scope Checked Check

/-- Whatever is asked of whatever project, in whatever order: the completed classes are in order, no
two of one tree have the same number, and no broken table is ever reported. -/
theorem completed_of_reachable (name : String) (dependencies : List String)
    (files : List (File Hint))
    {s : State} (h : Reachable (Project.ofWritten name dependencies files).resolve.sources s) :
    (WellFounded fun a c => s.program.Built c ∧ (s.program.classAt c).ancestor = some a) ∧
      (∀ c, s.program.Built c → s.program.Completed c) ∧
      (∀ c d, s.program.Built c → s.program.Built d →
        (s.program.classAt c).root = (s.program.classAt d).root →
        (s.program.classAt c).chainId = (s.program.classAt d).chainId → c = d) ∧
      ∀ e ∈ s.errors ++ s.withdrawn, ¬e.cause.IsInternal := by
  have hs := h.orderly (regular_sources name dependencies files)
  have hplaced := hs.table.placed
  refine ⟨Subrelation.wf (fun h => h.2) hplaced.wellFounded, fun c hc => hs.table.completed hc,
    fun c d hc hd => hplaced.distinct hc.1 hd.1, hs.proper⟩

/-- A shape with an area and a square that has another one. -/
def shapes : List (File Hint) := [{
  id := 0
  decls := [
    .cls {
      mark := none, name := "Square", ancestor := some (.named none ["Shape"] [])
      fields := [{ mark := none, name := "side", type := .primitive none .i64
                   default := some (.int none 2) }]
      methods := [{
        mark := none, name := "area", returnType := some (.primitive none .i64), isOverride := true
        body := some (.mk none []
          (some (.binary none .mul (.ident none "side") (.ident none "side")))) }] },
    .cls {
      mark := none, name := "Shape"
      fields := [{ mark := none, name := "id", type := .primitive none .i64 }]
      methods := [{
        mark := none, name := "area", returnType := some (.primitive none .i64), isVirtual := true
        body := some (.mk none [] (some (.int none 0))) }] },
    .function {
      mark := none, name := "main", returnType := some (.primitive none .i64)
      body := some (.mk none [] (some (.methodCall none
        (.new none (.named none ["Square"] []) []) "area" [] []))) }] }]

theorem checkAll_shapes :
    ∃ s, checkAll (Project.ofWritten "app" [] shapes).resolve.sources 50 {} = some ((), s) ∧
    s.Clean ∧
      s.program.Built 0 ∧ (s.program.classAt 0).ancestor = some 1 := by
  have hrun : ((checkAll (Project.ofWritten "app" [] shapes).resolve.sources 50 {}).any fun r =>
      decide (r.2.errors.isEmpty ∧ r.2.withdrawn.isEmpty ∧ 0 < r.2.program.classes.size ∧
        (r.2.program.classAt 0).inProgress = false ∧
        (r.2.program.classAt 0).ancestor = some 1)) = true := by decide +kernel
  match h : checkAll (Project.ofWritten "app" [] shapes).resolve.sources 50 {}, hrun with
  | some ((), s), hs =>
    simp only [Option.any_some, decide_eq_true_eq, List.isEmpty_iff] at hs
    rcases hs with ⟨herrors, hwithdrawn, hsize, hbuilt, hancestor⟩
    exact ⟨s, rfl, ⟨herrors, hwithdrawn⟩, ⟨hsize, hbuilt⟩, hancestor⟩

theorem completed_shapes :
    ∃ s, Reachable (Project.ofWritten "app" [] shapes).resolve.sources s ∧ s.program.Built 0 ∧
      (s.program.classAt 0).ancestor = some 1 ∧ s.program.Completed 0 ∧ s.program.Completed 1 := by
  rcases checkAll_shapes with ⟨s, h, -, hbuilt, hancestor⟩
  have hcompleted := (completed_of_reachable "app" [] shapes (.checkAll .start h)).2.1
  exact ⟨s, .checkAll .start h, hbuilt, hancestor, hcompleted 0 hbuilt,
    hcompleted 1 ((hcompleted 0 hbuilt).below 1 hancestor).1⟩

end ObjectLang
