import ObjectLang.Proofs.Charting
import ObjectLang.Proofs.Functions

/-! # Blocks that are reached

A set of blocks grows along with the code.  It has the entry, and with a block it has all that the
block branches to; the emitter stands in it as long as the path is not dead.  So the traps that end
dead paths are never reached, and a way through the function ends only in a return.
-/

namespace ObjectLang.Simulation

open Syntax Checked Code

variable {cx : Context} {bare : Prop} {L L' : Set Nat} {s t : Emitter} {i : Instr}

/-- The instruction may stand in a block of the set: it is no trap, it stays in the set, and it
returns without a value only if that is allowed. -/
structure Runs (bare : Prop) (L : Set Nat) (i : Instr) : Prop where
  trap : i ≠ .trap
  value : i = .ret none → bare
  targets : ∀ t ∈ i.targets, t.block ∈ L

theorem Runs.mono (h : Runs bare L i) (hL : L ⊆ L') : Runs bare L' i :=
  ⟨h.trap, h.value, fun t ht => hL (h.targets t ht)⟩

theorem runs_of_isTerminator (h : i.isTerminator = false) : Runs bare L i := by
  constructor
  · rintro rfl
    cases h
  · rintro rfl
    cases h
  · simp [Instr.targets_eq_nil h]

/-- The code so far does not lead out of the set. -/
structure Closed (bare : Prop) (L : Set Nat) (s : Emitter) : Prop where
  lt : ∀ b ∈ L, b < s.blocks.size
  runs : ∀ b ∈ L, ∀ i ∈ (s.blockAt b).code.toList, Runs bare L i

namespace Closed

/-- Other blocks may be added, and parameters. -/
theorem alter (h : Closed bare L s) (hsize : s.blocks.size ≤ t.blocks.size)
    (hcode : ∀ b ∈ L, (t.blockAt b).code = (s.blockAt b).code) : Closed bare L t := by
  constructor
  · intro b hb
    exact Nat.lt_of_lt_of_le (h.lt b hb) hsize
  · intro b hb
    rw [hcode b hb]
    exact h.runs b hb

theorem push (h : Closed bare L s) (hi : s.current ∈ L → Runs bare L i) :
    Closed bare L (s.push i) := by
  constructor
  · simpa using h.lt
  · intro b hb j hj
    rw [s.push_blockAt i b] at hj
    split at hj
    · next hcurrent =>
      rw [Array.toList_push, List.mem_append, List.mem_singleton] at hj
      rcases hj with hj | rfl
      · exact h.runs b hb j hj
      · exact hi (hcurrent.1 ▸ hb)
    · exact h.runs b hb j hj

/-- Blocks that are still empty may join. -/
theorem union (h : Closed bare L s) (hlt : ∀ b ∈ L', b < s.blocks.size)
    (hnew : ∀ b ∈ L', b ∉ L → (s.blockAt b).code = #[]) : Closed bare (L ∪ L') s := by
  constructor
  · rintro b (hb | hb)
    · exact h.lt b hb
    · exact hlt b hb
  · intro b hb j hj
    by_cases hmem : b ∈ L
    · exact (h.runs b hmem j hj).mono Set.subset_union_left
    · rw [hnew b (hb.resolve_left hmem) hmem] at hj
      simp at hj

end Closed

/-- The emitter is in a block of the set unless the path is dead. -/
structure Live (bare : Prop) (L : Set Nat) (s : Emitter) : Prop extends Closed bare L s where
  current : s.current ∈ L ↔ s.dead = false

namespace Live

theorem alter (h : Live bare L s) (hsize : s.blocks.size ≤ t.blocks.size)
    (hcode : ∀ b ∈ L, (t.blockAt b).code = (s.blockAt b).code) (hcurrent : t.current = s.current)
    (hdead : t.dead = s.dead) : Live bare L t := by
  refine ⟨h.toClosed.alter hsize hcode, ?_⟩
  rw [hcurrent, hdead]
  exact h.current

theorem congr (h : Live bare L s) (hblocks : t.blocks = s.blocks) (hcurrent : t.current = s.current)
    (hdead : t.dead = s.dead) : Live bare L t := by
  apply h.alter _ _ hcurrent hdead
  · rw [hblocks]
  · simp [Emitter.blockAt, hblocks]

theorem push (h : Live bare L s) (hi : s.dead = false → Runs bare L i) : Live bare L (s.push i) :=
  ⟨h.toClosed.push fun hmem => hi (h.current.mp hmem), h.current⟩

theorem withBlock (h : Live bare L s) : Live bare L s.withBlock := by
  refine h.alter ?_ (fun b _ => ?_) rfl rfl
  · simp [Emitter.withBlock]
  · rw [s.withBlock_blockAt]

/-- Behind a return the path is dead. -/
theorem beyond (h : Live bare L s) : Live bare L s.beyond := by
  refine ⟨h.withBlock.toClosed.alter (Nat.le_refl _) fun _ _ => rfl, ?_⟩
  have hout : s.blocks.size ∉ L := fun hmem => Nat.lt_irrefl _ (h.lt _ hmem)
  simp [Emitter.beyond, hout]

end Live

/-- A path that is live now was so before. -/
theorem Emitted.live (h : Emitted s t) (ht : t.dead = false) : s.dead = false := by
  by_contra hs
  simp [h.dead (by simpa using hs)] at ht

/-- Blocks were added to the set, all of them from a number on. -/
structure Spreads (n : Nat) (L L' : Set Nat) : Prop where
  subset : L ⊆ L'
  old : ∀ b ∈ L', b < n → b ∈ L

theorem Spreads.refl (n : Nat) (L : Set Nat) : Spreads n L L := ⟨subset_rfl, fun _ h _ => h⟩

theorem Spreads.trans {n m : Nat} {L'' : Set Nat} (h : Spreads n L L') (h' : Spreads m L' L'')
    (hnm : n ≤ m) : Spreads n L L'' := by
  refine ⟨Set.Subset.trans h.subset h'.subset, fun b hb hlt => ?_⟩
  exact h.old b (h'.old b hb (Nat.lt_of_lt_of_le hlt hnm)) hlt

/-- The emission keeps to a set of blocks that grows with the code. -/
structure Traces (bare : Prop) {α : Type} (x : Emit α) : Prop where
  emits : Emits x
  live : ∀ {s r s'}, x s = .ok (r, s') → s.Inside → ∀ {L}, Live bare L s →
    ∃ L', Live bare L' s' ∧ Spreads s.blocks.size L L'

namespace Traces

/-! ## Steps -/

variable {α β : Type} {x : Emit α} {f : α → Emit β}

theorem of_live (hx : Emits x)
    (h : ∀ {s r s'}, x s = .ok (r, s') → ∀ {L}, Live bare L s → Live bare L s') : Traces bare x :=
  ⟨hx, fun hrun _ _ hL => ⟨_, h hrun hL, .refl _ _⟩⟩

theorem bind (hx : Traces bare x) (hf : ∀ a, Traces bare (f a)) : Traces bare (x >>= f) := by
  refine ⟨hx.emits.bind fun a => (hf a).emits, fun {s r s'} hrun hs L hL => ?_⟩
  obtain ⟨a, t, ha, hb⟩ := Emit.bind_ok hrun
  have hgrows := (hx.emits s a t ha hs).grows
  obtain ⟨L1, hL1, hspread1⟩ := hx.live ha hs hL
  obtain ⟨L2, hL2, hspread2⟩ := (hf a).live hb hgrows.inside hL1
  exact ⟨L2, hL2, hspread1.trans hspread2 hgrows.size⟩

theorem pure (a : α) : Traces bare (Pure.pure a : Emit α) := by
  apply of_live (.pure a)
  intro s r s' hrun L hL
  cases hrun
  exact hL

theorem lift (y : Except Error α) : Traces bare (liftM y : Emit α) := by
  apply of_live (.lift y)
  intro s r s' hrun L hL
  obtain ⟨-, rfl⟩ := Emit.lift_ok hrun
  exact hL

theorem throw (e : Error) : Traces bare (throw e : Emit α) := by
  apply of_live (.throw e)
  intro s r s' hrun
  exact (Emit.throw_ok hrun).elim

theorem ite {c : Prop} [Decidable c] {x y : Emit α} (hx : Traces bare x) (hy : Traces bare y) :
    Traces bare (if c then x else y) := by
  split
  · exact hx
  · exact hy

theorem isDead {f : Bool → Emit α} (hf : ∀ d, Traces bare (f d)) :
    Traces bare (Code.isDead >>= f) := by
  refine ⟨.isDead fun d => (hf d).emits, fun {s r s'} hrun hs L hL => ?_⟩
  exact (hf s.dead).live hrun hs hL

theorem emit (h : i.isTerminator = false) : Traces bare (Code.emit i) := by
  apply of_live (.emit i)
  intro s r s' hrun L hL
  cases hrun
  exact hL.push fun _ => runs_of_isTerminator h

theorem define {g : ValueId → Instr} (h : ∀ v, (g v).isTerminator = false) :
    Traces bare (Code.define g) := by
  apply of_live (.define g)
  intro s r s' hrun L hL
  cases hrun
  have hvalue : Live bare L s.withValue := hL.congr rfl rfl rfl
  exact hvalue.push fun _ => runs_of_isTerminator (h _)

theorem own (p : Pending) : Traces bare (Code.own p) := by
  apply of_live (.own p)
  intro s r s' hrun L hL
  rw [Code.own] at hrun
  obtain ⟨_, _, hget, hrun⟩ := Emit.bind_ok hrun
  cases hget
  cases hscopes : s.scopes with
  | nil =>
    rw [hscopes] at hrun
    exact (Emit.throw_ok hrun).elim
  | cons scope outer =>
    rw [hscopes] at hrun
    cases hrun
    exact hL.congr rfl rfl rfl

theorem releasePending (p : Pending) : Traces bare (Code.releasePending cx p) := by
  cases p with
  | value v => exact .emit rfl
  | slot k => exact (define fun _ => rfl).bind fun _ => .emit rfl

theorem releaseAll (ps : List Pending) : Traces bare (Code.releaseAll cx ps) := by
  induction ps with
  | nil => exact .pure ()
  | cons p ps ih => exact (releasePending p).bind fun _ => ih

theorem inScope (hx : Traces bare x) : Traces bare (Code.inScope cx x) := by
  refine ⟨hx.emits.inScope, fun {s r s'} hrun hs L hL => ?_⟩
  obtain ⟨_, s1, hopen, hrun⟩ := Emit.bind_ok hrun
  cases hopen
  obtain ⟨a, s2, hbody, hrun⟩ := Emit.bind_ok hrun
  obtain ⟨_, s3, hclose, hrun⟩ := Emit.bind_ok hrun
  cases hrun
  have hopened : Live bare L { s with scopes := [] :: s.scopes } := hL.congr rfl rfl rfl
  obtain ⟨L1, hL1, hspread⟩ := hx.live hbody hs hopened
  have hgrows := (hx.emits _ _ _ hbody hs).grows
  obtain ⟨scope, outer, -, ⟨-, rfl⟩ | ⟨-, hrelease⟩⟩ := closeScope_ok hclose
  · exact ⟨L1, hL1.congr rfl rfl rfl, hspread⟩
  · have houter : Live bare L1 { s2 with scopes := outer } := hL1.congr rfl rfl rfl
    obtain ⟨L2, hL2, hspread2⟩ := (releaseAll scope).live hrelease hgrows.inside houter
    exact ⟨L2, hL2, hspread.trans hspread2 hgrows.size⟩

theorem emitReturn {v : Option ValueId} (hv : v = none → bare) :
    Traces bare (Code.emitReturn cx v) := by
  have hleave : Traces bare (do
      Code.emit (.ret v)
      switchTo (← newBlock)
      setDead true) := by
    apply of_live (.leave _)
    intro s r s' hrun L hL
    rw [leave_run] at hrun
    cases hrun
    refine Live.beyond (hL.push fun _ => ⟨by simp, fun h => hv ?_, by simp [Instr.targets]⟩)
    simpa using h
  have hrest : Traces bare (do
      Code.releaseAll cx (← get).scopes.flatten
      Code.emit (.ret v)
      switchTo (← newBlock)
      setDead true) := by
    have hrelease (ps : List Pending) : Traces bare (Code.releaseAll cx ps) := releaseAll ps
    have hscopes (ps : List Pending) := (hrelease ps).bind fun _ => hleave
    exact ⟨.scopes (f := fun ps => do
      Code.releaseAll cx ps.flatten
      Code.emit (.ret v)
      switchTo (← newBlock)
      setDead true) fun ps => (hscopes ps.flatten).emits,
        fun {s r s'} hrun => (hscopes s.scopes.flatten).live hrun⟩
  cases v with
  | none => exact hrest
  | some v =>
    rw [Code.emitReturn]
    exact .ite ((emit rfl).bind fun _ => hrest) hrest

end Traces

/-! ## Branches -/

/-- The set with what the instruction branches to, if the path is not dead. -/
def reached (L : Set Nat) (s : Emitter) (i : Instr) : Set Nat :=
  L ∪ { b | s.dead = false ∧ ∃ t ∈ i.targets, b = t.block }

theorem mem_reached {b : Nat} :
    b ∈ reached L s i ↔ b ∈ L ∨ (s.dead = false ∧ ∃ t ∈ i.targets, b = t.block) := Iff.rfl

theorem subset_reached : L ⊆ reached L s i := Set.subset_union_left

/-- A branch to blocks that are still empty. -/
theorem Live.branch (h : Live bare L s) (htrap : i ≠ .trap) (hret : i ≠ .ret none)
    (hnew : s.dead = false → ∀ t ∈ i.targets, t.block < s.blocks.size ∧
      (t.block ∉ L → (s.blockAt t.block).code = #[])) : Closed bare (reached L s i) (s.push i) := by
  have hclosed : Closed bare (reached L s i) s := by
    apply h.toClosed.union
    · rintro _ ⟨hlive, t, ht, rfl⟩
      exact (hnew hlive t ht).1
    · rintro _ ⟨hlive, t, ht, rfl⟩ hmem
      exact (hnew hlive t ht).2 hmem
  apply hclosed.push
  intro hmem
  have hlive : s.dead = false := by
    rcases hmem with hmem | hmem
    · exact h.current.mp hmem
    · exact hmem.1
  exact ⟨htrap, fun hi => absurd hi hret, fun t ht => .inr ⟨hlive, t, ht, rfl⟩⟩

theorem armEnd_dead (ty : Ty) (slot : Option SlotId) (value : Option ValueId) (s : Emitter) :
    (armEnd ty slot value s).dead = s.dead := by
  unfold armEnd
  repeat' split
  all_goals rfl

theorem Live.armEnd (h : Live bare L s) (ty : Ty) (slot : Option SlotId) (value : Option ValueId) :
    Live bare L (armEnd ty slot value s) := by
  unfold Simulation.armEnd
  split
  · exact h.push fun _ => runs_of_isTerminator rfl
  · split
    · exact h.push fun _ => runs_of_isTerminator rfl
    · exact h
  · exact h

/-- The set with the block where arms come together, if an arm goes on there. -/
def joining (L : Set Nat) (merge : Nat) (goes : Prop) : Set Nat := L ∪ { b | b = merge ∧ goes }

theorem mem_joining {b merge : Nat} {goes : Prop} :
    b ∈ joining L merge goes ↔ b ∈ L ∨ (b = merge ∧ goes) := Iff.rfl

/-- A jump to a block that is in the set or still empty. -/
theorem Live.jump (h : Live bare L s) {merge : Nat} (hmerge : merge < s.blocks.size)
    (hnew : s.dead = false → merge ∉ L → (s.blockAt merge).code = #[]) :
    Closed bare (joining L merge (s.dead = false)) (s.push (.jump { block := merge })) := by
  have hjoin : joining L merge (s.dead = false) = reached L s (.jump { block := merge }) := by
    ext b
    simp [mem_joining, mem_reached, Instr.targets, and_comm]
  rw [hjoin]
  apply h.branch (by simp) (by simp)
  intro hlive t ht
  obtain rfl := List.mem_singleton.mp ht
  exact ⟨hmerge, hnew hlive⟩

/-- An arm goes on to the block where the arms come together, unless it is dead. -/
theorem Traces.arm {ty : Ty} {slot : Option SlotId} {merge : Nat} {x : Emit (Option ValueId)}
    {s' : Emitter} {d : Bool} (hx : Traces bare x) (hrun : emitArm ty slot merge x s = .ok (d, s'))
    (hs : s.Inside) (hL : Live bare L s) (hmerge : merge < s.blocks.size)
    (hnew : s.dead = false → merge ∉ L → merge ≠ s.current ∧ (s.blockAt merge).code = #[]) :
    ∃ L', Closed bare L' s' ∧
      Spreads s.blocks.size (joining L merge (s.dead = false ∧ d = false)) L' := by
  obtain ⟨value, t, ht, rfl, rfl⟩ := emitArm_ok hrun
  obtain ⟨L1, hL1, hspread⟩ := hx.live ht hs hL
  have hemitted := hx.emits _ _ _ ht hs
  cases hdead : t.dead with
  | true =>
    refine ⟨L1, hL1.toClosed.push fun hmem => ?_, ?_, fun b hb hlt => .inl (hspread.old b hb hlt)⟩
    · simp [hL1.current, hdead] at hmem
    · rintro b (hb | ⟨-, -, hlive⟩)
      · exact hspread.subset hb
      · cases hlive
  | false =>
    have hlive := hemitted.live hdead
    have hgrows := armEnd_grows hemitted.grows hs ty slot value
    have henddead := (armEnd_dead ty slot value t).trans hdead
    refine ⟨joining L1 merge ((armEnd ty slot value t).dead = false), ?_, ?_, ?_⟩
    · apply (hL1.armEnd ty slot value).jump (Nat.lt_of_lt_of_le hmerge hgrows.size)
      intro _ hmem
      obtain ⟨hne, hempty⟩ := hnew hlive fun h => hmem (hspread.subset h)
      rw [hgrows.kept merge hmerge hne, hempty]
    · rintro b (hb | ⟨rfl, -⟩)
      · exact .inl (hspread.subset hb)
      · exact .inr ⟨rfl, henddead⟩
    · rintro b (hb | ⟨rfl, -⟩) hlt
      · exact .inl (hspread.old b hb hlt)
      · exact .inr ⟨rfl, hlive, rfl⟩

/-- A branch to blocks that have just been made. -/
theorem Live.forked (h : Live bare L s) (htrap : i ≠ .trap) (hret : i ≠ .ret none)
    (htargets : ∀ t ∈ i.targets, s.blocks.size ≤ t.block ∧ t.block < s.blocks.size + 3) :
    Closed bare (reached L s i) (Fork.forked s i) := by
  apply h.withBlock.withBlock.withBlock.branch htrap hret
  intro _ t ht
  obtain ⟨hle, hlt⟩ := htargets t ht
  constructor
  · exact Nat.lt_of_lt_of_eq hlt (by simp [Emitter.withBlock])
  · simp only [Emitter.withBlock_blockAt, Emitter.blockAt_of_size_le s hle, implies_true]

/-- No block that is still to be made is in the set. -/
theorem Live.notMem (h : Live bare L s) {b : Nat} (hb : s.blocks.size ≤ b) : b ∉ L :=
  fun hmem => Nat.not_lt.mpr hb (h.lt b hmem)

namespace Conditional

variable {c : ValueId} {type : Option MachineType}

theorem targets_branch (s : Emitter) (c : ValueId) :
    (branch s c).targets = [{ block := s.blocks.size }, { block := Fork.second s }] := rfl

theorem live_thenAt (h : Live bare L s) :
    Live bare (reached L s (branch s c)) (thenAt s c type) := by
  have hsecond := Fork.second_eq s
  have hclosed : Closed bare (reached L s (branch s c)) (Fork.forked s (branch s c)) := by
    apply h.forked (by simp [branch]) (by simp [branch])
    simp [targets_branch, hsecond]
  have hblocks := thenAt_blocks s c type
  refine ⟨hclosed.alter (by rw [hblocks]) fun b _ => by simp only [Emitter.blockAt, hblocks], ?_⟩
  have hcurrent : (thenAt s c type).current = s.blocks.size := rfl
  rw [thenAt_dead, mem_reached, hcurrent]
  simp [h.notMem (Nat.le_refl _), targets_branch]

theorem live_elseAt {u : Emitter} (h : Live bare L s) (hu : Closed bare L' u)
    (hL : ∀ b, s.blocks.size ≤ b → b < s.blocks.size + 2 →
      (b ∈ L' ↔ b ∈ reached L s (branch s c))) :
    Live bare L' (elseAt s u) := by
  have hsecond := Fork.second_eq s
  refine ⟨hu.alter (Nat.le_refl _) fun _ _ => rfl, ?_⟩
  change Fork.second s ∈ L' ↔ s.dead = false
  rw [hL _ (by omega) (by omega), mem_reached]
  simp [h.notMem (b := Fork.second s) (by omega), targets_branch]

theorem mem_reached_branch {b : Nat} :
    b ∈ reached L s (branch s c) ↔
      b ∈ L ∨ (s.dead = false ∧ (b = s.blocks.size ∨ b = Fork.second s)) := by
  simp [mem_reached, targets_branch]

/-- Both arms are there: the code behind them is reached if the end of one of them is. -/
theorem live_joined {u w : Emitter} {d d' : Bool} {L1 L2 : Set Nat} (h : Live bare L s)
    (husize : s.blocks.size + 3 ≤ u.blocks.size) (hw : Closed bare L2 w)
    (hspread1 : Spreads (s.blocks.size + 3)
      (joining (reached L s (branch s c)) (Fork.third s) (s.dead = false ∧ d = false)) L1)
    (hspread2 : Spreads u.blocks.size
      (joining L1 (Fork.third s) (s.dead = false ∧ d' = false)) L2) :
    Live bare L2 (joined s w (d && d')) ∧ Spreads s.blocks.size L L2 := by
  have hsecond := Fork.second_eq s
  have hthird := Fork.third_eq s
  have hold {b : Nat} (hb : b ∈ L2) (hlt : b < s.blocks.size + 3) :
      b ∈ reached L s (branch s c) ∨
        (b = Fork.third s ∧ s.dead = false ∧ (d = false ∨ d' = false)) := by
    rcases hspread2.old b hb (Nat.lt_of_lt_of_le hlt husize) with hb | ⟨heq, hlive, hd⟩
    · rcases hspread1.old b hb hlt with hb | ⟨heq, hlive, hd⟩
      · exact .inl hb
      · exact .inr ⟨heq, hlive, .inl hd⟩
    · exact .inr ⟨heq, hlive, .inr hd⟩
  -- the block behind the conditional is none that the branch goes to
  have hmerge : Fork.third s ∉ reached L s (branch s c) := by
    rw [mem_reached_branch]
    rintro (hmem | ⟨-, heq | heq⟩)
    · exact h.notMem (by omega) hmem
    · omega
    · omega
  refine ⟨⟨hw.alter (Nat.le_refl _) fun _ _ => rfl, ?_⟩, fun b hb => ?_, fun b hb hlt => ?_⟩
  · change Fork.third s ∈ L2 ↔ (s.dead || (d && d')) = false
    simp only [Bool.or_eq_false_iff, Bool.and_eq_false_iff]
    constructor
    · intro hmem
      exact ((hold hmem (by omega)).resolve_left hmerge).2
    · rintro ⟨hlive, hd | hd⟩
      · exact hspread2.subset (.inl (hspread1.subset (.inr ⟨rfl, hlive, hd⟩)))
      · exact hspread2.subset (.inr ⟨rfl, hlive, hd⟩)
  · exact hspread2.subset (.inl (hspread1.subset (.inl (.inl hb))))
  · rcases hold hb (by omega) with hb | ⟨rfl, -⟩
    · rcases mem_reached_branch.mp hb with hb | ⟨-, rfl | rfl⟩
      · exact hb
      · omega
      · omega
    · omega

end Conditional

theorem Traces.finish (ty : Ty) (type : Option MachineType) (slot : Option SlotId) :
    Traces bare (Conditional.finish ty type slot) := by
  unfold Conditional.finish
  split
  · refine (define fun _ => rfl).bind fun v => .isDead fun d => ?_
    exact .ite ((own _).bind fun _ => .pure _) (.pure _)
  · exact .pure _

/-- Without an else-arm the code goes on at once. -/
theorem Traces.elseArm {slot : Option SlotId} {merge : Nat} {s' : Emitter} {d : Bool}
    {elseArm : Option (Ty × Emit (Option ValueId))}
    (hx : ∀ body, elseArm = some body → Traces bare body.2)
    (hrun : Conditional.emitElse slot merge elseArm s = .ok (d, s')) (hs : s.Inside)
    (hL : Live bare L s)
    (hmerge : merge < s.blocks.size)
    (hnew : s.dead = false → merge ∉ L → merge ≠ s.current ∧ (s.blockAt merge).code = #[]) :
    ∃ L', Closed bare L' s' ∧
      Spreads s.blocks.size (joining L merge (s.dead = false ∧ d = false)) L' := by
  cases elseArm with
  | some body => exact (hx body rfl).arm hrun hs hL hmerge hnew
  | none =>
    cases hrun
    refine ⟨_, hL.jump hmerge fun hlive hmem => (hnew hlive hmem).2, ?_⟩
    simp only [and_true]
    exact .refl _ _

/-- Behind a conditional the path is dead if it was before or both arms are. -/
theorem Traces.conditional (ty : Ty) (c : ValueId) {thenArm : Ty × Emit (Option ValueId)}
    {elseArm : Option (Ty × Emit (Option ValueId))} (ht : Traces bare thenArm.2)
    (htk : Kept thenArm.2) (he : ∀ body, elseArm = some body → Traces bare body.2)
    (hek : ∀ body, elseArm = some body → Kept body.2) :
    Traces bare (Conditional.rest cx ty c thenArm elseArm) := by
  refine ⟨.conditional ty c ht.emits htk (fun body h => (he body h).emits) hek, ?_⟩
  intro s r s' hrun hs L hL
  obtain ⟨type, d, u, d', w, -, hu, hw, hf⟩ := Conditional.rest_ok hrun
  have hsecond := Fork.second_eq s
  have hthird := Fork.third_eq s
  have hsize := Conditional.thenAt_size s c type
  have hin := (Conditional.thenAt_grows s c type hs).inside
  have hg := emitArm_grows ht.emits hu hin
  have hine := Conditional.elseAt_inside hg
  have hg' := Conditional.emitElse_grows (fun body h => (he body h).emits) hw hine
  obtain ⟨L1, hL1, hspread1⟩ := ht.arm hu hin (Conditional.live_thenAt hL) (by omega) fun _ _ => by
    refine ⟨?_, by rw [Conditional.thenAt_new s c type hs (by omega)]⟩
    change Fork.third s ≠ s.blocks.size
    omega
  rw [Conditional.thenAt_dead, hsize] at hspread1
  have helse : Live bare L1 (Conditional.elseAt s u) := by
    apply Conditional.live_elseAt (c := c) hL hL1
    intro b hle hlt
    refine ⟨fun hb => ?_, fun hb => hspread1.subset (.inl hb)⟩
    rcases hspread1.old b hb (by omega) with hb | ⟨rfl, -⟩
    · exact hb
    · omega
  have husize := Conditional.then_size hg
  obtain ⟨L2, hL2, hspread2⟩ := Traces.elseArm he hw hine helse (by
      change Fork.third s < u.blocks.size
      omega) fun _ _ => by
    refine ⟨?_, ?_⟩
    · change Fork.third s ≠ Fork.second s
      omega
    · change (u.blockAt (Fork.third s)).code = #[]
      rw [Conditional.then_new hs hg (by omega) (by omega)]
  obtain ⟨hjoined, hspread⟩ := Conditional.live_joined hL husize hL2 hspread1 hspread2
  have hj := Conditional.joined_grows hs hg hg' (d && d')
  obtain ⟨L3, hL3, hspread3⟩ := (Traces.finish ty type _).live hf hj.inside hjoined
  exact ⟨L3, hL3, hspread.trans hspread3 hj.size⟩

/-! ## Logical operators -/

namespace Shortcut

variable {op : BinaryOp} {a : ValueId}

theorem mem_reached_branch {b : Nat} :
    b ∈ reached L s (branch s op a) ↔
    b ∈ L ∨ (s.dead = false ∧ (b = s.blocks.size ∨ b = merge s)) := by
  rw [mem_reached, branch]
  by_cases hop : op = .and
  · simp [hop, Instr.targets]
  · simp [hop, Instr.targets, or_comm]

theorem live_right (h : Live bare L s) :
    Live bare (reached L s (branch s op a)) (right s op a) := by
  have hmerge := merge_eq s
  have hsize := forked_size s
  have hcode (b : Nat) : ((forked s).blockAt b).code = (s.blockAt b).code := by
    by_cases hb : b = merge s
    · rw [hb, forked_merge, s.blockAt_of_size_le (by omega)]
    · rw [forked_blockAt s hb]
  have hlt : s.blocks.size < (forked s).blocks.size := by omega
  have hlt' : merge s < (forked s).blocks.size := by omega
  have hforked : Live bare L (forked s) := h.alter (by omega) (fun b _ => hcode b) rfl rfl
  have hclosed : Closed bare (reached L s (branch s op a)) ((forked s).push (branch s op a)) := by
    apply hforked.branch
    · unfold branch
      split <;> simp
    · unfold branch
      split <;> simp
    · intro hlive t ht
      have hmem : t.block ∈ reached L s (branch s op a) := .inr ⟨hlive, t, ht, rfl⟩
      rcases mem_reached_branch.mp hmem with hmem | ⟨-, heq | heq⟩
      · exact ⟨hforked.lt _ hmem, fun h => absurd hmem h⟩
      · rw [heq, hcode, s.blockAt_of_size_le (Nat.le_refl _)]
        exact ⟨hlt, fun _ => rfl⟩
      · rw [heq, hcode, s.blockAt_of_size_le (by omega)]
        exact ⟨hlt', fun _ => rfl⟩
  refine ⟨hclosed.alter (Nat.le_refl _) fun _ _ => rfl, ?_⟩
  change s.blocks.size ∈ reached L s (branch s op a) ↔ s.dead = false
  rw [mem_reached_branch]
  simp [h.notMem (Nat.le_refl _)]

end Shortcut

theorem Traces.shortcut {x : Emit ValueId} (hx : Traces bare x) (op : BinaryOp) (a : ValueId) :
    Traces bare (Shortcut.rest cx op a x) := by
  refine ⟨hx.emits.shortcut op a, fun {s r s'} hrun hs L hL => ?_⟩
  obtain ⟨b, t, ht, -, rfl⟩ := Shortcut.rest_ok op a hrun
  have hmerge := Shortcut.merge_eq s
  have hsize := Shortcut.right_size s op a
  have hin := Shortcut.right_inside s op a
  obtain ⟨L1, hL1, hspread⟩ := hx.inScope.live ht hin (Shortcut.live_right hL)
  have hemitted := hx.emits.inScope _ _ _ ht hin
  have hmem : Shortcut.merge s ∈ L1 ↔ s.dead = false := by
    constructor
    · intro hmem
      rcases Shortcut.mem_reached_branch.mp (hspread.old _ hmem (by omega)) with hmem | ⟨hlive, -⟩
      · exact absurd hmem (hL.notMem (by omega))
      · exact hlive
    · intro hlive
      exact hspread.subset (Shortcut.mem_reached_branch.mpr (.inr ⟨hlive, .inr rfl⟩))
  refine ⟨L1, ⟨?_, hmem⟩, fun b hb => hspread.subset (.inl hb), fun b hb hlt => ?_⟩
  · refine (hL1.toClosed.push fun hcurrent => ⟨by simp, by simp, fun target htarget => ?_⟩).alter
      (Nat.le_refl _) fun _ _ => rfl
    obtain rfl := List.mem_singleton.mp htarget
    exact hmem.mpr (hemitted.live (hL1.current.mp hcurrent))
  · rcases Shortcut.mem_reached_branch.mp (hspread.old b hb (by omega)) with hb | ⟨-, rfl | rfl⟩
    · exact hb
    · omega
    · omega

/-! ## Loops -/

namespace Loop

variable {c : ValueId} {u : Emitter}

theorem mem_reached_jump {b : Nat} :
    b ∈ reached L s (jump s) ↔ b ∈ L ∨ (s.dead = false ∧ b = s.blocks.size) := by
  simp [mem_reached, jump, Instr.targets]

theorem mem_reached_branch {b : Nat} :
    b ∈ reached L u (branch s c) ↔
    b ∈ L ∨ (u.dead = false ∧ (b = Fork.second s ∨ b = Fork.third s)) := by
  simp [mem_reached, branch, Instr.targets]

theorem live_headAt (h : Live bare L s) : Live bare (reached L s (jump s)) (headAt s) := by
  have hclosed : Closed bare (reached L s (jump s)) (Fork.forked s (jump s)) := by
    apply h.forked (by simp [jump]) (by simp [jump])
    simp [jump, Instr.targets]
  refine ⟨hclosed.alter (Nat.le_refl _) fun _ _ => rfl, ?_⟩
  change s.blocks.size ∈ reached L s (jump s) ↔ s.dead = false
  rw [mem_reached_jump]
  simp [h.notMem (Nat.le_refl _)]

theorem live_bodyAt (hs : s.Inside) (hg : Grows (headAt s) u) (h : Live bare L u)
    (hsecond : Fork.second s ∉ L) : Live bare (reached L u (branch s c)) (bodyAt s c u) := by
  have hsecond_eq := Fork.second_eq s
  have hthird_eq := Fork.third_eq s
  have hsize := cond_size hg
  have hclosed : Closed bare (reached L u (branch s c)) (u.push (branch s c)) := by
    apply h.branch (by simp [branch]) (by simp [branch])
    intro _ t ht
    obtain rfl | rfl := List.mem_pair.mp ht
    · change Fork.second s < _ ∧ (_ → (u.blockAt (Fork.second s)).code = #[])
      rw [cond_new hs hg (by omega) (by omega)]
      exact ⟨by omega, fun _ => rfl⟩
    · change Fork.third s < _ ∧ (_ → (u.blockAt (Fork.third s)).code = #[])
      rw [cond_new hs hg (by omega) (by omega)]
      exact ⟨by omega, fun _ => rfl⟩
  refine ⟨hclosed.alter (Nat.le_refl _) fun _ _ => rfl, ?_⟩
  change Fork.second s ∈ reached L u (branch s c) ↔ u.dead = false
  rw [mem_reached_branch]
  simp [hsecond]

/-- The blocks of a loop behind its header are not reached before the condition has been emitted. -/
theorem notMem_of_spreads {L1 : Set Nat} {b : Nat} (h : Live bare L s)
    (hspread : Spreads (s.blocks.size + 3) (reached L s (jump s)) L1) (hle : s.blocks.size < b)
    (hlt : b < s.blocks.size + 3) : b ∉ L1 := by
  intro hb
  rcases mem_reached_jump.mp (hspread.old b hb hlt) with hb | ⟨-, heq⟩
  · exact h.notMem (Nat.le_of_lt hle) hb
  · omega

/-- The code behind a loop is reached if the end of the condition is. -/
theorem third_mem {d : Bool} {L1 L2 : Set Nat} (h : Live bare L s)
    (husize : s.blocks.size + 3 ≤ u.blocks.size)
    (hspread1 : Spreads (s.blocks.size + 3) (reached L s (jump s)) L1)
    (hspread2 : Spreads u.blocks.size
      (joining (reached L1 u (branch s c)) s.blocks.size (u.dead = false ∧ d = false)) L2) :
    (Fork.third s ∈ L2 ↔ u.dead = false) ∧ Spreads s.blocks.size L L2 := by
  have hsecond := Fork.second_eq s
  have hthird := Fork.third_eq s
  have hold {b : Nat} (hb : b ∈ L2) (hlt : b < s.blocks.size + 3) (hne : b ≠ s.blocks.size) :
      b ∈ reached L1 u (branch s c) := by
    rcases hspread2.old b hb (by omega) with hb | ⟨heq, -⟩
    · exact hb
    · exact absurd heq hne
  refine ⟨⟨fun hmem => ?_, fun hlive => ?_⟩, fun b hb => ?_, fun b hb hlt => ?_⟩
  · rcases mem_reached_branch.mp (hold hmem (by omega) (by omega)) with hmem | ⟨hlive, -⟩
    · exact absurd hmem (notMem_of_spreads h hspread1 (by omega) (by omega))
    · exact hlive
  · exact hspread2.subset (.inl (mem_reached_branch.mpr (.inr ⟨hlive, .inr rfl⟩)))
  · exact hspread2.subset (.inl (.inl (hspread1.subset (.inl hb))))
  · rcases mem_reached_branch.mp (hold hb (by omega) (by omega)) with hb | ⟨-, rfl | rfl⟩
    · rcases mem_reached_jump.mp (hspread1.old b hb (by omega)) with hb | ⟨-, rfl⟩
      · exact hb
      · omega
    · omega
    · omega

end Loop

/-- Behind a loop the path is dead if it is so behind the condition. -/
theorem Traces.emitLoop {condition : Emit ValueId} {ty : Ty} {body : Emit (Option ValueId)}
    (hc : Traces bare condition) (hb : Traces bare body) (hk : Kept body) :
    Traces bare (Code.emitLoop cx condition ty body) := by
  refine ⟨.emitLoop hc.emits hb.emits hk, fun {s r s'} hrun hs L hL => ?_⟩
  obtain ⟨c, u, d, w, hu, hw, rfl⟩ := emitLoop_ok hrun
  have hsecond := Fork.second_eq s
  have hthird := Fork.third_eq s
  have hsize := Loop.headAt_size s
  have hin := (Loop.headAt_grows s hs).inside
  have hemitted := hc.emits.inScope _ _ _ hu hin
  have hg := hemitted.grows
  have husize := Loop.cond_size hg
  obtain ⟨L1, hL1, hspread1⟩ := hc.inScope.live hu hin (Loop.live_headAt hL)
  rw [hsize] at hspread1
  have hbody := Loop.live_bodyAt (c := c) hs hg hL1
    (Loop.notMem_of_spreads hL hspread1 (by omega) (by omega))
  have hine := Loop.bodyAt_inside (c := c) hg
  have hbsize : (Loop.bodyAt s c u).blocks.size = u.blocks.size := u.push_blocks_size _
  obtain ⟨L2, hL2, hspread2⟩ := hb.arm hw hine hbody (by omega) fun hlive hmem => by
    -- the header is in the set when the body is, as a dead path stays dead
    have hhead : s.blocks.size ∈ reached L s (Loop.jump s) :=
      Loop.mem_reached_jump.mpr (.inr ⟨hemitted.live hlive, rfl⟩)
    exact absurd (subset_reached (hspread1.subset hhead)) hmem
  rw [hbsize] at hspread2
  obtain ⟨hbehind, hspread⟩ := Loop.third_mem hL husize hspread1 hspread2
  exact ⟨L2, ⟨hL2.alter (Nat.le_refl _) fun _ _ => rfl, hbehind⟩, hspread⟩

/-! ## Trees -/

namespace Traces

theorem literalNumber (text : String) : Traces bare (Code.literalNumber cx text) := by
  apply of_live (.literalNumber text)
  intro s k s' hrun L hL
  obtain ⟨literals, rfl, -, -, -⟩ := literalNumber_ok hrun
  exact hL.congr rfl rfl rfl

theorem scopedResult (ty : Ty) {x : Emit (Option ValueId)} (h : Traces bare x) :
    Traces bare (Code.scopedResult cx ty x) := by
  refine .inScope (h.bind fun r => ?_)
  cases r with
  | none => exact .pure _
  | some v => exact .isDead fun d => .ite ((emit rfl).bind fun _ => .pure _) (.pure _)

end Traces

theorem Composed.traces {α : Type} {x : Emit α} (h : Composed cx bare x) : Traces bare x := by
  induction h with
  | pure a => exact .pure a
  | bind _ _ hx hf => exact hx.bind hf
  | lift x => exact .lift x
  | throw e => exact .throw e
  | isDead _ hf => exact .isDead hf
  | emit h => exact .emit h
  | define h => exact .define h
  | own p => exact .own p
  | literalNumber text => exact .literalNumber text
  | inScope _ hx => exact hx.inScope
  | emitReturn hv => exact .emitReturn hv
  | emitLogical op _ _ hx hz =>
    rw [emitLogical_eq]
    exact hx.bind fun a => hz.shortcut op a
  | emitConditional ty ty' orElse _ _ _ hx hy he =>
    rw [emitConditional_eq]
    refine hx.inScope.bind fun c => .conditional ty c (.scopedResult _ hy)
      (.scopedResult _ hy.emits) ?_ ?_
    · intro body hbody
      obtain ⟨arm, harm, rfl⟩ := Option.map_eq_some_iff.mp hbody
      exact .scopedResult _ (he arm harm)
    · intro body hbody
      obtain ⟨arm, harm, rfl⟩ := Option.map_eq_some_iff.mp hbody
      exact .scopedResult _ (he arm harm).emits
  | emitLoop ty _ _ hx hy => exact .emitLoop hx (.scopedResult _ hy) (.scopedResult _ hy.emits)

/-! ## Functions -/

namespace Traces

theorem closeDead : Traces bare Code.closeDead := by
  apply of_live .closeDead
  intro s r s' hrun L hL
  obtain ⟨d, t, hd, hrun⟩ := Emit.bind_ok hrun
  cases hd
  cases hdead : s.dead with
  | true =>
    rw [hdead] at hrun
    cases hrun
    exact hL.push fun hlive => by simp [hdead] at hlive
  | false =>
    rw [hdead] at hrun
    cases hrun
    exact hL

theorem emitTail {body : Checked.Block} (hbares : Bares bare body.nodes)
    (hvoid : cx.function.returnType.isVoid = false) (hyields : Yields (lowerBlock cx body)) :
    Traces bare (Simulation.emitTail cx body) := by
  refine ⟨.emitTail body, fun {s r s'} hrun hs L hL => ?_⟩
  obtain ⟨tail, t, hbody, hrun⟩ := Emit.bind_ok hrun
  have hgrows := (lowerBlock_emits body _ _ _ hbody hs).grows
  obtain ⟨L1, hL1, hspread⟩ := (lowerBlock_composed body hbares).traces.live hbody hs hL
  -- on a live path the body has a value, so the return behind it has one too
  have hrest : ∃ L', Live bare L' s' ∧ Spreads t.blocks.size L1 L' := by
    obtain ⟨d, t', hd, hrun⟩ := Emit.bind_ok hrun
    cases hd
    cases hdead : t.dead with
    | true =>
      rw [hdead] at hrun
      exact closeDead.live hrun hgrows.inside hL1
    | false =>
      rw [hdead] at hrun
      simp only [hvoid, Bool.false_eq_true, if_false] at hrun
      have hvalue : tail = none → bare := by
        rintro rfl
        simpa using hyields _ _ _ hbody hs hdead
      exact ((emitReturn hvalue).bind fun _ => closeDead).live hrun hgrows.inside hL1
  obtain ⟨L2, hL2, hspread2⟩ := hrest
  exact ⟨L2, hL2, hspread.trans hspread2 hgrows.size⟩

theorem emitBody {body : Checked.Block} (passed : List ValueId)
    (hbody : cx.function.body = some body)
    (hbares : Bares bare cx.function.nodes) (hvoid : cx.function.returnType.isVoid = false)
    (hyields : Yields (lowerBlock cx body)) : Traces bare (Simulation.emitBody cx body passed) := by
  have htail : Traces bare (Simulation.emitTail cx body) := by
    apply emitTail _ hvoid hyields
    intro hmem
    exact hbares (FuncInst.mem_nodes.mpr (.inl ⟨body, hbody, hmem⟩))
  have hinits : Traces bare (Code.emitFieldInits cx) := by
    refine (Composed.emitFieldInits ?_).traces
    intro init hinit hmem
    exact hbares (FuncInst.mem_nodes.mpr (.inr ⟨init, hinit, hmem⟩))
  exact (Composed.emitParams _ _).traces.bind fun _ => .ite (hinits.bind fun _ => htail) htail

end Traces

theorem Live.localSlot (h : Live bare L s) (ptr t : MachineType) (l : LocalInst) :
    Live bare L (localSlot ptr t l s) := by
  have hslot : Live bare L (s.withSlot t).withValue := h.congr rfl rfl rfl
  unfold Simulation.localSlot
  split
  · exact (hslot.push fun _ => runs_of_isTerminator rfl).push fun _ => runs_of_isTerminator rfl
  · exact h.congr rfl rfl rfl

theorem emitLocals_live {ls : List LocalInst} {u : Unit} (hrun : emitLocals cx ls s = .ok (u, t))
    (h : Live bare L s) : Live bare L t := by
  induction ls generalizing s with
  | nil =>
    cases hrun
    exact h
  | cons l ls ih =>
    obtain ⟨type, hrest⟩ := emitLocals_cons hrun
    exact ih hrest (h.localSlot cx.ptr type l)

theorem live_entry (params : List (ValueId × MachineType)) (literals : Array String) :
    Live bare {0} (entry params literals) := by
  refine ⟨⟨?_, ?_⟩, ?_⟩
  · simp [entry]
  · simp [entry, Emitter.blockAt]
  · simp [entry]

/-- The blocks that a function can reach end in branches among themselves and in returns. -/
theorem emitFunction_closed {sig : Signature} {literals : Array String} {u : Unit} {e : Emitter}
    (hrun : emitFunction cx sig { literals } = .ok (u, e)) (hbares : Bares bare cx.function.nodes)
    (hvoid : cx.function.returnType.isVoid = false)
    (hyields : ∀ body, cx.function.body = some body → Yields (lowerBlock cx body)) :
    ∃ L, 0 ∈ L ∧ Closed bare L e := by
  obtain ⟨body, s1, hbody, hlocals, hrun⟩ := emitFunction_ok hrun
  have hinside := (emitLocals_slotted hlocals (entry_inside _ _)).grows.inside
  have hstart : Live bare {0} s1 := emitLocals_live hlocals (live_entry _ _)
  have hopen : Live bare {0} { s1 with scopes := [] :: s1.scopes } := hstart.congr rfl rfl rfl
  obtain ⟨L', hL', hspread⟩ :=
    (Traces.emitBody _ hbody hbares hvoid (hyields body hbody)).live hrun hinside hopen
  exact ⟨L', hspread.subset rfl, hL'.toClosed⟩

namespace Closed

theorem mem_of_path (h : Closed bare L s) (h0 : 0 ∈ L) {sig : Signature} {path : List BlockId}
    {k : BlockId} (hpath : (s.code sig).Path path k) : k ∈ L := by
  induction hpath with
  | entry => exact h0
  | step _ hi ht ih => exact (h.runs _ ih _ hi).targets _ ht

theorem returns (h : Closed bare L s) (h0 : 0 ∈ L) {sig : Signature} {path : List BlockId}
    {k : BlockId} (hpath : (s.code sig).Path path k) (hi : i ∈ ((s.code sig).blockAt k).code.toList)
    (hend : i.isTerminator = true) (htargets : i.targets = []) :
    ∃ x, i = .ret x ∧ (x = none → bare) := by
  have hruns := h.runs k (h.mem_of_path h0 hpath) i hi
  cases i with
  | ret x => exact ⟨x, rfl, fun hx => hruns.value (hx ▸ rfl)⟩
  | trap => exact absurd rfl hruns.trap
  | jump _ => simp [Instr.targets] at htargets
  | branch _ _ _ => simp [Instr.targets] at htargets
  | _ => cases hend

end Closed

end ObjectLang.Simulation
