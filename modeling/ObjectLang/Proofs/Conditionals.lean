import ObjectLang.Proofs.Branches

/-! # Conditionals

The arm that is taken is followed up to the block where both arms come together; its result is read
there from a slot that no local uses.
-/

namespace ObjectLang.Simulation

open Syntax Checked Code Memory Execution Evaluation

variable {cx : Context} {sc : Scene} {fn : FuncId} {Γ : Nat → Values → Prop}

/-! ## Arms -/

/-- On a live path the emission ends with a value. -/
def Yields (x : Emit (Option ValueId)) : Prop :=
  ∀ s r s', x s = .ok (r, s') → s.Inside → s'.dead = false → r.isSome

/-- The emitter before the jump that ends an arm. -/
def armEnd (ty : Ty) (slot : Option SlotId) (value : Option ValueId) (s : Emitter) : Emitter :=
  match value, slot with
  | some v, some k => s.push (.slotStore v k)
  | some v, none => if ty.isReference then s.push (.call none (.builtin .release) [v]) else s
  | none, _ => s

variable {slot : Option SlotId} {elseArm : Option (Ty × Emit (Option ValueId))} {a : Activation}
  {elseArm' : Option (Ty × Eval Managed (Option Value))}
  {o : Option (Ending (Option Value) × Managed)}
  {j : Emitter} {d : Bool} {x : Emit (Option ValueId)} {s : Emitter} {t : Managed}
  {y : Eval Managed (Option Value)} {thenArm : Ty × Emit (Option ValueId)} {ty : Ty} {s' : Emitter}
  {n : Nat} {merge : BlockId} {e : Emitter} {stored : Bool} {u : Emitter} {bound : Nat}

theorem emitArm_ok (h : emitArm ty slot merge x s = .ok (d, s')) :
    ∃ value t, x s = .ok (value, t) ∧ d = t.dead ∧
      s' = if t.dead then t.push .trap
        else (armEnd ty slot value t).push (.jump { block := merge }) := by
  rw [emitArm] at h
  obtain ⟨value, t, hx, h⟩ := Emit.bind_ok h
  refine ⟨value, t, hx, ?_⟩
  obtain ⟨d', t', hdead, h⟩ := Emit.bind_ok h
  cases hdead
  cases hd : t.dead with
  | true =>
    rw [hd] at h
    obtain ⟨_, t1, hc, h⟩ := Emit.bind_ok h
    cases h
    have : closeDead t = .ok ((), t.push .trap) := by
      change (if t.dead then emit .trap else pure () : Emit Unit) t = _
      rw [hd]
      rfl
    rw [this] at hc
    cases hc
    exact ⟨rfl, rfl⟩
  | false =>
    rw [hd] at h
    match value, slot with
    | some v, some k =>
      cases h
      exact ⟨rfl, rfl⟩
    | none, _ =>
      cases h
      exact ⟨rfl, rfl⟩
    | some v, none =>
      simp only [armEnd]
      cases hr : ty.isReference with
      | true =>
        simp only [hr] at h
        cases h
        exact ⟨rfl, rfl⟩
      | false =>
        simp only [hr] at h
        cases h
        exact ⟨rfl, rfl⟩

theorem armEnd_grows {t : Emitter} (h : Grows s t) (hs : s.Inside) (ty : Ty) (slot : Option SlotId)
    (value : Option ValueId) : Grows s (armEnd ty slot value t) := by
  unfold armEnd
  split
  · exact h.push hs _
  · split
    · exact h.push hs _
    · exact h
  · exact h

theorem armEnd_scopes (ty : Ty) (slot : Option SlotId) (value : Option ValueId) (s : Emitter) :
    (armEnd ty slot value s).scopes = s.scopes := by
  unfold armEnd
  repeat' split
  all_goals rfl

theorem emitArm_grows (hx : Emits x) (h : emitArm ty slot merge x s = .ok (d, s')) (hs : s.Inside) :
    Grows s s' := by
  obtain ⟨value, t, ht, -, rfl⟩ := emitArm_ok h
  have hg := (hx _ _ _ ht hs).grows
  split
  · exact hg.push hs _
  · exact (armEnd_grows hg hs ty slot value).push hs _

theorem emitArm_scopes (hx : Kept x) (h : emitArm ty slot merge x s = .ok (d, s')) (hs : s.Inside) :
    s'.scopes = s.scopes := by
  obtain ⟨value, t, ht, -, rfl⟩ := emitArm_ok h
  rw [← hx _ _ _ ht hs]
  split
  · rfl
  · exact armEnd_scopes ty slot value t

theorem Follows.dropResult {value : Option ValueId} {r : Option Value} (hm : Matches cx sc fn s a t)
    (hs : s.Inside) (hd : s.dead = false) (hfin : Final sc fn (armEnd ty none value s))
    (hr : IsOption value r s.nextValue a.frame.values) :
    Follows cx sc fn Nothing n s (armEnd ty none value s) a ()
    (Managed.dropResult sc ty r n t) := by
  match value, r, hr with
  | none, none, _ => exact ⟨hd, 0, a, .refl a, hm, .refl _ _, trivial⟩
  | some v, some x, hr =>
    simp only [armEnd, Managed.dropResult, Managed.onResult] at hfin ⊢
    cases href : ty.isReference with
    | false =>
      simp only [href, Bool.false_eq_true, if_false] at hfin ⊢
      exact ⟨hd, 0, a, .refl a, hm, .refl _ _, trivial⟩
    | true =>
      simp only [href, if_true] at hfin ⊢
      have hsim : Sim cx sc fn (IsValue v x) (Code.release v) (Managed.release sc x) Nothing :=
        .release fun _ _ h => h
      exact (hsim s () _ rfl hs).2 hd hfin n a t hm hr

/-- A result is kept in a slot that no local uses. -/
theorem Matches.slotStore {v : ValueId} {x : Value} {id : SlotId} (hm : Matches cx sc fn s a t)
    (hs : s.Inside) (hfin : Final sc fn (s.push (.slotStore v id)))
    (hv : IsValue v x s.nextValue a.frame.values) (hid : cx.function.locals.length ≤ id) :
    ∃ b, a.step sc.module sc.calls = .ok (.next b) ∧
      Matches cx sc fn (s.push (.slotStore v id)) b t ∧ b.frame.values = a.frame.values ∧
      b.frame.slots[id]? = some x := by
  have hcode := hm.code.trans (Emitter.rest_push hs hfin.code)
  refine ⟨_, Activation.step_slotStore hcode (IsValue.get hv), ?_, rfl, ?_⟩
  · refine hm.advance (Nat.le_refl _) (Nat.le_refl _) rfl rfl rfl rfl ⟨fun k hk => ?_, ?_, ?_⟩
      (.refl _ _)
    · rw [← hm.store.locals k hk]
      simp only [Activation.put, Activation.goTo, Frame.withCode]
      rw [Std.TreeMap.getElem?_insert, if_neg]
      rw [Std.LawfulEqCmp.compare_eq_iff_eq]
      exact Nat.ne_of_gt (Nat.lt_of_lt_of_le hk hid)
    · exact hm.store.heap
    · exact hm.store.made
  · simp [Activation.put]

/-- The result is what the slot holds; without a slot there is none. -/
def InSlot (a : Activation) : Option SlotId → Option Value → Prop
  | some id, r => ∃ x, r = some x ∧ a.frame.slots[id]? = some x
  | none, r => r = none

section

variable (cx : Context) (sc : Scene) (fn : FuncId)

/-- The run from `a` does what an arm did that ended as given; after a result it arrives where `j`
stands, with the result in the slot, and the arm does not diverge. -/
def Arrives (n bound : Nat) (diverges : Bool) (j : Emitter) (slot : Option SlotId)
    (a : Activation) :
    Option (Ending (Option Value) × Managed) → Prop
  | none => ∃ b, Activation.Steps sc.module sc.calls n a b
  | some (.value r, t) =>
    diverges = false ∧ ∃ k b, Activation.Steps sc.module sc.calls k a b ∧ Matches cx sc fn j b t ∧
      Agree bound a.frame.values b.frame.values ∧ InSlot b slot r
  | some (.returned x, t) =>
    ∃ k b, Activation.Steps sc.module sc.calls k a b ∧
      b.step sc.module sc.calls = .ok (.done x) ∧ SameStore cx b t.toStore
  | some (.fault e, t) =>
    ∃ k b, Activation.Steps sc.module sc.calls k a b ∧
      b.step sc.module sc.calls = .error e ∧ SameStore cx b t.toStore

end

theorem emitArm_final {value : Option ValueId} {t : Emitter} (ht : t.Inside)
    (h : Final sc fn (if t.dead then t.push .trap
      else (armEnd ty slot value t).push (.jump { block := merge }))) : Final sc fn t := by
  split at h
  · exact h.of_grows ((Grows.refl ht).push ht _)
  · exact h.of_grows ((armEnd_grows (Grows.refl ht) ht ty slot value).push ht _)

/-- An arm is followed to the block where the arms come together. -/
theorem Sim.arrives {bodyTy : Ty} (h : Sim cx sc fn Γ x y IsOption) (hx : Kept x)
    (hvoid : ty.isVoid = slot.isNone) (hyield : slot.isSome → Yields x)
    (hslot : ∀ id, slot = some id → cx.function.locals.length ≤ id)
    (hrun : emitArm bodyTy slot j.current x e = .ok (d, u)) (he : e.Inside) (hd : e.dead = false)
    (hu : Final sc fn u) (hj : Final sc fn j) (hinj : j.Inside) (hnew : j.blockAt j.current = {})
    (hv : u.nextValue ≤ j.nextValue) (hsl : u.slots.size ≤ j.slots.size) (hsc : j.scopes = e.scopes)
    (n : Nat) (hm : Matches cx sc fn e a t) (hΓ : Γ e.nextValue a.frame.values) :
    Arrives cx sc fn n e.nextValue d j slot a (Managed.arm sc ty (bodyTy, y) n t) := by
  obtain ⟨value, w, hw, rfl, rfl⟩ := emitArm_ok hrun
  obtain ⟨hem, hsim⟩ := h e value w hw he
  have hin := hem.grows.inside
  have hfol := hsim hd (emitArm_final hin hu) n a t hm hΓ
  have hscw : w.scopes = e.scopes := hx _ _ _ hw he
  rw [Managed.arm, Eval.bind_apply]
  dsimp only
  generalize y n t = result at hfol ⊢
  rcases result with _ | ⟨r | _ | _, t'⟩
  · exact hfol
  · obtain ⟨hdw, k, b, hk, hmw, hag, hr⟩ := hfol
    simp only [hdw, Bool.false_eq_true, if_false] at hu hv hsl
    have hue :=
      hu.of_grows ((Grows.refl (armEnd_grows (.refl hin) hin bodyTy slot value).inside).push
      (armEnd_grows (.refl hin) hin bodyTy slot value).inside _)
    have hine := (armEnd_grows (.refl hin) hin bodyTy slot value).inside
    cases slot with
    | some id =>
      obtain ⟨v, rfl⟩ := Option.isSome_iff_exists.mp (hyield rfl _ _ _ hw he hdw)
      cases r with
      | none => exact hr.elim
      | some z =>
        obtain ⟨b', hstep, hmb, hvals, hz⟩ := hmw.slotStore hin hue hr (hslot id rfl)
        obtain ⟨hjump, hmj⟩ := hmb.jumpTo hine hu hj hinj hnew hv hsl (hsc.trans hscw.symm)
        simp only [hvoid, Option.isNone_some, Bool.false_eq_true, if_false]
        refine ⟨hdw, k + 1 + 1, _, (hk.trans (.one hstep)).trans (.one hjump), hmj, ?_, z, rfl, hz⟩
        change Agree _ _ b'.frame.values
        rw [hvals]
        exact hag
    | none =>
      have hdrop := Follows.dropResult (n := n) hmw hin hdw hue hr
      simp only [hvoid, Option.isNone_none, if_true, Eval.bind_apply]
      generalize Managed.dropResult sc bodyTy r n t' = result at hdrop ⊢
      rcases result with _ | ⟨_ | _ | _, t''⟩
      · obtain ⟨c, hc⟩ := hdrop
        exact (hk.trans hc).first (Nat.le_add_left n k)
      · obtain ⟨_, i, c, hc, hmc, hagc, _⟩ := hdrop
        have hsca := hsc.trans (hscw.symm.trans (armEnd_scopes bodyTy none value w).symm)
        obtain ⟨hjump, hmj⟩ := hmc.jumpTo hine hu hj hinj hnew hv hsl hsca
        exact ⟨hdw, k + i + 1, _, (hk.trans hc).trans (.one hjump), hmj,
          hag.trans hagc hem.grows.values, rfl⟩
      · obtain ⟨i, c, hc, h⟩ := hdrop
        exact ⟨k + i, c, hk.trans hc, h⟩
      · obtain ⟨i, c, hc, h⟩ := hdrop
        exact ⟨k + i, c, hk.trans hc, h⟩
  · exact hfol
  · exact hfol

/-! ## Emission of conditionals -/

/-! ### Three new blocks -/

namespace Fork

variable (s : Emitter) (i : Instr)

def second : Nat := s.withBlock.blocks.size

def third : Nat := s.withBlock.withBlock.blocks.size

/-- The new blocks are there, and the instruction that leads to them. -/
def forked : Emitter := s.withBlock.withBlock.withBlock.push i

theorem second_eq : second s = s.blocks.size + 1 := by simp [second, Emitter.withBlock]

theorem third_eq : third s = s.blocks.size + 2 := by simp [third, Emitter.withBlock]

theorem forked_size : (forked s i).blocks.size = s.blocks.size + 3 := by
  simp [forked, Emitter.withBlock]

theorem forked_grows (hs : s.Inside) : Grows s (forked s i) :=
  (Grows.refl hs).withBlock.withBlock.withBlock.push hs _

theorem forked_new (hs : s.Inside) {b : BlockId} (hb : s.blocks.size ≤ b) :
    (forked s i).blockAt b = {} := by
  have hne : b ≠ s.withBlock.withBlock.withBlock.current := Nat.ne_of_gt (Nat.lt_of_lt_of_le hs hb)
  rw [forked, Emitter.push_blockAt_ne _ _ hne]
  simp only [Emitter.withBlock_blockAt]
  exact Emitter.blockAt_of_size_le _ hb

theorem rest_eq (hs : s.Inside) {blocks : Array Code.Block} (h : (forked s i).Within blocks) :
    s.rest blocks = i :: (forked s i).rest blocks := by
  have hin : s.withBlock.withBlock.withBlock.Inside :=
    (Grows.refl hs).withBlock.withBlock.withBlock.inside
  rw [forked, ← Emitter.rest_push hin h]
  change _ = List.drop (s.withBlock.withBlock.withBlock.blockAt s.current).code.size _
  simp only [Emitter.withBlock_blockAt]
  rfl

end Fork

namespace Conditional

variable (s : Emitter) (c : ValueId) (type : Option MachineType)

/-- The then-block comes first of three new ones, then the else-block, and last the block where the
arms come together. -/
def branch : Instr := .branch c { block := s.blocks.size } { block := Fork.second s }

/-- The slot of the result is new. -/
def slotted : Emitter :=
  match type with
  | none => Fork.forked s (branch s c)
  | some t => (Fork.forked s (branch s c)).withSlot t

def thenAt : Emitter := { slotted s c type with current := s.blocks.size }

/-- The emitter at the start of the else-arm, when the then-arm ended at `u`. -/
def elseAt (u : Emitter) : Emitter := { u with dead := s.dead, current := Fork.second s }

/-- The emitter behind the arms, when the else-arm ended at `u`. -/
def joined (u : Emitter) (diverges : Bool) : Emitter :=
  { u with current := Fork.third s, dead := s.dead || diverges }

theorem thenAt_blocks : (thenAt s c type).blocks = (Fork.forked s (branch s c)).blocks := by
  cases type <;> rfl

theorem thenAt_literals : (thenAt s c type).literals = s.literals := by cases type <;> rfl

theorem thenAt_scopes : (thenAt s c type).scopes = s.scopes := by cases type <;> rfl

theorem thenAt_dead : (thenAt s c type).dead = s.dead := by cases type <;> rfl

theorem thenAt_size : (thenAt s c type).blocks.size = s.blocks.size + 3 := by
  rw [thenAt_blocks, Fork.forked_size]

theorem thenAt_new (hs : s.Inside) {b : BlockId} (hb : s.blocks.size ≤ b) :
    (thenAt s c type).blockAt b = {} := by
  have heq : (thenAt s c type).blockAt b = (Fork.forked s (branch s c)).blockAt b := by
    simp only [Emitter.blockAt, thenAt_blocks]
  rw [heq, Fork.forked_new s _ hs hb]

theorem thenAt_grows (hs : s.Inside) : Grows s (thenAt s c type) := by
  have hf := Fork.forked_grows s (branch s c) hs
  have hsl : Grows s (slotted s c type) := by
    cases type with
    | none => exact hf
    | some t => exact hf.withSlot t
  refine hsl.switch (Nat.le_refl _) ?_
  have : (slotted s c type).blocks.size = s.blocks.size + 3 := thenAt_size s c type
  rw [this]
  exact Nat.lt_add_of_pos_right (by decide)

variable {s c type} {u w : Emitter}

theorem then_size (hg : Grows (thenAt s c type) u) : s.blocks.size + 3 ≤ u.blocks.size :=
  thenAt_size s c type ▸ hg.size

/-- The then-arm leaves the other new blocks as they were. -/
theorem then_new (hs : s.Inside) (hg : Grows (thenAt s c type) u) {b : Nat}
    (hb : s.blocks.size < b) (hb' : b < s.blocks.size + 3) : u.blockAt b = {} := by
  rw [hg.kept b (by rw [thenAt_size]; exact hb') (Nat.ne_of_gt hb)]
  exact thenAt_new s c type hs (Nat.le_of_lt hb)

theorem elseAt_inside (hg : Grows (thenAt s c type) u) : (elseAt s u).Inside := by
  have := then_size hg
  change Fork.second s < u.blocks.size
  rw [Fork.second_eq]
  omega

theorem elseAt_new (hs : s.Inside) (hg : Grows (thenAt s c type) u) :
    (elseAt s u).blockAt (elseAt s u).current = {} := by
  have heq := Fork.second_eq s
  exact then_new hs hg (b := Fork.second s) (by omega) (by omega)

theorem elseAt_grows (hs : s.Inside) (hg : Grows (thenAt s c type) u) : Grows s (elseAt s u) := by
  have hsu := ((thenAt_grows s c type hs).trans hg hs).setDead s.dead
  exact hsu.switch (Fork.second_eq s ▸ Nat.le_succ _) (elseAt_inside hg)

theorem joined_inside (hg : Grows (thenAt s c type) u) (hg' : Grows (elseAt s u) w) (d : Bool) :
    (joined s w d).Inside := by
  have h1 := then_size hg
  have h2 : u.blocks.size ≤ w.blocks.size := hg'.size
  change Fork.third s < w.blocks.size
  rw [Fork.third_eq]
  omega

theorem joined_new (hs : s.Inside) (hg : Grows (thenAt s c type) u) (hg' : Grows (elseAt s u) w)
    (d : Bool) : (joined s w d).blockAt (joined s w d).current = {} := by
  have h1 := then_size hg
  have hlt : Fork.third s < (elseAt s u).blocks.size := by
    change Fork.third s < u.blocks.size
    rw [Fork.third_eq]
    omega
  have hne : Fork.third s ≠ Fork.second s := by
    rw [Fork.third_eq, Fork.second_eq]
    omega
  have heq := Fork.third_eq s
  change w.blockAt (Fork.third s) = {}
  rw [hg'.kept _ hlt hne]
  exact then_new hs hg (b := Fork.third s) (by omega) (by omega)

theorem joined_grows (hs : s.Inside) (hg : Grows (thenAt s c type) u) (hg' : Grows (elseAt s u) w)
    (d : Bool) : Grows s (joined s w d) := by
  have hsw := ((elseAt_grows hs hg).trans hg' hs).setDead (s.dead || d)
  exact hsw.switch (by rw [Fork.third_eq]; exact Nat.le_add_right _ _) (joined_inside hg hg' d)

/-- The else-arm; without one the code goes on at once. -/
def emitElse (slot : Option SlotId) (merge : BlockId)
    (elseArm : Option (Ty × Emit (Option ValueId))) : Emit Bool :=
  match elseArm with
  | some body => emitArm body.1 slot merge body.2
  | none => do
    emit (.jump { block := merge })
    return false

/-- The result is read from its slot and waits in the current scope. -/
def finish (ty : Ty) (type : Option MachineType) (slot : Option SlotId) : Emit (Option ValueId) :=
  match type, slot with
  | some t, some k => do
    let v ← define (.slotLoad · t k)
    if ty.isReference && !(← isDead) then own (.value v)
    return some v
  | _, _ => return none

/-- What the slot for the result holds, if there is one. -/
def resultType (cx : Context) (ty : Ty) (elseArm : Option (Ty × Emit (Option ValueId))) :
    Except Error (Option MachineType) :=
  if elseArm.isSome then machineType cx.ptr ty else .ok none

/-- The emission behind the condition `c`. -/
def rest (cx : Context) (ty : Ty) (c : ValueId) (thenArm : Ty × Emit (Option ValueId))
    (elseArm : Option (Ty × Emit (Option ValueId))) : Emit (Option ValueId) := fun s => do
  let type ← resultType cx ty elseArm
  let slot := type.map fun _ => s.slots.size
  let (d, u) ← emitArm thenArm.1 slot (Fork.third s) thenArm.2 (thenAt s c type)
  let (d', w) ← emitElse slot (Fork.third s) elseArm (elseAt s u)
  finish ty type slot (joined s w (d && d'))

end Conditional

theorem emitConditional_eq (ty : Ty) (condition : Emit ValueId)
    (thenArm : Ty × Emit (Option ValueId)) (elseArm : Option (Ty × Emit (Option ValueId))) :
    emitConditional cx ty condition thenArm elseArm =
      inScope cx condition >>= fun c => Conditional.rest cx ty c thenArm elseArm := by
  funext s
  rw [emitConditional]
  change (inScope cx condition s >>= fun p => _) = (inScope cx condition s >>= fun p => _)
  congr 1
  funext ⟨c, s⟩
  cases elseArm with
  | none => rfl
  | some body =>
    simp only [Option.isSome_some, if_true, Conditional.rest, Conditional.resultType]
    cases machineType cx.ptr ty with
    | error e => rfl
    | ok type => cases type <;> rfl

/-- An arm in code and in evaluation; if the result goes into a slot, there is one. -/
structure IsArm (cx : Context) (sc : Scene) (fn : FuncId) (stored : Bool)
    (body : Ty × Emit (Option ValueId)) (body' : Ty × Eval Managed (Option Value)) : Prop where
  ty : body.1 = body'.1
  sim : ∀ (Γ : Nat → Values → Prop) [Stable Γ], Sim cx sc fn Γ body.2 body'.2 IsOption
  kept : Kept body.2
  yields : stored = true → Yields body.2

/-- The else-arms are both missing or correspond. -/
def IsElse (cx : Context) (sc : Scene) (fn : FuncId) (stored : Bool) :
    Option (Ty × Emit (Option ValueId)) → Option (Ty × Eval Managed (Option Value)) → Prop
  | some body, some body' => IsArm cx sc fn stored body body'
  | none, none => True
  | _, _ => False

theorem IsArm.emits {body : Ty × Emit (Option ValueId)} {body' : Ty × Eval Managed (Option Value)}
    (h : IsArm cx sc fn stored body body') : Emits body.2 := (h.sim (IsValue 0 default)).emits

namespace IsElse

variable {stored : Bool} {elseArm : Option (Ty × Emit (Option ValueId))}
  {elseArm' : Option (Ty × Eval Managed (Option Value))}

theorem isSome_eq (h : IsElse cx sc fn stored elseArm elseArm') :
    elseArm'.isSome = elseArm.isSome := by
  match elseArm, elseArm', h with
  | some _, some _, _ => rfl
  | none, none, _ => rfl

theorem emits (h : IsElse cx sc fn stored elseArm elseArm') :
    ∀ body, elseArm = some body → Emits body.2 := by
  match elseArm, elseArm', h with
  | some _, some _, h =>
    rintro _ ⟨⟩
    exact IsArm.emits h
  | none, none, _ => nofun

theorem kept (h : IsElse cx sc fn stored elseArm elseArm') :
    ∀ body, elseArm = some body → Kept body.2 := by
  match elseArm, elseArm', h with
  | some _, some _, h =>
    rintro _ ⟨⟩
    exact IsArm.kept h
  | none, none, _ => nofun

end IsElse

namespace Conditional

variable {elseArm : Option (Ty × Emit (Option ValueId))} {s s' : Emitter}

theorem rest_ok {ty : Ty} {c : ValueId} {thenArm : Ty × Emit (Option ValueId)} {r : Option ValueId}
    (h : rest cx ty c thenArm elseArm s = .ok (r, s')) :
    ∃ type d u d' w, resultType cx ty elseArm = .ok type ∧
      emitArm thenArm.1 (type.map fun _ => s.slots.size) (Fork.third s) thenArm.2
      (thenAt s c type) =
        .ok (d, u) ∧
      emitElse (type.map fun _ => s.slots.size) (Fork.third s) elseArm (elseAt s u) = .ok (d', w) ∧
      finish ty type (type.map fun _ => s.slots.size) (joined s w (d && d')) = .ok (r, s') := by
  obtain ⟨type, ht, h⟩ := except_bind_ok h
  obtain ⟨p, hp, h⟩ := except_bind_ok h
  obtain ⟨p', hp', h⟩ := except_bind_ok h
  exact ⟨type, p.1, p.2, p'.1, p'.2, ht, hp, hp', h⟩

theorem emits_finish (ty : Ty) (type : Option MachineType) (slot : Option SlotId) :
    Emits (finish ty type slot) := by
  unfold finish
  split
  · refine (Emits.define _).bind fun v => .isDead fun d => ?_
    exact .ite ((Emits.own _).bind fun _ => .pure _) (.pure _)
  · exact .pure _

theorem emitElse_grows {slot : Option SlotId} {merge : BlockId}
    (hx : ∀ body, elseArm = some body → Emits body.2) {d : Bool}
    (h : emitElse slot merge elseArm s = .ok (d, s')) (hs : s.Inside) : Grows s s' := by
  cases elseArm with
  | some body => exact emitArm_grows (hx body rfl) h hs
  | none =>
    cases h
    exact (Grows.refl hs).push hs _

theorem emitElse_scopes {slot : Option SlotId} {merge : BlockId}
    (hx : ∀ body, elseArm = some body → Kept body.2) {d : Bool}
    (h : emitElse slot merge elseArm s = .ok (d, s')) (hs : s.Inside) : s'.scopes = s.scopes := by
  cases elseArm with
  | some body => exact emitArm_scopes (hx body rfl) h hs
  | none =>
    cases h
    rfl

end Conditional

theorem Emits.conditional (ty : Ty) (c : ValueId) (ht : Emits thenArm.2) (htk : Kept thenArm.2)
    (he : ∀ body, elseArm = some body → Emits body.2)
    (hek : ∀ body, elseArm = some body → Kept body.2) :
    Emits (Conditional.rest cx ty c thenArm elseArm) := by
  intro s r s' h hs
  obtain ⟨type, d, u, d', w, -, hu, hw, hf⟩ := Conditional.rest_ok h
  have hin := (Conditional.thenAt_grows s c type hs).inside
  have hg := emitArm_grows ht hu hin
  have hine := Conditional.elseAt_inside hg
  have hg' := Conditional.emitElse_grows he hw hine
  have hj := Conditional.joined_grows hs hg hg' (d && d')
  have hfin := Conditional.emits_finish ty type _ _ _ _ hf hj.inside
  refine ⟨hj.trans hfin.grows hs, fun hd => hfin.dead (by simp [Conditional.joined, hd]), ?_⟩
  have hscopes : (Conditional.joined s w (d && d')).scopes = s.scopes :=
    calc w.scopes = (Conditional.elseAt s u).scopes := Conditional.emitElse_scopes hek hw hine
      _ = u.scopes := rfl
      _ = (Conditional.thenAt s c type).scopes := emitArm_scopes htk hu hin
      _ = s.scopes := Conditional.thenAt_scopes s c type
  rw [hfin.scopes, hscopes]

/-! ## Following a conditional -/

theorem Arrives.after {k : Nat} {c : Activation} (hk : Activation.Steps sc.module sc.calls k a c)
    (hc : c.frame.values = a.frame.values) (h : Arrives cx sc fn n bound d j slot c o) :
    Arrives cx sc fn n bound d j slot a o := by
  match o, h with
  | none, ⟨b, hb⟩ => exact (hk.trans hb).first (Nat.le_add_left n k)
  | some (.value _, _), ⟨hd, i, b, hi, hm, hag, hr⟩ =>
    exact ⟨hd, k + i, b, hk.trans hi, hm, hc ▸ hag, hr⟩
  | some (.returned _, _), ⟨i, b, hi, hb⟩ => exact ⟨k + i, b, hk.trans hi, hb⟩
  | some (.fault _, _), ⟨i, b, hi, hb⟩ => exact ⟨k + i, b, hk.trans hi, hb⟩

theorem Arrives.mono {bound' : Nat} (h : Arrives cx sc fn n bound d j slot a o)
    (hle : bound' ≤ bound) :
    Arrives cx sc fn n bound' d j slot a o := by
  match o, h with
  | none, h => exact h
  | some (.value _, _), ⟨hd, i, b, hi, hm, hag, hr⟩ =>
    exact ⟨hd, i, b, hi, hm, fun v hv => hag v (Nat.lt_of_lt_of_le hv hle), hr⟩
  | some (.returned _, _), h => exact h
  | some (.fault _, _), h => exact h

theorem Arrives.diverges {d' : Bool} (h : Arrives cx sc fn n bound d j slot a o)
    (hd : d = false → d' = false) :
    Arrives cx sc fn n bound d' j slot a o := by
  match o, h with
  | none, h => exact h
  | some (.value _, _), ⟨h, rest⟩ => exact ⟨hd h, rest⟩
  | some (.returned _, _), h => exact h
  | some (.fault _, _), h => exact h

/-- The branch takes the arm that the condition asks for. -/
theorem Arrives.branch {d' : Bool} {f : Emitter} {c : ValueId} {x : Value} {rest : List Instr}
    {y' : Eval Managed (Option Value)} (hm : Matches cx sc fn s a t)
    (hc : IsValue c x s.nextValue a.frame.values)
    (hcode : a.frame.code = .branch c { block := e.current } { block := f.current } :: rest)
    (he : Final sc fn e) (hine : e.Inside) (hnewe : e.blockAt e.current = {}) (he' : Final sc fn f)
    (hine' : f.Inside) (hnewe' : f.blockAt f.current = {})
    (hthen : Arrives cx sc fn n s.nextValue d j slot (a.goTo (e.rest (blocks sc fn))) (y n t))
    (helse : Arrives cx sc fn n s.nextValue d' j slot (a.goTo (f.rest (blocks sc fn))) (y' n t)) :
    Arrives cx sc fn n s.nextValue (d && d') j slot a
      ((do
        let taken ← Eval.ofExcept (intOf x)
        if taken ≠ 0 then y else y' : Eval Managed (Option Value)) n t) := by
  have hje := jump_eq (f := a.frame.withCode rest) hm.function he hine hnewe
  have hje' := jump_eq (f := a.frame.withCode rest) hm.function he' hine' hnewe'
  cases hx : intOf x with
  | error e => exact ⟨0, a, .refl a, step_branch_error hcode hc hx, hm.store⟩
  | ok k =>
    change Arrives cx sc fn n s.nextValue (d && d') j slot a
      ((if k ≠ 0 then y else y' : Eval Managed (Option Value)) n t)
    by_cases hk : k = 0
    · have hstep : a.step sc.module sc.calls = .ok (.next (a.goTo (f.rest (blocks sc fn)))) :=
        step_branch hcode hc hx (by rw [if_pos hk]; exact hje')
      rw [if_neg (by simp [hk])]
      exact (helse.after (.one hstep) (Activation.goTo_values _ _)).diverges (by simp_all)
    · have hstep : a.step sc.module sc.calls = .ok (.next (a.goTo (e.rest (blocks sc fn)))) :=
        step_branch hcode hc hx (by rw [if_neg hk]; exact hje)
      rw [if_pos hk]
      exact (hthen.after (.one hstep) (Activation.goTo_values _ _)).diverges (by simp_all)

/-- Behind the arms the result is read from its slot. -/
theorem Follows.finish {type : Option MachineType} {r : Option ValueId} {b : Activation}
    {value : Option Value} (hrun : Conditional.finish ty type slot j = .ok (r, s')) (hj : j.Inside)
    (hd : j.dead = false) (hfin : Final sc fn s') (hm : Matches cx sc fn j b t)
    (htype : slot.isSome = type.isSome) (hvalue : InSlot b slot value) :
    Follows cx sc fn IsOption n j s' b r
      ((do
        Managed.ownResult ty value
        Pure.pure value : Eval Managed (Option Value)) n t) := by
  rcases type with _ | m <;> rcases slot with _ | id
  · obtain rfl : value = none := hvalue
    cases hrun
    exact ⟨hd, 0, b, .refl b, hm, .refl _ _, trivial⟩
  · cases htype
  · cases htype
  · obtain ⟨x, rfl, hx⟩ := hvalue
    obtain ⟨v, j1, hv, hrun⟩ := Emit.bind_ok hrun
    cases hv
    have hown : Sim cx sc fn (IsOption (some j.nextValue) (some x)) _
        (do
          Managed.ownResult ty (some x)
          Pure.pure (some x)) IsOption :=
      .withResult ty.isReference
        (fun v x _ _ hv => Sim.ownIf (p := .value v) (x := .value x) ty.isReference hv)
        fun _ _ h => h
    have hin := ((Grows.refl (s := j.withValue) hj).push hj (.slotLoad j.nextValue m id)).inside
    obtain ⟨he, hsim⟩ := hown _ _ _ hrun hin
    have hcode :=
      hm.code.trans (Emitter.rest_push (s := j.withValue) hj (hfin.of_grows he.grows).code)
    have hag := Agree.insert j.nextValue b.frame.values x (Nat.le_refl j.nextValue)
    refine Follows.after (t := j.withValue.push (.slotLoad j.nextValue m id))
      (.one (Activation.step_slotLoad hcode hx)) hag (Nat.le_succ j.nextValue) ?_
    have hvalue : IsValue j.nextValue x (j.nextValue + 1)
        ((b.goTo ((j.withValue.push (.slotLoad j.nextValue m id)).rest (blocks sc fn))).set
          j.nextValue x).frame.values :=
      ⟨Nat.lt_succ_self _, by simp [Activation.set, Frame.set]⟩
    refine hsim hd hfin n _ t ?_ hvalue
    exact hm.advance (Nat.le_succ _) (Nat.le_refl _) rfl rfl rfl rfl
      ⟨hm.store.1, hm.store.2, hm.store.3⟩ hag

theorem IsArm.arrives {body : Ty × Emit (Option ValueId)} {body' : Ty × Eval Managed (Option Value)}
    (h : IsArm cx sc fn stored body body') [Stable Γ] (hstored : stored = slot.isSome)
    (hvoid : ty.isVoid = slot.isNone)
    (hslot : ∀ id, slot = some id → cx.function.locals.length ≤ id)
    (hrun : emitArm body.1 slot j.current body.2 e = .ok (d, u)) (he : e.Inside)
    (hd : e.dead = false)
    (hu : Final sc fn u) (hj : Final sc fn j) (hinj : j.Inside) (hnew : j.blockAt j.current = {})
    (hv : u.nextValue ≤ j.nextValue) (hsl : u.slots.size ≤ j.slots.size) (hsc : j.scopes = e.scopes)
    (n : Nat) (hm : Matches cx sc fn e a t) (hΓ : Γ e.nextValue a.frame.values) :
    Arrives cx sc fn n e.nextValue d j slot a (Managed.arm sc ty body' n t) := by
  obtain ⟨bodyTy, x⟩ := body
  obtain ⟨bodyTy', y⟩ := body'
  obtain rfl : bodyTy = bodyTy' := h.ty
  exact (h.sim Γ).arrives h.kept hvoid (fun hs => h.yields (hstored.trans hs)) hslot hrun he
    hd hu hj hinj hnew hv hsl hsc n hm hΓ

/-- The else-arm is followed as the then-arm is; without one the code jumps at once. -/
theorem IsElse.arrives (h : IsElse cx sc fn stored elseArm elseArm') [Stable Γ]
    (hstored : stored = slot.isSome) (hvoid : ty.isVoid = slot.isNone)
    (hnone : elseArm = none → slot = none)
    (hslot : ∀ id, slot = some id → cx.function.locals.length ≤ id)
    (hrun : Conditional.emitElse slot j.current elseArm e = .ok (d, u)) (he : e.Inside)
    (hd : e.dead = false)
    (hu : Final sc fn u) (hj : Final sc fn j) (hinj : j.Inside) (hnew : j.blockAt j.current = {})
    (hv : u.nextValue ≤ j.nextValue) (hsl : u.slots.size ≤ j.slots.size) (hsc : j.scopes = e.scopes)
    (n : Nat) (hm : Matches cx sc fn e a t) (hΓ : Γ e.nextValue a.frame.values) :
    Arrives cx sc fn n e.nextValue d j slot a (Managed.otherwise sc ty elseArm' n t) := by
  match elseArm, elseArm', h with
  | some _, some _, h =>
    exact IsArm.arrives h hstored hvoid hslot hrun he hd hu hj hinj hnew hv hsl hsc n hm hΓ
  | none, none, _ =>
    obtain rfl := hnone rfl
    cases hrun
    obtain ⟨hjump, hmj⟩ := hm.jumpTo he hu hj hinj hnew hv hsl hsc
    exact ⟨rfl, 1, _, .one hjump, hmj, .refl _ _, rfl⟩

theorem Arrives.joined {r : Option ValueId} {g : Option Value → Eval Managed (Option Value)}
    (hle : s.nextValue ≤ j.nextValue) (h : Arrives cx sc fn n s.nextValue d j slot a (y n t))
    (hg : ∀ b t' value, d = false → Matches cx sc fn j b t' → InSlot b slot value →
      Follows cx sc fn IsOption n j s' b r (g value n t')) :
    Follows cx sc fn IsOption n s s' a r ((y >>= g) n t) := by
  rw [Eval.bind_apply]
  match y n t, h with
  | none, h => exact h
  | some (.returned _, _), h => exact h
  | some (.fault _, _), h => exact h
  | some (.value v, t'), ⟨hd, k, b, hk, hm, hag, hv⟩ => exact .after hk hag hle (hg b t' v hd hm hv)

/-- What follows both arms may as well follow the choice. -/
theorem chosen_bind (x : Value) (y y' : Eval Managed (Option Value))
    (g : Option Value → Eval Managed (Option Value)) :
    (do
      let taken ← Eval.ofExcept (intOf x)
      if taken ≠ 0 then y >>= g else y' >>= g) =
    (do
      let taken ← Eval.ofExcept (intOf x)
      if taken ≠ 0 then y else y') >>= g := by
  rw [bind_assoc]
  congr 1
  funext taken
  split <;> rfl

namespace Conditional

/-- The arms have a slot for their result exactly if there are two of them and they have one. -/
theorem isVoid_eq {ty : Ty} {elseArm : Option (Ty × Emit (Option ValueId))}
    {type : Option MachineType} (h : resultType cx ty elseArm = .ok type) :
    (if elseArm.isSome then ty else .void).isVoid = type.isNone := by
  unfold resultType at h
  split at h
  case isTrue helse =>
    rw [if_pos helse]
    exact isVoid_of_machineType h
  case isFalse helse =>
    cases h
    rw [if_neg helse]
    rfl

theorem stored_eq {ty : Ty} {elseArm : Option (Ty × Emit (Option ValueId))}
    {type : Option MachineType} (h : resultType cx ty elseArm = .ok type) :
    (elseArm.isSome && !ty.isVoid) = type.isSome := by
  have := isVoid_eq h
  cases elseArm <;> cases type <;> simp_all [Ty.isVoid, Ty.void]

end Conditional

theorem Sim.conditional [Stable Γ] (ty : Ty) {c : ValueId} {x : Value}
    {thenArm' : Ty × Eval Managed (Option Value)}
    (hstored : stored = (elseArm.isSome && !ty.isVoid))
    (hc : ∀ n vs, Γ n vs → IsValue c x n vs) (ht : IsArm cx sc fn stored thenArm thenArm')
    (he : IsElse cx sc fn stored elseArm elseArm') :
    Sim cx sc fn Γ (Conditional.rest cx ty c thenArm elseArm)
      (do
        let taken ← Eval.ofExcept (intOf x)
        let armTy := if elseArm'.isSome then ty else .void
        let value ←
          if taken ≠ 0 then Managed.arm sc armTy thenArm' else Managed.otherwise sc armTy elseArm'
        Managed.ownResult ty value
        Pure.pure value) IsOption := by
  refine .intro (.conditional ty c ht.emits ht.kept he.emits he.kept) ?_
  intro s r s' hx hs hd hfin n a t hm ha
  obtain ⟨type, d, u, d', w, htype, hu, hw, hf⟩ := Conditional.rest_ok hx
  have hin := (Conditional.thenAt_grows s c type hs).inside
  have hg := emitArm_grows ht.emits hu hin
  have hine := Conditional.elseAt_inside hg
  have hg' := Conditional.emitElse_grows he.emits hw hine
  have hjg := Conditional.joined_grows hs hg hg' (d && d')
  have hnewj := Conditional.joined_new hs hg hg' (d && d')
  have hscu : u.scopes = s.scopes :=
    (emitArm_scopes ht.kept hu hin).trans (Conditional.thenAt_scopes s c type)
  have hscw : w.scopes = s.scopes := (Conditional.emitElse_scopes he.kept hw hine).trans hscu
  have hfing := Conditional.emits_finish ty type _ _ _ _ hf hjg.inside
  have hfinj := hfin.of_grows hfing.grows
  have hfinw : Final sc fn w := hfinj.congr rfl rfl
  have hfine : Final sc fn (Conditional.elseAt s u) := hfinw.of_grows hg'
  have hfinu : Final sc fn u := hfine.congr rfl rfl
  have hfint := hfinu.of_grows hg
  have hcode := hm.code.trans (Fork.rest_eq s _ hs
    (hfint.congr (Conditional.thenAt_blocks s c type).symm
    (Conditional.thenAt_literals s c type).symm).code)
  have hvalt := (Conditional.thenAt_grows s c type hs).values
  have hmt := hm.goTo hvalt ((Conditional.thenAt_grows s c type hs).slots)
    (Conditional.thenAt_scopes s c type)
  have hge := Conditional.elseAt_grows hs hg
  have hme := hm.goTo hge.values hge.slots hscu
  have hvoid : (if elseArm'.isSome then ty else .void).isVoid =
      (type.map fun _ => s.slots.size).isNone := by
    rw [he.isSome_eq, Conditional.isVoid_eq htype, Option.isNone_map]
  have hst : stored = (type.map fun _ => s.slots.size).isSome := by
    rw [hstored, Conditional.stored_eq htype, Option.isSome_map]
  have hslot :
      ∀ id, (type.map fun _ => s.slots.size) = some id → cx.function.locals.length ≤ id := by
    intro id hid
    obtain ⟨_, -, rfl⟩ := Option.map_eq_some_iff.mp hid
    exact hm.slots
  have hnone : elseArm = none → (type.map fun _ => s.slots.size) = none := by
    rintro rfl
    cases htype
    rfl
  have hthen := ht.arrives (Γ := Γ) (n := n) (j := Conditional.joined s w (d && d')) hst hvoid
    hslot hu
    hin ((Conditional.thenAt_dead s c type).trans hd) hfinu hfinj hjg.inside hnewj hg'.values
    hg'.slots
    (hscw.trans (Conditional.thenAt_scopes s c type).symm) hmt (Stable.extend ha hvalt (.refl _ _))
  have helse := he.arrives (Γ := Γ) (n := n) (j := Conditional.joined s w (d && d')) hst hvoid
    hnone hslot
    hw hine hd (hfinj.congr rfl rfl) hfinj hjg.inside hnewj (Nat.le_refl _) (Nat.le_refl _)
    (hscw.trans hscu.symm) hme (Stable.extend ha hge.values (.refl _ _))
  have harr := Arrives.branch (e := Conditional.thenAt s c type) (f := Conditional.elseAt s u) hm
    (hc _ _ ha) hcode hfint hin
    (Conditional.thenAt_new s c type hs (Nat.le_refl _)) hfine hine (Conditional.elseAt_new hs hg)
    (hthen.mono hvalt) (helse.mono hge.values)
  dsimp only
  rw [chosen_bind]
  refine harr.joined hjg.values fun b t' value hdd hmj hvalue => ?_
  refine Follows.finish hf hjg.inside ?_ hfin hmj (Option.isSome_map ..) hvalue
  simp [Conditional.joined, hd, hdd]

/-- A conditional is followed when its condition and its arms are. -/
theorem Sim.emitConditional [Stable Γ] (ty : Ty) {z : Emit ValueId} {y : Eval Managed Value}
    {thenArm' : Ty × Eval Managed (Option Value)}
    (hstored : stored = (elseArm.isSome && !ty.isVoid))
    (hz : Sim cx sc fn Γ z y IsValue) (ht : IsArm cx sc fn stored thenArm thenArm')
    (he : IsElse cx sc fn stored elseArm elseArm') :
    Sim cx sc fn Γ (Code.emitConditional cx ty z thenArm elseArm)
      (Managed.conditional sc ty y thenArm' elseArm') IsOption := by
  rw [emitConditional_eq]
  exact hz.inScope.bind fun _ _ => .conditional ty hstored (fun _ _ h => h.2) ht he

end ObjectLang.Simulation
