import ObjectLang.Proofs.Trees

/-! # Functions

The code of a whole function follows its evaluation with counted references, from the arguments to
the return.
-/

namespace ObjectLang.Simulation

open Syntax Checked Code Memory Execution Evaluation

variable {cx : Context} {sc : Scene} {fn : FuncId} {Γ : Nat → Values → Prop}

/-! ## Parameters and defaults -/

variable {s : Emitter} {ls : List LocalInst} {sig : Signature} {literals : Array String} {u : Unit}
  {a : Activation} {args : List Value} {v : ValueId} {s' e : Emitter} {st : Store} {α β : Type}

/-- The receiver is at hand wherever there is one. -/
theorem Sim.withSelf {R : α → β → Nat → Values → Prop} {x : Emit α} {y : Eval Managed β}
    (hv : cx.receiver? = some v) (he : Emits x)
    (h : ∀ o, sc.self = some o → Sim cx sc fn (fun n vs => Γ n vs ∧ IsValue v o n vs) x y R) :
    Sim cx sc fn Γ x y R := by
  refine .intro he ?_
  intro s r s' hx hs hd hfin n a t hm ha
  obtain ⟨o, ho, hvo⟩ := hm.self v hv
  exact (h o ho s r s' hx hs).2 hd hfin n a t hm ⟨ha, hvo⟩

theorem Sim.emitParams (assigned : List LocalId) (params : List ParamInst) {ids : List ValueId}
    {xs : List Value} {Γ : Nat → Values → Prop} [Stable Γ]
    (h : ∀ n vs, Γ n vs → IsList ids xs n vs) :
    Sim cx sc fn Γ (Code.emitParams cx assigned (params.zip ids))
      (Managed.takeParams sc assigned (params.zip xs)) Nothing := by
  induction params generalizing ids xs Γ with
  | nil => exact .unit
  | cons p params ih =>
    match ids, xs with
    | [], [] => exact .unit
    | [], _ :: _ => exact .absurd (.pure _) fun n vs hΓ => by cases h n vs hΓ
    | _ :: _, [] => exact .absurd (.emitParams _ _) fun n vs hΓ => by cases h n vs hΓ
    | v :: ids, x :: xs =>
      have hv : ∀ n vs, Γ n vs → IsValue v x n vs :=
        fun n vs hΓ => (List.forall₂_cons.mp (h n vs hΓ)).1
      have hrest {Δ : Nat → Values → Prop} [Stable Δ] (hΔ : ∀ n vs, Δ n vs → Γ n vs) :
          Sim cx sc fn Δ (Code.emitParams cx assigned (params.zip ids))
            (Managed.takeParams sc assigned (params.zip xs)) Nothing :=
        ih fun n vs hd => (List.forall₂_cons.mp (h n vs (hΔ n vs hd))).2
      rw [List.zip_cons_cons, List.zip_cons_cons, Code.emitParams, List.forM, Managed.takeParams]
      simp only [bind_assoc]
      refine .lift fun slot hslot => ?_
      obtain ⟨rfl, hid⟩ := slot_ok hslot
      refine (Sim.writeLocal _ hv).bind fun _ _ => ?_
      cases p.ty.isReference && assigned.contains p.id with
      | false => exact hrest fun _ _ h => h.1
      | true =>
        simp only [if_true, bind_assoc]
        refine (Sim.retain fun n vs h => hv n vs h.1).bind fun _ _ => ?_
        refine (Sim.own (p := .slot p.id) (x := .slot p.id) fun _ _ _ => ⟨rfl, hid⟩).bind
          fun _ _ => ?_
        exact hrest fun _ _ h => h.1.1.1

theorem Sim.fieldInits (hp : SameProgram cx sc) (c : ClassId) (inits : List FieldInit)
    (h : inits.all (fieldInitTyped cx.program cx.function c)) {object : ValueId} {o : Value}
    {Γ : Nat → Values → Prop} [Stable Γ] (ho : ∀ n vs, Γ n vs → IsValue object o n vs) :
    Sim cx sc fn Γ (inits.forM fun init => do
        let v ← Code.needed cx init.value (lowerExpr cx init.value)
        Code.storeField cx object c init.index v)
      (Managed.evalFieldInits sc o c inits) Nothing := by
  induction inits generalizing Γ with
  | nil => exact .unit
  | cons init inits ih =>
    rw [List.all_cons, Bool.and_eq_true, fieldInitTyped, Bool.and_eq_true] at h
    rw [List.forM, Managed.evalFieldInits]
    simp only [bind_assoc]
    refine (Sim.needed _ (lowerExpr_sim hp init.value h.1.1 Γ)).bind fun v x => ?_
    refine (Sim.storeField hp c init.index (fun n vs h => ho n vs h.1) fun _ _ h => h.2).bind
      fun _ _ => ?_
    exact ih h.2 fun n vs h => ho n vs h.1.1

/-- An initializer stores the defaults before its body runs. -/
theorem Sim.defaults [Stable Γ] (hp : SameProgram cx sc) (h : initTyped cx.program cx.function) :
    Sim cx sc fn Γ (if cx.function.kind = .init then Code.emitFieldInits cx else Pure.pure ())
      (Managed.evalDefaults sc) Nothing := by
  rw [Managed.evalDefaults, ← hp.function]
  by_cases hk : cx.function.kind = .init
  · rw [if_pos hk, if_pos hk, Code.emitFieldInits]
    cases hv : cx.receiver? with
    | none => exact .throw
    | some v =>
      cases hc : cx.function.owner with
      | none => exact .throw
      | some c =>
        refine .withSelf hv (Composed.emits (@Composed.fieldInits cx True v c _ fun _ _ _ =>
          trivial)) fun o ho => ?_
        rw [initTyped, hk, hc] at h
        rw [ho]
        exact .fieldInits hp c _ (Bool.and_eq_true_iff.mp h).2 fun _ _ h => h.2
  · rw [if_neg hk, if_neg hk]
    exact .unit

/-! ## Locals -/

/-- The emitter behind a new slot that is set to null. -/
def nullSlot (ptr t : MachineType) (s : Emitter) : Emitter :=
  ((s.withSlot t).withValue.push (.intConst s.nextValue ptr 0)).push
    (.slotStore s.nextValue s.slots.size)

/-- The emitter behind the slot of a local. -/
def localSlot (ptr t : MachineType) (l : LocalInst) (s : Emitter) : Emitter :=
  if l.ty.isReference then nullSlot ptr t s else s.withSlot t

theorem emitLocals_cons {l : LocalInst} (h : emitLocals cx (l :: ls) s = .ok (u, s')) :
    ∃ t, emitLocals cx ls (localSlot cx.ptr t l s) = .ok ((), s') := by
  rw [emitLocals, List.forM] at h
  obtain ⟨_, s1, hl, hrest⟩ := Emit.bind_ok h
  obtain ⟨t, s2, ht, hslot⟩ := Emit.bind_ok hl
  obtain ⟨-, rfl⟩ := Emit.lift_ok ht
  refine ⟨t, ?_⟩
  suffices s1 = localSlot cx.ptr t l s2 from this ▸ hrest
  obtain ⟨slot, s3, hnew, hnull⟩ := Emit.bind_ok hslot
  cases hnew
  unfold localSlot
  cases hr : l.ty.isReference with
  | true =>
    rw [hr] at hnull
    cases hnull
    rfl
  | false =>
    rw [hr] at hnull
    cases hnull
    rfl

theorem localSlot_grows (hs : s.Inside) (ptr t : MachineType) (l : LocalInst) :
    Grows s (localSlot ptr t l s) := by
  unfold localSlot
  split
  · exact (((Grows.refl hs).withSlot t).withValue.push hs _).push hs _
  · exact (Grows.refl hs).withSlot t

theorem localSlot_slots (ptr t : MachineType) (l : LocalInst) (s : Emitter) :
    (localSlot ptr t l s).slots.size = s.slots.size + 1 := by
  unfold localSlot
  split <;> exact Array.size_push ..

theorem localSlot_scopes (ptr t : MachineType) (l : LocalInst) (s : Emitter) :
    (localSlot ptr t l s).scopes = s.scopes := by
  unfold localSlot
  split <;> rfl

theorem localSlot_dead (ptr t : MachineType) (l : LocalInst) (s : Emitter) :
    (localSlot ptr t l s).dead = s.dead := by
  unfold localSlot
  split <;> rfl

/-- What the emission of the slots of locals does to the emitter. -/
structure Slotted (ls : List LocalInst) (s s' : Emitter) : Prop where
  grows : Grows s s'
  slots : s'.slots.size = s.slots.size + ls.length
  scopes : s'.scopes = s.scopes
  dead : s'.dead = s.dead

theorem emitLocals_slotted (h : emitLocals cx ls s = .ok (u, s')) (hs : s.Inside) :
    Slotted ls s s' := by
  induction ls generalizing s with
  | nil =>
    cases h
    exact ⟨.refl hs, rfl, rfl, rfl⟩
  | cons l ls ih =>
    obtain ⟨t, h⟩ := emitLocals_cons h
    have hg := localSlot_grows hs cx.ptr t l
    obtain ⟨hg', hsl, hsc, hd⟩ := ih h hg.inside
    refine ⟨hg.trans hg' hs, ?_, hsc.trans (localSlot_scopes ..), hd.trans (localSlot_dead ..)⟩
    rw [hsl, localSlot_slots, List.length_cons]
    omega

/-- The frame is at the start of the function and holds what the evaluation holds. -/
structure Begins (sc : Scene) (fn : FuncId) (s : Emitter) (a : Activation) (st : Store) : Prop where
  function : a.frame.function = fn
  code : a.frame.code = s.rest (blocks sc fn)
  slots : a.frame.slots = st.locals
  heap : a.heap = st.heap
  made : a.made = st.made

/-- A slot is set to null in two steps. -/
theorem Begins.null {t : MachineType} {id : SlotId} (h : Begins sc fn s a st)
    (hcode : s.rest (blocks sc fn) =
      .intConst v t 0 :: .slotStore v id :: e.rest (blocks sc fn)) :
    ∃ b, Activation.Steps sc.module sc.calls 2 a b ∧
      Begins sc fn e b { st with locals := st.locals.insert id .null } ∧
      b.frame.values = a.frame.values.insert v .null := by
  have hconst : a.step sc.module sc.calls =
      .ok (.next ((a.goTo (.slotStore v id :: e.rest (blocks sc fn))).set v .null)) := by
    rw [Activation.step_cons (h.code.trans hcode)]
    rfl
  have hget : (((a.goTo (.slotStore v id :: e.rest (blocks sc fn))).set v .null).frame.withCode
      (e.rest (blocks sc fn))).get v = .ok .null := by
    simp [Frame.get, Frame.withCode, Activation.set, Frame.set]
  refine ⟨_, .step hconst (.one (Activation.step_slotStore rfl hget)), ?_, rfl⟩
  exact ⟨h.function, rfl, congrArg (·.insert id .null) h.slots, h.heap, h.made⟩

theorem Begins.localSlot (h : Begins sc fn s a st) (hs : s.Inside) (ptr t : MachineType)
    (l : LocalInst) (hfin : Final sc fn (Simulation.localSlot ptr t l s)) :
    ∃ k b, Activation.Steps sc.module sc.calls k a b ∧
      Begins sc fn (Simulation.localSlot ptr t l s) b
        (if l.ty.isReference then { st with locals := st.locals.insert s.slots.size .null }
        else st) ∧
      Agree s.nextValue a.frame.values b.frame.values := by
  unfold Simulation.localSlot at hfin ⊢
  cases hr : l.ty.isReference with
  | false => exact ⟨0, a, .refl a, ⟨h.function, h.code, h.slots, h.heap, h.made⟩, .refl _ _⟩
  | true =>
    rw [hr] at hfin
    simp only [if_true] at hfin ⊢
    have hin :=
      (((Grows.refl hs).withSlot t).withValue.push hs (.intConst s.nextValue ptr 0)).inside
    have hfin1 := hfin.of_grows ((Grows.refl hin).push hin _)
    have hcode := (Emitter.rest_push (s := (s.withSlot t).withValue) hs hfin1.code).trans
      (congrArg _ (Emitter.rest_push hin hfin.code))
    obtain ⟨b, hb, hbegin, hvalues⟩ := Begins.null (e := nullSlot ptr t s) h hcode
    refine ⟨2, b, hb, hbegin, ?_⟩
    rw [hvalues]
    exact Agree.insert s.nextValue a.frame.values .null (Nat.le_refl _)

/-- The slots of the locals are set as the evaluation sets the locals. -/
theorem Begins.locals (h : emitLocals cx ls s = .ok (u, s')) (hs : s.Inside) (hfin : Final sc fn s')
    (n : Nat) (hb : Begins sc fn s a st) :
    ∃ k b st', clearLocals ls s.slots.size n st = some (.value (), st') ∧
      Activation.Steps sc.module sc.calls k a b ∧ Begins sc fn s' b st' ∧
      Agree s.nextValue a.frame.values b.frame.values := by
  induction ls generalizing s a st with
  | nil =>
    cases h
    exact ⟨0, a, st, rfl, .refl a, hb, .refl _ _⟩
  | cons l ls ih =>
    obtain ⟨t, h⟩ := emitLocals_cons h
    have hg := localSlot_grows hs cx.ptr t l
    have hfin1 := hfin.of_grows (emitLocals_slotted h hg.inside).grows
    obtain ⟨k, b, hk, hb1, hag⟩ := hb.localSlot hs cx.ptr t l hfin1
    obtain ⟨j, c, st', hst, hj, hc, hag'⟩ := ih h hg.inside hb1
    refine ⟨k + j, c, st', ?_, hk.trans hj, hc, hag.trans hag' hg.values⟩
    rw [localSlot_slots] at hst
    rw [clearLocals]
    cases hr : l.ty.isReference with
    | false =>
      rw [hr] at hst
      exact hst
    | true =>
      rw [hr] at hst
      exact hst

/-! ## The body -/

/-- The body of a function and the return behind it. -/
def emitTail (cx : Context) (body : Checked.Block) : Emit Unit := do
  let tail ← lowerBlock cx body
  unless ← isDead do
    emitReturn cx (if cx.function.returnType.isVoid then none else tail)
  closeDead

/-- What a function does once its scope is open. -/
def emitBody (cx : Context) (body : Checked.Block) (passed : List ValueId) : Emit Unit := do
  emitParams cx (blockAssigns body) (cx.function.params.zip passed)
  if cx.function.kind = .init then emitFieldInits cx
  emitTail cx body

/-- What a function does once its scope is open, in evaluation. -/
def evalBody (sc : Scene) (body : Checked.Block) (passed : List Value) : Eval Managed Empty := do
  Managed.takeParams sc (blockAssigns body) (sc.function.params.zip passed)
  Managed.evalDefaults sc
  let tail ← Managed.evalBlock sc body
  Managed.returnFrom sc (if sc.function.returnType.isVoid then none else tail)

theorem Emits.closeDead : Emits Code.closeDead := .isDead fun _ => .ite (.emit _) (.pure _)

theorem Emits.emitTail (body : Checked.Block) : Emits (Simulation.emitTail cx body) := by
  refine (lowerBlock_emits body).bind fun tail => .isDead fun d => .ite .closeDead ?_
  exact (Emits.emitReturn _).bind fun _ => .closeDead

/-- An evaluation that has no value leaves the function, whatever code comes behind. -/
theorem Sim.andThen {x : Emit α} {f : α → Emit β} {y : Eval Managed Empty}
    {R : α → Empty → Nat → Values → Prop} {S : β → Empty → Nat → Values → Prop}
    (h : Sim cx sc fn Γ x y R) (hf : ∀ a, Emits (f a)) : Sim cx sc fn Γ (x >>= f) y S := by
  refine .intro (h.emits.bind hf) ?_
  intro s r s' hx hs hd hfin n a t hm ha
  obtain ⟨b, s1, hb, hx⟩ := Emit.bind_ok hx
  obtain ⟨he, hsim⟩ := h s b s1 hb hs
  have hfol := hsim hd (hfin.of_grows (hf b s1 r s' hx he.grows.inside).grows) n a t hm ha
  match y n t, hfol with
  | none, hfol => exact hfol
  | some (.returned _, _), hfol => exact hfol
  | some (.fault _, _), hfol => exact hfol

theorem Sim.emitTail [Stable Γ] (hp : SameProgram cx sc) {body : Checked.Block}
    (h : blockTyped cx.program cx.function body) :
    Sim cx sc fn Γ (Simulation.emitTail cx body)
      (do
        let tail ← Managed.evalBlock sc body
        Managed.returnFrom sc (if sc.function.returnType.isVoid then none else tail))
      (Nothing (α := Unit) (β := Empty)) := by
  refine (lowerBlock_sim hp body h Γ).bind fun r x => .isDead ?_ .closeDead
  refine .andThen (.emitReturn hp.function (R := Nothing (α := Unit) (β := Empty))
    fun n vs hΓ => ?_) fun _ => .closeDead
  rw [← hp.function]
  split
  · trivial
  · exact hΓ.2

theorem Emits.emitBody (body : Checked.Block) (passed : List ValueId) :
    Emits (Simulation.emitBody cx body passed) := by
  refine (Emits.emitParams _ _).bind fun _ => .ite ?_ (.emitTail body)
  exact Emits.emitFieldInits.bind fun _ => .emitTail body

theorem Sim.emitBody [Stable Γ] (hp : SameProgram cx sc) {body : Checked.Block}
    (hi : initTyped cx.program cx.function) (hb : blockTyped cx.program cx.function body)
    {ids : List ValueId} {xs : List Value} (h : ∀ n vs, Γ n vs → IsList ids xs n vs) :
    Sim cx sc fn Γ (Simulation.emitBody cx body ids) (evalBody sc body xs)
      (Nothing (α := Unit) (β := Empty)) := by
  have hsplit : Simulation.emitBody cx body ids = (do
      Code.emitParams cx (blockAssigns body) (cx.function.params.zip ids)
      (if cx.function.kind = .init then Code.emitFieldInits cx else Pure.pure ()) >>= fun _ =>
        Simulation.emitTail cx body) := by
    unfold Simulation.emitBody
    congr 1
    funext _
    split <;> simp
  rw [hsplit, evalBody, ← congrArg FuncInst.params hp.function]
  refine (Sim.emitParams _ _ h).bind fun _ _ => ?_
  exact (Sim.defaults hp hi).bind fun _ _ => .emitTail hp hb

/-! ## The start -/

/-- The emitter in the first block of a function, whose parameters are the arguments. -/
def entry (params : List (ValueId × MachineType)) (literals : Array String) : Emitter :=
  { blocks := #[{ params }], nextValue := params.length, literals }

theorem entry_inside (params : List (ValueId × MachineType)) (literals : Array String) :
    (entry params literals).Inside := Nat.zero_lt_one

theorem addParam_entry (ps : List (ValueId × MachineType)) (literals : Array String)
    (t : MachineType) :
    addParam 0 t (entry ps literals) =
    .ok (ps.length, entry (ps ++ [(ps.length, t)]) literals) := by
  rw [addParam_run]
  simp [entry, Emitter.withParam]

theorem addParams_entry (ts : List MachineType) (ps : List (ValueId × MachineType))
    (literals : Array String) :
    ts.mapM (addParam 0) (entry ps literals) = .ok (List.range' ps.length ts.length,
      entry (ps ++ (List.range' ps.length ts.length).zip ts) literals) := by
  induction ts generalizing ps with
  | nil => simp [List.mapM_nil]; rfl
  | cons t ts ih =>
    rw [List.mapM_cons]
    change (addParam 0 t (entry ps literals) >>= fun p => _) = _
    rw [addParam_entry]
    change (ts.mapM (addParam 0) (entry (ps ++ [(ps.length, t)]) literals) >>= fun p => _) = _
    rw [ih]
    simp [List.range'_succ]
    rfl

/-- The values of the parameters, behind that of the receiver. -/
def passedIds (f : FuncInst) (count : Nat) : List ValueId :=
  if f.receiver.isSome then (List.range count).drop 1 else List.range count

theorem emitFunction_ok (h : emitFunction cx sig { literals } = .ok (u, e)) :
    ∃ body s1, cx.function.body = some body ∧
      emitLocals cx cx.function.locals
        (entry ((List.range sig.params.length).zip sig.params) literals) = .ok ((), s1) ∧
      emitBody cx body (passedIds cx.function sig.params.length)
        { s1 with scopes := [] :: s1.scopes } = .ok ((), e) := by
  unfold emitFunction at h
  cases hb : cx.function.body with
  | none =>
    simp only [hb] at h
    exact (Emit.throw_ok h).elim
  | some body =>
    simp only [hb] at h
    obtain ⟨b, s1, hblock, h1⟩ := Emit.bind_ok h
    cases hblock
    obtain ⟨values, s2, hvalues, h2⟩ := Emit.bind_ok h1
    obtain ⟨rfl, rfl⟩ := Prod.mk.inj
      (Except.ok.inj (hvalues.symm.trans (addParams_entry sig.params [] literals)))
    obtain ⟨_, s3, hswitch, h3⟩ := Emit.bind_ok h2
    cases hswitch
    obtain ⟨_, s4, hlocals, h4⟩ := Emit.bind_ok h3
    obtain ⟨_, s5, hscope, h5⟩ := Emit.bind_ok h4
    cases hscope
    rw [passedIds, List.range_eq_range']
    exact ⟨body, s4, rfl, hlocals, h5⟩

theorem Agree.foldl_insert {bound : Nat} (ps : List ((ValueId × MachineType) × Value)) (vs : Values)
    (h : ∀ p ∈ ps, bound ≤ p.1.1) :
    Agree bound vs (ps.foldl (fun vs p => vs.insert p.1.1 p.2) vs) := by
  induction ps generalizing vs with
  | nil => exact .refl _ _
  | cons p ps ih =>
    rw [List.forall_mem_cons] at h
    exact (Agree.insert bound vs p.2 h.1).trans (ih _ h.2) (Nat.le_refl _)

/-- The first values of a frame are the arguments. -/
theorem IsList.enter (ts : List MachineType) (xs : List Value) (k : Nat) (vs : Values)
    (h : xs.length = ts.length) :
    IsList (List.range' k ts.length) xs (k + ts.length)
      ((((List.range' k ts.length).zip ts).zip xs).foldl (fun vs p => vs.insert p.1.1 p.2) vs) := by
  induction ts generalizing xs k vs with
  | nil =>
    cases xs with
    | nil => exact .nil
    | cons x xs => cases h
  | cons t ts ih =>
    cases xs with
    | nil => cases h
    | cons x xs =>
      rw [List.length_cons, List.range'_succ, List.zip_cons_cons, List.zip_cons_cons,
        List.foldl_cons, show k + (ts.length + 1) = k + 1 + ts.length by omega]
      refine .cons ⟨Nat.lt_of_lt_of_le (Nat.lt_succ_self k) (Nat.le_add_right _ _), ?_⟩
        (ih xs (k + 1) _ (Nat.succ.inj h))
      have hle : ∀ p ∈ ((List.range' (k + 1) ts.length).zip ts).zip xs, k + 1 ≤ p.1.1 := by
        intro p hp
        exact (List.mem_range'_1.mp (List.of_mem_zip (List.of_mem_zip hp).1).1).1
      rw [Agree.foldl_insert _ _ hle k (Nat.lt_succ_self k)]
      simp

theorem Begins.start (params : List (ValueId × MachineType)) (literals : Array String)
    (args : List Value) (heap : Heap) :
    Begins sc fn (entry params literals) (Activation.start sc.module fn args heap) { heap } :=
  ⟨rfl, rfl, rfl, rfl, rfl⟩

theorem isList_start {ts : List MachineType}
    (hfin : Final sc fn (entry ((List.range ts.length).zip ts) literals))
    (hargs : args.length = ts.length) (heap : Heap) :
    IsList (List.range ts.length) args ts.length
      (Activation.start sc.module fn args heap).frame.values := by
  have hparams := (hfin.code 0 (entry_inside _ _)).1
  have hlist := IsList.enter ts args 0 ∅ hargs
  rw [Nat.zero_add, ← List.range_eq_range'] at hlist
  have hvalues : (Activation.start sc.module fn args heap).frame.values =
      (((blocks sc fn).getD 0 default).params.zip args).foldl (fun vs p => vs.insert p.1.1 p.2)
      ∅ := rfl
  rw [hvalues, hparams]
  exact hlist

theorem length_of_mapM_ok {ε : Type} {f : α → Except ε β} {as : List α} {bs : List β}
    (h : as.mapM f = .ok bs) :
    bs.length = as.length := by
  induction as generalizing bs with
  | nil =>
    cases h
    rfl
  | cons a as ih =>
    rw [List.mapM_cons] at h
    obtain ⟨b, -, h⟩ := except_bind_ok h
    obtain ⟨bs, hbs, h⟩ := except_bind_ok h
    cases h
    rw [List.length_cons, List.length_cons, ih hbs]

theorem signature_length {ptr : MachineType} {f : FuncInst} (h : signature ptr f = .ok sig) :
    sig.params.length = (passedTypes f).length := by
  obtain ⟨params, hparams, h⟩ := except_bind_ok h
  obtain ⟨result, -, h⟩ := except_bind_ok h
  cases h
  exact length_of_mapM_ok hparams

/-- A receiver is the first argument and the first value. -/
theorem receiver_passed {bound : Nat} {vs : Values} (hsig : signature cx.ptr cx.function = .ok sig)
    (h : IsList (List.range sig.params.length) args bound vs) (hv : cx.receiver? = some v) :
    ∃ x, args.head? = some x ∧ IsValue v x bound vs := by
  rw [Context.receiver?] at hv
  split at hv <;> cases hv
  case isTrue hr =>
    obtain ⟨t, ht⟩ := Option.isSome_iff_exists.mp hr
    rw [signature_length hsig, passedTypes, ht] at h
    simp only [Option.toList_some, List.cons_append, List.length_cons, List.range_succ_eq_map] at h
    cases h with
    | cons hx _ => exact ⟨_, rfl, hx⟩

/-- The code of a typed function follows its evaluation from its start. -/
theorem emitFunction_follows (hp : SameProgram cx sc)
    (htyped : functionTyped cx.program cx.function) (hsig : signature cx.ptr cx.function = .ok sig)
    (hrun : emitFunction cx sig { literals } = .ok (u, e))
    (hfin : Final sc fn e) (hargs : args.length = sig.params.length)
    (hself : sc.self = if sc.function.receiver.isSome then args.head? else none) (heap : Heap)
    (n : Nat) :
    ∃ body, cx.function.body = some body ∧
      Follows cx sc fn (Nothing (α := Unit) (β := Empty)) n
        (entry ((List.range sig.params.length).zip sig.params) literals) e
        (Activation.start sc.module fn args heap) ()
        (Managed.evalFunction sc body (passedArgs sc.function args) n { heap }) := by
  obtain ⟨body, s1, hbody, hlocals, hrest⟩ := emitFunction_ok hrun
  have hs0 := entry_inside ((List.range sig.params.length).zip sig.params) literals
  have hsl := emitLocals_slotted hlocals hs0
  simp only [functionTyped, hbody, Option.any_some, Bool.and_eq_true] at htyped
  obtain ⟨⟨-, hinit⟩, hblock, -⟩ := htyped
  refine ⟨body, hbody, ?_⟩
  have hin : ({ s1 with scopes := [] :: s1.scopes } : Emitter).Inside := hsl.grows.inside
  have he := Emits.emitBody body _ _ _ _ hrest hin
  have hfin1 : Final sc fn s1 := (hfin.of_grows he.grows).congr rfl rfl
  have hfin0 := hfin1.of_grows hsl.grows
  obtain ⟨k, b, st, hst, hk, hb, hag⟩ :=
    (Begins.start _ literals args heap).locals hlocals hs0 hfin1 n
  have hcount : (entry ((List.range sig.params.length).zip sig.params) literals).nextValue =
      sig.params.length := by
    simp [entry]
  have hlist : IsList (List.range sig.params.length) args s1.nextValue b.frame.values := by
    refine Stable.extend (isList_start hfin0 hargs heap) ?_ (hcount ▸ hag)
    exact hcount ▸ hsl.grows.values
  have hm : Matches cx sc fn { s1 with scopes := [] :: s1.scopes } b
      { toStore := st, scopes := [[]] } := by
    refine ⟨hb.function, hb.code, ⟨fun id _ => by rw [hb.slots], hb.heap, hb.made⟩, ?_, ?_, ?_⟩
    · rw [hsl.slots]
      exact Nat.le_add_left _ _
    · rw [hsl.scopes]
      exact .cons .nil .nil
    · intro v hv
      obtain ⟨x, hx, hvx⟩ := receiver_passed hsig hlist hv
      refine ⟨x, ?_, hvx⟩
      have hr : cx.function.receiver.isSome := by
        rw [Context.receiver?] at hv
        split at hv <;> first | assumption | cases hv
      rw [hself, ← hp.function, if_pos hr, hx]
  have hpassed : IsList (passedIds cx.function sig.params.length) (passedArgs sc.function args)
      s1.nextValue b.frame.values := by
    rw [passedIds, passedArgs, ← hp.function]
    split
    · exact List.forall₂_drop 1 hlist
    · exact hlist
  have hsim : Sim cx sc fn
      (IsList (passedIds cx.function sig.params.length) (passedArgs sc.function args))
      (emitBody cx body (passedIds cx.function sig.params.length))
      (evalBody sc body (passedArgs sc.function args)) Nothing :=
    .emitBody hp hinit hblock fun _ _ h => h
  have hfol := (hsim _ _ _ hrest hin).2 hsl.dead hfin n b _ hm hpassed
  have heval : Managed.evalFunction sc body (passedArgs sc.function args) n { heap } =
      evalBody sc body (passedArgs sc.function args) n { toStore := st, scopes := [[]] } := by
    have hclear : Managed.lift (clearLocals sc.function.locals 0) n { heap } =
        some (.value (), { toStore := st }) := by
      rw [Managed.lift, ← hp.function]
      exact congrArg (Option.map _) hst
    rw [Managed.evalFunction, Eval.bind_apply, hclear]
    rfl
  rw [heval]
  exact hfol.after hk hag hsl.grows.values

end ObjectLang.Simulation
