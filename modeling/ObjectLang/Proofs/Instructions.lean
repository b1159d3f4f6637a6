import ObjectLang.Proofs.Simulation

/-! # Instructions and what they compute

Every instruction that is no branch has an evaluation that it follows.
-/

namespace ObjectLang.Simulation

open Syntax Checked Code Memory Execution Evaluation

variable {cx : Context} {sc : Scene} {fn : FuncId} {Γ : Nat → Values → Prop}

/-! ## Reading values -/

variable {f : Frame} {v : ValueId} {bound : Nat} {x : Value}

theorem IsValue.get (h : IsValue v x bound f.values) : f.get v = .ok x := by
  rw [Frame.get, h.2]

theorem IsValue.getInt (h : IsValue v x bound f.values) : f.getInt v = intOf x := by
  rw [Frame.getInt, h.get]
  cases x <;> rfl

theorem IsValue.getFloat (h : IsValue v x bound f.values) : f.getFloat v = floatOf x := by
  rw [Frame.getFloat, h.get]
  cases x <;> rfl

theorem IsList.get {ids : List ValueId} {xs : List Value} (h : IsList ids xs bound f.values) :
    ids.mapM f.get = .ok xs := by
  induction h with
  | nil => rfl
  | cons hv _ ih =>
    rw [List.mapM_cons, hv.get, ih]
    rfl

/-! ## Computations -/

/-- An instruction that computes a value from the frame and the heap. -/
theorem Sim.inspect {f : ValueId → Instr} {e : Store → Except Fault Value}
    (h : ∀ (a : Activation) (st : Store) (v : ValueId) (bound : Nat), SameStore cx a st →
      Γ bound a.frame.values →
      a.frame.execute sc.module a.heap (f v) = a.frame.define a.heap v <$> e st) :
    Sim cx sc fn Γ (Code.define f) (Managed.lift (Eval.inspect e)) IsValue := by
  refine .define fun a st n v rest bound hcode hst hΓ => ?_
  rw [Activation.step_cons hcode,
    h { a with frame := a.frame.withCode rest } st v bound ⟨hst.1, hst.2, hst.3⟩ hΓ,
    Eval.inspect]
  cases e st with
  | error _ => exact ⟨rfl, rfl⟩
  | ok x => exact ⟨rfl, by rw [← hst.heap, ← hst.made]; rfl⟩

/-- An instruction that computes a value from values. -/
theorem Sim.compute {f : ValueId → Instr} {e : Except Fault Value}
    (h : ∀ (fr : Frame) (heap : Heap) (v : ValueId) (bound : Nat), Γ bound fr.values →
      fr.execute sc.module heap (f v) = fr.define heap v <$> e) :
    Sim cx sc fn Γ (Code.define f) (Eval.ofExcept e) IsValue := by
  rw [← Managed.lift_ofExcept]
  exact .inspect fun a _ v bound _ hΓ => h a.frame a.heap v bound hΓ

theorem Sim.intConst (t : MachineType) (n : Int) :
    Sim cx sc fn Γ (Code.define (.intConst · t n)) (Eval.ofExcept (.ok (.int n))) IsValue :=
  .compute fun _ _ _ _ _ => rfl

theorem Sim.floatConst (bits : UInt64) :
    Sim cx sc fn Γ (Code.define (.floatConst · bits)) (Eval.ofExcept (.ok (.float bits))) IsValue :=
  .compute fun _ _ _ _ _ => rfl

theorem Sim.dataAddress (t : MachineType) (d : Datum) :
    Sim cx sc fn Γ (Code.define (.dataAddress · t d)) (Eval.ofExcept (.ok (.datum d))) IsValue :=
  .compute fun _ _ _ _ _ => rfl

theorem Sim.codeAddress (t : MachineType) (c : Callee) :
    Sim cx sc fn Γ (Code.define (.codeAddress · t c)) (Eval.ofExcept (.ok (.code c))) IsValue :=
  .compute fun _ _ _ _ _ => rfl

section

variable {a b : ValueId} {x y : Value}

/-- Words that are not both numbers have no order. -/
theorem compareWords_eq_onInts (c : Comparison) (hne : c ≠ .eq) (hne' : c ≠ .ne) :
    Value.ofBool <$> compareWords c x y =
      onInts x y fun m n => .ok (.ofBool (compareInts c m n)) := by
  cases x <;> cases y <;> cases c <;> first | rfl | contradiction

theorem compareWords_identity :
    compareWords .eq x y = .ok (decide (x = y)) ∧ compareWords .ne x y = .ok (decide (x ≠ y)) := by
  cases x <;> cases y <;> simp [compareWords, compareInts]

variable (ha : ∀ n vs, Γ n vs → IsValue a x n vs)

include ha

theorem Sim.isZero :
    Sim cx sc fn Γ (Code.define (.isZero · a)) (Eval.ofExcept (negated x)) IsValue := by
  refine .compute fun fr heap v n hΓ => ?_
  rw [Frame.execute, (ha n _ hΓ).getInt, negated]
  cases intOf x <;> rfl

theorem Sim.unary {ty : Ty} (op : UnaryOp) (hcx : cx.ptr = .i64) :
    Sim cx sc fn Γ (emitUnary cx ty op a) (Eval.ofExcept (unaryOperator ty op x)) IsValue := by
  rw [emitUnary, hcx]
  refine .lift fun t ht => ?_
  cases op with
  | not =>
    simp only [unaryOperator, ht]
    exact .isZero ha
  | neg =>
    cases hf : t.isFloat <;>
    · simp only [unaryOperator, ht, hf, Bool.false_eq_true, if_false, if_true]
      refine .compute fun fr heap v n hΓ => ?_
      simp only [Frame.execute, (ha n _ hΓ).getFloat, (ha n _ hΓ).getInt]
      first | cases floatOf x <;> rfl | cases intOf x <;> rfl

theorem Sim.floatTrunc :
    Sim cx sc fn Γ (Code.define (.floatTrunc · a)) (Eval.ofExcept (floatWhole x)) IsValue := by
  refine .compute fun fr heap v n hΓ => ?_
  simp only [Frame.execute, (ha n _ hΓ).getFloat, floatWhole]
  cases floatOf x <;> rfl

variable (hb : ∀ n vs, Γ n vs → IsValue b y n vs)

include hb

theorem Sim.intBinary {op : IntOp} {t : MachineType} {e : Int → Int → Except Fault Value}
    (he : ∀ m n, Value.int <$> intOp op t m n = e m n) :
    Sim cx sc fn Γ (Code.define (.intBinary · op t a b)) (Eval.ofExcept (onInts x y e))
    IsValue := by
  refine .compute fun fr heap v n hΓ => ?_
  simp only [Frame.execute, (ha n _ hΓ).getInt, (hb n _ hΓ).getInt, onInts]
  cases intOf x with
  | error _ => rfl
  | ok m =>
    cases intOf y with
    | error _ => rfl
    | ok n =>
      change (intOp op t m n >>= fun k => .ok (fr.define heap v (.int k))) = _ <$> e m n
      rw [← he]
      cases intOp op t m n <;> rfl

theorem Sim.compare {c : Comparison} {e : Except Fault Value}
    (he : Value.ofBool <$> compareWords c x y = e) :
    Sim cx sc fn Γ (Code.define (.intCompare · c a b)) (Eval.ofExcept e) IsValue := by
  refine .compute fun fr heap v n hΓ => ?_
  simp only [Frame.execute, (ha n _ hΓ).get, (hb n _ hΓ).get, ← he]
  change (compareWords c x y >>= _) = _
  cases compareWords c x y <;> rfl

theorem Sim.intOperator (t : MachineType) (op : BinaryOp) :
    Sim cx sc fn Γ (emitIntOp t op a b) (Eval.ofExcept (wordOperator t op x y)) IsValue := by
  cases op with
  | add => exact .intBinary ha hb fun _ _ => rfl
  | sub => exact .intBinary ha hb fun _ _ => rfl
  | mul => exact .intBinary ha hb fun _ _ => rfl
  | div => exact .intBinary ha hb fun m n => by simp only [intOp, quotient]; split <;> rfl
  | rem => exact .intBinary ha hb fun m n => by simp only [intOp, remainder]; split <;> rfl
  | eq => exact .compare ha hb (by rw [compareWords_identity.1]; rfl)
  | ne => exact .compare ha hb (by rw [compareWords_identity.2]; rfl)
  | lt => exact .compare ha hb (compareWords_eq_onInts _ (by decide) (by decide))
  | le => exact .compare ha hb (compareWords_eq_onInts _ (by decide) (by decide))
  | gt => exact .compare ha hb (compareWords_eq_onInts _ (by decide) (by decide))
  | ge => exact .compare ha hb (compareWords_eq_onInts _ (by decide) (by decide))
  | and => exact .throw
  | or => exact .throw

/-- An instruction that computes a value from two floats. -/
theorem Sim.ofFloats {i : ValueId → Instr} (f : Float → Float → Value)
    (hi : ∀ (fr : Frame) heap v, fr.execute sc.module heap (i v) =
      return fr.define heap v (f (← fr.getFloat a) (← fr.getFloat b))) :
    Sim cx sc fn Γ (Code.define i) (Eval.ofExcept (return f (← floatOf x) (← floatOf y)))
      IsValue := by
  refine .compute fun fr heap v n hΓ => ?_
  simp only [hi, (ha n _ hΓ).getFloat, (hb n _ hΓ).getFloat]
  cases floatOf x with
  | error _ => rfl
  | ok _ => cases floatOf y <;> rfl

theorem Sim.floatBinary (op : FloatOp) :
    Sim cx sc fn Γ (Code.define (.floatBinary · op a b)) (Eval.ofExcept (floatArithmetic op x y))
      IsValue :=
  .ofFloats ha hb (fun m n => .float (floatOp op m n).toBits) fun _ _ _ => rfl

theorem Sim.floatCompare (c : Comparison) :
    Sim cx sc fn Γ (Code.define (.floatCompare · c a b)) (Eval.ofExcept (floatComparison c x y))
      IsValue :=
  .ofFloats ha hb (fun m n => .ofBool (compareFloats c m n)) fun _ _ _ => rfl

theorem Sim.floatOperator [Stable Γ] (op : BinaryOp) :
    Sim cx sc fn Γ (emitFloatOp op a b) (Eval.ofExcept (floatOperator op x y)) IsValue := by
  cases op with
  | add => exact .floatBinary ha hb _
  | sub => exact .floatBinary ha hb _
  | mul => exact .floatBinary ha hb _
  | div => exact .floatBinary ha hb _
  | rem =>
    rw [Evaluation.floatOperator, floatRemainder, Eval.ofExcept_bind]
    refine (Sim.floatBinary ha hb .div).bind fun q quotient => ?_
    rw [Eval.ofExcept_bind]
    refine (Sim.floatTrunc fun _ _ h => h.2).bind fun w whole => ?_
    rw [Eval.ofExcept_bind]
    refine (Sim.floatBinary (fun _ _ h => h.2) (fun n vs h => hb n vs h.1.1) .mul).bind
      fun p product => ?_
    exact .floatBinary (fun n vs h => ha n vs h.1.1.1) (fun _ _ h => h.2) .sub
  | eq => exact .floatCompare ha hb _
  | ne => exact .floatCompare ha hb _
  | lt => exact .floatCompare ha hb _
  | le => exact .floatCompare ha hb _
  | gt => exact .floatCompare ha hb _
  | ge => exact .floatCompare ha hb _
  | and => exact .throw
  | or => exact .throw

end

/-! ## Locals, objects and calls -/

section

variable {v w : ValueId} {x y : Value} {ids : List ValueId} {xs : List Value}

theorem Sim.readLocal {id : LocalId} (t : MachineType) (hid : id < cx.function.locals.length) :
    Sim cx sc fn Γ (Code.define (.slotLoad · t id)) (Managed.lift (Evaluation.readLocal id))
      IsValue := by
  refine .inspect fun a st v bound hst _ => ?_
  rw [Frame.execute, hst.locals id hid]
  cases st.locals[id]? <;> rfl

theorem Sim.load (t : MachineType) (readonly : Bool) (offset : Nat)
    (hv : ∀ n vs, Γ n vs → IsValue v x n vs) :
    Sim cx sc fn Γ (Code.define (.load · t readonly v offset)) (Managed.lift (loadAt sc t x offset))
      IsValue := by
  refine .inspect fun a st w bound hst hΓ => ?_
  rw [Frame.execute, (hv bound _ hΓ).get, ← hst.heap]
  change (loadWord sc.module a.heap t x offset >>= fun y => .ok (a.frame.define a.heap w y)) = _
  cases loadWord sc.module a.heap t x offset <;> rfl

theorem Sim.writeLocal (id : LocalId) (hv : ∀ n vs, Γ n vs → IsValue v x n vs) :
    Sim cx sc fn Γ (Code.emit (.slotStore v id)) (Managed.lift (Evaluation.writeLocal id x))
      Nothing := by
  refine .emit fun a st n rest bound hcode hst hΓ => ?_
  have hget : (a.frame.withCode rest).get v = .ok x := (hv bound a.frame.values hΓ).get
  refine ⟨_, Activation.step_slotStore hcode hget, rfl, rfl, rfl, fun k hk => ?_, hst.heap,
    hst.made⟩
  simp only [Activation.put, Activation.goTo, Frame.withCode, Std.TreeMap.getElem?_insert,
    hst.locals k hk]

theorem Sim.storeAt (offset : Nat) (hv : ∀ n vs, Γ n vs → IsValue v x n vs)
    (hw : ∀ n vs, Γ n vs → IsValue w y n vs) :
    Sim cx sc fn Γ (Code.emit (.store w v offset)) (Managed.lift (Evaluation.storeAt x offset y))
      Nothing := by
  refine .emit fun a st n rest bound hcode hst hΓ => ?_
  have hx : (a.frame.withCode rest).get v = .ok x := (hv bound a.frame.values hΓ).get
  have hy : (a.frame.withCode rest).get w = .ok y := (hw bound a.frame.values hΓ).get
  have hstep : a.step sc.module sc.calls =
      (a.heap.store x offset y >>= fun h =>
        .ok (.next { a with frame := a.frame.withCode rest, heap := h })) := by
    rw [Activation.step_cons hcode, Frame.execute, hx, hy]
    change (a.heap.store x offset y >>= _) >>= _ = _
    cases a.heap.store x offset y <;> rfl
  rw [hstep, Evaluation.storeAt, ← hst.heap]
  cases a.heap.store x offset y with
  | error _ => exact ⟨rfl, rfl⟩
  | ok h => exact ⟨_, rfl, rfl, rfl, rfl, hst.locals, rfl, hst.made⟩

/-- An instruction that calls for nothing. -/
theorem Sim.performBy {i : Instr} {callee : Except Fault Callee}
    (h : ∀ (fr : Frame) (heap : Heap) (bound : Nat), Γ bound fr.values →
      fr.execute sc.module heap i = (Action.call none · xs) <$> callee) :
    Sim cx sc fn Γ (Code.emit i)
      (Eval.ofExcept callee >>= fun c => Managed.lift (Evaluation.perform sc c xs)) Nothing := by
  cases callee with
  | error e =>
    change Sim cx sc fn Γ _ (Managed.lift (Eval.fault e)) _
    refine .emit fun a st n rest bound hcode hst hΓ => ⟨rfl, ?_⟩
    rw [Activation.step_cons hcode, h (a.frame.withCode rest) a.heap bound hΓ]
    rfl
  | ok c =>
    change Sim cx sc fn Γ _ (Managed.lift (Evaluation.perform sc c xs)) _
    refine .emit fun a st n rest bound hcode hst hΓ => ?_
    rw [Activation.step_call hcode (h _ a.heap bound hΓ), Evaluation.perform, ← hst.heap]
    cases sc.calls c xs a.heap with
    | error _ => exact ⟨rfl, rfl⟩
    | ok p => exact ⟨_, rfl, rfl, rfl, rfl, hst.locals, rfl, by rw [← hst.made]⟩

/-- An instruction that calls for a result. -/
theorem Sim.askBy {f : ValueId → Instr} {callee : Except Fault Callee}
    (h : ∀ (fr : Frame) (heap : Heap) (v : ValueId) (bound : Nat), Γ bound fr.values →
      fr.execute sc.module heap (f v) = (Action.call (some v) · xs) <$> callee) :
    Sim cx sc fn Γ (Code.define f)
      (Eval.ofExcept callee >>= fun c => Managed.lift (Evaluation.ask sc c xs)) IsValue := by
  cases callee with
  | error e =>
    change Sim cx sc fn Γ _ (Managed.lift (Eval.fault e)) _
    refine .define fun a st n v rest bound hcode hst hΓ => ⟨rfl, ?_⟩
    rw [Activation.step_cons hcode, h (a.frame.withCode rest) a.heap v bound hΓ]
    rfl
  | ok c =>
    change Sim cx sc fn Γ _ (Managed.lift (Evaluation.ask sc c xs)) _
    refine .define fun a st n v rest bound hcode hst hΓ => ?_
    rw [Activation.step_call hcode (h _ a.heap v bound hΓ), Evaluation.ask, ← hst.heap]
    match sc.calls c xs a.heap with
    | .error _ => exact ⟨rfl, rfl⟩
    | .ok (none, _) => exact ⟨rfl, rfl⟩
    | .ok (some x, _) => exact ⟨rfl, by rw [← hst.made]; rfl⟩

theorem execute_call {f : Frame} {bound : Nat} (m : Module) (h : Heap) (dst : Option ValueId)
    (callee : Callee) (hl : IsList ids xs bound f.values) :
    f.execute m h (.call dst callee ids) = (Action.call dst · xs) <$> Except.ok callee := by
  rw [Frame.execute, hl.get]
  rfl

theorem execute_callIndirect {f : Frame} {bound : Nat} (m : Module) (h : Heap)
    (dst : Option ValueId) (sig : Signature) (hv : IsValue v x bound f.values)
    (hl : IsList ids xs bound f.values) :
    f.execute m h (.callIndirect dst sig v ids) = (Action.call dst · xs) <$> codeOf x := by
  rw [Frame.execute, hl.get, hv.get]
  cases x <;> rfl

theorem Sim.perform (callee : Callee) (hl : ∀ n vs, Γ n vs → IsList ids xs n vs) :
    Sim cx sc fn Γ (Code.emit (.call none callee ids))
      (Managed.lift (Evaluation.perform sc callee xs)) Nothing :=
  .performBy fun _ h bound hΓ => execute_call sc.module h none callee (hl bound _ hΓ)

theorem Sim.ask (callee : Callee) (hl : ∀ n vs, Γ n vs → IsList ids xs n vs) :
    Sim cx sc fn Γ (Code.define fun v => .call (some v) callee ids)
      (Managed.lift (Evaluation.ask sc callee xs)) IsValue :=
  .askBy fun _ h v bound hΓ => execute_call sc.module h (some v) callee (hl bound _ hΓ)

end

end ObjectLang.Simulation
