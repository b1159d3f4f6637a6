import ObjectLang.Proofs.Divergence

/-! # Trees

The code of a typed tree follows its evaluation with counted references.
-/

namespace ObjectLang.Simulation

open Syntax Checked Code Memory Execution Evaluation

variable {cx : Context} {sc : Scene} {fn : FuncId} {Γ : Nat → Values → Prop}

theorem Sim.asOption [Stable Γ] {x : Emit ValueId} {y : Eval Managed Value}
    (h : Sim cx sc fn Γ x y IsValue) :
    Sim cx sc fn Γ (Option.some <$> x) (Option.some <$> y) IsOption :=
  h.map fun _ _ _ _ h => h

theorem Sim.self (i : Info) :
    Sim cx sc fn Γ (lowerExpr cx (.self i)) (Managed.evalExpr sc (.self i)) IsOption := by
  rw [lowerExpr, Managed.evalExpr]
  cases hv : cx.receiver? with
  | none => exact .throw
  | some v =>
    refine .intro (.pure _) ?_
    intro s r s' hx hs hd hfin n a t hm _
    cases hx
    obtain ⟨x, hx, hvx⟩ := hm.self v hv
    rw [hx]
    exact ⟨hd, 0, a, .refl a, hm, .refl _ _, hvx⟩

theorem Sim.int (hp : SameProgram cx sc) (i : Info) (n : Int) :
    Sim cx sc fn Γ (lowerExpr cx (.int i n)) (Managed.evalExpr sc (.int i n)) IsOption := by
  rw [lowerExpr, Managed.evalExpr, hp.ptr]
  refine .lift fun t ht => ?_
  simp only [literal, ht]
  cases t.isFloat with
  | true => exact (Sim.floatConst _).map fun _ _ _ _ h => h
  | false => exact (Sim.intConst t _).map fun _ _ _ _ h => h

/-- An arm whose block fits a type of values, or diverges, has a value for the slot. -/
theorem isArm_of_block {stored : Bool} {ty : Ty} (b : Checked.Block)
    (h : blockTyped cx.program cx.function b) (hstored : stored = true → ty.isVoid = false)
    (hfits : b.diverges || cx.program.fits b.ty ty)
    (hsim : ∀ (Γ : Nat → Values → Prop) [Stable Γ],
      Sim cx sc fn Γ (lowerBlock cx b) (Managed.evalBlock sc b) IsOption) :
    IsArm cx sc fn stored (b.ty, Code.scopedResult cx b.ty (lowerBlock cx b))
      (b.ty, Managed.scopedResult sc b.ty (Managed.evalBlock sc b)) where
  ty := rfl
  sim Γ _ := .scopedResult b.ty (hsim Γ)
  kept := .scopedResult _ (lowerBlock_emits b)
  yields hs := by
    refine .scopedResult _ (lowerBlock_emits b)
      (lowerBlock_yields rfl b (formed_of_blockTyped b h) ?_)
    obtain hd | hf := Bool.or_eq_true_iff.mp hfits
    · exact .inr hd
    · exact .inl (Program.isVoid_of_fits hf (hstored hs))

mutual

theorem lowerExpr_sim (hp : SameProgram cx sc) (e : Expr) (h : exprTyped cx.program cx.function e)
    (Γ : Nat → Values → Prop) [Stable Γ] :
    Sim cx sc fn Γ (lowerExpr cx e) (Managed.evalExpr sc e) IsOption := by
  match e with
  | .int i n => exact .int hp i n
  | .float _ bits => exact (Sim.floatConst bits).map fun _ _ _ _ h => h
  | .bool _ b => cases b <;> exact (Sim.intConst .i8 _).map fun _ _ _ _ h => h
  | .str _ text => exact (Sim.emitText hp text).asOption
  | .var _ id =>
    refine .lift fun slot hslot => .lift fun ty _ => .lift fun t _ => ?_
    obtain ⟨rfl, hid⟩ := slot_ok hslot
    exact (Sim.readLocal t hid).asOption
  | .self i => exact .self i
  | .field _ object c index =>
    simp only [exprTyped, Bool.and_eq_true] at h
    refine (Sim.needed object (lowerExpr_sim hp object h.1.1 Γ)).bind fun v o => ?_
    refine .lift fun field hfield => ?_
    rw [loadField, fieldPlace_of_field hp hfield]
    exact (Sim.load _ _ _ fun _ _ h => h.2).asOption
  | .binary _ op left right =>
    simp only [exprTyped, Bool.and_eq_true] at h
    have hl := Sim.needed left (lowerExpr_sim hp left h.1.1.1 Γ)
    have hr (Δ : Nat → Values → Prop) [Stable Δ] :=
      Sim.needed right (lowerExpr_sim hp right h.1.1.2 Δ)
    rw [lowerExpr, Managed.evalExpr]
    refine .ite (Sim.emitLogical op hl (hr _)).asOption ?_
    refine hl.bind fun a x => (hr _).bind fun b y => ?_
    exact (Sim.emitBinary hp left.ty op (fun _ _ h => h.1.2) fun _ _ h => h.2).asOption
  | .unary _ op operand =>
    have ho : exprTyped cx.program cx.function operand := by
      cases op <;> simp only [exprTyped, Bool.and_eq_true] at h <;> exact h.1.1
    refine (Sim.needed operand (lowerExpr_sim hp operand ho Γ)).bind fun a x => ?_
    exact (Sim.unary (fun _ _ h => h.2) op hp.ptr).asOption
  | .call _ g none args dispatch =>
    simp only [exprTyped, Bool.and_eq_true] at h
    refine (lowerValues_sim hp args h.1.2 Γ).bind fun ids xs => ?_
    exact .emitCall hp g dispatch fun _ _ h => h.2
  | .call _ g (some receiver) args dispatch =>
    simp only [exprTyped, Bool.and_eq_true] at h
    refine (Sim.needed receiver (lowerExpr_sim hp receiver h.1.1.1 Γ)).bind fun v x => ?_
    refine (lowerValues_sim hp args h.1.2 _).bind fun ids xs => ?_
    exact .emitCall hp g dispatch fun _ _ h => .cons h.1.2 h.2
  | .new _ c init args =>
    simp only [exprTyped, Bool.and_eq_true] at h
    exact (Sim.emitNew hp c init (lowerValues_sim hp args h.1.2 _)).asOption
  | .cond i condition thenBranch none =>
    simp only [exprTyped, Bool.and_eq_true] at h
    obtain ⟨⟨⟨hc, -⟩, ht⟩, -⟩ := h
    have hb : Emits (lowerBlock cx thenBranch) := lowerBlock_emits thenBranch
    refine .emitConditional i.ty (rfl : false = _)
      (Sim.needed condition (lowerExpr_sim hp condition hc Γ)) ⟨rfl, fun Δ _ => ?_, ?_, nofun⟩
      trivial
    · exact .scopedResult _ (lowerBlock_sim hp thenBranch ht Δ)
    · exact .scopedResult _ hb
  | .cond i condition thenBranch (some elseBranch) =>
    simp only [exprTyped, Bool.and_eq_true] at h
    obtain ⟨⟨⟨⟨⟨hc, -⟩, ht⟩, he⟩, hft⟩, hfe⟩ := h
    have hstored : (!i.ty.isVoid) = true → i.ty.isVoid = false := by simp
    refine .emitConditional i.ty (rfl : (!i.ty.isVoid) = _)
      (Sim.needed condition (lowerExpr_sim hp condition hc Γ))
      (isArm_of_block thenBranch ht hstored hft (lowerBlock_sim hp thenBranch ht)) ?_
    exact isArm_of_block elseBranch he hstored hfe (lowerBlock_sim hp elseBranch he)
  | .block _ body =>
    simp only [exprTyped, Bool.and_eq_true] at h
    exact .ownedResult body.ty (.scopedResult body.ty (lowerBlock_sim hp body h.1 Γ))
  | .variant _ _ k => exact (Sim.intConst .i32 _).map fun _ _ _ _ h => h

theorem lowerValues_sim (hp : SameProgram cx sc) {ts : List Ty} (es : List Expr)
    (h : argsTyped cx.program cx.function ts es) (Γ : Nat → Values → Prop) [Stable Γ] :
    Sim cx sc fn Γ (lowerValues cx es) (Managed.evalValues sc es) IsList := by
  match ts, es with
  | [], [] => exact .pure fun _ _ _ => .nil
  | t :: ts, e :: es =>
    simp only [argsTyped, Bool.and_eq_true] at h
    refine (Sim.needed e (lowerExpr_sim hp e h.1.1 Γ)).bind fun v x => ?_
    refine (lowerValues_sim hp es h.2 _).bind fun vs xs => ?_
    exact .pure fun _ _ h => .cons h.1.2 h.2

theorem lowerStmt_sim (hp : SameProgram cx sc) (s : Stmt) (h : stmtTyped cx.program cx.function s)
    (Γ : Nat → Values → Prop) [Stable Γ] :
    Sim cx sc fn Γ (lowerStmt cx s) (Managed.evalStmt sc s) Nothing := by
  match s with
  | .bind id none => exact .emitBind_none hp id
  | .bind id (some init) =>
    simp only [stmtTyped, Bool.and_eq_true] at h
    exact .emitBind hp id (.needed init (lowerExpr_sim hp init h.1 Γ))
  | .setVar id value =>
    simp only [stmtTyped, Bool.and_eq_true] at h
    exact .emitSetVar hp id (.needed value (lowerExpr_sim hp value h.1 Γ))
  | .setField object c index value =>
    simp only [stmtTyped, Bool.and_eq_true] at h
    refine (Sim.needed object (lowerExpr_sim hp object h.1.1.1 Γ)).bind fun v o => ?_
    refine (Sim.needed value (lowerExpr_sim hp value h.1.2 _)).bind fun w x => ?_
    exact .storeField hp c index (fun _ _ h => h.1.2) fun _ _ h => h.2
  | .expr value =>
    exact (lowerExpr_sim hp value h Γ).bind fun _ _ => .unit
  | .ret none => exact .emitReturn (v := none) (x := none) hp.function fun _ _ _ => trivial
  | .ret (some value) =>
    simp only [stmtTyped, Bool.and_eq_true] at h
    refine (Sim.needed value (lowerExpr_sim hp value h.1.1 Γ)).bind fun v x => ?_
    exact .emitReturn hp.function fun _ _ h => h.2
  | .loop condition body =>
    simp only [stmtTyped, Bool.and_eq_true] at h
    exact .emitLoop (.needed condition (lowerExpr_sim hp condition h.1.1 Γ))
      (.scopedResult body.ty (lowerBlock_sim hp body h.2 Γ))
      (.scopedResult _ (lowerBlock_emits body))

theorem lowerStmts_sim (hp : SameProgram cx sc) (ss : List Stmt)
    (h : stmtsTyped cx.program cx.function ss) (Γ : Nat → Values → Prop) [Stable Γ] :
    Sim cx sc fn Γ (lowerStmts cx ss) (Managed.evalStmts sc ss) Nothing := by
  match ss with
  | [] => exact .unit
  | s :: ss =>
    simp only [stmtsTyped, Bool.and_eq_true] at h
    refine .isDead ?_ (.pure _)
    exact (lowerStmt_sim hp s h.1 Γ).bind fun _ _ => lowerStmts_sim hp ss h.2 _

theorem lowerBlock_sim (hp : SameProgram cx sc) (b : Checked.Block)
    (h : blockTyped cx.program cx.function b) (Γ : Nat → Values → Prop) [Stable Γ] :
    Sim cx sc fn Γ (lowerBlock cx b) (Managed.evalBlock sc b) IsOption := by
  match b with
  | .mk stmts none ty d span =>
    simp only [blockTyped, Bool.and_eq_true] at h
    refine (lowerStmts_sim hp stmts h.1.1 Γ).bind fun _ _ => ?_
    exact .pure fun _ _ _ => trivial
  | .mk stmts (some tail) ty d span =>
    simp only [blockTyped, Bool.and_eq_true] at h
    refine (lowerStmts_sim hp stmts h.1.1.1 Γ).bind fun _ _ => ?_
    exact .isDead (lowerExpr_sim hp tail h.1.1.2 _) (.pure _)

end

end ObjectLang.Simulation
