import ObjectLang.Proofs.Composition
import ObjectLang.Proofs.Typing

/-! # Divergence

A tree that is marked as diverging leaves the path dead; any other that has a type of values ends
with a value.  Only the types and marks of its nodes have to be those of their parts, as they are in
typed trees.
-/

namespace ObjectLang.Simulation

open Syntax Checked Code Execution Evaluation

variable {cx : Context}

/-! ## Typed trees -/

section

variable {p : Program} {f : FuncInst}

mutual

theorem formed_of_exprTyped (e : Expr) (h : exprTyped p f e) : Formed p e.nodes := by
  match e with
  | .int .. => exact formed_cons.mpr ⟨h, formed_nil⟩
  | .float .. | .bool .. | .str .. | .var .. | .self .. | .variant .. | .error .. =>
    exact formed_cons.mpr ⟨trivial, formed_nil⟩
  | .field _ object _ _ =>
    simp only [exprTyped, Bool.and_eq_true] at h
    rw [Expr.nodes, formed_cons]
    exact ⟨trivial, formed_of_exprTyped object h.1.1⟩
  | .binary _ _ left right =>
    simp only [exprTyped, Bool.and_eq_true] at h
    rw [Expr.nodes, formed_cons, formed_append]
    exact ⟨trivial, formed_of_exprTyped left h.1.1.1, formed_of_exprTyped right h.1.1.2⟩
  | .unary _ op operand =>
    have hoperand : exprTyped p f operand := by
      cases op with
      | neg | not =>
        simp only [exprTyped, Bool.and_eq_true] at h
        exact h.1.1
    rw [Expr.nodes, formed_cons]
    exact ⟨trivial, formed_of_exprTyped operand hoperand⟩
  | .call _ _ none args _ =>
    simp only [exprTyped, Bool.and_eq_true, beq_iff_eq] at h
    rw [Expr.nodes, formed_cons, formed_append]
    exact ⟨h.2, formed_nil, formed_of_argsTyped _ args h.1.2⟩
  | .call _ _ (some receiver) args _ =>
    simp only [exprTyped, Bool.and_eq_true, beq_iff_eq] at h
    rw [Expr.nodes, formed_cons, formed_append]
    exact ⟨h.2, formed_of_exprTyped receiver h.1.1.1, formed_of_argsTyped _ args h.1.2⟩
  | .new _ _ _ args =>
    simp only [exprTyped, Bool.and_eq_true] at h
    rw [Expr.nodes, formed_cons]
    exact ⟨trivial, formed_of_argsTyped _ args h.1.2⟩
  | .cond _ condition thenBranch none =>
    simp only [exprTyped, Bool.and_eq_true, beq_iff_eq] at h
    rw [Expr.nodes, formed_cons, formed_append, formed_append]
    exact ⟨h.2, formed_of_exprTyped condition h.1.1.1, formed_of_blockTyped thenBranch h.1.2,
      formed_nil⟩
  | .cond _ condition thenBranch (some elseBranch) =>
    simp only [exprTyped, Bool.and_eq_true] at h
    rw [Expr.nodes, formed_cons, formed_append, formed_append]
    exact ⟨trivial, formed_of_exprTyped condition h.1.1.1.1.1,
      formed_of_blockTyped thenBranch h.1.1.1.2, formed_of_blockTyped elseBranch h.1.1.2⟩
  | .block _ body =>
    simp only [exprTyped, Bool.and_eq_true, beq_iff_eq] at h
    rw [Expr.nodes, formed_cons]
    exact ⟨h.2, formed_of_blockTyped body h.1⟩

theorem formed_of_argsTyped (tys : List Ty) (es : List Expr) (h : argsTyped p f tys es) :
    Formed p (nodesOfExprs es) := by
  match tys, es with
  | _, [] => exact formed_nil
  | ty :: tys, e :: es =>
    simp only [argsTyped, Bool.and_eq_true] at h
    rw [nodesOfExprs, formed_append]
    exact ⟨formed_of_exprTyped e h.1.1, formed_of_argsTyped tys es h.2⟩

theorem formed_of_stmtTyped (s : Stmt) (h : stmtTyped p f s) : Formed p s.nodes := by
  match s with
  | .bind _ none | .ret none => exact formed_cons.mpr ⟨trivial, formed_nil⟩
  | .bind _ (some value) | .setVar _ value =>
    simp only [stmtTyped, Bool.and_eq_true] at h
    rw [Stmt.nodes, formed_cons]
    exact ⟨trivial, formed_of_exprTyped value h.1⟩
  | .setField object _ _ value =>
    simp only [stmtTyped, Bool.and_eq_true] at h
    rw [Stmt.nodes, formed_cons, formed_append]
    exact ⟨trivial, formed_of_exprTyped object h.1.1.1, formed_of_exprTyped value h.1.2⟩
  | .expr value =>
    rw [Stmt.nodes, formed_cons]
    exact ⟨trivial, formed_of_exprTyped value h⟩
  | .ret (some value) =>
    simp only [stmtTyped, Bool.and_eq_true] at h
    rw [Stmt.nodes, formed_cons]
    exact ⟨trivial, formed_of_exprTyped value h.1.1⟩
  | .loop condition body =>
    simp only [stmtTyped, Bool.and_eq_true] at h
    rw [Stmt.nodes, formed_cons, formed_append]
    exact ⟨trivial, formed_of_exprTyped condition h.1.1, formed_of_blockTyped body h.2⟩

theorem formed_of_stmtsTyped (ss : List Stmt) (h : stmtsTyped p f ss) :
    Formed p (nodesOfStmts ss) := by
  match ss with
  | [] => exact formed_nil
  | s :: ss =>
    simp only [stmtsTyped, Bool.and_eq_true] at h
    rw [nodesOfStmts, formed_append]
    exact ⟨formed_of_stmtTyped s h.1, formed_of_stmtsTyped ss h.2⟩

theorem formed_of_blockTyped (b : Checked.Block) (h : blockTyped p f b) : Formed p b.nodes := by
  match b with
  | .mk stmts none _ _ _ =>
    simp only [blockTyped, Bool.and_eq_true, beq_iff_eq] at h
    rw [Block.nodes, formed_cons, formed_append]
    exact ⟨⟨h.1.2, by simp [h.2]⟩, formed_of_stmtsTyped stmts h.1.1, formed_nil⟩
  | .mk stmts (some tail) _ _ _ =>
    simp only [blockTyped, Bool.and_eq_true, beq_iff_eq] at h
    rw [Block.nodes, formed_cons, formed_append]
    exact ⟨⟨h.1.2, by simp [h.2]⟩, formed_of_stmtsTyped stmts h.1.1.1,
      formed_of_exprTyped tail h.1.1.2⟩

end

end

/-! ## Paths that end -/

/-- The emission leaves the path dead. -/
def Dies {α : Type} (x : Emit α) : Prop :=
  ∀ s r s', x s = .ok (r, s') → s.Inside → s'.dead = true

namespace Dies

variable {α β : Type} {x : Emit α} {f : α → Emit β}

theorem bind (hx : Emits x) (h : Dies x) (hf : ∀ a, Emits (f a)) : Dies (x >>= f) := by
  intro s r s' hrun hs
  obtain ⟨a, t, ha, hb⟩ := Emit.bind_ok hrun
  exact (hf a t r s' hb (hx s a t ha hs).grows.inside).dead (h s a t ha hs)

theorem after (hx : Emits x) (hf : ∀ a, Dies (f a)) : Dies (x >>= f) := by
  intro s r s' hrun hs
  obtain ⟨a, t, ha, hb⟩ := Emit.bind_ok hrun
  exact hf a t r s' hb (hx s a t ha hs).grows.inside

theorem ite {c : Prop} [Decidable c] {x y : Emit α} (hx : Dies x) (hy : Dies y) :
    Dies (if c then x else y) := by
  split
  · exact hx
  · exact hy

/-- What is left out on a dead path may as well be what kills it. -/
theorem unlessDead (a : α) (h : Dies x) :
    Dies (Code.isDead >>= fun d => if d then Pure.pure a else x) := by
  intro s r s' hrun hs
  obtain ⟨d, t, hd, hrun⟩ := Emit.bind_ok hrun
  cases hd
  cases hlive : s.dead with
  | true =>
    rw [hlive] at hrun
    cases hrun
    exact hlive
  | false =>
    rw [hlive] at hrun
    exact h _ _ _ hrun hs

theorem inScope (h : Dies x) : Dies (Code.inScope cx x) := by
  intro s r s' hrun hs
  obtain ⟨_, s1, ho, hrun⟩ := Emit.bind_ok hrun
  cases ho
  obtain ⟨a, s2, hb, hrun⟩ := Emit.bind_ok hrun
  obtain ⟨_, s3, hc, hrun⟩ := Emit.bind_ok hrun
  cases hrun
  have hd := h _ _ _ hb hs
  obtain ⟨scope, outer, -, ⟨-, rfl⟩ | ⟨hlive, -⟩⟩ := closeScope_ok hc
  · exact hd
  · simp [hd] at hlive

theorem withResult (c : Bool) {act : ValueId → Emit Unit} (hact : ∀ v, Emits (act v))
    {x : Emit (Option ValueId)} (hx : Emits x) (h : Dies x) : Dies (do
      let value ← x
      if let some v := value then
        if c && !(← Code.isDead) then act v
      return value) := by
  refine .bind hx h fun r => ?_
  cases r with
  | none => exact .pure _
  | some v => exact .isDead fun d => .ite ((hact v).bind fun _ => .pure _) (.pure _)

theorem scopedResult (ty : Ty) {x : Emit (Option ValueId)} (hx : Emits x) (h : Dies x) :
    Dies (Code.scopedResult cx ty x) := .inScope (.withResult _ (fun _ => .emit _) hx h)

theorem leave (i : Instr) : Dies (do
    Code.emit i
    switchTo (← newBlock)
    setDead true) := by
  intro s r s' hrun _
  cases hrun
  rfl

theorem emitReturn (v : Option ValueId) : Dies (Code.emitReturn cx v) := by
  have hrest : Dies (do
      Code.releaseAll cx (← get).scopes.flatten
      Code.emit (.ret v)
      switchTo (← newBlock)
      setDead true) := by
    intro s r s' hrun hs
    obtain ⟨_, t, hg, hrun⟩ := Emit.bind_ok hrun
    cases hg
    exact Dies.after (.releaseAll _) (fun _ => .leave _) _ _ _ hrun hs
  cases v with
  | none => exact hrest
  | some v =>
    rw [Code.emitReturn]
    exact .ite (.after (.emit _) fun _ => hrest) hrest

theorem emitArm {ty : Ty} {slot : Option SlotId} {merge : BlockId} {x : Emit (Option ValueId)}
    (h : Dies x) {s s' : Emitter} {d : Bool} (hrun : Code.emitArm ty slot merge x s = .ok (d, s'))
    (hs : s.Inside) : d = true := by
  obtain ⟨value, t, ht, rfl, -⟩ := emitArm_ok hrun
  exact h _ _ _ ht hs

/-- A conditional diverges when both arms do. -/
theorem emitConditional (ty : Ty) {x : Emit ValueId} {thenArm elseArm : Ty × Emit (Option ValueId)}
    (hx : Emits x) (ht : Emits thenArm.2) (he : Emits elseArm.2) (hdt : Dies thenArm.2)
    (hde : Dies elseArm.2) :
    Dies (Code.emitConditional cx ty x thenArm (some elseArm)) := by
  rw [emitConditional_eq]
  refine .after hx.inScope fun c => ?_
  intro s r s' hrun hs
  obtain ⟨type, d, u, d', w, -, hu, hw, hf⟩ := Conditional.rest_ok hrun
  have hin := (Conditional.thenAt_grows s c type hs).inside
  have hg := emitArm_grows ht hu hin
  have hine := Conditional.elseAt_inside hg
  obtain rfl := hdt.emitArm hu hin
  obtain rfl : d' = true := hde.emitArm hw hine
  have hinj := Conditional.joined_inside hg (emitArm_grows he hw hine) (true && true)
  exact (Conditional.emits_finish ty type _ _ _ _ hf hinj).dead (by simp [Conditional.joined])

end Dies

section

variable {p : Program}

mutual

theorem lowerExpr_dies (e : Expr) (h : Formed p e.nodes) (hd : e.diverges) :
    Dies (lowerExpr cx e) := by
  match e with
  | .block i body =>
    rw [Expr.nodes, formed_cons] at h
    have hb := lowerBlock_dies body h.2 hd
    have he : Emits (lowerBlock cx body) := lowerBlock_emits body
    exact .withResult _ (fun _ => .own _) (.scopedResult _ he) (.scopedResult _ he hb)
  | .cond i condition thenBranch (some elseBranch) =>
    rw [Expr.nodes, formed_cons, formed_append, formed_append] at h
    obtain ⟨-, -, ht, he⟩ := h
    obtain ⟨hdt, hde⟩ := Bool.and_eq_true_iff.mp hd
    have hte : Emits (lowerBlock cx thenBranch) := lowerBlock_emits thenBranch
    have hee : Emits (lowerBlock cx elseBranch) := lowerBlock_emits elseBranch
    exact .emitConditional i.ty (.needed _ (lowerExpr_emits condition)) (.scopedResult _ hte)
      (.scopedResult _ hee) (.scopedResult _ hte (lowerBlock_dies thenBranch ht hdt))
      (.scopedResult _ hee (lowerBlock_dies elseBranch he hde))

theorem lowerStmt_dies (s : Stmt) (h : Formed p s.nodes) (hd : s.diverges) :
    Dies (lowerStmt cx s) := by
  match s with
  | .ret none => exact .emitReturn none
  | .ret (some value) => exact .after (.needed _ (lowerExpr_emits value)) fun v => .emitReturn _
  | .expr value =>
    rw [Stmt.nodes, formed_cons] at h
    exact .bind (lowerExpr_emits value) (lowerExpr_dies value h.2 hd) fun _ => .pure _

theorem lowerStmts_dies (ss : List Stmt) (h : Formed p (nodesOfStmts ss))
    (hd : ss.any (·.diverges)) :
    Dies (lowerStmts cx ss) := by
  match ss with
  | s :: ss =>
    rw [nodesOfStmts, formed_append] at h
    rw [List.any_cons, Bool.or_eq_true] at hd
    refine .unlessDead () ?_
    obtain hs | hss := hd
    · exact .bind (lowerStmt_emits s) (lowerStmt_dies s h.1 hs) fun _ => lowerStmts_emits ss
    · exact .after (lowerStmt_emits s) fun _ => lowerStmts_dies ss h.2 hss

theorem lowerBlock_dies (b : Checked.Block) (h : Formed p b.nodes) (hd : b.diverges) :
    Dies (lowerBlock cx b) := by
  match b with
  | .mk stmts none ty d span =>
    rw [Block.nodes, formed_cons, formed_append] at h
    have hs : stmts.any (·.diverges) := by simpa [Block.diverges, h.1.2] using hd
    exact .bind (lowerStmts_emits stmts) (lowerStmts_dies stmts h.2.1 hs) fun _ => .pure _
  | .mk stmts (some tail) ty d span =>
    rw [Block.nodes, formed_cons, formed_append] at h
    obtain ⟨hform, hstmts, htail⟩ := h
    have hany : stmts.any (·.diverges) || tail.diverges := hform.2 ▸ hd
    obtain hs | ht := Bool.or_eq_true_iff.mp hany
    · refine .bind (lowerStmts_emits stmts) (lowerStmts_dies stmts hstmts hs) fun _ => ?_
      exact .isDead fun d => .ite (.pure _) (lowerExpr_emits tail)
    · exact .after (lowerStmts_emits stmts) fun _ => .unlessDead none (lowerExpr_dies tail htail ht)

end

/-! ## Values -/

namespace Yields

variable {x : Emit (Option ValueId)}

theorem of_dies (h : Dies x) : Yields x := by
  intro s r s' hrun hs hd
  rw [h s r s' hrun hs] at hd
  cases hd

theorem pure (v : ValueId) : Yields (Pure.pure (some v)) := by
  intro s r s' hrun _ _
  cases hrun
  rfl

theorem map_some (x : Emit ValueId) : Yields (some <$> x) := by
  intro s r s' hrun _ _
  obtain ⟨v, -, rfl⟩ := Emit.map_ok hrun
  rfl

theorem ite {c : Prop} [Decidable c] {y : Emit (Option ValueId)} (hx : Yields x) (hy : Yields y) :
    Yields (if c then x else y) := by
  split
  · exact hx
  · exact hy

theorem isDead {f : Bool → Emit (Option ValueId)} (h : ∀ d, Yields (f d)) :
    Yields (Code.isDead >>= f) := by
  intro s r s' hrun
  obtain ⟨d, t, hd, hrun⟩ := Emit.bind_ok hrun
  cases hd
  exact h _ _ _ _ hrun

theorem unlessDead (h : Yields x) :
    Yields (Code.isDead >>= fun d => if d then Pure.pure none else x) := by
  intro s r s' hrun hs hd
  obtain ⟨d, t, ht, hrun⟩ := Emit.bind_ok hrun
  cases ht
  cases hlive : s.dead with
  | true =>
    rw [hlive] at hrun
    cases hrun
    rw [hlive] at hd
    cases hd
  | false =>
    rw [hlive] at hrun
    exact h _ _ _ hrun hs hd

theorem after {α : Type} {x : Emit α} {f : α → Emit (Option ValueId)} (hx : Emits x)
    (hf : ∀ a, Yields (f a)) : Yields (x >>= f) := by
  intro s r s' hrun hs
  obtain ⟨a, t, ha, hb⟩ := Emit.bind_ok hrun
  exact hf a t r s' hb (hx s a t ha hs).grows.inside

theorem inScope (h : Yields x) : Yields (Code.inScope cx x) := by
  intro s r s' hrun hs hd
  obtain ⟨_, s1, ho, hrun⟩ := Emit.bind_ok hrun
  cases ho
  obtain ⟨a, s2, hb, hrun⟩ := Emit.bind_ok hrun
  obtain ⟨_, s3, hc, hrun⟩ := Emit.bind_ok hrun
  cases hrun
  obtain ⟨scope, outer, -, ⟨hdead, rfl⟩ | ⟨hlive, -⟩⟩ := closeScope_ok hc
  · simp [hdead] at hd
  · exact h _ _ _ hb hs hlive

theorem withResult (c : Bool) {act : ValueId → Emit Unit} (hact : ∀ v, Emits (act v)) (hx : Emits x)
    (h : Yields x) : Yields (do
      let value ← x
      if let some v := value then
        if c && !(← Code.isDead) then act v
      return value) := by
  intro s r s' hrun hs hd
  obtain ⟨value, t, ht, hrun⟩ := Emit.bind_ok hrun
  cases value with
  | some v =>
    have hv : Yields (do
        if c && !(← Code.isDead) then act v
        return some v) :=
      .isDead fun _ => .ite (.after (hact v) fun _ => .pure v) (.pure v)
    exact hv _ _ _ hrun (hx _ _ _ ht hs).grows.inside hd
  | none =>
    cases hrun
    exact h _ _ _ ht hs hd

theorem emitCall {f : FuncId} (dispatch : Dispatch) (args : List ValueId)
    (h : (cx.program.functionAt f).returnType.isVoid = false) :
    Yields (Code.emitCall cx f dispatch args) := by
  rw [emitCall_eq]
  refine .after (.callTarget f dispatch args) fun call => ?_
  intro s r s' hrun hs
  obtain ⟨t, s1, ht, hrun⟩ := Emit.bind_ok hrun
  obtain ⟨hm, rfl⟩ := Emit.lift_ok ht
  rw [isVoid_of_machineType hm] at h
  cases t with
  | none => cases h
  | some t =>
    refine Yields.after (.define _) (fun v => ?_) _ _ _ hrun hs
    exact .ite (.after (.own _) fun _ => .pure v) (.pure v)

theorem emitConditional {ty : Ty} {x : Emit ValueId} {thenArm elseArm : Ty × Emit (Option ValueId)}
    (hx : Emits x) (ht : Emits thenArm.2) (he : Emits elseArm.2) (h : ty.isVoid = false) :
    Yields (Code.emitConditional cx ty x thenArm (some elseArm)) := by
  rw [emitConditional_eq]
  refine .after hx.inScope fun c => ?_
  intro s r s' hrun hs hd
  obtain ⟨type, d, u, d', w, htype, hu, hw, hf⟩ := Conditional.rest_ok hrun
  have hvoid := Conditional.isVoid_eq htype
  simp only [Option.isSome_some, if_true, h] at hvoid
  cases type with
  | none => cases hvoid
  | some t =>
    have hin := (Conditional.thenAt_grows s c (some t) hs).inside
    have hg := emitArm_grows ht hu hin
    have hg' := emitArm_grows he hw (Conditional.elseAt_inside hg)
    have hfinish : Yields (Conditional.finish ty (some t) (some s.slots.size)) :=
      .after (.define _) fun v => .isDead fun d => .ite (.after (.own _) fun _ => .pure v) (.pure v)
    exact hfinish _ _ _ hf (Conditional.joined_inside hg hg' (d && d')) hd

theorem throw (e : Error) : Yields (throw e) := fun _ _ _ hrun => (Emit.throw_ok hrun).elim

theorem scopedResult (ty : Ty) (hx : Emits x) (h : Yields x) :
    Yields (Code.scopedResult cx ty x) := .inScope (.withResult _ (fun _ => .emit _) hx h)

end Yields

mutual

theorem lowerExpr_yields (hcx : cx.program = p) (e : Expr) (h : Formed p e.nodes)
    (hv : e.ty.isVoid = false) : Yields (lowerExpr cx e) := by
  match e with
  | .int i n => exact .after (.lift _) fun t => .ite (.map_some _) (.map_some _)
  | .float _ _ | .bool _ _ | .variant _ _ _ | .str _ _ | .new _ _ _ _ => exact .map_some _
  | .var _ id =>
    exact .after (.lift _) fun _ => .after (.lift _) fun _ => .after (.lift _) fun _ => .map_some _
  | .self _ =>
    rw [lowerExpr]
    cases cx.receiver? with
    | none => exact .throw _
    | some v => exact .pure v
  | .field _ object c index =>
    refine .after (.needed _ (lowerExpr_emits object)) fun v => ?_
    exact .after (.lift _) fun _ => .map_some _
  | .binary _ op left right =>
    rw [lowerExpr]
    refine .ite (.map_some _) (.after (.needed _ (lowerExpr_emits left)) fun a => ?_)
    exact .after (.needed _ (lowerExpr_emits right)) fun b => .map_some _
  | .unary _ op operand => exact .after (.needed _ (lowerExpr_emits operand)) fun a => .map_some _
  | .call i g none args dispatch =>
    rw [Expr.nodes, formed_cons] at h
    refine .after (lowerValues_emits args) fun values => .emitCall dispatch values ?_
    rw [hcx, ← h.1]
    exact hv
  | .call i g (some receiver) args dispatch =>
    rw [Expr.nodes, formed_cons] at h
    refine .after (.needed _ (lowerExpr_emits receiver)) fun v => ?_
    refine .after (lowerValues_emits args) fun values => .emitCall dispatch _ ?_
    rw [hcx, ← h.1]
    exact hv
  | .cond i condition thenBranch none =>
    rw [Expr.nodes, formed_cons] at h
    have hvoid : i.ty = .void := h.1
    simp [Expr.ty, Expr.info, hvoid, Ty.isVoid] at hv
  | .cond i condition thenBranch (some elseBranch) =>
    exact .emitConditional (.needed _ (lowerExpr_emits condition))
      (.scopedResult _ (lowerBlock_emits thenBranch))
      (.scopedResult _ (lowerBlock_emits elseBranch)) hv
  | .block i body =>
    rw [Expr.nodes, formed_cons] at h
    have hty : i.ty = body.ty := h.1
    have hb := lowerBlock_yields hcx body h.2 (.inl (hty ▸ hv))
    have he : Emits (lowerBlock cx body) := lowerBlock_emits body
    exact .withResult _ (fun _ => .own _) (.scopedResult _ he) (.scopedResult _ he hb)
  | .error _ => exact .throw _

theorem lowerBlock_yields (hcx : cx.program = p) (b : Checked.Block) (h : Formed p b.nodes)
    (hv : b.ty.isVoid = false ∨ b.diverges) : Yields (lowerBlock cx b) := by
  obtain hty | hd := hv
  · match b with
    | .mk stmts none ty d span =>
      rw [Block.nodes, formed_cons] at h
      have hvoid : ty = .void := h.1.1
      simp [Checked.Block.ty, hvoid, Ty.isVoid] at hty
    | .mk stmts (some tail) ty d span =>
      rw [Block.nodes, formed_cons, formed_append] at h
      obtain ⟨hform, -, htail⟩ := h
      have heq : ty = tail.ty := hform.1
      have hy := lowerExpr_yields hcx tail htail (heq ▸ hty)
      exact .after (lowerStmts_emits stmts) fun _ => .unlessDead hy
  · exact .of_dies (lowerBlock_dies b h hd)

end

end

end ObjectLang.Simulation
