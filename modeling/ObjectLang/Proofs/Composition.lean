import ObjectLang.Proofs.Loops
import ObjectLang.Proofs.Nodes

/-! # What lowering is put together from

The lowering of a tree is put together from a few steps of the emitter.  What all of these keep to
is thereby kept to by the lowering of every tree.
-/

namespace ObjectLang.Simulation

open Syntax Checked Code Execution Evaluation

/-- The emission is put together from such steps, and it returns without a value only if that is
allowed. -/
inductive Composed (cx : Context) (bare : Prop) : {α : Type} → Emit α → Prop where
  | pure {α : Type} (a : α) : Composed cx bare (Pure.pure a)
  | bind {α β : Type} {x : Emit α} {f : α → Emit β} (hx : Composed cx bare x)
      (hf : ∀ a, Composed cx bare (f a)) :
    Composed cx bare (x >>= f)
  | lift {α : Type} (x : Except Error α) : Composed cx bare (liftM x)
  | throw {α : Type} (e : Error) : Composed cx bare (MonadExcept.throw e : Emit α)
  | isDead {α : Type} {f : Bool → Emit α} (hf : ∀ d, Composed cx bare (f d)) :
      Composed cx bare (Code.isDead >>= f)
  | emit {i : Instr} (h : i.isTerminator = false) : Composed cx bare (Code.emit i)
  | define {g : ValueId → Instr} (h : ∀ v, (g v).isTerminator = false) :
      Composed cx bare (Code.define g)
  | own (p : Pending) : Composed cx bare (Code.own p)
  | literalNumber (text : String) : Composed cx bare (Code.literalNumber cx text)
  | inScope {α : Type} {x : Emit α} (hx : Composed cx bare x) : Composed cx bare (Code.inScope cx x)
  | emitReturn {v : Option ValueId} (hv : v = none → bare) : Composed cx bare (Code.emitReturn cx v)
  | emitLogical (op : BinaryOp) {x z : Emit ValueId} (hx : Composed cx bare x)
      (hz : Composed cx bare z) :
    Composed cx bare (Code.emitLogical cx op x z)
  | emitConditional (ty ty' : Ty) (orElse : Option (Ty × Emit (Option ValueId))) {x : Emit ValueId}
    {y : Emit (Option ValueId)} (hx : Composed cx bare x) (hy : Composed cx bare y)
    (he : ∀ arm, orElse = some arm → Composed cx bare arm.2) :
    Composed cx bare (Code.emitConditional cx ty x (ty', scopedResult cx ty' y)
      (orElse.map fun arm => (arm.1, scopedResult cx arm.1 arm.2)))
  | emitLoop (ty : Ty) {x : Emit ValueId} {y : Emit (Option ValueId)} (hx : Composed cx bare x)
    (hy : Composed cx bare y) : Composed cx bare (Code.emitLoop cx x ty (scopedResult cx ty y))

variable {cx : Context} {bare : Prop}

namespace Composed

theorem map {α β : Type} (f : α → β) {x : Emit α} (h : Composed cx bare x) :
    Composed cx bare (f <$> x) :=
  h.bind fun a => .pure (f a)

theorem ite {α : Type} {c : Prop} [Decidable c] {x y : Emit α} (hx : Composed cx bare x)
    (hy : Composed cx bare y) : Composed cx bare (if c then x else y) := by
  split
  · exact hx
  · exact hy

theorem zero (ty : Ty) : Composed cx bare (Code.zero cx ty) :=
  (lift _).bind fun _ => .ite (.define fun _ => rfl) (.define fun _ => rfl)

variable {x : Emit (Option ValueId)}

theorem needed (e : Expr) (h : Composed cx bare x) : Composed cx bare (Code.needed cx e x) := by
  refine h.bind fun r => ?_
  cases r with
  | some v => exact .pure v
  | none => exact .isDead fun d => .ite (.zero _) (.throw _)

/-- A result is only acted on where the path is not dead. -/
theorem withResult (c : Bool) {act : ValueId → Emit Unit} (hact : ∀ v, Composed cx bare (act v))
    (hx : Composed cx bare x) : Composed cx bare (do
      let value ← x
      if let some v := value then
        if c && !(← Code.isDead) then act v
      return value) := by
  refine hx.bind fun r => ?_
  cases r with
  | none => exact .pure _
  | some v => exact .isDead fun d => .ite ((hact v).bind fun _ => .pure _) (.pure _)

theorem scopedResult (ty : Ty) (h : Composed cx bare x) :
    Composed cx bare (Code.scopedResult cx ty x) := .inScope (.withResult _ (fun _ => .emit rfl) h)

theorem ownAllocation (v : ValueId) : Composed cx bare (Code.ownAllocation v) :=
  (emit rfl).bind fun _ => .own _

theorem emitText (text : String) : Composed cx bare (Code.emitText cx text) := by
  refine (literalNumber text).bind fun k => (define fun _ => rfl).bind fun _ => ?_
  refine (define fun _ => rfl).bind fun _ => (define fun _ => rfl).bind fun v => ?_
  exact (ownAllocation v).bind fun _ => .pure _

theorem emitBinary (ty : Ty) (op : BinaryOp) (a b : ValueId) :
    Composed cx bare (Code.emitBinary cx ty op a b) := by
  have hstring : Composed cx bare (emitStringOp op a b) := by
    cases op with
    | add => exact (define fun _ => rfl).bind fun v => (ownAllocation v).bind fun _ => .pure _
    | eq => exact .define fun _ => rfl
    | ne => exact (define fun _ => rfl).bind fun _ => .define fun _ => rfl
    | _ => exact .throw _
  have hfloat : Composed cx bare (emitFloatOp op a b) := by
    cases op with
    | and | or => exact .throw _
    | rem =>
      refine (define fun _ => rfl).bind fun _ => (define fun _ => rfl).bind fun _ => ?_
      exact (define fun _ => rfl).bind fun _ => .define fun _ => rfl
    | _ => exact .define fun _ => rfl
  have hint (t : MachineType) : Composed cx bare (emitIntOp t op a b) := by
    cases op with
    | and | or => exact .throw _
    | _ => exact .define fun _ => rfl
  exact .ite hstring ((lift _).bind fun t => .ite hfloat (hint t))

theorem emitUnary (ty : Ty) (op : UnaryOp) (a : ValueId) :
    Composed cx bare (Code.emitUnary cx ty op a) := by
  refine (lift _).bind fun t => ?_
  cases op with
  | neg => exact .ite (.define fun _ => rfl) (.define fun _ => rfl)
  | not => exact .define fun _ => rfl

theorem callResult {ptr : MachineType} {ty : Ty} {call : Option ValueId → Instr}
    (h : ∀ v, (call v).isTerminator = false) :
    Composed cx bare (Simulation.callResult ptr ty call) := by
  refine (lift _).bind fun t => ?_
  cases t with
  | none => exact (emit (h none)).bind fun _ => .pure _
  | some t =>
    refine (define fun v => h (some v)).bind fun v => ?_
    exact .ite ((own _).bind fun _ => .pure _) (.pure _)

theorem emitCall (f : FuncId) (dispatch : Dispatch) (ids : List ValueId) :
    Composed cx bare (Code.emitCall cx f dispatch ids) := by
  rw [emitCall_eq]
  cases dispatch with
  | static =>
    simp only [callTarget, bind_assoc, pure_bind]
    exact (lift _).bind fun _ => .callResult fun _ => rfl
  | virtual slot =>
    cases ids with
    | nil => exact .throw (.internal "virtual call without receiver")
    | cons v ids =>
      simp only [callTarget, List.head?_cons, bind_assoc, pure_bind]
      refine (define fun _ => rfl).bind fun _ => (define fun _ => rfl).bind fun _ => ?_
      exact (lift _).bind fun _ => .callResult fun _ => rfl

/-- Whether the class has a table and a drop function is decided when the code is written. -/
theorem emitNew (c : ClassId) (init : Option FuncId) {args : Emit (List ValueId)}
    (h : Composed cx bare args) : Composed cx bare (Code.emitNew cx c init args) := by
  have hobject {tail : ValueId → Emit ValueId} (htail : ∀ object, Composed cx bare (tail object))
      (size vtable drop : ValueId) : Composed cx bare (do
        let object ← callBuiltin .objectNew [size, vtable, drop]
        Code.ownAllocation object
        tail object) :=
    (define fun _ => rfl).bind fun object => (ownAllocation _).bind fun _ => htail object
  refine (lift _).bind fun layout => (define fun _ => rfl).bind fun size => ?_
  refine .ite ((define fun _ => rfl).bind fun vtable => ?_)
    ((define fun _ => rfl).bind fun vtable => ?_)
  all_goals
    refine .ite ((define fun _ => rfl).bind fun drop => ?_)
      ((define fun _ => rfl).bind fun drop => ?_)
  all_goals
    refine hobject (fun object => ?_) size vtable drop
    cases init with
    | none => exact .pure _
    | some f =>
      refine h.bind fun values => (lift _).bind fun callee => ?_
      exact (emit rfl).bind fun _ => .pure _

theorem storeField (o : ValueId) (c : ClassId) (index : Nat) (v : ValueId) :
    Composed cx bare (Code.storeField cx o c index v) := by
  refine (lift _).bind fun field => .ite ?_ (.emit rfl)
  refine (emit rfl).bind fun _ => (define fun _ => rfl).bind fun _ => ?_
  exact (emit rfl).bind fun _ => .emit rfl

theorem emitBind (id : LocalId) {init : Option (Emit ValueId)}
    (h : ∀ x, init = some x → Composed cx bare x) :
    Composed cx bare (Code.emitBind cx id init) := by
  refine (lift _).bind fun slot => (lift _).bind fun ty => ?_
  cases init with
  | none =>
    refine .ite ?_ (.pure _)
    refine (define fun _ => rfl).bind fun v => (emit rfl).bind fun _ => ?_
    exact (emit rfl).bind fun _ => .own _
  | some x =>
    have hstore (v : ValueId) : Composed cx bare (do
        Code.emit (.slotStore v slot)
        if ty.isReference then Code.own (.slot slot)) :=
      (emit rfl).bind fun _ => .ite (.own _) (.pure _)
    exact (h x rfl).bind fun v => .ite ((emit rfl).bind fun _ => hstore v) (hstore v)

theorem emitSetVar (id : LocalId) {value : Emit ValueId} (h : Composed cx bare value) :
    Composed cx bare (Code.emitSetVar cx id value) := by
  refine (lift _).bind fun slot => (lift _).bind fun ty => h.bind fun v => .ite ?_ (.emit rfl)
  refine (emit rfl).bind fun _ => (define fun _ => rfl).bind fun _ => ?_
  exact (emit rfl).bind fun _ => .emit rfl

end Composed

/-! ## Trees -/

/-- Nodes that return without a value are there only if that is allowed. -/
def Bares (bare : Prop) (ns : List Node) : Prop := .stmt (.ret none) ∈ ns → bare

theorem bares_cons {n : Node} {ns : List Node} :
    Bares bare (n :: ns) ↔ (n = .stmt (.ret none) → bare) ∧ Bares bare ns := by
  simp only [Bares, List.mem_cons, or_imp, eq_comm]

theorem bares_append {ns ms : List Node} :
    Bares bare (ns ++ ms) ↔ Bares bare ns ∧ Bares bare ms := by
  simp only [Bares, List.mem_append, or_imp]

mutual

/-- By induction on the tree, together with values, statements and blocks. -/
theorem lowerExpr_composed (e : Expr) (h : Bares bare e.nodes) :
    Composed cx bare (lowerExpr cx e) := by
  match e with
  | .int i n =>
    refine (Composed.lift _).bind fun t => .ite ?_ ?_
    · exact .map _ (.define fun _ => rfl)
    · exact .map _ (.define fun _ => rfl)
  | .float _ _ | .bool _ _ | .variant _ _ _ => exact .map _ (.define fun _ => rfl)
  | .str _ text => exact .map _ (.emitText text)
  | .var _ id =>
    refine (Composed.lift _).bind fun slot => (Composed.lift _).bind fun ty => ?_
    exact (Composed.lift _).bind fun t => .map _ (.define fun _ => rfl)
  | .self _ =>
    rw [lowerExpr]
    cases cx.receiver? with
    | none => exact .throw _
    | some v => exact .pure _
  | .field _ object c index =>
    rw [Expr.nodes, bares_cons] at h
    refine (Composed.needed _ (lowerExpr_composed object h.2)).bind fun v =>
      (Composed.lift _).bind fun field => ?_
    exact .map _ (.define fun _ => rfl)
  | .binary _ op left right =>
    rw [Expr.nodes, bares_cons, bares_append] at h
    rw [lowerExpr]
    have hl : Composed cx bare (needed cx left (lowerExpr cx left)) :=
      .needed left (lowerExpr_composed left h.2.1)
    have hr : Composed cx bare (needed cx right (lowerExpr cx right)) :=
      .needed right (lowerExpr_composed right h.2.2)
    exact .ite (.map _ (.emitLogical op hl hr))
      (hl.bind fun a => hr.bind fun b => .map _ (.emitBinary _ _ _ _))
  | .unary _ op operand =>
    rw [Expr.nodes, bares_cons] at h
    exact (Composed.needed _ (lowerExpr_composed operand h.2)).bind fun a =>
      .map _ (.emitUnary _ _ _)
  | .call _ f none args dispatch =>
    rw [Expr.nodes, bares_cons, bares_append] at h
    exact (lowerValues_composed args h.2.2).bind fun values => .emitCall f dispatch values
  | .call _ f (some receiver) args dispatch =>
    rw [Expr.nodes, bares_cons, bares_append] at h
    refine (Composed.needed _ (lowerExpr_composed receiver h.2.1)).bind fun v => ?_
    exact (lowerValues_composed args h.2.2).bind fun values => .emitCall f dispatch _
  | .new _ c init args =>
    rw [Expr.nodes, bares_cons] at h
    exact .map _ (.emitNew c init (lowerValues_composed args h.2))
  | .cond i condition thenBranch none =>
    rw [Expr.nodes, bares_cons, bares_append, bares_append] at h
    exact .emitConditional i.ty thenBranch.ty none (.needed _ (lowerExpr_composed condition h.2.1))
      (lowerBlock_composed thenBranch h.2.2.1) (by simp)
  | .cond i condition thenBranch (some elseBranch) =>
    rw [Expr.nodes, bares_cons, bares_append, bares_append] at h
    refine .emitConditional i.ty thenBranch.ty (some (elseBranch.ty, lowerBlock cx elseBranch))
      (.needed _ (lowerExpr_composed condition h.2.1)) (lowerBlock_composed thenBranch h.2.2.1) ?_
    rintro _ ⟨⟩
    exact lowerBlock_composed elseBranch h.2.2.2
  | .block _ body =>
    rw [Expr.nodes, bares_cons] at h
    exact .withResult _ (fun _ => .own _) (.scopedResult body.ty (lowerBlock_composed body h.2))
  | .error _ => exact .throw _

theorem lowerValues_composed (es : List Expr) (h : Bares bare (nodesOfExprs es)) :
    Composed cx bare (lowerValues cx es) := by
  match es with
  | [] => exact .pure _
  | e :: es =>
    rw [nodesOfExprs, bares_append] at h
    refine (Composed.needed _ (lowerExpr_composed e h.1)).bind fun v => ?_
    exact (lowerValues_composed es h.2).bind fun vs => .pure _

theorem lowerStmt_composed (s : Stmt) (h : Bares bare s.nodes) :
    Composed cx bare (lowerStmt cx s) := by
  match s with
  | .bind id none =>
    rw [lowerStmt]
    exact .emitBind id nofun
  | .bind id (some init) =>
    rw [Stmt.nodes, bares_cons] at h
    rw [lowerStmt]
    refine .emitBind id ?_
    rintro _ ⟨⟩
    exact .needed _ (lowerExpr_composed init h.2)
  | .setVar id value =>
    rw [Stmt.nodes, bares_cons] at h
    exact .emitSetVar id (.needed _ (lowerExpr_composed value h.2))
  | .setField object c index value =>
    rw [Stmt.nodes, bares_cons, bares_append] at h
    refine (Composed.needed _ (lowerExpr_composed object h.2.1)).bind fun o => ?_
    exact (Composed.needed _ (lowerExpr_composed value h.2.2)).bind fun v => .storeField _ _ _ _
  | .expr value =>
    rw [Stmt.nodes, bares_cons] at h
    exact .map _ (lowerExpr_composed value h.2)
  | .ret none =>
    rw [Stmt.nodes, bares_cons] at h
    rw [lowerStmt]
    exact .emitReturn fun _ => h.1 rfl
  | .ret (some value) =>
    rw [Stmt.nodes, bares_cons] at h
    exact (Composed.needed _ (lowerExpr_composed value h.2)).bind fun v => .emitReturn (by simp)
  | .loop condition body =>
    rw [Stmt.nodes, bares_cons, bares_append] at h
    exact .emitLoop body.ty (.needed _ (lowerExpr_composed condition h.2.1))
      (lowerBlock_composed body h.2.2)

theorem lowerStmts_composed (ss : List Stmt) (h : Bares bare (nodesOfStmts ss)) :
    Composed cx bare (lowerStmts cx ss) := by
  match ss with
  | [] => exact .pure _
  | s :: ss =>
    rw [nodesOfStmts, bares_append] at h
    refine .isDead fun d => .ite (.pure _) ?_
    exact (lowerStmt_composed s h.1).bind fun _ => lowerStmts_composed ss h.2

theorem lowerBlock_composed (b : Checked.Block) (h : Bares bare b.nodes) :
    Composed cx bare (lowerBlock cx b) := by
  match b with
  | .mk stmts none .. =>
    rw [Block.nodes, bares_cons, bares_append] at h
    exact (lowerStmts_composed stmts h.2.1).bind fun _ => .pure _
  | .mk stmts (some tail) .. =>
    rw [Block.nodes, bares_cons, bares_append] at h
    refine (lowerStmts_composed stmts h.2.1).bind fun _ => ?_
    exact .isDead fun d => .ite (.pure _) (lowerExpr_composed tail h.2.2)

end

/-! ## Functions -/

namespace Composed

theorem emitParams (assigned : List LocalId) (params : List (ParamInst × ValueId)) :
    Composed cx bare (Code.emitParams cx assigned params) := by
  induction params with
  | nil => exact .pure ()
  | cons param params ih =>
    refine Composed.bind ?_ fun _ => ih
    refine (lift _).bind fun slot => (emit rfl).bind fun _ => .ite ?_ (.pure ())
    exact (emit rfl).bind fun _ => .own _

/-- The defaults of fields are stored one after the other. -/
theorem fieldInits (object : ValueId) (c : ClassId) {inits : List FieldInit}
    (h : ∀ init ∈ inits, Bares bare init.value.nodes) :
    Composed cx bare (inits.forM fun init => do
      let v ← Code.needed cx init.value (lowerExpr cx init.value)
      Code.storeField cx object c init.index v) := by
  induction inits with
  | nil => exact .pure ()
  | cons init inits ih =>
    rw [List.forall_mem_cons] at h
    refine Composed.bind ?_ fun _ => ih h.2
    exact (needed _ (lowerExpr_composed init.value h.1)).bind fun v => .storeField _ _ _ _

theorem emitFieldInits (h : ∀ init ∈ cx.function.fieldInits, Bares bare init.value.nodes) :
    Composed cx bare (Code.emitFieldInits cx) := by
  rw [Code.emitFieldInits]
  split
  · exact fieldInits _ _ h
  · exact .throw _

end Composed

/-! ## Additions -/

variable {x : Emit (Option ValueId)}

theorem Emits.withResult (c : Bool) {act : ValueId → Emit Unit} (hact : ∀ v, Emits (act v))
    (hx : Emits x) :
    Emits (do
      let value ← x
      if let some v := value then
        if c && !(← Code.isDead) then act v
      return value) := by
  refine hx.bind fun r => ?_
  cases r with
  | none => exact .pure _
  | some v => exact .isDead fun d => .ite ((hact v).bind fun _ => .pure _) (.pure _)

theorem Emits.scopedResult (ty : Ty) (h : Emits x) :
    Emits (Code.scopedResult cx ty x) := .inScope (.withResult _ (fun _ => .emit _) h)

theorem Kept.scopedResult (ty : Ty) (h : Emits x) :
    Kept (Code.scopedResult cx ty x) := .inScope (.withResult _ (fun _ => .emit _) h)

/-- The emission only adds to what is there. -/
theorem Composed.emits {α : Type} {x : Emit α} (h : Composed cx bare x) : Emits x := by
  induction h with
  | pure a => exact .pure a
  | bind _ _ hx hf => exact hx.bind hf
  | lift x => exact .lift x
  | throw e => exact .throw e
  | isDead _ hf => exact .isDead hf
  | emit _ => exact .emit _
  | define _ => exact .define _
  | own p => exact .own p
  | literalNumber text => exact .literalNumber text
  | inScope _ hx => exact hx.inScope
  | emitReturn _ => exact .emitReturn _
  | emitLogical op _ _ hx hz =>
    rw [emitLogical_eq]
    exact hx.bind fun a => hz.shortcut op a
  | emitConditional ty ty' orElse _ _ _ hx hy he =>
    rw [emitConditional_eq]
    refine hx.inScope.bind fun c => .conditional ty c (.scopedResult _ hy)
      (.scopedResult _ hy) ?_ ?_
    · intro body hbody
      obtain ⟨arm, harm, rfl⟩ := Option.map_eq_some_iff.mp hbody
      exact .scopedResult _ (he arm harm)
    · intro body hbody
      obtain ⟨arm, harm, rfl⟩ := Option.map_eq_some_iff.mp hbody
      exact .scopedResult _ (he arm harm)
  | emitLoop ty _ _ hx hy => exact .emitLoop hx (.scopedResult _ hy) (.scopedResult _ hy)

theorem Emits.emitParams (assigned : List LocalId) (ps : List (ParamInst × ValueId)) :
    Emits (Code.emitParams cx assigned ps) :=
  Composed.emits (@Composed.emitParams cx True assigned ps)

theorem Emits.emitFieldInits : Emits (Code.emitFieldInits cx) :=
  Composed.emits (@Composed.emitFieldInits cx True fun _ _ _ => trivial)

/-- Whatever returns without a value: the code of a tree is only added. -/
theorem lowerExpr_emits (e : Expr) : Emits (lowerExpr cx e) :=
  Composed.emits (@lowerExpr_composed cx True e fun _ => trivial)

theorem lowerValues_emits (es : List Expr) : Emits (lowerValues cx es) :=
  Composed.emits (@lowerValues_composed cx True es fun _ => trivial)

theorem lowerStmt_emits (s : Stmt) : Emits (lowerStmt cx s) :=
  Composed.emits (@lowerStmt_composed cx True s fun _ => trivial)

theorem lowerStmts_emits (ss : List Stmt) : Emits (lowerStmts cx ss) :=
  Composed.emits (@lowerStmts_composed cx True ss fun _ => trivial)

theorem lowerBlock_emits (b : Checked.Block) : Emits (lowerBlock cx b) :=
  Composed.emits (@lowerBlock_composed cx True b fun _ => trivial)

end ObjectLang.Simulation
