import ObjectLang.Proofs.Evaluation

/-! # Evaluation with counted references

The evaluation of checked trees in which references are retained and released as the code does it.
The references that the function owns wait in scopes: leaving a scope releases what waits in it, and
a return releases what waits anywhere.
-/

namespace ObjectLang.Evaluation

open Syntax Checked Code Memory Execution Eval

/-- An owned reference that waits for its release. -/
inductive Holder where
  | value (x : Value)
  /-- Whatever the local holds when the scope is left. -/
  | slot (id : LocalId)
  deriving DecidableEq, Repr, Inhabited

/-- A store with the scopes of a function, the innermost first. -/
structure Managed extends Store where
  scopes : List (List Holder) := []
  deriving Inhabited

namespace Managed

section

variable {α β : Type}

/-- An evaluation that leaves the scopes alone. -/
def lift (x : Eval Store α) : Eval Managed α := fun n s =>
  (x n s.toStore).map fun (e, t) => (e, { s with toStore := t })

@[simp] theorem lift_pure (a : α) : lift (pure a) = pure a := rfl

@[simp] theorem lift_fault (e : Fault) : lift (fault e : Eval Store α) = fault e := rfl

@[simp] theorem lift_ofExcept (e : Except Fault α) : lift (ofExcept e) = ofExcept e := by
  cases e <;> rfl

@[simp] theorem lift_bind (x : Eval Store α) (f : α → Eval Store β) :
    lift (x >>= f) = lift x >>= fun a => lift (f a) := by
  funext n s
  simp only [lift, bind_apply]
  cases x n s.toStore with
  | none => rfl
  | some p => obtain ⟨_ | _ | _, t⟩ := p <;> rfl

@[simp] theorem lift_map (f : α → β) (x : Eval Store α) : lift (f <$> x) = f <$> lift x :=
  lift_bind x fun a => pure (f a)

end

variable {α : Type} (sc : Scene)

/-! ## Counting and scopes -/

def retain (x : Value) : Eval Managed Unit := lift (perform sc (.builtin .retain) [x])

def release (x : Value) : Eval Managed Unit := lift (perform sc (.builtin .release) [x])

def retainIf (c : Bool) (x : Value) : Eval Managed Unit := if c then retain sc x else pure ()

def releaseHolder : Holder → Eval Managed Unit
  | .value x => release sc x
  | .slot id => do release sc (← lift (readLocal id))

def releaseAll : List Holder → Eval Managed Unit
  | [] => pure ()
  | x :: xs => do
    releaseHolder sc x
    releaseAll xs

/-- Lets a reference that the function owns wait in the innermost scope. -/
def own (x : Holder) : Eval Managed Unit := fun _ s =>
  match s.scopes with
  | scope :: outer => some (.value (), { s with scopes := (x :: scope) :: outer })
  | [] => some (.fault .mismatch, s)

def ownIf (c : Bool) (x : Holder) : Eval Managed Unit := if c then own x else pure ()

/-- Does something with a result, if there is one. -/
def onResult (value : Option Value) (f : Value → Eval Managed Unit) : Eval Managed Unit :=
  match value with
  | some x => f x
  | none => pure ()

/-- Takes a result of a type, which comes back owned, into the current scope. -/
def ownResult (ty : Ty) (value : Option Value) : Eval Managed Unit :=
  onResult value fun x => ownIf ty.isReference (.value x)

/-- Takes a fresh object or string, whose count is zero, into the current scope. -/
def ownAllocation (x : Value) : Eval Managed Unit := do
  retain sc x
  own (.value x)

def openScope : Eval Managed Unit := update fun s => { s with scopes := [] :: s.scopes }

/-- Takes the innermost scope out of the state. -/
def takeScope : Eval Managed (List Holder) := fun _ s =>
  match s.scopes with
  | scope :: outer => some (.value scope, { s with scopes := outer })
  | [] => some (.fault .mismatch, s)

def inScope (body : Eval Managed α) : Eval Managed α := do
  openScope
  let a ← body
  releaseAll sc (← takeScope)
  pure a

/-- Returns from the function; a returned reference is retained first. -/
def returnFrom (value : Option Value) : Eval Managed α := do
  onResult value (retainIf sc sc.function.returnType.isReference)
  releaseAll sc (← state).scopes.flatten
  leave value

/-! ## Parts of trees -/

def logical (op : BinaryOp) (left right : Eval Managed Value) : Eval Managed Value := do
  let a ← left
  let n ← ofExcept (intOf a)
  if op = .and then
    if n ≠ 0 then inScope sc right else pure a
  else
    if n ≠ 0 then pure a else inScope sc right

/-- A reference that a block results in is retained before the block's scope is left. -/
def scopedResult (ty : Ty) (body : Eval Managed (Option Value)) : Eval Managed (Option Value) :=
  inScope sc do
    let value ← body
    onResult value (retainIf sc ty.isReference)
    pure value

/-- An arm whose result is not used; an owned one is released. -/
def dropResult (ty : Ty) (value : Option Value) : Eval Managed Unit :=
  onResult value fun x => if ty.isReference then release sc x else pure ()

/-- An arm of a conditional of type `ty`. -/
def arm (ty : Ty) (body : Ty × Eval Managed (Option Value)) : Eval Managed (Option Value) := do
  let value ← body.2
  if ty.isVoid then do
    dropResult sc body.1 value
    pure none
  else
    pure value

/-- The arm for when the condition fails, which may be missing. -/
def otherwise (ty : Ty) (elseArm : Option (Ty × Eval Managed (Option Value))) :
    Eval Managed (Option Value) :=
  match elseArm with
  | some body => arm sc ty body
  | none => pure none

/-- A conditional has a result only if it has both arms. -/
def conditional (ty : Ty) (condition : Eval Managed Value)
    (thenArm : Ty × Eval Managed (Option Value))
    (elseArm : Option (Ty × Eval Managed (Option Value))) :
    Eval Managed (Option Value) := do
  let taken ← ofExcept (intOf (← inScope sc condition))
  let armTy := if elseArm.isSome then ty else .void
  let value ← if taken ≠ 0 then arm sc armTy thenArm else otherwise sc armTy elseArm
  ownResult ty value
  pure value

def whileLoop (condition : Eval Managed Value) (ty : Ty) (body : Eval Managed (Option Value)) :
    Eval Managed Unit :=
  loop (holds (inScope sc condition)) do dropResult sc ty (← body)

def callFunction (f : FuncId) (dispatch : Dispatch) (args : List Value) :
    Eval Managed (Option Value) := do
  let value ← lift (Evaluation.callFunction sc f dispatch args)
  ownResult (sc.module.program.functionAt f).returnType value
  pure value

def newText (text : String) : Eval Managed Value := do
  let x ← lift (Evaluation.newText sc text)
  ownAllocation sc x
  pure x

def newObject (c : ClassId) : Eval Managed Value := do
  let x ← lift (Evaluation.newObject sc c)
  ownAllocation sc x
  pure x

/-- Joined strings are new ones. -/
def operate (ty : Ty) (op : BinaryOp) (a b : Value) : Eval Managed Value := do
  let x ← lift (Evaluation.operate sc ty op a b)
  if ty = .string ∧ op = .add then ownAllocation sc x
  pure x

theorem operate_of_not_join {ty : Ty} {op : BinaryOp} (h : ¬(ty = .string ∧ op = .add))
    (a b : Value) : operate sc ty op a b = lift (Evaluation.operate sc ty op a b) := by
  simp [operate, h]

/-- A reference is retained before the one that it replaces is released. -/
def storeField (object : Value) (c : ClassId) (index : Nat) (x : Value) : Eval Managed Unit := do
  let field ← ofExcept (fieldPlace sc c index)
  if field.isReference then
    retain sc x
    release sc (← lift (loadAt sc field.type object field.offset))
  lift (storeAt object field.offset x)

def isReference (id : LocalId) : Bool := (sc.function.locals[id]?.map (·.ty.isReference)).getD false

def bind (id : LocalId) (x : Value) : Eval Managed Unit := do
  retainIf sc (isReference sc id) x
  lift (writeLocal id x)
  ownIf (isReference sc id) (.slot id)

def setVar (id : LocalId) (x : Value) : Eval Managed Unit := do
  if isReference sc id then
    retain sc x
    release sc (← lift (readLocal id))
  lift (writeLocal id x)

/-! ## Trees -/

mutual

def evalExpr : Expr → Eval Managed (Option Value)
  | .int i n => some <$> ofExcept (literal i.ty n)
  | .float _ bits => pure (some (.float bits))
  | .bool _ b => pure (some (.ofBool b))
  | .str _ text => some <$> newText sc text
  | .var _ id => some <$> lift (readLocal id)
  | .self _ =>
    match sc.self with
    | some v => pure (some v)
    | none => fault .mismatch
  | .field _ object c index => do
    let o ← needed (evalExpr object)
    some <$> lift (loadField sc o c index)
  | .binary _ op left right =>
    if op.isLogical then some <$> logical sc op (needed (evalExpr left)) (needed (evalExpr right))
    else do
      let a ← needed (evalExpr left)
      let b ← needed (evalExpr right)
      some <$> operate sc left.ty op a b
  | .unary _ op operand => do
    let a ← needed (evalExpr operand)
    some <$> ofExcept (unaryOperator operand.ty op a)
  | .call _ f none args dispatch => do
    let values ← evalValues args
    callFunction sc f dispatch values
  | .call _ f (some receiver) args dispatch => do
    let v ← needed (evalExpr receiver)
    let values ← evalValues args
    callFunction sc f dispatch (v :: values)
  | .new _ c init args =>
    some <$> construct (newObject sc c) init (evalValues args) fun f values =>
      lift (perform sc (.function f) values)
  | .cond i condition thenBranch none =>
    conditional sc i.ty (needed (evalExpr condition))
      (thenBranch.ty, scopedResult sc thenBranch.ty (evalBlock thenBranch)) none
  | .cond i condition thenBranch (some elseBranch) =>
    conditional sc i.ty (needed (evalExpr condition))
      (thenBranch.ty, scopedResult sc thenBranch.ty (evalBlock thenBranch))
      (some (elseBranch.ty, scopedResult sc elseBranch.ty (evalBlock elseBranch)))
  | .block _ body => do
    let value ← scopedResult sc body.ty (evalBlock body)
    ownResult body.ty value
    pure value
  | .variant _ _ discriminant => pure (some (.int (MachineType.i32.wrap discriminant)))
  | .error _ => fault .mismatch

def evalValues : List Expr → Eval Managed (List Value)
  | [] => pure []
  | e :: es => do
    let v ← needed (evalExpr e)
    let vs ← evalValues es
    pure (v :: vs)

def evalStmt : Stmt → Eval Managed Unit
  | .bind id none => if isReference sc id then bind sc id .null else pure ()
  | .bind id (some init) => do
    let v ← needed (evalExpr init)
    bind sc id v
  | .setVar id value => do
    let v ← needed (evalExpr value)
    setVar sc id v
  | .setField object c index value => do
    let o ← needed (evalExpr object)
    let v ← needed (evalExpr value)
    storeField sc o c index v
  | .expr value => do
    let _ ← evalExpr value
    pure ()
  | .ret none => returnFrom sc none
  | .ret (some value) => do
    let v ← needed (evalExpr value)
    returnFrom sc (some v)
  | .loop condition body =>
    whileLoop sc (needed (evalExpr condition)) body.ty (scopedResult sc body.ty (evalBlock body))

def evalStmts : List Stmt → Eval Managed Unit
  | [] => pure ()
  | s :: ss => do
    evalStmt s
    evalStmts ss

def evalBlock : Checked.Block → Eval Managed (Option Value)
  | .mk stmts none .. => do
    evalStmts stmts
    pure none
  | .mk stmts (some tail) .. => do
    evalStmts stmts
    evalExpr tail

end

/-! ## Functions -/

def evalFieldInits (object : Value) (c : ClassId) : List FieldInit → Eval Managed Unit
  | [] => pure ()
  | init :: rest => do
    let v ← needed (evalExpr sc init.value)
    storeField sc object c init.index v
    evalFieldInits object c rest

def evalDefaults : Eval Managed Unit :=
  if sc.function.kind = .init then
    match sc.self, sc.function.owner with
    | some object, some c => evalFieldInits sc object c sc.function.fieldInits
    | _, _ => fault .mismatch
  else pure ()

/-- A parameter that the function assigns is retained and waits for its release. -/
def takeParams (assigned : List LocalId) : List (ParamInst × Value) → Eval Managed Unit
  | [] => pure ()
  | (p, x) :: rest => do
    lift (writeLocal p.id x)
    if p.ty.isReference && assigned.contains p.id then
      retain sc x
      own (.slot p.id)
    takeParams assigned rest

def evalFunction (body : Checked.Block) (passed : List Value) : Eval Managed Empty := do
  lift (clearLocals sc.function.locals 0)
  openScope
  takeParams sc (blockAssigns body) (sc.function.params.zip passed)
  evalDefaults sc
  let tail ← evalBlock sc body
  returnFrom sc (if sc.function.returnType.isVoid then none else tail)

end Managed

end ObjectLang.Evaluation
