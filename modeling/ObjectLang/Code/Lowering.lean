import ObjectLang.Code.Emit

/-! # Code for checked trees

An expression becomes a value, or none if its type is `void`.  References that the function comes to
own on the way wait in the innermost scope.
-/

namespace ObjectLang.Code

open Syntax Checked

/-! ## The locals that a body assigns -/

mutual

def exprAssigns : Expr → List LocalId
  | .field _ object _ _ => exprAssigns object
  | .binary _ _ left right => exprAssigns left ++ exprAssigns right
  | .unary _ _ operand => exprAssigns operand
  | .call _ _ none args _ => exprsAssign args
  | .call _ _ (some receiver) args _ => exprAssigns receiver ++ exprsAssign args
  | .new _ _ _ args => exprsAssign args
  | .cond _ condition thenBranch none => exprAssigns condition ++ blockAssigns thenBranch
  | .cond _ condition thenBranch (some elseBranch) =>
    exprAssigns condition ++ blockAssigns thenBranch ++ blockAssigns elseBranch
  | .block _ body => blockAssigns body
  | _ => []

def exprsAssign : List Expr → List LocalId
  | [] => []
  | e :: es => exprAssigns e ++ exprsAssign es

def stmtAssigns : Stmt → List LocalId
  | .bind _ none => []
  | .bind _ (some init) => exprAssigns init
  | .setVar id value => id :: exprAssigns value
  | .setField object _ _ value => exprAssigns object ++ exprAssigns value
  | .expr value => exprAssigns value
  | .ret none => []
  | .ret (some value) => exprAssigns value
  | .loop condition body => exprAssigns condition ++ blockAssigns body

def stmtsAssign : List Stmt → List LocalId
  | [] => []
  | s :: ss => stmtAssigns s ++ stmtsAssign ss

/-- The locals that a block assigns after they were bound, at any depth. -/
def blockAssigns : Checked.Block → List LocalId
  | .mk stmts none .. => stmtsAssign stmts
  | .mk stmts (some tail) .. => stmtsAssign stmts ++ exprAssigns tail

end

/-! ## Parts of expressions -/

def needed (cx : Context) (e : Expr) (value : Emit (Option ValueId)) : Emit ValueId := do
  match ← value with
  | some v => return v
  | none =>
    if ← isDead then zero cx e.ty
    else throw (Error.locate { kind := .noMachineType "value" "void" } e.span)

def emitText (cx : Context) (text : String) : Emit ValueId := do
  let k ← literalNumber cx text
  let data ← define (.dataAddress · cx.ptr (.literal k))
  let length ← define (.intConst · cx.ptr (cx.ptr.wrap text.utf8ByteSize))
  let v ← callBuiltin .stringNew [data, length]
  ownAllocation v
  return v

def emitStringOp (op : BinaryOp) (a b : ValueId) : Emit ValueId := do
  match op with
  | .add =>
    let v ← callBuiltin .stringConcat [a, b]
    ownAllocation v
    return v
  | .eq => callBuiltin .stringEq [a, b]
  | .ne =>
    let eq ← callBuiltin .stringEq [a, b]
    define (.isZero · eq)
  | op => throw { kind := .unsupported "string operator" (some op.text) }

/-- The remainder of floats is `a - trunc (a / b) * b`. -/
def emitFloatOp (op : BinaryOp) (a b : ValueId) : Emit ValueId := do
  match op with
  | .add => define (.floatBinary · .add a b)
  | .sub => define (.floatBinary · .sub a b)
  | .mul => define (.floatBinary · .mul a b)
  | .div => define (.floatBinary · .div a b)
  | .rem =>
    let quotient ← define (.floatBinary · .div a b)
    let whole ← define (.floatTrunc · quotient)
    let product ← define (.floatBinary · .mul whole b)
    define (.floatBinary · .sub a product)
  | .eq => define (.floatCompare · .eq a b)
  | .ne => define (.floatCompare · .ne a b)
  | .lt => define (.floatCompare · .lt a b)
  | .le => define (.floatCompare · .le a b)
  | .gt => define (.floatCompare · .gt a b)
  | .ge => define (.floatCompare · .ge a b)
  | .and | .or => throw (.internal "logical operator on values")

/-- Equality of references is identity. -/
def emitIntOp (type : MachineType) (op : BinaryOp) (a b : ValueId) : Emit ValueId := do
  match op with
  | .add => define (.intBinary · .add type a b)
  | .sub => define (.intBinary · .sub type a b)
  | .mul => define (.intBinary · .mul type a b)
  | .div => define (.intBinary · .div type a b)
  | .rem => define (.intBinary · .rem type a b)
  | .eq => define (.intCompare · .eq a b)
  | .ne => define (.intCompare · .ne a b)
  | .lt => define (.intCompare · .lt a b)
  | .le => define (.intCompare · .le a b)
  | .gt => define (.intCompare · .gt a b)
  | .ge => define (.intCompare · .ge a b)
  | .and | .or => throw (.internal "logical operator on values")

def emitBinary (cx : Context) (operands : Ty) (op : BinaryOp) (a b : ValueId) : Emit ValueId := do
  if operands = .string then
    emitStringOp op a b
  else
    let type ← valueType cx.ptr operands
    if type.isFloat then emitFloatOp op a b else emitIntOp type op a b

def emitUnary (cx : Context) (operand : Ty) (op : UnaryOp) (a : ValueId) : Emit ValueId := do
  let type ← valueType cx.ptr operand
  match op with
  | .neg => if type.isFloat then define (.floatNeg · a) else define (.intNeg · type a)
  | .not => define (.isZero · a)

/-- `&&` and `||`: the right operand runs only when the left one does not decide, in a scope of its
own. -/
def emitLogical (cx : Context) (op : BinaryOp) (left right : Emit ValueId) : Emit ValueId := do
  let a ← left
  let rhs ← newBlock
  let merge ← newBlock
  let result ← addParam merge .i8
  let decided : Target := { block := merge, arg := some a }
  if op = .and then emit (.branch a { block := rhs } decided)
  else emit (.branch a decided { block := rhs })
  switchTo rhs
  let wasDead ← isDead
  let b ← inScope cx right
  emit (.jump { block := merge, arg := some b })
  setDead wasDead
  switchTo merge
  return result

/-- A reference that a block results in is retained before the block's scope is left, so that it
comes back owned. -/
def scopedResult (cx : Context) (ty : Ty) (body : Emit (Option ValueId)) :
    Emit (Option ValueId) :=
  inScope cx do
    let value ← body
    if let some v := value then
      if ty.isReference && !(← isDead) then retain v
    return value

/-- One arm of a conditional.  Its result goes into the slot; without a slot it is dropped.  Tells
whether the arm diverges. -/
def emitArm (ty : Ty) (slot : Option SlotId) (merge : BlockId) (body : Emit (Option ValueId)) :
    Emit Bool := do
  let value ← body
  if ← isDead then
    closeDead
    return true
  match value, slot with
  | some v, some s => emit (.slotStore v s)
  | some v, none => if ty.isReference then release v
  | none, _ => pure ()
  emit (.jump { block := merge })
  return false

def emitConditional (cx : Context) (ty : Ty) (condition : Emit ValueId)
    (thenArm : Ty × Emit (Option ValueId)) (elseArm : Option (Ty × Emit (Option ValueId))) :
    Emit (Option ValueId) := do
  let c ← inScope cx condition
  let thenBlock ← newBlock
  let elseBlock ← newBlock
  let merge ← newBlock
  emit (.branch c { block := thenBlock } { block := elseBlock })
  let type ← if elseArm.isSome then machineType cx.ptr ty else pure none
  let slot ← type.mapM newSlot
  let wasDead ← isDead
  switchTo thenBlock
  let thenDiverges ← emitArm thenArm.1 slot merge thenArm.2
  setDead wasDead
  switchTo elseBlock
  let elseDiverges ←
    match elseArm with
    | some arm => emitArm arm.1 slot merge arm.2
    | none =>
      emit (.jump { block := merge })
      pure false
  switchTo merge
  setDead (wasDead || (thenDiverges && elseDiverges))
  match type, slot with
  | some t, some s =>
    let v ← define (.slotLoad · t s)
    if ty.isReference && !(← isDead) then own (.value v)
    return some v
  | _, _ => return none

/-- The condition is tested again before each round, in a scope of its own. -/
def emitLoop (cx : Context) (condition : Emit ValueId) (ty : Ty) (body : Emit (Option ValueId)) :
    Emit Unit := do
  let header ← newBlock
  let bodyBlock ← newBlock
  let exit ← newBlock
  emit (.jump { block := header })
  switchTo header
  let c ← inScope cx condition
  emit (.branch c { block := bodyBlock } { block := exit })
  switchTo bodyBlock
  let wasDead ← isDead
  let value ← body
  if ← isDead then
    closeDead
  else
    if let some v := value then
      if ty.isReference then release v
    emit (.jump { block := header })
  setDead wasDead
  switchTo exit

/-- Arguments are lent to the callee; a reference that it returns is owned by the caller. -/
def emitCall (cx : Context) (f : FuncId) (dispatch : Dispatch) (args : List ValueId) :
    Emit (Option ValueId) := do
  let callee := cx.program.functionAt f
  let call ←
    match dispatch with
    | .static => do
      let target ← cx.callee f
      pure fun v => Instr.call v target args
    | .virtual slot => do
      let some receiver := args.head? | throw (.internal "virtual call without receiver")
      let vtable ← define (.load · cx.ptr false receiver Layout.vtableOffset)
      let target ← define (.load · cx.ptr true vtable (slot * cx.ptr.bytes))
      let sig ← signature cx.ptr callee
      pure fun v => Instr.callIndirect v sig target args
  match ← machineType cx.ptr callee.returnType with
  | none =>
    emit (call none)
    return none
  | some _ =>
    let v ← define fun v => call (some v)
    if callee.returnType.isReference then own (.value v)
    return some v

def emitNew (cx : Context) (c : ClassId) (init : Option FuncId) (args : Emit (List ValueId)) :
    Emit ValueId := do
  let layout ← cx.layout c
  let size ← define (.intConst · .i32 (MachineType.i32.wrap layout.size))
  let vtable ←
    if (cx.program.classAt c).vtable.isEmpty then null cx
    else define (.dataAddress · cx.ptr (.vtable c))
  let drop ←
    if layout.referenceOffsets.isEmpty then null cx else define (.codeAddress · cx.ptr (.drop c))
  let object ← callBuiltin .objectNew [size, vtable, drop]
  ownAllocation object
  if let some f := init then
    let values ← args
    emit (.call none (← cx.callee f) (object :: values))
  return object

/-! ## Parts of statements -/

/-- A local without an initial value is null if it holds references; a slot that a loop uses again
may hold one that was released in the last round. -/
def emitBind (cx : Context) (id : LocalId) (init : Option (Emit ValueId)) : Emit Unit := do
  let slot ← cx.slot id
  let isReference := (← cx.localType id).isReference
  match init with
  | none =>
    if isReference then
      let v ← null cx
      retain v
      emit (.slotStore v slot)
      own (.slot slot)
  | some value =>
    let v ← value
    if isReference then retain v
    emit (.slotStore v slot)
    if isReference then own (.slot slot)

def emitSetVar (cx : Context) (id : LocalId) (value : Emit ValueId) : Emit Unit := do
  let slot ← cx.slot id
  let ty ← cx.localType id
  let v ← value
  if ty.isReference then
    retain v
    release (← define (.slotLoad · cx.ptr slot))
  emit (.slotStore v slot)

/-! ## Trees -/

mutual

def lowerExpr (cx : Context) : Expr → Emit (Option ValueId)
  | .int i n => do
    let type ← valueType cx.ptr i.ty
    if type.isFloat then some <$> define (.floatConst · (Float.ofInt n).toBits)
    else some <$> define (.intConst · type (type.wrap n))
  | .float _ bits => some <$> define (.floatConst · bits)
  | .bool _ b => some <$> define (.intConst · .i8 (if b then 1 else 0))
  | .str _ text => some <$> emitText cx text
  | .var _ id => do
    let slot ← cx.slot id
    let type ← valueType cx.ptr (← cx.localType id)
    some <$> define (.slotLoad · type slot)
  | .self _ => do
    let some v := cx.receiver?
      | throw (.internal "self outside a method" (some cx.function.linkName))
    return some v
  | .field _ object c index => do
    let v ← needed cx object (lowerExpr cx object)
    let field ← cx.field c index
    some <$> define (.load · field.type false v field.offset)
  | .binary _ op left right =>
    let a := needed cx left (lowerExpr cx left)
    let b := needed cx right (lowerExpr cx right)
    if op.isLogical then some <$> emitLogical cx op a b
    else do
      let a ← a
      let b ← b
      some <$> emitBinary cx left.ty op a b
  | .unary _ op operand => do
    let a ← needed cx operand (lowerExpr cx operand)
    some <$> emitUnary cx operand.ty op a
  | .call _ f none args dispatch => do
    let values ← lowerValues cx args
    emitCall cx f dispatch values
  | .call _ f (some receiver) args dispatch => do
    let v ← needed cx receiver (lowerExpr cx receiver)
    let values ← lowerValues cx args
    emitCall cx f dispatch (v :: values)
  | .new _ c init args => some <$> emitNew cx c init (lowerValues cx args)
  | .cond i condition thenBranch none =>
    emitConditional cx i.ty (needed cx condition (lowerExpr cx condition))
      (thenBranch.ty, scopedResult cx thenBranch.ty (lowerBlock cx thenBranch)) none
  | .cond i condition thenBranch (some elseBranch) =>
    emitConditional cx i.ty (needed cx condition (lowerExpr cx condition))
      (thenBranch.ty, scopedResult cx thenBranch.ty (lowerBlock cx thenBranch))
      (some (elseBranch.ty, scopedResult cx elseBranch.ty (lowerBlock cx elseBranch)))
  | .block _ body => do
    let value ← scopedResult cx body.ty (lowerBlock cx body)
    if let some v := value then
      if body.ty.isReference && !(← isDead) then own (.value v)
    return value
  | .variant _ _ discriminant =>
    some <$> define (.intConst · .i32 (MachineType.i32.wrap discriminant))
  | .error i => throw ((Error.internal "error expression reached codegen").locate i.span)

def lowerValues (cx : Context) : List Expr → Emit (List ValueId)
  | [] => return []
  | e :: es => do
    let v ← needed cx e (lowerExpr cx e)
    let vs ← lowerValues cx es
    return v :: vs

def lowerStmt (cx : Context) : Stmt → Emit Unit
  | .bind id none => emitBind cx id none
  | .bind id (some init) => emitBind cx id (some (needed cx init (lowerExpr cx init)))
  | .setVar id value => emitSetVar cx id (needed cx value (lowerExpr cx value))
  | .setField object c index value => do
    let o ← needed cx object (lowerExpr cx object)
    let v ← needed cx value (lowerExpr cx value)
    storeField cx o c index v
  | .expr value => discard (lowerExpr cx value)
  | .ret none => emitReturn cx none
  | .ret (some value) => do
    let v ← needed cx value (lowerExpr cx value)
    emitReturn cx (some v)
  | .loop condition body =>
    emitLoop cx (needed cx condition (lowerExpr cx condition)) body.ty
      (scopedResult cx body.ty (lowerBlock cx body))

/-- What follows a return is left out. -/
def lowerStmts (cx : Context) : List Stmt → Emit Unit
  | [] => return
  | s :: ss => do
    unless ← isDead do
      lowerStmt cx s
      lowerStmts cx ss

def lowerBlock (cx : Context) : Checked.Block → Emit (Option ValueId)
  | .mk stmts none .. => do
    lowerStmts cx stmts
    return none
  | .mk stmts (some tail) .. => do
    lowerStmts cx stmts
    if ← isDead then return none else lowerExpr cx tail

end

/-! ## Functions -/

def emitLocals (cx : Context) (locals : List LocalInst) : Emit Unit :=
  locals.forM fun l => do
    let type ← valueType cx.ptr l.ty
    let slot ← newSlot type
    if l.ty.isReference then
      let v ← null cx
      emit (.slotStore v slot)

/-- Parameters are lent by the caller.  One that the body assigns is retained, so that the
assignment can release it like any other local. -/
def emitParams (cx : Context) (assigned : List LocalId) (params : List (ParamInst × ValueId)) :
    Emit Unit :=
  params.forM fun (p, v) => do
    let slot ← cx.slot p.id
    emit (.slotStore v slot)
    if p.ty.isReference && assigned.contains p.id then
      retain v
      own (.slot slot)

def emitFieldInits (cx : Context) : Emit Unit := do
  match cx.receiver?, cx.function.owner with
  | some object, some c =>
    cx.function.fieldInits.forM fun init => do
      let v ← needed cx init.value (lowerExpr cx init.value)
      storeField cx object c init.index v
  | _, _ => throw (.internal "init without receiver" (some cx.function.linkName))

def emitFunction (cx : Context) (sig : Signature) : Emit Unit := do
  let f := cx.function
  let some body := f.body | throw (.internal "function without body" (some f.linkName))
  let entry ← newBlock
  let values ← sig.params.mapM (addParam entry)
  switchTo entry
  emitLocals cx f.locals
  openScope
  let passed := if f.receiver.isSome then values.drop 1 else values
  emitParams cx (blockAssigns body) (f.params.zip passed)
  if f.kind = .init then emitFieldInits cx
  let tail ← lowerBlock cx body
  unless ← isDead do
    emitReturn cx (if f.returnType.isVoid then none else tail)
  closeDead

end ObjectLang.Code
