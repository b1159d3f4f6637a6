import ObjectLang.Proofs.Activation

/-! # Evaluation of checked trees

The meaning of a checked body without any code: operands from left to right, the receiver before the
arguments, the right operand of `&&` and `||` only when the left one does not decide, one arm of a
conditional, a loop as long as its condition holds, and a return that leaves the whole function.
Nothing is counted.  Calls, also those of builtin functions, are answered by a parameter.
-/

namespace ObjectLang.Evaluation

open Syntax Checked Code Memory Execution

/-- How an evaluation ends. -/
inductive Ending (α : Type) where
  | value (a : α)
  /-- A return left the function. -/
  | returned (x : Option Value)
  | fault (e : Fault)
  deriving Repr, Inhabited

/-- An evaluation that works on a state; `none` when a loop takes more rounds than the number given
allows. -/
def Eval (σ α : Type) : Type := Nat → σ → Option (Ending α × σ)

namespace Eval

variable {σ α β : Type}

instance : Monad (Eval σ) where
  pure a := fun _ s => some (.value a, s)
  bind x f := fun n s =>
    match x n s with
    | none => none
    | some (.value a, t) => f a n t
    | some (.returned v, t) => some (.returned v, t)
    | some (.fault e, t) => some (.fault e, t)

theorem bind_apply (x : Eval σ α) (f : α → Eval σ β) (n : Nat) (s : σ) :
    (x >>= f) n s = match x n s with
      | none => none
      | some (.value a, t) => f a n t
      | some (.returned v, t) => some (.returned v, t)
      | some (.fault e, t) => some (.fault e, t) := rfl

theorem map_apply (f : α → β) (x : Eval σ α) (n : Nat) (s : σ) :
    (f <$> x) n s = match x n s with
      | none => none
      | some (.value a, t) => some (.value (f a), t)
      | some (.returned v, t) => some (.returned v, t)
      | some (.fault e, t) => some (.fault e, t) := rfl

instance : LawfulMonad (Eval σ) :=
  .mk' (Eval σ)
    (fun x => by
      funext n s
      rw [map_apply]
      match x n s with
      | none | some (.value _, _) | some (.returned _, _) | some (.fault _, _) => rfl)
    (fun _ _ => rfl)
    (fun x f g => by
      funext n s
      simp only [bind_apply]
      match x n s with
      | none | some (.value _, _) | some (.returned _, _) | some (.fault _, _) => rfl)

def fault (e : Fault) : Eval σ α := fun _ s => some (.fault e, s)

def leave (x : Option Value) : Eval σ α := fun _ s => some (.returned x, s)

def state : Eval σ σ := fun _ s => some (.value s, s)

def update (f : σ → σ) : Eval σ Unit := fun _ s => some (.value (), f s)

def ofExcept : Except Fault α → Eval σ α
  | .ok a => pure a
  | .error e => fault e

/-- Reads the state and leaves it as it is. -/
def inspect (e : σ → Except Fault α) : Eval σ α := fun n s => ofExcept (e s) n s

theorem ofExcept_bind (x : Except Fault α) (f : α → Except Fault β) :
    (ofExcept (x >>= f) : Eval σ β) = ofExcept x >>= fun a => ofExcept (f a) := by
  cases x <;> rfl

/-- So many rounds at most, each after a test that holds. -/
def iterate (test : Eval σ Bool) (round : Eval σ Unit) : Nat → Eval σ Unit
  | 0 => fun _ _ => none
  | k + 1 => do
    if ← test then
      round
      iterate test round k

/-- Rounds until the test fails. -/
def loop (test : Eval σ Bool) (round : Eval σ Unit) : Eval σ Unit := fun n => iterate test round n n

end Eval

open Eval

/-- What an evaluation of a function's tree refers to. -/
structure Scene where
  module : Module
  function : FuncInst
  calls : Calls
  /-- The receiver of the call that is evaluated. -/
  self : Option Value

/-- The locals of a function, the heap, and the calls that were made. -/
structure Store where
  locals : Std.TreeMap LocalId Value := ∅
  heap : Heap
  made : List (Callee × List Value) := []
  deriving Inhabited

/-! ## Operations on values -/

def intOf : Value → Except Fault Int
  | .int n => .ok n
  | _ => .error .mismatch

def floatOf : Value → Except Fault Float
  | .float bits => .ok (.ofBits bits)
  | _ => .error .mismatch

def codeOf : Value → Except Fault Callee
  | .code c => .ok c
  | _ => .error .mismatch

/-- An integer literal is a number of its type. -/
def literal (ty : Ty) (n : Int) : Except Fault Value :=
  match valueType .i64 ty with
  | .ok t => .ok (if t.isFloat then .float (Float.ofInt n).toBits else .int (t.wrap n))
  | .error _ => .error .mismatch

def onInts (a b : Value) (f : Int → Int → Except Fault Value) : Except Fault Value := do
  f (← intOf a) (← intOf b)

/-- Division goes towards zero; it traps on zero and when the quotient is out of range. -/
def quotient (t : MachineType) (m n : Int) : Except Fault Value :=
  if n = 0 ∨ (m = t.least ∧ n = -1) then .error .trap else .ok (.int (m.tdiv n))

def remainder (m n : Int) : Except Fault Value :=
  if n = 0 then .error .trap else .ok (.int (m.tmod n))

def floatArithmetic (op : FloatOp) (a b : Value) : Except Fault Value :=
  return .float (floatOp op (← floatOf a) (← floatOf b)).toBits

def floatWhole (a : Value) : Except Fault Value := return .float (truncate (← floatOf a)).toBits

/-- `a - trunc (a / b) * b`, rounded after each operation. -/
def floatRemainder (a b : Value) : Except Fault Value := do
  let quotient ← floatArithmetic .div a b
  let whole ← floatWhole quotient
  let product ← floatArithmetic .mul whole b
  floatArithmetic .sub a product

def floatComparison (c : Comparison) (a b : Value) : Except Fault Value :=
  return .ofBool (compareFloats c (← floatOf a) (← floatOf b))

/-- An operator on two words of a type: sums, differences and products wrap, and words are equal
when they are identical. -/
def wordOperator (t : MachineType) (op : BinaryOp) (a b : Value) : Except Fault Value :=
  match op with
  | .add => onInts a b fun m n => .ok (.int (t.wrap (m + n)))
  | .sub => onInts a b fun m n => .ok (.int (t.wrap (m - n)))
  | .mul => onInts a b fun m n => .ok (.int (t.wrap (m * n)))
  | .div => onInts a b (quotient t)
  | .rem => onInts a b remainder
  | .eq => .ok (.ofBool (a = b))
  | .ne => .ok (.ofBool (a ≠ b))
  | .lt => onInts a b fun m n => .ok (.ofBool (m < n))
  | .le => onInts a b fun m n => .ok (.ofBool (m ≤ n))
  | .gt => onInts a b fun m n => .ok (.ofBool (n < m))
  | .ge => onInts a b fun m n => .ok (.ofBool (n ≤ m))
  | .and | .or => .error .mismatch

def floatOperator (op : BinaryOp) (a b : Value) : Except Fault Value :=
  match op with
  | .add => floatArithmetic .add a b
  | .sub => floatArithmetic .sub a b
  | .mul => floatArithmetic .mul a b
  | .div => floatArithmetic .div a b
  | .rem => floatRemainder a b
  | .eq => floatComparison .eq a b
  | .ne => floatComparison .ne a b
  | .lt => floatComparison .lt a b
  | .le => floatComparison .le a b
  | .gt => floatComparison .gt a b
  | .ge => floatComparison .ge a b
  | .and | .or => .error .mismatch

def negated (a : Value) : Except Fault Value := return .ofBool ((← intOf a) == 0)

def unaryOperator (ty : Ty) (op : UnaryOp) (a : Value) : Except Fault Value :=
  match valueType .i64 ty with
  | .error _ => .error .mismatch
  | .ok t =>
    match op with
    | .neg =>
      if t.isFloat then return .float (-(← floatOf a)).toBits
      else return .int (t.wrap (-(← intOf a)))
    | .not => negated a

/-! ## Operations on the store -/

section

variable (sc : Scene)

def readLocal (id : LocalId) : Eval Store Value :=
  inspect fun s =>
    match s.locals[id]? with
    | some x => .ok x
    | none => .error .unsetSlot

def writeLocal (id : LocalId) (x : Value) : Eval Store Unit :=
  update fun s => { s with locals := s.locals.insert id x }

/-- A call whose result is not used. -/
def perform (callee : Callee) (args : List Value) : Eval Store Unit := fun _ s =>
  match sc.calls callee args s.heap with
  | .ok (_, h) => some (.value (), { s with heap := h, made := s.made ++ [(callee, args)] })
  | .error e => some (.fault e, s)

def ask (callee : Callee) (args : List Value) : Eval Store Value := fun _ s =>
  match sc.calls callee args s.heap with
  | .ok (some x, h) => some (.value x, { s with heap := h, made := s.made ++ [(callee, args)] })
  | .ok (none, _) => some (.fault .mismatch, s)
  | .error e => some (.fault e, s)

def loadAt (t : MachineType) (address : Value) (offset : Nat) : Eval Store Value :=
  inspect fun s => loadWord sc.module s.heap t address offset

def storeAt (address : Value) (offset : Nat) (x : Value) : Eval Store Unit := fun _ s =>
  match s.heap.store address offset x with
  | .ok h => some (.value (), { s with heap := h })
  | .error e => some (.fault e, s)

/-- Where a field stands in the objects of a class. -/
def fieldPlace (c : ClassId) (index : Nat) : Except Fault FieldLayout :=
  match sc.module.layouts[c]?.bind fun l => l.fields[index]? with
  | some field => .ok field
  | none => .error .mismatch

def loadField (object : Value) (c : ClassId) (index : Nat) : Eval Store Value := do
  let field ← ofExcept (fieldPlace sc c index)
  loadAt sc field.type object field.offset

def storeField (object : Value) (c : ClassId) (index : Nat) (x : Value) : Eval Store Unit := do
  let field ← ofExcept (fieldPlace sc c index)
  storeAt object field.offset x

def newText (text : String) : Eval Store Value :=
  ask sc (.builtin .stringNew)
    [.datum (.literal (sc.module.literals.toList.idxOf text)),
      .int (MachineType.i64.wrap text.utf8ByteSize)]

/-- A new object of a class; its fields are zero. -/
def newObject (c : ClassId) : Eval Store Value :=
  match sc.module.layouts[c]? with
  | none => fault .mismatch
  | some layout =>
    ask sc (.builtin .objectNew)
      [.int (MachineType.i32.wrap layout.size),
        if (sc.module.program.classAt c).vtable.isEmpty then .null else .datum (.vtable c),
        if layout.referenceOffsets.isEmpty then .null else .code (.drop c)]

/-- A new object, on which the initializer then runs. -/
def construct {σ : Type} (object : Eval σ Value) (init : Option FuncId) (args : Eval σ (List Value))
    (run : FuncId → List Value → Eval σ Unit) : Eval σ Value := do
  let o ← object
  match init with
  | none => pure o
  | some f =>
    let values ← args
    run f (o :: values)
    pure o

/-- What a call runs: the function itself, or the entry in the table of the receiver. -/
def calleeOf (function : FuncId) (dispatch : Dispatch) (args : List Value) : Eval Store Callee :=
  match dispatch with
  | .static => pure (.function function)
  | .virtual slot =>
    match args.head? with
    | none => fault .mismatch
    | some receiver => do
      let table ← loadAt sc .i64 receiver Layout.vtableOffset
      let entry ← loadAt sc .i64 table (slot * MachineType.i64.bytes)
      ofExcept (codeOf entry)

/-- A call whose result is of a type. -/
def callFor (ty : Ty) (callee : Callee) (args : List Value) : Eval Store (Option Value) :=
  if ty.isVoid then do
    perform sc callee args
    pure none
  else
    some <$> ask sc callee args

def callFunction (function : FuncId) (dispatch : Dispatch) (args : List Value) :
    Eval Store (Option Value) := do
  let callee ← calleeOf sc function dispatch args
  callFor sc (sc.module.program.functionAt function).returnType callee args

/-- An operator that is not logical, on operands of a type; strings are compared by their texts. -/
def operate (ty : Ty) (op : BinaryOp) (a b : Value) : Eval Store Value :=
  if ty = .string then
    match op with
    | .add => ask sc (.builtin .stringConcat) [a, b]
    | .eq => ask sc (.builtin .stringEq) [a, b]
    | .ne => do ofExcept (negated (← ask sc (.builtin .stringEq) [a, b]))
    | _ => fault .mismatch
  else
    match valueType .i64 ty with
    | .ok t => ofExcept (if t.isFloat then floatOperator op a b else wordOperator t op a b)
    | .error _ => fault .mismatch

end

/-! ## Trees -/

/-- The value of something that has to have one. -/
def needed {σ : Type} (x : Eval σ (Option Value)) : Eval σ Value := do
  match ← x with
  | some v => pure v
  | none => fault .mismatch

/-- A condition holds unless it is zero. -/
def holds {σ : Type} (x : Eval σ Value) : Eval σ Bool := do
  return (← ofExcept (intOf (← x))) ≠ 0

section

variable (sc : Scene)

def logical (op : BinaryOp) (left right : Eval Store Value) : Eval Store Value := do
  let a ← left
  let n ← ofExcept (intOf a)
  if op = .and then
    if n ≠ 0 then right else pure a
  else
    if n ≠ 0 then pure a else right

mutual

def evalExpr : Expr → Eval Store (Option Value)
  | .int i n => some <$> ofExcept (literal i.ty n)
  | .float _ bits => pure (some (.float bits))
  | .bool _ b => pure (some (.ofBool b))
  | .str _ text => some <$> newText sc text
  | .var _ id => some <$> readLocal id
  | .self _ =>
    match sc.self with
    | some v => pure (some v)
    | none => fault .mismatch
  | .field _ object c index => do
    let o ← needed (evalExpr object)
    some <$> loadField sc o c index
  | .binary _ op left right =>
    if op.isLogical then some <$> logical op (needed (evalExpr left)) (needed (evalExpr right))
    else do
      let a ← needed (evalExpr left)
      let b ← needed (evalExpr right)
      some <$> operate sc left.ty op a b
  | .unary _ op operand => do
    let a ← needed (evalExpr operand)
    some <$> ofExcept (unaryOperator operand.ty op a)
  | .call _ f none args dispatch => do
    let values ← evalValues args
    callFunction sc f dispatch values
  | .call _ f (some receiver) args dispatch => do
    let v ← needed (evalExpr receiver)
    let values ← evalValues args
    callFunction sc f dispatch (v :: values)
  | .new _ c init args =>
    some <$> construct (newObject sc c) init (evalValues args) fun f => perform sc (.function f)
  | .cond _ condition thenBranch none => do
    if ← holds (needed (evalExpr condition)) then
      let _ ← evalBlock thenBranch
    pure none
  | .cond i condition thenBranch (some elseBranch) => do
    let value ←
      if ← holds (needed (evalExpr condition)) then evalBlock thenBranch else evalBlock elseBranch
    if i.ty.isVoid then pure none else pure value
  | .block _ body => evalBlock body
  | .variant _ _ discriminant => pure (some (.int (MachineType.i32.wrap discriminant)))
  | .error _ => fault .mismatch

def evalValues : List Expr → Eval Store (List Value)
  | [] => pure []
  | e :: es => do
    let v ← needed (evalExpr e)
    let vs ← evalValues es
    pure (v :: vs)

def evalStmt : Stmt → Eval Store Unit
  | .bind id none =>
    if (sc.function.locals[id]?.map (·.ty.isReference)).getD false then writeLocal id .null
    else pure ()
  | .bind id (some init) => do
    let v ← needed (evalExpr init)
    writeLocal id v
  | .setVar id value => do
    let v ← needed (evalExpr value)
    writeLocal id v
  | .setField object c index value => do
    let o ← needed (evalExpr object)
    let v ← needed (evalExpr value)
    storeField sc o c index v
  | .expr value => do
    let _ ← evalExpr value
    pure ()
  | .ret none => leave none
  | .ret (some value) => do
    let v ← needed (evalExpr value)
    leave (some v)
  | .loop condition body =>
    loop (holds (needed (evalExpr condition))) do
      let _ ← evalBlock body
      pure ()

def evalStmts : List Stmt → Eval Store Unit
  | [] => pure ()
  | s :: ss => do
    evalStmt s
    evalStmts ss

def evalBlock : Checked.Block → Eval Store (Option Value)
  | .mk stmts none .. => do
    evalStmts stmts
    pure none
  | .mk stmts (some tail) .. => do
    evalStmts stmts
    evalExpr tail

end

/-! ## Functions -/

/-- Locals that hold references start as null. -/
def clearLocals : List LocalInst → LocalId → Eval Store Unit
  | [], _ => pure ()
  | l :: ls, id => do
    if l.ty.isReference then writeLocal id .null
    clearLocals ls (id + 1)

def takeParams : List (ParamInst × Value) → Eval Store Unit
  | [] => pure ()
  | (p, x) :: rest => do
    writeLocal p.id x
    takeParams rest

/-- The defaults of the fields, which an initializer stores into its receiver. -/
def evalFieldInits (object : Value) (c : ClassId) : List FieldInit → Eval Store Unit
  | [] => pure ()
  | init :: rest => do
    let v ← needed (evalExpr sc init.value)
    storeField sc object c init.index v
    evalFieldInits object c rest

/-- The defaults, if the function is an initializer. -/
def evalDefaults : Eval Store Unit :=
  if sc.function.kind = .init then
    match sc.self, sc.function.owner with
    | some object, some c => evalFieldInits sc object c sc.function.fieldInits
    | _, _ => fault .mismatch
  else pure ()

/-- The whole function; the value of the body's tail is its result. -/
def evalFunction (body : Checked.Block) (passed : List Value) : Eval Store Empty := do
  clearLocals sc.function.locals 0
  takeParams (sc.function.params.zip passed)
  evalDefaults sc
  let tail ← evalBlock sc body
  leave (if sc.function.returnType.isVoid then none else tail)

end

/-- The receiver is the first argument. -/
def Scene.ofCall (m : Module) (f : FuncInst) (calls : Calls) (args : List Value) : Scene where
  module := m
  function := f
  calls
  self := if f.receiver.isSome then args.head? else none

def passedArgs (f : FuncInst) (args : List Value) : List Value :=
  if f.receiver.isSome then args.drop 1 else args

end ObjectLang.Evaluation
