import ObjectLang.Check.Calls

/-! # Bodies

Expressions, statements and blocks.  The expected type of an expression only steers the types of its
literals; whether the result fits is for the construct around it to say.
-/

namespace ObjectLang.Check

open Source Syntax Scope Names Diagnostic Checked

section

variable (ctx : BodyContext)

/-! ### Expressions without parts -/

/-- An integer literal takes the type that is expected, if that is a numeric one. -/
def literalType (expected : Option Ty) : Ty := (expected.filter (·.isNumeric)).getD .i64

def checkIdentifier (mark : Mark) (name : String) : BodyCheck Checked.Expr := do
  let frame ← get
  match frame.lookup name with
  | some id => return .var ⟨frame.typeOf id, mark.span⟩ id
  | none =>
    let p ← getProgram
    match ctx.env.cls.bind fun c => (p.findField c name).map fun f => (c, f),
        selfExpr ctx mark.node mark.span with
    | some (cls, field), some object => return .field ⟨field.ty, mark.span⟩ object cls field.index
    | _, _ =>
      report (.notFound name) mark.span
      return errorExpr mark.span

def checkSelf (mark : Mark) : BodyCheck Checked.Expr := do
  match selfExpr ctx mark.node mark.span with
  | some e => return e
  | none =>
    report .misplacedSelf mark.span
    return errorExpr mark.span

/-- A variant is numbered by its first place in the declaration. -/
def checkVariant (mark : Mark) (type : TypeExpr Mark) (name : String) :
    BodyCheck Checked.Expr := do
  match ← (resolveType ctx.src ctx.request ctx.env.subst type : Checking _) with
  | .enum id =>
    match (ctx.src.tree.structureAt id).decl.enum?.bind fun e => e.variants.idxOf? name with
    | some k => return .variant ⟨.enum id, mark.span⟩ id k
    | none =>
      report (.notFound (ctx.src.tree.structurePath id ++ "." ++ name)) mark.span
      return errorExpr mark.span
  | other =>
    reportFound ctx.src "an enum" other type.mark.span
    return errorExpr mark.span

/-! ### Expressions over checked parts -/

def operandsFit (s : State) (op : BinaryOp) (left right : Ty) : Bool :=
  if op.isArithmetic then
    (op == .add && left == .string && right == .string) || (left.isNumeric && left == right)
  else if op.isOrdering then
    left.isNumeric && left == right
  else if op.isEquality then
    (left == right || s.isAssignable left right || s.isAssignable right left) && !left.isVoid
  else
    left == .bool && right == .bool

def isKnown (left right : Checked.Expr) : Bool := !left.ty.isUnknown && !right.ty.isUnknown

def expectOperands (op : BinaryOp) (left right : Checked.Expr) (span : Span) : Checking Unit := do
  if isKnown left right && !operandsFit (← get) op left.ty right.ty then
    let l ← display ctx.src left.ty
    let r ← display ctx.src right.ty
    report (.unexpectedType ("operands valid for '" ++ op.text ++ "'") (l ++ " and " ++ r)) span

def finishBinary (op : BinaryOp) (left right : Checked.Expr) (span : Span) :
    BodyCheck Checked.Expr := do
  expectOperands ctx op left right span
  let ty := if op.isArithmetic then (if isKnown left right then left.ty else .unknown) else .bool
  return .binary ⟨ty, span⟩ op left right

def finishUnary (op : UnaryOp) (operand : Checked.Expr) (span : Span) : BodyCheck Checked.Expr := do
  match op with
  | .neg =>
    if !operand.ty.isNumeric then
      reportFound ctx.src "a numeric type" operand.ty operand.span
    return .unary ⟨operand.ty, span⟩ op operand
  | .not =>
    expectAssignable ctx.src operand.ty .bool operand.span
    return .unary ⟨.bool, span⟩ op operand

def finishField (object : Checked.Expr) (name : String) (span : Span) :
    BodyCheck Checked.Expr := do
  match object.ty with
  | .object cls =>
    match (← getProgram).findField cls name with
    | some field => return .field ⟨field.ty, span⟩ object cls field.index
    | none =>
      report (.notFound name) span
      return errorExpr span
  | .unknown => return errorExpr span
  | other =>
    reportFound ctx.src "a class instance" other object.span
    return errorExpr span

def checkNew (mark : Mark) (type : TypeExpr Mark) (args : Arguments) : BodyCheck Checked.Expr := do
  match ← (resolveType ctx.src ctx.request ctx.env.subst type : Checking _) with
  | .object cls =>
    let p ← getProgram
    let init := (p.classAt cls).init
    let params := match init with
      | some f => (p.functionAt f).paramTypes
      | none => []
    let args ← checkArguments args params mark.span
    return .new ⟨.object cls, mark.span⟩ cls init args
  | other =>
    reportFound ctx.src "a class" other type.mark.span
    let _ ← args.plain
    return errorExpr mark.span

/-- The type of a conditional: of the arm that does not diverge, else the one of the two types that
accepts the other. -/
def condType (thenBranch : Checked.Block) : Option Checked.Block → BodyCheck Ty
  | none => return .void
  | some elseBranch => do
    let s ← getThe State
    if thenBranch.diverges then
      return elseBranch.ty
    else if elseBranch.diverges then
      return thenBranch.ty
    else if s.isAssignable elseBranch.ty thenBranch.ty then
      return thenBranch.ty
    else if s.isAssignable thenBranch.ty elseBranch.ty then
      return elseBranch.ty
    else
      reportMismatch ctx.src thenBranch.ty elseBranch.ty elseBranch.span
      return thenBranch.ty

/-! ### Statements over checked parts -/

def bindingType (mark : Mark) (name : String) (declared : Option Ty) (init : Option Checked.Expr) :
    BodyCheck Ty := do
  match declared, init with
  | some ty, some e =>
    expectAssignable ctx.src e.ty ty e.span
    return ty
  | some ty, none => return ty
  | none, some e =>
    if e.ty.isVoid then
      reportFound ctx.src "a value" e.ty e.span
      return .unknown
    else
      return e.ty
  | none, none =>
    report (.cannotInfer name) mark.span
    return .unknown

def reportClash (name : String) (span : Span) : Frame.Clash → Checking Unit
  | .none => return ()
  | .shadows => warn (.shadowed name) span
  | .repeats => report (.alreadyDeclared name) span

def declareLocal (mark : Mark) (name : String) (ty : Ty) : BodyCheck LocalId := do
  let frame ← get
  let (id, frame') := frame.declare { name, ty, span := mark.span }
  set frame'
  reportClash name mark.span (frame.clash name)
  return id

/-- Only names and fields can be assigned to. -/
def isPlace : Syntax.Expr Mark → Bool
  | .ident _ _ | .field _ _ _ => true
  | _ => false

def refuseAssign (targetSpan : Span) (value : Checked.Expr) : BodyCheck Checked.Stmt := do
  report .notAssignable targetSpan
  return .expr value

def assignTo (place : Bool) (targetSpan : Span) (value : Checked.Expr) :
    Checked.Expr → BodyCheck Checked.Stmt
  | .var _ id => if place then pure (.setVar id value) else refuseAssign targetSpan value
  | .field _ object cls index =>
    if place then pure (.setField object cls index value) else refuseAssign targetSpan value
  | .error _ => pure (.expr value)
  | _ => refuseAssign targetSpan value

def finishAssign (place : Bool) (targetSpan : Span) (target value : Checked.Expr) :
    BodyCheck Checked.Stmt := do
  let stmt ← assignTo place targetSpan value target
  expectAssignable ctx.src value.ty target.ty value.span
  return stmt

def expectedReturn : Option Ty := if ctx.returnType.isVoid then none else some ctx.returnType

def finishReturn (mark : Mark) : Option Checked.Expr → BodyCheck Checked.Stmt
  | some value => do
    if ctx.returnType.isVoid then
      reportMismatch ctx.src .void value.ty value.span
    else
      expectAssignable ctx.src value.ty ctx.returnType value.span
    return .ret (some value)
  | none => do
    if !ctx.returnType.isVoid then
      reportMismatch ctx.src ctx.returnType .void mark.span
    return .ret none

/-- Warns at the first thing in a block that cannot be reached; says whether there was a warning. -/
def warnUnreachable (diverges warned : Bool) (span : Span) : BodyCheck Bool := do
  if diverges && !warned then
    warn .unreachable span
    return true
  else
    return warned

def warnTail (diverges warned : Bool) : Option (Syntax.Expr Mark) → BodyCheck Unit
  | none => return ()
  | some e => do
    let _ ← warnUnreachable diverges warned e.mark.span
    return ()

def resolveClause : Option (TypeExpr Mark) → BodyCheck (Option Ty)
  | none => return none
  | some t => do
    let ty ← (resolveType ctx.src ctx.request ctx.env.subst t : Checking _)
    return some ty

def isIntLiteral : Syntax.Expr Mark → Bool
  | .int _ _ => true
  | _ => false

/-! ### The walk -/

mutual

/-- Checks an expression.  An integer literal on the left of an operator takes the type of the right
operand. -/
def checkExpr (e : Syntax.Expr Mark) (expected : Option Ty) : BodyCheck Checked.Expr :=
  match e with
  | .int m n => return .int ⟨literalType expected, m.span⟩ n
  | .float m b => return .float ⟨.f64, m.span⟩ b
  | .bool m b => return .bool ⟨.bool, m.span⟩ b
  | .str m s => return .str ⟨.string, m.span⟩ s
  | .ident m name => checkIdentifier ctx m name
  | .self m => checkSelf ctx m
  | .binary m op left right =>
    if isIntLiteral left then do
      let right ← checkExpr right none
      let left ← checkExpr left (some right.ty)
      finishBinary ctx op left right m.span
    else do
      let left ← checkExpr left none
      let right ← checkExpr right (some left.ty)
      finishBinary ctx op left right m.span
  | .unary m op operand => do
    let operand ← checkExpr operand none
    finishUnary ctx op operand m.span
  | .call m callee typeArgs args =>
    checkCall ctx m callee typeArgs
      { count := args.length, plain := checkExprs args, against := checkExprsAgainst args }
  | .methodCall m receiver method typeArgs args => do
    let receiver ← checkExpr receiver none
    checkMethodCall ctx m receiver method typeArgs
      { count := args.length, plain := checkExprs args, against := checkExprsAgainst args }
  | .field m object name => do
    let object ← checkExpr object none
    finishField ctx object name m.span
  | .new m type args =>
    checkNew ctx m type
      { count := args.length, plain := checkExprs args, against := checkExprsAgainst args }
  | .cond m condition thenBranch elseBranch => do
    let condition ← checkExpr condition (some .bool)
    expectAssignable ctx.src condition.ty .bool condition.span
    let thenBranch ← checkBlock thenBranch expected
    let elseBranch ← checkBlockOption elseBranch (expected <|> some thenBranch.ty)
    let ty ← condType ctx thenBranch elseBranch
    return .cond ⟨ty, m.span⟩ condition thenBranch elseBranch
  | .block m body => do
    let body ← checkBlock body expected
    return .block ⟨body.ty, m.span⟩ body
  | .variant m type name => checkVariant ctx m type name

def checkExprs : List (Syntax.Expr Mark) → BodyCheck (List Checked.Expr)
  | [] => return []
  | e :: es => do
    let e ← checkExpr e none
    return e :: (← checkExprs es)

def checkExprsAgainst : List (Syntax.Expr Mark) → List Ty → BodyCheck (List Checked.Expr)
  | e :: es, ty :: tys => do
    let e ← checkExpr e (some ty)
    expectAssignable ctx.src e.ty ty e.span
    return e :: (← checkExprsAgainst es tys)
  | _, _ => return []

def checkExprOption (e : Option (Syntax.Expr Mark)) (expected : Option Ty) :
    BodyCheck (Option Checked.Expr) :=
  match e with
  | none => return none
  | some e => return some (← checkExpr e expected)

/-- Checks a statement.  The initial value of a local is checked before its name is bound. -/
def checkStmt (s : Syntax.Stmt Mark) : BodyCheck Checked.Stmt :=
  match s with
  | .bind m name type init => do
    let declared ← resolveClause ctx type
    let init ← checkExprOption init declared
    let ty ← bindingType ctx m name declared init
    return .bind (← declareLocal m name ty) init
  | .assign _ target value => do
    let target' ← checkExpr target none
    let value ← checkExpr value (some target'.ty)
    finishAssign ctx (isPlace target) target.mark.span target' value
  | .expr _ value => return .expr (← checkExpr value none)
  | .ret m value => do
    let value ← checkExprOption value (expectedReturn ctx)
    finishReturn ctx m value
  | .loop _ condition body => do
    let condition ← checkExpr condition (some .bool)
    expectAssignable ctx.src condition.ty .bool condition.span
    let body ← checkBlock body none
    return .loop condition body

/-- Checks statements one after the other; says in the end whether they diverge and whether a
warning about what follows was given. -/
def checkStmts (diverges warned : Bool) :
    List (Syntax.Stmt Mark) → BodyCheck (List Checked.Stmt × Bool × Bool)
  | [] => return ([], diverges, warned)
  | s :: ss => do
    let warned ← warnUnreachable diverges warned s.mark.span
    let s ← checkStmt s
    let (ss, diverges, warned) ← checkStmts (diverges || s.diverges) warned ss
    return (s :: ss, diverges, warned)

/-- Checks a block in a scope of its own; the value of its tail is its value. -/
def checkBlock (b : Syntax.Block Mark) (expected : Option Ty) : BodyCheck Checked.Block :=
  match b with
  | .mk m body tail => do
    modify (·.openBlock)
    let (body, diverges, warned) ← checkStmts false false body
    warnTail diverges warned tail
    let tail ← checkExprOption tail expected
    modify (·.closeBlock)
    let (ty, tailDiverges) := match tail with
      | some e => (e.ty, e.diverges)
      | none => (.void, false)
    return .mk body tail ty (diverges || tailDiverges) m.span

def checkBlockOption (b : Option (Syntax.Block Mark)) (expected : Option Ty) :
    BodyCheck (Option Checked.Block) :=
  match b with
  | none => return none
  | some b => return some (← checkBlock b expected)

end

/-! ### Function bodies -/

/-- A function that returns something has a value on every way through it. -/
def checkResult (body : Checked.Block) : Checking Unit := do
  if !ctx.returnType.isVoid && !ctx.returnType.isUnknown && !body.diverges then
    match body.tail with
    | some tail => expectAssignable ctx.src tail.ty ctx.returnType tail.span
    | none => reportMismatch ctx.src ctx.returnType .void body.span

def fieldDefault (p : Program) (field : FieldInst) : Option (Syntax.Expr Mark) := do
  let decl ← (ctx.src.tree.structureAt (p.classAt field.declaredIn).struct).decl.cls?
  let f ← decl.fields.find? (·.name == field.name)
  f.default

def withdraw (before : State) : Checking Unit :=
  modify fun s => { s with
    errors := s.errors.take before.errors.length
    withdrawn := s.withdrawn ++ s.errors.drop before.errors.length
    warnings := s.warnings.take before.warnings.length }

/-- Checks the default of a field under the type arguments of the class that declares it.  What is
wrong with an inherited default was reported there and is not reported again. -/
def checkFieldDefault (cls : ClassId) (field : FieldInst) : BodyCheck (Option FieldInit) := do
  let s ← getThe State
  match fieldDefault ctx s.program field with
  | none => return none
  | some default =>
    let subst := classSubst ctx.src s.program field.declaredIn
    modify (·.openBlock)
    let value ← checkExpr { ctx with env := { ctx.env with subst } } default (some field.ty)
    modify (·.closeBlock)
    expectAssignable ctx.src value.ty field.ty value.span
    if field.declaredIn ≠ cls then
      withdraw s
    return some { index := field.index, value }

def checkFieldDefaults (cls : ClassId) : List FieldInst → BodyCheck (List FieldInit)
  | [] => return []
  | field :: rest => do
    let init ← checkFieldDefault ctx cls field
    return init.toList ++ (← checkFieldDefaults cls rest)

def checkDefaults : FunctionKind → Option ClassId → BodyCheck (List FieldInit)
  | .init, some cls => do
    let fields := ((← getProgram).classAt cls).fields
    checkFieldDefaults ctx cls fields
  | _, _ => return []

def checkFunctionBody : Option (Syntax.Block Mark) → BodyCheck (Option Checked.Block)
  | none => return none
  | some b => do
    let checked ← checkBlock ctx b (expectedReturn ctx)
    checkResult ctx checked
    return some checked

def checkFunction (inst : FuncInst) (body : Option (Syntax.Block Mark)) :
    BodyCheck (List FieldInit × Option Checked.Block) := do
  let inits ← checkDefaults ctx inst.kind inst.owner
  return (inits, ← checkFunctionBody ctx body)

end

/-- A function with what was found of its body; one that is written without a body keeps the one
that it has. -/
def withBody (span : Span) (inits : List FieldInit) (checked : Option Checked.Block)
    (locals : List LocalInst) (inst : FuncInst) : FuncInst :=
  { inst with
    body := some ((checked <|> inst.body).getD (.empty span))
    locals, fieldInits := inits }

def checkBody (src : Sources) (request : ClassRequest) (task : BodyTask) : Checking Unit := do
  let s ← get
  let inst := s.program.functionAt task.function
  let body := inst.symbol.bind fun f => (src.tree.functionAt f).decl.body
  setDepth task.env.depth
  let ctx := { src, request, env := task.env, returnType := inst.returnType }
  let ((inits, checked), frame) ← (checkFunction ctx inst body).run (Frame.ofParams inst.locals)
  setDepth s.depth
  updateFunction task.function (withBody inst.span inits checked frame.locals)

end ObjectLang.Check
