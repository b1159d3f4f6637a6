import ObjectLang.Check.Signature
import ObjectLang.Check.Locals

/-! # Calls

Finding the callee, choosing type arguments and matching arguments with parameters.  How the
argument expressions themselves are checked is a parameter.
-/

namespace ObjectLang.Check

open Source Syntax Scope Names Diagnostic Checked

structure BodyContext where
  src : Sources
  request : ClassRequest
  env : BodyEnv
  returnType : Ty

/-- The arguments of a call. -/
structure Arguments where
  count : Nat
  plain : BodyCheck (List Checked.Expr)
  /-- Checks each argument against the type of its parameter. -/
  against : List Ty → BodyCheck (List Checked.Expr)

def errorExpr (span : Span) : Checked.Expr := .error ⟨.unknown, span⟩

section

variable (ctx : BodyContext)

def selfExpr (node : Nat) (span : Span) : Option Checked.Expr :=
  if ctx.src.names.hasReceiver node then
    ctx.env.selfType.map fun ty => .self ⟨ty, span⟩
  else
    none

def visibleNamespaces : List NamespaceId :=
  ctx.src.tree.chain ctx.env.ns ++ ctx.src.names.importsOf ctx.env.file

/-- A qualified name starts at the root; a single one is looked up in the visible namespaces. -/
def lookupFunction (outer : List String) (name : String) : Option SymbolId :=
  if outer.isEmpty then
    firstFunction ctx.src.tree name (visibleNamespaces ctx)
  else
    (ctx.src.tree.lookup outer).bind fun ns => ctx.src.tree.functionIn ns name

/-! ### Arguments -/

/-- Checks arguments against the types of the parameters, or each on its own when their numbers
differ. -/
def checkArguments (args : Arguments) (params : List Ty) (span : Span) :
    BodyCheck (List Checked.Expr) := do
  if args.count ≠ params.length then
    report (.argumentCount params.length args.count) span
    args.plain
  else
    args.against params

def expectArguments (checked : List Checked.Expr) (params : List Ty) (span : Span) :
    Checking Unit := do
  if checked.length ≠ params.length then
    report (.argumentCount params.length checked.length) span
  else
    (checked.zip params).forM fun (arg, param) => expectAssignable ctx.src arg.ty param arg.span

def matchArguments (checked : List Checked.Expr) (params : List Ty) (span : Span) :
    BodyCheck (List Checked.Expr) := do
  expectArguments ctx checked params span
  return checked

def finishArguments (function : FuncId) (args : Arguments) (checked : Option (List Checked.Expr))
    (span : Span) : BodyCheck (List Checked.Expr) := do
  let params := ((← getProgram).functionAt function).paramTypes
  match checked with
  | none => checkArguments args params span
  | some checked => matchArguments ctx checked params span

/-! ### Type arguments -/

/-- The first type parameter that nothing was found for, or the types of all. -/
def collectTypeArgs : List String → List (Option Ty) → Except String (List Ty)
  | p :: ps, found :: rest =>
    match found with
    | none => .error p
    | some t => (collectTypeArgs ps rest).map (t :: ·)
  | _, _ => .ok []

/-- Chooses the type arguments of a callee: as written, or inferred from the arguments, which are
then returned checked.  The arguments are checked in any case. -/
def chooseTypeArgs (decl : Function Mark) (explicit : List (TypeExpr Mark)) (args : Arguments)
    (span : Span) : BodyCheck (Option (List Ty × Option (List Checked.Expr))) := do
  if !explicit.isEmpty || decl.typeParams.isEmpty then
    if explicit.length ≠ decl.typeParams.length then
      report (.typeArgumentCount decl.typeParams.length explicit.length) span
      let _ ← args.plain
      return none
    else
      let chosen ← resolveTypes ctx.src ctx.request ctx.env.subst explicit
      if chosen.any (·.isUnknown) then
        let _ ← args.plain
        return none
      else
        return some (chosen, none)
  else
    let checked ← args.plain
    let pairs := (decl.params.map (·.type)).zip (checked.map (·.ty))
    match collectTypeArgs decl.typeParams
        (inferTypeArgs ctx.src (← getProgram) decl.typeParams pairs) with
    | .error param => do
      report (.cannotInfer param) span
      return none
    | .ok chosen => return some (chosen, some checked)

/-! ### Calls -/

def callExpr (function : FuncId) (receiver : Option Checked.Expr) (args : List Checked.Expr)
    (dispatch : Dispatch) (span : Span) : BodyCheck Checked.Expr := do
  let ty := ((← getProgram).functionAt function).returnType
  return .call ⟨ty, span⟩ function receiver args dispatch

def callFunction (symbol : SymbolId) (explicit : List (TypeExpr Mark)) (args : Arguments)
    (span : Span) : BodyCheck Checked.Expr := do
  let decl := (ctx.src.tree.functionAt symbol).decl
  match ← chooseTypeArgs ctx decl explicit args span with
  | none => return errorExpr span
  | some (typeArgs, checked) =>
    let key := { symbol, typeArgs, receiver := none }
    match ← (requestFunction ctx.src ctx.request key span : Checking _) with
    | none => return errorExpr span
    | some function =>
      let args ← finishArguments ctx function args checked span
      callExpr function none args .static span

/-- The instance that a call of a method runs or overrides, and the arguments if inference has
checked them. -/
def chooseMethod (owner : ClassId) (entry : MethodEntry) (explicit : List (TypeExpr Mark))
    (args : Arguments) (span : Span) :
    BodyCheck (Option (FuncId × Option (List Checked.Expr))) := do
  match entry with
  | .inst function =>
    if !explicit.isEmpty then
      report (.typeArgumentCount 0 explicit.length) span
    return some (function, none)
  | .generic symbol =>
    let decl := (ctx.src.tree.functionAt symbol).decl
    match ← chooseTypeArgs ctx decl explicit args span with
    | none => return none
    | some (typeArgs, checked) =>
      let key := { symbol, typeArgs, receiver := some (.object owner) }
      match ← (requestFunction ctx.src ctx.request key span : Checking _) with
      | none => return none
      | some function => return some (function, checked)

def freshClass : Checked.Expr → Option ClassId
  | .new _ cls _ _ => some cls
  | _ => none

/-- A call of a method found in the class `owner`.  A method with a slot is called through the
receiver's table, except on an object that has just been made, whose class is known. -/
def callMethod (receiver : Checked.Expr) (owner : ClassId) (entry : MethodEntry)
    (explicit : List (TypeExpr Mark)) (args : Arguments) (span : Span) :
    BodyCheck Checked.Expr := do
  match ← chooseMethod ctx owner entry explicit args span with
  | none => return errorExpr span
  | some (function, checked) =>
    let args ← finishArguments ctx function args checked span
    let p ← getProgram
    match (p.functionAt function).slot with
    | none => callExpr function (some receiver) args .static span
    | some slot =>
      match (freshClass receiver).bind fun c => (p.classAt c).vtable[slot]? with
      | some exact => callExpr exact (some receiver) args .static span
      | none => callExpr function (some receiver) args (.virtual slot) span

def matchExtension (decl : Function Mark) (receiver : Ty) : BodyCheck (Option (List Ty × Ty)) := do
  match decl.receiver with
  | none => return none
  | some clause =>
    match (inferTypeArgs ctx.src (← getProgram) decl.typeParams [(clause, receiver)]).mapM id with
    | none => return none
    | some typeArgs =>
      let ty ← resolveType ctx.src ctx.request (Subst.bind ∅ decl.typeParams typeArgs) clause
      if ty.isUnknown || !(← getThe State).isAssignable receiver ty then
        return none
      else
        return some (typeArgs, ty)

def findExtension (receiver : Ty) : List SymbolId → BodyCheck (Option FunctionKey)
  | [] => return none
  | symbol :: rest => do
    match ← matchExtension ctx (ctx.src.tree.functionAt symbol).decl receiver with
    | some (typeArgs, ty) => return some { symbol, typeArgs, receiver := some ty }
    | none => findExtension receiver rest

def callExtension (receiver : Checked.Expr) (method : String) (explicit : List (TypeExpr Mark))
    (args : Arguments) (span : Span) : BodyCheck Checked.Expr := do
  let candidates := (visibleNamespaces ctx).flatMap fun ns => ctx.src.tree.extensionsIn ns method
  match ← findExtension ctx receiver.ty candidates with
  | some key =>
    if !explicit.isEmpty then
      report (.typeArgumentCount 0 explicit.length) span
    match ← (requestFunction ctx.src ctx.request key span : Checking _) with
    | none => return errorExpr span
    | some function =>
      let args ← finishArguments ctx function args none span
      callExpr function (some receiver) args .static span
  | none =>
    report (.notFound ((← display ctx.src receiver.ty) ++ "." ++ method)) span
    let _ ← args.plain
    return errorExpr span

/-- A call by name: of a method of the class around it, else of a free function. -/
def checkCall (mark : Mark) (callee : List String) (explicit : List (TypeExpr Mark))
    (args : Arguments) : BodyCheck Checked.Expr := do
  match callee.reverse with
  | [] => return errorExpr mark.span
  | name :: outer =>
    let p ← getProgram
    let method := if outer.isEmpty then ctx.env.cls.bind (p.findMethod · name) else none
    match method with
    | some (owner, entry) =>
      match selfExpr ctx mark.node mark.span with
      | some receiver => callMethod ctx receiver owner entry explicit args mark.span
      | none =>
        report .misplacedSelf mark.span
        let _ ← args.plain
        return errorExpr mark.span
    | none =>
      match lookupFunction ctx outer.reverse name with
      | some symbol => callFunction ctx symbol explicit args mark.span
      | none =>
        report (.notFound (String.intercalate "." callee)) mark.span
        let _ ← args.plain
        return errorExpr mark.span

def checkMethodCall (mark : Mark) (receiver : Checked.Expr) (method : String)
    (explicit : List (TypeExpr Mark)) (args : Arguments) : BodyCheck Checked.Expr := do
  match receiver.ty with
  | .unknown =>
    let _ ← args.plain
    return errorExpr mark.span
  | .protocol _ =>
    reportFound ctx.src "a class or extension receiver" receiver.ty receiver.span
    let _ ← args.plain
    return errorExpr mark.span
  | .object c =>
    match (← getProgram).findMethod c method with
    | some (owner, entry) => callMethod ctx receiver owner entry explicit args mark.span
    | none => callExtension ctx receiver method explicit args mark.span
  | .primitive _ | .enum _ => callExtension ctx receiver method explicit args mark.span

end

end ObjectLang.Check
