import ObjectLang.Check.Types

/-! # Function instances

A function is instantiated with its signature; its body is put into the queue.
-/

namespace ObjectLang.Check

open Source Syntax Scope Names Diagnostic Checked

section

variable (src : Sources)

def classSubst (p : Program) (c : ClassId) : Subst :=
  let inst := p.classAt c
  Subst.bind ∅ (src.tree.structureAt inst.struct).decl.typeParams inst.typeArgs

/-- An exported function is linked under its qualified name; any other has its instance number
appended. -/
def linkName (p : Program) (f : FunctionSymbol) (id : FuncId) (typeArgs : List Ty)
    (owner : Option ClassId) (exported : Bool) : String :=
  let qualified := match owner, f.owner with
    | some c, _ => (p.classAt c).display ++ "." ++ f.name
    | none, .ns ns => src.tree.qualify ns f.name
    | none, .struct s => src.tree.structurePath s ++ "." ++ f.name
  if exported then qualified
  else qualified ++ p.displayTypeArgs src.tree typeArgs ++ "$" ++ toString id

def ownerNamespace : Owner → NamespaceId
  | .ns ns => ns
  | .struct s => (src.tree.structureAt s).ns

def selfTypeOf (kind : FunctionKind) (owner : Option ClassId) (receiver : Option Ty) : Option Ty :=
  match kind with
  | .method | .init => owner.map .object
  | .extension => receiver
  | .free | .requirement => none

/-- What type parameters stand for in the function of a key: those of its class and its own. -/
def functionSubst (p : Program) (key : FunctionKey) (owner : Option ClassId) : Subst :=
  let outer := match owner with
    | some c => classSubst src p c
    | none => ∅
  Subst.bind outer (src.tree.functionAt key.symbol).decl.typeParams key.typeArgs

def unsigned (key : FunctionKey) (owner : Option ClassId) : FuncInst :=
  let f := src.tree.functionAt key.symbol
  { symbol := some key.symbol, name := f.name, kind := f.kind, typeArgs := key.typeArgs
    receiver := key.receiver, returnType := .unknown, owner, span := f.decl.mark.span }

def signed (params : List (Param Mark)) (types : List Ty) (returnType : Ty) (linkName : String)
    (exported : Bool) (inst : FuncInst) : FuncInst :=
  { inst with
    params := (params.zip types).zipIdx.map fun ((param, ty), k) => ⟨param.name, ty, k⟩
    locals := (params.zip types).map fun (param, ty) => ⟨param.name, ty, param.mark.span⟩
    returnType, linkName, exported }

def bodyTask (key : FunctionKey) (owner : Option ClassId) (subst : Subst) (depth : Nat)
    (id : FuncId) : BodyTask :=
  let f := src.tree.functionAt key.symbol
  { function := id
    env := {
      subst, ns := ownerNamespace src f.owner, file := f.file, cls := owner
      selfType := selfTypeOf f.kind owner key.receiver
      depth := if key.typeArgs.isEmpty then depth else depth + 1 } }

variable (request : ClassRequest)

def resolveReturn (subst : Subst) : FunctionKind → Option (TypeExpr Mark) → Checking Ty
  | .init, _ | _, none => return .void
  | _, some t => resolveType src request subst t

/-- Makes the instance of a key.  It is in the tables before its signature is resolved, so that the
signature may lead back to it. -/
def instantiateFunction (key : FunctionKey) (owner : Option ClassId) : Checking FuncId := do
  let f := src.tree.functionAt key.symbol
  let outer ← get
  let subst := functionSubst src outer.program key owner
  let id ← openFunction key (unsigned src key owner)
  let types ← f.decl.params.mapM fun p => resolveType src request subst p.type
  let returnType ← resolveReturn src request subst f.kind f.decl.returnType
  let exported := f.kind == .free && key.typeArgs.isEmpty
  let name := linkName src (← getProgram) f id key.typeArgs owner exported
  updateFunction id (signed f.decl.params types returnType name exported)
  closeFunction key id
  if f.decl.body.isSome then
    queueBody (bodyTask src key owner subst outer.depth id)
  return id

def instantiateWithin (key : FunctionKey) (owner : Option ClassId) (span : Span) :
    Checking (Option FuncId) := do
  if !key.typeArgs.isEmpty && maxDepth ≤ (← get).depth then
    report (.tooDeep (src.tree.functionAt key.symbol).name maxDepth) span
    return none
  else
    return some (← instantiateFunction src request key owner)

/-- The instance of a member of a class, asked for without an object: if the class is not generic,
the member belongs to its only instance. -/
def requestMember (key : FunctionKey) (struct : StructureId) (span : Span) :
    Checking (Option FuncId) := do
  if !(src.tree.structureAt struct).decl.typeParams.isEmpty then
    return none
  else
    match ← request struct [] span with
    | none => return none
    | some c => do
      let key := { key with receiver := some (.object c) }
      match ← findFunction key with
      | some id => return some id
      | none => instantiateWithin src request key (some c) span

def requestFunction (key : FunctionKey) (span : Span) : Checking (Option FuncId) := do
  if let some id ← findFunction key then
    return some id
  let f := src.tree.functionAt key.symbol
  if f.kind = .requirement then
    return none
  else if key.typeArgs.length ≠ f.decl.typeParams.length then
    report (.typeArgumentCount f.decl.typeParams.length key.typeArgs.length) span
    return none
  else
    match f.owner, key.receiver with
    | .ns _, _ => instantiateWithin src request key none span
    | .struct _, some (.object c) => instantiateWithin src request key (some c) span
    | .struct s, _ => requestMember src request key s span

end

end ObjectLang.Check
