import ObjectLang.Check.State

/-! # Types during a check

Resolution of type expressions under a substitution, assignability, and the inference of type
arguments.  Resolving a class type asks for an instance of the class; how such a request is served
is a parameter here.
-/

namespace ObjectLang.Check

open Source Syntax Scope Names Diagnostic Checked

/-- Serves a request for an instance of a class declaration at given type arguments, made at a
span. -/
abbrev ClassRequest := StructureId → List Ty → Span → Checking (Option ClassId)

section

variable (src : Sources) (request : ClassRequest) (subst : Subst)

def applyStructure (s : StructureId) (args : List Ty) (span : Span) : Checking Ty := do
  let decl := (src.tree.structureAt s).decl
  if args.length ≠ decl.typeParams.length then
    report (.typeArgumentCount decl.typeParams.length args.length) span
    return .unknown
  else if args.any (·.isUnknown) then
    return .unknown
  else
    match decl.kind with
    | .cls =>
      match ← request s args span with
      | some c => return .object c
      | none => return .unknown
    | .protocol => return .protocol s
    | .enum => return .enum s

mutual

def resolveType : TypeExpr Mark → Checking Ty
  | .primitive _ p => return .primitive p
  | .named m _ args =>
    match src.names.target m.node with
    | .unknown => return .unknown
    | .typeParam name => do
      if !args.isEmpty then
        report (.typeArgumentCount 0 args.length) m.span
      return subst[name]?.getD .unknown
    | .struct s => do
      let args ← resolveTypes args
      applyStructure src request s args m.span

def resolveTypes : List (TypeExpr Mark) → Checking (List Ty)
  | [] => return []
  | t :: ts => do
    let t ← resolveType t
    return t :: (← resolveTypes ts)

end

end

/-! ### Assignability -/

/-- A value of type `source` can be stored where `target` is expected. -/
def State.isAssignable (s : State) (source target : Ty) : Bool :=
  source == target || source.isUnknown || target.isUnknown ||
    match source, target with
    | .object c, .object d => s.program.isSubclass c d
    | .object c, .protocol p =>
      (s.program.chain c).any fun a => (s.implementorsOf p).contains (s.program.classAt a).struct
    | _, _ => false

def expectAssignable (src : Sources) (found expected : Ty) (span : Span) : Checking Unit := do
  if !(← get).isAssignable found expected then
    reportMismatch src expected found span

/-! ### Inference of type arguments -/

section

variable (src : Sources) (p : Program) (params : List String)

mutual

/-- Matches a declared type against an actual one; the first binding of a parameter stays.  The
actual class may be a subclass of the declared one. -/
def unify (bindings : Subst) : TypeExpr Mark → Ty → Subst
  | .primitive _ _, _ => bindings
  | .named m _ args, actual =>
    if actual.isUnknown then
      bindings
    else
      match src.names.target m.node with
      | .typeParam name =>
        if params.contains name then bindings.insertIfNew name actual else bindings
      | .struct s =>
        match actual with
        | .object c =>
          match (p.chain c).find? fun a => (p.classAt a).struct == s with
          | some a => unifyList bindings args (p.classAt a).typeArgs
          | none => bindings
        | _ => bindings
      | .unknown => bindings

def unifyList (bindings : Subst) : List (TypeExpr Mark) → List Ty → Subst
  | t :: ts, actual :: actuals => unifyList (unify bindings t actual) ts actuals
  | _, _ => bindings

end

def inferTypeArgs (pairs : List (TypeExpr Mark × Ty)) : List (Option Ty) :=
  let bindings := pairs.foldl (fun b pair => unify src p params b pair.1 pair.2) (∅ : Subst)
  params.map fun name => bindings[name]?

end

end ObjectLang.Check
