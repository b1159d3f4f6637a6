import ObjectLang.Check.Classes
import ObjectLang.Check.Body

/-! # Requests from outside

A request is served together with everything that it entails: in the end no class waits for another
and no body is left in the queue.
-/

namespace ObjectLang.Check

open Source Syntax Scope Names Diagnostic Checked

section

variable (src : Sources) (fuel : Nat)

/-- Checks queued bodies, which may queue others, until none is left. -/
def drain (request : ClassRequest) : Nat → Checking Unit
  | 0 => exhausted
  | steps + 1 => do
    let s ← get
    match s.bodies with
    | [] => return ()
    | task :: rest =>
      set { s with bodies := rest }
      checkBody src request task
      drain request steps

def serve {α : Type} (action : Checking α) : Checking α := do
  let result ← action
  completeOrphans src (requestClass src fuel) fuel
  drain src (requestClass src fuel) fuel
  return result

def checkClass (struct : StructureId) (typeArgs : List Ty) : Checking (Option ClassId) :=
  serve src fuel
    (requestClass src fuel struct typeArgs (src.tree.structureAt struct).decl.mark.span)

def checkFunctionInstance (key : FunctionKey) : Checking (Option FuncId) :=
  serve src fuel
    (requestFunction src (requestClass src fuel) key
    (src.tree.functionAt key.symbol).decl.mark.span)

/-- Only a class's method that is not generic can be virtual or override. -/
def mayDispatch (f : FunctionSymbol) : Bool :=
  f.kind == .method && f.decl.typeParams.isEmpty &&
    match f.owner with
    | .struct _ => true
    | .ns _ => false

def checkModifiers (f : FunctionSymbol) : Checking Unit := do
  if !mayDispatch f then
    if f.decl.isVirtual then
      report .misplacedVirtual f.decl.mark.span
    if f.decl.isOverride then
      report .misplacedOverride f.decl.mark.span

def checkProtocol (protocol : Protocol Mark) : Checking Unit := do
  if protocol.typeParams.isEmpty then
    protocol.methods.forM fun method => do
      method.params.forM fun p => do
        let _ ← resolveType src (requestClass src fuel) ∅ p.type
      match method.returnType with
      | some t =>
        let _ ← resolveType src (requestClass src fuel) ∅ t
      | none => pure ()

/-- Asks for a declared structure as far as it can be checked without type arguments. -/
def checkStructure (id : StructureId) : Checking Unit := do
  let decl := (src.tree.structureAt id).decl
  match decl with
  | .cls c =>
    if c.typeParams.isEmpty then
      let _ ← requestClass src fuel id [] decl.mark.span
  | .protocol p => checkProtocol src fuel p
  | .enum _ => pure ()

def requestSymbol (symbol : SymbolId) (receiver : Option Ty) : Checking Unit := do
  let _ ← requestFunction src (requestClass src fuel) { symbol, typeArgs := [], receiver }
    (src.tree.functionAt symbol).decl.mark.span

/-- Asks for a declared function as far as it can be checked without type arguments; the members of
structures come with these. -/
def checkSymbol (symbol : SymbolId) : Checking Unit := do
  let f := src.tree.functionAt symbol
  if f.decl.typeParams.isEmpty then
    match f.kind, f.decl.receiver with
    | .free, _ => requestSymbol src fuel symbol none
    | .extension, some clause =>
      let receiver ← resolveType src (requestClass src fuel) ∅ clause
      if !receiver.isUnknown then
        requestSymbol src fuel symbol (some receiver)
    | _, _ => pure ()

def checkAll : Checking Unit :=
  serve src fuel do
    src.tree.functions.toList.forM checkModifiers
    (List.range src.tree.structures.size).forM (checkStructure src fuel)
    (List.range src.tree.functions.size).forM (checkSymbol src fuel)

end

/-- A checked program with its diagnostics; what is said more than once is kept once. -/
structure Outcome where
  program : Program
  errors : List Error
  warnings : List Warning
  deriving Inhabited

def State.outcome (s : State) : Outcome where
  program := s.program
  errors := distinctErrors s.errors
  warnings := distinctWarnings s.warnings

end ObjectLang.Check
