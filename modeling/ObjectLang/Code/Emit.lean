import Std.Data.TreeSet
import ObjectLang.Code.Layout
import ObjectLang.Code.Instr

/-! # Emitting code

The state in which the code of one function is written, and the steps that write it.  References
that the function owns wait in scopes for their release: leaving a scope releases what waits in it,
and a return releases what waits anywhere.
-/

namespace ObjectLang.Code

open Checked

/-- What the code of a function is written against. -/
structure Context where
  program : Program
  ptr : MachineType
  layouts : List Layout
  functionNames : Std.TreeSet String
  function : FuncInst

namespace Context

def layout (cx : Context) (c : ClassId) : Except Error Layout :=
  match cx.layouts[c]? with
  | some l => .ok l
  | none => .error { kind := .notFound "class layout" (toString c) }

def field (cx : Context) (c : ClassId) (index : Nat) : Except Error FieldLayout := do
  (← cx.layout c).fieldAt index

def callee (cx : Context) (f : FuncId) : Except Error Callee :=
  if f < cx.program.functions.size then .ok (.function f)
  else .error { kind := .notFound "function" (toString f) }

def slot (cx : Context) (id : LocalId) : Except Error SlotId :=
  if id < cx.function.locals.length then .ok id
  else .error (.internal "local without stack slot" (some (toString id)))

def localType (cx : Context) (id : LocalId) : Except Error Ty :=
  match cx.function.locals[id]? with
  | some l => .ok l.ty
  | none => .error (.internal "unknown local" (some (toString id)))

/-- The receiver is the first value of the function. -/
def receiver? (cx : Context) : Option ValueId :=
  if cx.function.receiver.isSome then some 0 else none

end Context

/-- An owned reference that waits for its release. -/
inductive Pending where
  | value (v : ValueId)
  /-- Whatever the slot holds when the scope is left. -/
  | slot (s : SlotId)
  deriving DecidableEq, Repr, Inhabited

structure Emitter where
  blocks : Array Block := #[]
  order : Array BlockId := #[]
  current : BlockId := 0
  slots : Array MachineType := #[]
  nextValue : ValueId := 0
  /-- The innermost scope first, and in each scope the latest reference first. -/
  scopes : List (List Pending) := []
  /-- The current block is never reached: a return stands before it. -/
  dead : Bool := false
  /-- The distinct literals of the module so far. -/
  literals : Array String := #[]
  deriving Inhabited

abbrev Emit := StateT Emitter (Except Error)

/-! ## Values, blocks and slots -/

def isDead : Emit Bool := return (← get).dead

def setDead (dead : Bool) : Emit Unit := modify ({ · with dead })

def fresh : Emit ValueId :=
  modifyGet fun s => (s.nextValue, { s with nextValue := s.nextValue + 1 })

def emit (i : Instr) : Emit Unit :=
  modify fun s =>
    { s with
      order :=
        if (s.blocks.getD s.current default).code.isEmpty then s.order.push s.current else s.order
      blocks := s.blocks.modify s.current fun b => { b with code := b.code.push i } }

def define (instr : ValueId → Instr) : Emit ValueId := do
  let v ← fresh
  emit (instr v)
  return v

def newBlock : Emit BlockId :=
  modifyGet fun s => (s.blocks.size, { s with blocks := s.blocks.push {} })

def addParam (b : BlockId) (t : MachineType) : Emit ValueId := do
  let v ← fresh
  modify fun s =>
    { s with blocks := s.blocks.modify b fun k => { k with params := k.params ++ [(v, t)] } }
  return v

def switchTo (b : BlockId) : Emit Unit := modify ({ · with current := b })

def newSlot (t : MachineType) : Emit SlotId :=
  modifyGet fun s => (s.slots.size, { s with slots := s.slots.push t })

def null (cx : Context) : Emit ValueId := define (.intConst · cx.ptr 0)

/-- The zero of a type, which stands for a value on a path that is never taken. -/
def zero (cx : Context) (t : Ty) : Emit ValueId := do
  let m ← valueType cx.ptr t
  if m.isFloat then define (.floatConst · 0) else define (.intConst · m 0)

/-! ## Calls of builtin functions -/

def callBuiltin (b : Builtin) (args : List ValueId) : Emit ValueId :=
  define fun v => .call (some v) (.builtin b) args

def retain (v : ValueId) : Emit Unit := emit (.call none (.builtin .retain) [v])

def release (v : ValueId) : Emit Unit := emit (.call none (.builtin .release) [v])

/-! ## Scopes -/

def openScope : Emit Unit := modify fun s => { s with scopes := [] :: s.scopes }

/-- Lets a reference that the function owns wait in the innermost scope. -/
def own (p : Pending) : Emit Unit := do
  match (← get).scopes with
  | scope :: outer => modify ({ · with scopes := (p :: scope) :: outer })
  | [] => throw (.internal "register called with no active RC scope")

def releasePending (cx : Context) : Pending → Emit Unit
  | .value v => release v
  | .slot s => do release (← define (.slotLoad · cx.ptr s))

def releaseAll (cx : Context) (ps : List Pending) : Emit Unit := ps.forM (releasePending cx)

/-- Leaves the innermost scope.  On a dead path nothing is written: the return before it released
every scope. -/
def closeScope (cx : Context) : Emit Unit := do
  match (← get).scopes with
  | scope :: outer =>
    modify ({ · with scopes := outer })
    unless ← isDead do releaseAll cx scope
  | [] => throw (.internal "RC scope stack underflow")

def inScope {α : Type} (cx : Context) (body : Emit α) : Emit α := do
  openScope
  let a ← body
  closeScope cx
  return a

/-- Takes a fresh object or string, whose count is zero, into the current scope. -/
def ownAllocation (v : ValueId) : Emit Unit := do
  retain v
  own (.value v)

/-! ## Control flow -/

def closeDead : Emit Unit := do
  if ← isDead then emit .trap

/-- Returns from the function.  Every scope is released; a returned reference is retained first, so
that the caller owns it.  What follows goes into a block that is never reached. -/
def emitReturn (cx : Context) (value : Option ValueId) : Emit Unit := do
  if let some v := value then
    if cx.function.returnType.isReference then retain v
  releaseAll cx (← get).scopes.flatten
  emit (.ret value)
  switchTo (← newBlock)
  setDead true

/-! ## Data -/

/-- The number of a literal; equal literals share one. -/
def literalNumber (cx : Context) (text : String) : Emit Nat := do
  let literals := (← get).literals
  match literals.findIdx? (· == text) with
  | some k => return k
  | none =>
    if cx.functionNames.contains (literalName literals.size) then throw .clash
    modify ({ · with literals := literals.push text })
    return literals.size

/-- Stores into a field.  A reference is retained before the one that it replaces is released. -/
def storeField (cx : Context) (object : ValueId) (c : ClassId) (index : Nat) (value : ValueId) :
    Emit Unit := do
  let field ← cx.field c index
  if field.isReference then
    retain value
    release (← define (.load · field.type false object field.offset))
  emit (.store value object field.offset)

end ObjectLang.Code
