import ObjectLang.Names.Resolution
import ObjectLang.Diagnostic.Report
import ObjectLang.Checked.Program

/-! # The state of a check

Checking is lazy.  A class or a function is instantiated when it is first asked for; its body waits
in a queue until the request from outside has been served, so that every signature is complete
before a body is looked at.
-/

namespace ObjectLang.Check

open Source Syntax Scope Names Diagnostic Checked

structure Sources where
  tree : Tree
  names : Resolution
  deriving Inhabited

abbrev Subst := Std.TreeMap String Ty

/-- Binds parameters to arguments by position; a parameter without an argument is unknown. -/
def Subst.bind (s : Subst) : List String → List Ty → Subst
  | [], _ => s
  | p :: ps, args => Subst.bind (s.insert p (args.headD .unknown)) ps args.tail

/-- Where the body of a function is checked from. -/
structure BodyEnv where
  subst : Subst
  ns : NamespaceId
  file : Nat
  cls : Option ClassId
  selfType : Option Ty
  depth : Nat
  deriving Inhabited

structure BodyTask where
  function : FuncId
  env : BodyEnv
  deriving Inhabited

/-- A class instance that is still to be built, at the depth of the request that made it. -/
structure Pending where
  cls : ClassId
  depth : Nat
  deriving DecidableEq, Repr, Inhabited

structure Waiting where
  ancestor : ClassId
  pending : Pending
  deriving DecidableEq, Repr, Inhabited

structure State where
  program : Program := {}
  errors : List Error := []
  /-- Errors about inherited field defaults, which were taken back. -/
  withdrawn : List Error := []
  warnings : List Warning := []
  /-- By protocol, the class declarations that were found to conform to it. -/
  implementors : Std.TreeMap StructureId (List StructureId) := ∅
  bodies : List BodyTask := []
  /-- The classes whose ancestors are being resolved, innermost first. -/
  resolving : List ClassId := []
  waiting : List Waiting := []
  depth : Nat := 0
  deepest : Nat := 0
  deriving Inhabited

def maxDepth : Nat := 64

/-- A step of a check; `none` means that the fuel ran out. -/
abbrev Checking := StateT State Option

def exhausted {α : Type} : Checking α := fun _ => none

def report (cause : ErrorCause) (span : Span) : Checking Unit :=
  modify fun s => { s with errors := s.errors ++ [{ cause, span }] }

def warn (cause : WarningCause) (span : Span) : Checking Unit :=
  modify fun s => { s with warnings := s.warnings ++ [{ cause, span }] }

def getProgram : Checking Program := return (← get).program

def modifyProgram (f : Program → Program) : Checking Unit :=
  modify fun s => { s with program := f s.program }

def updateClass (c : ClassId) (f : ClassInst → ClassInst) : Checking Unit :=
  modifyProgram (·.updateClass c f)

def updateFunction (i : FuncId) (f : FuncInst → FuncInst) : Checking Unit :=
  modifyProgram (·.updateFunction i f)

def setDepth (depth : Nat) : Checking Unit :=
  modify fun s => { s with depth, deepest := max s.deepest depth }

def findClass (key : ClassKey) : Checking (Option ClassId) := do
  let p ← getProgram
  let (entry, cache) := p.classCache.lookup key
  modifyProgram fun p => { p with classCache := cache }
  return entry.map (·.id)

def findFunction (key : FunctionKey) : Checking (Option FuncId) := do
  let p ← getProgram
  let (entry, cache) := p.functionCache.lookup key
  modifyProgram fun p => { p with functionCache := cache }
  return entry.map (·.id)

/-- Appends a class instance under its key, which is reserved until `closeClass`. -/
def openClass (key : ClassKey) (inst : ClassId → ClassInst) : Checking ClassId := do
  let id := (← getProgram).classes.size
  modifyProgram fun p =>
    { p with classes := p.classes.push (inst id), classCache := p.classCache.begin key id }
  return id

def closeClass (key : ClassKey) (id : ClassId) : Checking Unit :=
  modifyProgram fun p => { p with classCache := p.classCache.finish key id }

def pushFunction (inst : FuncId → FuncInst) : Checking FuncId := do
  let id := (← getProgram).functions.size
  modifyProgram fun p => { p with functions := p.functions.push (inst id) }
  return id

def openFunction (key : FunctionKey) (inst : FuncInst) : Checking FuncId := do
  let id := (← getProgram).functions.size
  modifyProgram fun p =>
    { p with functions := p.functions.push inst, functionCache := p.functionCache.begin key id }
  return id

def closeFunction (key : FunctionKey) (id : FuncId) : Checking Unit :=
  modifyProgram fun p => { p with functionCache := p.functionCache.finish key id }

def queueBody (task : BodyTask) : Checking Unit :=
  modify fun s => { s with bodies := s.bodies ++ [task] }

/-- The classes that conform to a protocol, as far as it is known. -/
def State.implementorsOf (s : State) (protocol : StructureId) : List StructureId :=
  s.implementors[protocol]?.getD []

def addImplementor (protocol struct : StructureId) : Checking Unit :=
  modify fun s =>
    if (s.implementorsOf protocol).contains struct then s
    else { s with implementors :=
      s.implementors.insert protocol (s.implementorsOf protocol ++ [struct]) }

def display (src : Sources) (t : Ty) : Checking String :=
  return (← getProgram).displayType src.tree t

/-- Reports that `found` stands where something else, described in words, should.  What is unknown
was reported before. -/
def reportFound (src : Sources) (expected : String) (found : Ty) (span : Span) : Checking Unit := do
  if !found.isUnknown then
    report (.unexpectedType expected (← display src found)) span

def reportMismatch (src : Sources) (expected found : Ty) (span : Span) : Checking Unit := do
  if !expected.isUnknown then
    reportFound src (← display src expected) found span

end ObjectLang.Check
