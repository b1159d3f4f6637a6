import ObjectLang.Execution.Machine

/-! # Sessions

A sequence of calls from outside.  Each call keeps the reference that it returns, for later calls to
use, until it is released.
-/

namespace ObjectLang.Execution

open Checked Code Memory

/-- A result as it can be seen right after the call. -/
inductive Seen where
  | nothing
  | int (n : Int)
  | float (bits : UInt64)
  | text (s : String) (count : Nat)
  | object (size : Nat) (count : Nat)
  deriving DecidableEq, Repr, Inhabited

def seenCell (c : Cell) : Seen :=
  match c.content with
  | .text s => .text s c.count
  | .object o => .object o.size c.count

/-- A null reference is seen as nothing. -/
def seenValue (h : Heap) (isReference : Bool) : Value → Except Fault Seen
  | .int n => .ok (if isReference then .nothing else .int n)
  | .float bits => .ok (.float bits)
  | .ref a => return seenCell (← h.cell a)
  | _ => .error .mismatch

/-- An argument from outside.  A text becomes a string with one reference, which is released after
the call. -/
inductive Argument where
  | value (v : Value)
  | text (s : String)
  deriving DecidableEq, Repr, Inhabited

structure Session where
  heap : Heap := {}
  /-- For each step so far the reference that it keeps. -/
  kept : Array (Option Address) := #[]
  deriving Inhabited

structure CallReport where
  result : Seen
  counters : Counters
  deriving DecidableEq, Repr, Inhabited

/-- Makes the argument a value of the machine. -/
def Argument.pass (h : Heap) : Argument → Except Fault (Value × Heap)
  | value v => .ok (v, h)
  | text s => do
    let (a, h) := h.newText s
    return (.ref a, ← h.retain (.ref a))

def passAll (h : Heap) : List Argument → Except Fault (List Value × Heap)
  | [] => .ok ([], h)
  | a :: as => do
    let (v, h) ← a.pass h
    let (vs, h) ← passAll h as
    return (v :: vs, h)

def releaseTexts (h : Heap) (args : List (Argument × Value)) : Except Fault Heap :=
  args.foldlM (fun h (a, v) =>
    match a with
    | .text _ => h.release v
    | .value _ => .ok h) h

namespace Session

def keptBy (s : Session) (k : Nat) : Option Address := (s.kept[k]?).join

def skip (s : Session) : Session := { s with kept := s.kept.push none }

def call (m : Module) (fuel : Nat) (s : Session) (f : FuncId) (args : List Argument) :
    Except Fault (CallReport × Session) := do
  let (values, before) ← passAll s.heap args
  let (result, after) ← run m fuel (State.start m f values before)
  let isReference := (m.program.functionAt f).returnType.isReference
  let seen ← match result with
    | none => pure Seen.nothing
    | some v => seenValue after isReference v
  let heap ← releaseTexts after (args.zip values)
  let keeps := if isReference then result.bind Value.ref? else none
  return (
    { result := seen, counters := after.counters.since before.counters },
    { heap, kept := s.kept.push keeps })

def release (s : Session) (k : Nat) (a : Address) : Except Fault (Counters × Session) := do
  let heap ← s.heap.release (.ref a)
  return (
    heap.counters.since s.heap.counters,
    { heap, kept := (s.kept.setIfInBounds k none).push none })

/-- The counters after every reference that is still kept is released. -/
def finish (s : Session) : Except Fault Counters := do
  let heap ← (s.kept.toList.filterMap id).foldlM (fun (h : Heap) a => h.release (.ref a)) s.heap
  return heap.counters

end Session

end ObjectLang.Execution
