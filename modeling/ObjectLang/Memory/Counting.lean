import ObjectLang.Memory.Heap

/-! # Reference counting

A cell is freed when its count goes from one to zero.  An object first releases the references that
it holds, which may free others in turn.  Counts are words of 32 bits and wrap; nothing is counted
for null.
-/

namespace ObjectLang.Memory

namespace Heap

def countModulus : Nat := 0x100000000

def retain (h : Heap) : Value → Except Fault Heap
  | .int 0 => .ok h
  | .ref a => do
    let c ← h.cell a
    let h := h.setCell a { c with count := (c.count + 1) % countModulus }
    return { h with counters := { h.counters with retains := h.counters.retains + 1 } }
  | _ => .error .mismatch

inductive Task where
  | release (v : Value)
  | free (a : Address)
  deriving DecidableEq, Repr, Inhabited

def dropped : Content → List Value
  | .object o => (o.drop.getD []).map fun offset => o.fields.getD offset .null
  | .text _ => []

def perform (h : Heap) : Task → Except Fault (Heap × List Task)
  | .release (.int 0) => .ok (h, [])
  | .release (.ref a) => do
    let c ← h.cell a
    let h := h.setCell a { c with count := (c.count + (countModulus - 1)) % countModulus }
    let h := { h with counters := { h.counters with releases := h.counters.releases + 1 } }
    return (h, if c.count = 1 then (dropped c.content).map .release ++ [.free a] else [])
  | .release _ => .error .mismatch
  | .free a => do
    let c ← h.cell a
    let h := h.setCell a { c with freed := true }
    return ({ h with counters := { h.counters with frees := h.counters.frees + 1 } }, [])

/-- Performs all tasks, each before those that were there when it was. -/
def performAll : Nat → Heap → List Task → Except Fault Heap
  | _, h, [] => .ok h
  | 0, _, _ :: _ => .error .outOfFuel
  | fuel + 1, h, task :: tasks => do
    let (h, new) ← h.perform task
    performAll fuel h (new ++ tasks)

/-- A bound for the tasks of one release: each cell is dropped at most once, and an object of less
than `2 ^ 32` bytes holds fewer references than that. -/
def taskBound (h : Heap) : Nat := (h.cells.size + 1) * countModulus

def release (h : Heap) (v : Value) : Except Fault Heap :=
  performAll h.taskBound h [.release v]

def dropCount (h : Heap) : Nat :=
  h.cells.countP fun c =>
    match c.content with
    | .object o => c.freed && o.drop.isSome
    | .text _ => false

/-- Starts counting anew; the cells stay. -/
def resetCounters (h : Heap) : Heap := { h with counters := {} }

end Heap

end ObjectLang.Memory
