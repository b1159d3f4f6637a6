import Std.Data.TreeMap
import ObjectLang.Code.Layout
import ObjectLang.Memory.Value

/-! # The heap

Objects and strings, each with the number of references to it.  Cells are never used again, so an
access to something freed can be told.
-/

namespace ObjectLang.Memory

open Code

structure Counters where
  retains : Nat := 0
  releases : Nat := 0
  allocs : Nat := 0
  frees : Nat := 0
  deriving DecidableEq, Repr, Inhabited

namespace Counters

def since (c earlier : Counters) : Counters where
  retains := c.retains - earlier.retains
  releases := c.releases - earlier.releases
  allocs := c.allocs - earlier.allocs
  frees := c.frees - earlier.frees

/-- Everything allocated was freed, and everything retained was released. -/
def isBalanced (c : Counters) : Bool := c.retains == c.releases && c.allocs == c.frees

end Counters

structure Object where
  /-- In bytes, with the header. -/
  size : Nat
  vtable : Value := .null
  /-- The offsets of the references that are released with the object, if it has a drop function. -/
  drop : Option (List Nat) := none
  /-- What was stored, by offset; all else is zero. -/
  fields : Std.TreeMap Nat Value := ∅
  deriving Inhabited

inductive Content where
  | object (o : Object)
  | text (s : String)
  deriving Inhabited

structure Cell where
  /-- A word of 32 bits. -/
  count : Nat := 0
  freed : Bool := false
  content : Content
  deriving Inhabited

structure Heap where
  cells : Array Cell := #[]
  counters : Counters := {}
  deriving Inhabited

namespace Heap

def cell (h : Heap) (a : Address) : Except Fault Cell :=
  match h.cells[a]? with
  | some c => if c.freed then .error (.useAfterFree a) else .ok c
  | none => .error .mismatch

def setCell (h : Heap) (a : Address) (c : Cell) : Heap :=
  { h with cells := h.cells.setIfInBounds a c }

/-- A new cell starts with count zero. -/
def alloc (h : Heap) (content : Content) : Address × Heap :=
  (h.cells.size,
    { cells := h.cells.push { content }
      counters := { h.counters with allocs := h.counters.allocs + 1 } })

def newObject (h : Heap) (size : Nat) (vtable : Value) (drop : Option (List Nat)) :
    Address × Heap :=
  h.alloc (.object { size := max size Layout.headerSize, vtable, drop })

def newText (h : Heap) (s : String) : Address × Heap := h.alloc (.text s)

def object (h : Heap) : Value → Except Fault (Address × Cell × Object)
  | .ref a => do
    let c ← h.cell a
    match c.content with
    | .object o => return (a, c, o)
    | .text _ => throw .mismatch
  | .int 0 => .error .nullAccess
  | _ => .error .mismatch

def load (h : Heap) (t : MachineType) (address : Value) (offset : Nat) : Except Fault Value := do
  let (_, _, o) ← h.object address
  if offset = Layout.vtableOffset then return o.vtable
  else return o.fields.getD offset (.zero t)

def store (h : Heap) (address : Value) (offset : Nat) (v : Value) : Except Fault Heap := do
  let (a, c, o) ← h.object address
  return h.setCell a { c with content := .object { o with fields := o.fields.insert offset v } }

/-- The text of a string; null counts as empty. -/
def text (h : Heap) : Value → Except Fault String
  | .ref a => do
    match (← h.cell a).content with
    | .text s => return s
    | .object _ => throw .mismatch
  | .int 0 => .ok ""
  | _ => .error .mismatch

def concat (h : Heap) (x y : Value) : Except Fault (Address × Heap) :=
  return h.newText ((← h.text x) ++ (← h.text y))

/-- Strings are compared by their texts. -/
def sameText (h : Heap) (x y : Value) : Except Fault Bool := return (← h.text x) == (← h.text y)

/-- Length in bytes of UTF-8. -/
def textLength (h : Heap) (x : Value) : Except Fault Nat := return (← h.text x).utf8ByteSize

/-- Nothing was stored into the object yet. -/
def isZeroed (h : Heap) (a : Address) : Bool :=
  match h.object (.ref a) with
  | .ok (_, _, o) => o.fields.isEmpty
  | .error _ => false

end Heap

end ObjectLang.Memory
