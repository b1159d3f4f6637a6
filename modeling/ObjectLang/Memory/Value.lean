import ObjectLang.Code.Symbol

/-! # Values of running code

A word is a number or points to something: an object or string on the heap, or a named part of the
module.  The null pointer is the integer zero.
-/

namespace ObjectLang.Memory

open Code

abbrev Address := Nat

inductive Value where
  | int (n : Int)
  | float (bits : UInt64)
  | ref (a : Address)
  | datum (d : Datum)
  | code (c : Callee)
  deriving DecidableEq, Repr, Inhabited

namespace Value

def null : Value := int 0

def ofBool (b : Bool) : Value := int (if b then 1 else 0)

def ref? : Value → Option Address
  | ref a => some a
  | _ => none

/-- All bytes are zero. -/
def zero (t : MachineType) : Value := if t.isFloat then float 0 else int 0

end Value

/-- Why an execution cannot go on. -/
inductive Fault where
  /-- A division by zero, or one whose quotient is out of range. -/
  | trap
  /-- A field or the virtual table of null. -/
  | nullAccess
  | useAfterFree (a : Address)
  /-- A stack slot that nothing was stored to. -/
  | unsetSlot
  /-- A value that is not of the kind that the instruction is for. -/
  | mismatch
  | outOfFuel
  deriving DecidableEq, Repr, Inhabited

end ObjectLang.Memory
