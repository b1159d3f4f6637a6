import ObjectLang.Code.Instr
import ObjectLang.Memory.Value

/-! # Arithmetic of words

Integers wrap; floats are IEEE 754 doubles, kept as their bits.
-/

namespace ObjectLang.Execution

open Code Memory

/-- Division goes towards zero.  It traps on zero and when the quotient is out of range; the
remainder, which then is zero, traps on zero only. -/
def intOp (op : IntOp) (t : MachineType) (a b : Int) : Except Fault Int :=
  match op with
  | .add => .ok (t.wrap (a + b))
  | .sub => .ok (t.wrap (a - b))
  | .mul => .ok (t.wrap (a * b))
  | .div => if b = 0 ∨ (a = t.least ∧ b = -1) then .error .trap else .ok (a.tdiv b)
  | .rem => if b = 0 then .error .trap else .ok (a.tmod b)

def floatOp (op : FloatOp) (a b : Float) : Float :=
  match op with
  | .add => a + b
  | .sub => a - b
  | .mul => a * b
  | .div => a / b

def truncate (x : Float) : Float := if x < 0 then x.ceil else x.floor

def compareInts (cmp : Comparison) (a b : Int) : Bool :=
  match cmp with
  | .eq => a = b
  | .ne => a ≠ b
  | .lt => a < b
  | .le => a ≤ b
  | .gt => b < a
  | .ge => b ≤ a

/-- What is not a number differs from everything and is in no order. -/
def compareFloats (cmp : Comparison) (a b : Float) : Bool :=
  match cmp with
  | .eq => a == b
  | .ne => a != b
  | .lt => a < b
  | .le => a ≤ b
  | .gt => b < a
  | .ge => b ≤ a

/-- Numbers are compared as signed integers; pointers only for identity. -/
def compareWords (cmp : Comparison) (a b : Value) : Except Fault Bool :=
  match a, b with
  | .int m, .int n => .ok (compareInts cmp m n)
  | a, b =>
    match cmp with
    | .eq => .ok (a = b)
    | .ne => .ok (a ≠ b)
    | _ => .error .mismatch

end ObjectLang.Execution
