import ObjectLang.Checked.Program
import ObjectLang.Code.Error

/-! # Machine types

What a register, a stack slot or a field of an object holds.
-/

namespace ObjectLang.Code

open Syntax Checked

inductive MachineType where
  | i8 | i32 | i64 | f64
  deriving DecidableEq, Repr, Inhabited

namespace MachineType

def text : MachineType → String
  | i8 => "i8"
  | i32 => "i32"
  | i64 => "i64"
  | f64 => "f64"

/-- Size in bytes, which is also the alignment. -/
def bytes : MachineType → Nat
  | i8 => 1
  | i32 => 4
  | i64 | f64 => 8

def isFloat (t : MachineType) : Bool := t == f64

def modulus : MachineType → Nat
  | i8 => 0x100
  | i32 => 0x100000000
  | i64 | f64 => 0x10000000000000000

/-- The integer of this width, in two's complement, that agrees with `n` modulo `modulus`. -/
def wrap (t : MachineType) (n : Int) : Int := n.bmod t.modulus

def holds (t : MachineType) (n : Int) : Bool := t.wrap n == n

def least (t : MachineType) : Int := -(t.modulus / 2 : Nat)

end MachineType

/-- The machine type of a value whose pointers are `ptr`; nothing is held for `void`. -/
def machineType (ptr : MachineType) : Ty → Except Error (Option MachineType)
  | .primitive .void => .ok none
  | .primitive .bool => .ok (some .i8)
  | .primitive .i32 => .ok (some .i32)
  | .primitive .i64 => .ok (some .i64)
  | .primitive .f64 => .ok (some .f64)
  | .primitive .string | .object _ | .protocol _ => .ok (some ptr)
  | .enum _ => .ok (some .i32)
  | .unknown => .error { kind := .noMachineType "lowering" "unknown type" }

def valueType (ptr : MachineType) (t : Ty) : Except Error MachineType := do
  match ← machineType ptr t with
  | some m => return m
  | none => throw { kind := .noMachineType "value" "void" }

structure Signature where
  params : List MachineType
  result : Option MachineType
  deriving DecidableEq, Repr, Inhabited

def Signature.text (s : Signature) : String :=
  "(" ++ String.intercalate ", " (s.params.map (·.text)) ++ ")" ++
    match s.result with
    | some t => " -> " ++ t.text
    | none => ""

/-- The receiver is passed before the parameters. -/
def passedTypes (f : FuncInst) : List Ty := f.receiver.toList ++ f.paramTypes

def signature (ptr : MachineType) (f : FuncInst) : Except Error Signature := do
  let params ← (passedTypes f).mapM (valueType ptr)
  return { params, result := ← machineType ptr f.returnType }

end ObjectLang.Code
