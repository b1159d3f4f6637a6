import ObjectLang.Code.Symbol

/-! # Instructions

A function is a list of blocks.  Each value is defined once, by an instruction or as the parameter
of a block; what changes over time stands in stack slots.
-/

namespace ObjectLang.Code

open Checked

abbrev ValueId := Nat
abbrev BlockId := Nat
abbrev SlotId := Nat

inductive Comparison where
  | eq | ne | lt | le | gt | ge
  deriving DecidableEq, Repr, Inhabited

inductive IntOp where
  | add | sub | mul | div | rem
  deriving DecidableEq, Repr, Inhabited

inductive FloatOp where
  | add | sub | mul | div
  deriving DecidableEq, Repr, Inhabited

/-- Where a branch goes, with the value of the block's parameter if it has one. -/
structure Target where
  block : BlockId
  arg : Option ValueId := none
  deriving DecidableEq, Repr, Inhabited

/-- The first component of an instruction with a result is the value it defines. -/
inductive Instr where
  | intConst (dst : ValueId) (type : MachineType) (n : Int)
  | floatConst (dst : ValueId) (bits : UInt64)
  | intBinary (dst : ValueId) (op : IntOp) (type : MachineType) (a b : ValueId)
  | floatBinary (dst : ValueId) (op : FloatOp) (a b : ValueId)
  | intNeg (dst : ValueId) (type : MachineType) (a : ValueId)
  | floatNeg (dst : ValueId) (a : ValueId)
  | floatTrunc (dst : ValueId) (a : ValueId)
  | intCompare (dst : ValueId) (cmp : Comparison) (a b : ValueId)
  | isZero (dst : ValueId) (a : ValueId)
  | floatCompare (dst : ValueId) (cmp : Comparison) (a b : ValueId)
  | slotLoad (dst : ValueId) (type : MachineType) (slot : SlotId)
  | slotStore (value : ValueId) (slot : SlotId)
  | load (dst : ValueId) (type : MachineType) (readonly : Bool) (address : ValueId) (offset : Nat)
  | store (value : ValueId) (address : ValueId) (offset : Nat)
  | dataAddress (dst : ValueId) (type : MachineType) (datum : Datum)
  | codeAddress (dst : ValueId) (type : MachineType) (callee : Callee)
  | call (dst : Option ValueId) (callee : Callee) (args : List ValueId)
  | callIndirect (dst : Option ValueId) (signature : Signature) (callee : ValueId)
      (args : List ValueId)
  | jump (target : Target)
  | branch (condition : ValueId) (thenTarget elseTarget : Target)
  | ret (value : Option ValueId)
  | trap
  deriving DecidableEq, Repr, Inhabited

def Instr.isTerminator : Instr → Bool
  | jump _ | branch .. | ret _ | trap => true
  | _ => false

structure Block where
  params : List (ValueId × MachineType) := []
  code : Array Instr := #[]
  deriving Inhabited

structure FunctionCode where
  signature : Signature
  slots : Array MachineType
  /-- By block id; the entry is block 0. -/
  blocks : Array Block
  order : Array BlockId
  deriving Inhabited

def FunctionCode.blockAt (c : FunctionCode) (b : BlockId) : Block := c.blocks.getD b default

end ObjectLang.Code
