import ObjectLang.Source.FloatBits
import ObjectLang.Code.Instr

/-! # Code as text

Values are written `v3`, blocks `block3` and stack slots `ss3`; data objects are numbered within a
function in the order in which it mentions them.
-/

namespace ObjectLang.Code

open Source Checked

namespace Comparison

/-- Integers are compared as signed numbers. -/
def intText : Comparison → String
  | eq => "eq"
  | ne => "ne"
  | lt => "slt"
  | le => "sle"
  | gt => "sgt"
  | ge => "sge"

def floatText : Comparison → String
  | eq => "eq"
  | ne => "ne"
  | lt => "lt"
  | le => "le"
  | gt => "gt"
  | ge => "ge"

end Comparison

def IntOp.text : IntOp → String
  | add => "iadd"
  | sub => "isub"
  | mul => "imul"
  | div => "sdiv"
  | rem => "srem"

def FloatOp.text : FloatOp → String
  | add => "fadd"
  | sub => "fsub"
  | mul => "fmul"
  | div => "fdiv"

def valueText (v : ValueId) : String := "v" ++ toString v

def blockText (b : BlockId) : String := "block" ++ toString b

def slotText (s : SlotId) : String := "ss" ++ toString s

def valuesText (vs : List ValueId) : String := String.intercalate ", " (vs.map valueText)

def Target.text (t : Target) : String :=
  blockText t.block ++
    match t.arg with
    | some v => "(" ++ valueText v ++ ")"
    | none => ""

/-- An address; the offset is left out when it is zero. -/
def addressText (address : ValueId) (offset : Nat) : String :=
  valueText address ++ if offset = 0 then "" else "+" ++ toString offset

def resultText : Option ValueId → String
  | some v => valueText v ++ " = "
  | none => ""

def Instr.text (p : Program) (data : List Datum) : Instr → String
  | intConst v t n => valueText v ++ " = iconst." ++ t.text ++ " " ++ toString n
  | floatConst v bits => valueText v ++ " = f64const " ++ FloatBits.render bits
  | intBinary v op _ a b => valueText v ++ " = " ++ op.text ++ " " ++ valuesText [a, b]
  | floatBinary v op a b => valueText v ++ " = " ++ op.text ++ " " ++ valuesText [a, b]
  | intNeg v _ a => valueText v ++ " = ineg " ++ valueText a
  | floatNeg v a => valueText v ++ " = fneg " ++ valueText a
  | floatTrunc v a => valueText v ++ " = trunc " ++ valueText a
  | intCompare v c a b => valueText v ++ " = icmp " ++ c.intText ++ " " ++ valuesText [a, b]
  | isZero v a => valueText v ++ " = icmp_imm eq " ++ valueText a ++ ", 0"
  | floatCompare v c a b => valueText v ++ " = fcmp " ++ c.floatText ++ " " ++ valuesText [a, b]
  | slotLoad v t s => valueText v ++ " = stack_load." ++ t.text ++ " " ++ slotText s
  | slotStore v s => "stack_store " ++ valueText v ++ ", " ++ slotText s
  | load v t readonly a offset =>
    valueText v ++ " = load." ++ t.text ++ " notrap aligned " ++
      (if readonly then "readonly " else "") ++ addressText a offset
  | store v a offset => "store notrap aligned " ++ valueText v ++ ", " ++ addressText a offset
  | dataAddress v t d =>
    valueText v ++ " = symbol_value." ++ t.text ++ " data" ++ toString (data.idxOf d)
  | codeAddress v t c => valueText v ++ " = func_addr." ++ t.text ++ " " ++ c.name p
  | call v c args => resultText v ++ "call " ++ c.name p ++ "(" ++ valuesText args ++ ")"
  | callIndirect v s c args =>
    resultText v ++ "call_indirect " ++ s.text ++ ", " ++ valueText c ++
      "(" ++ valuesText args ++ ")"
  | jump t => "jump " ++ t.text
  | branch c t e => "brif " ++ valueText c ++ ", " ++ t.text ++ ", " ++ e.text
  | ret (some v) => "return " ++ valueText v
  | ret none => "return"
  | trap => "trap user1"

def Instr.datum? : Instr → Option Datum
  | dataAddress _ _ d => some d
  | _ => none

def Block.header (b : Block) (id : BlockId) : String :=
  blockText id ++
    if b.params.isEmpty then ""
    else
      "(" ++ String.intercalate ", "
        (b.params.map fun (v, t) => valueText v ++ ": " ++ t.text) ++ ")"

namespace FunctionCode

/-- The data objects that the function mentions, each once. -/
def data (c : FunctionCode) : List Datum :=
  (c.order.toList.flatMap fun b => (c.blockAt b).code.toList.filterMap Instr.datum?).eraseDups

/-- Each block as its header and the lines below it. -/
def listing (c : FunctionCode) (p : Program) : List (String × List String) :=
  let data := c.data
  c.order.toList.map fun b =>
    ((c.blockAt b).header b, (c.blockAt b).code.toList.map (·.text p data))

end FunctionCode

end ObjectLang.Code
