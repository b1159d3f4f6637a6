/-! # Operators -/

namespace ObjectLang.Syntax

inductive BinaryOp where
  | add | sub | mul | div | rem
  | eq | ne
  | lt | le | gt | ge
  | and | or
  deriving DecidableEq, Repr, Inhabited

namespace BinaryOp

def all : List BinaryOp := [add, sub, mul, div, rem, eq, ne, lt, le, gt, ge, and, or]

def text : BinaryOp → String
  | add => "+"
  | sub => "-"
  | mul => "*"
  | div => "/"
  | rem => "%"
  | eq => "=="
  | ne => "!="
  | lt => "<"
  | le => "<="
  | gt => ">"
  | ge => ">="
  | and => "&&"
  | or => "||"

def ofText? (s : String) : Option BinaryOp := all.find? (·.text == s)

def isArithmetic : BinaryOp → Bool
  | add | sub | mul | div | rem => true
  | _ => false

def isOrdering : BinaryOp → Bool
  | lt | le | gt | ge => true
  | _ => false

def isEquality : BinaryOp → Bool
  | eq | ne => true
  | _ => false

def isLogical : BinaryOp → Bool
  | and | or => true
  | _ => false

end BinaryOp

inductive UnaryOp where
  | neg
  | not
  deriving DecidableEq, Repr, Inhabited

namespace UnaryOp

def text : UnaryOp → String
  | neg => "-"
  | not => "!"

def ofText? (s : String) : Option UnaryOp := [neg, not].find? (·.text == s)

end UnaryOp

end ObjectLang.Syntax
