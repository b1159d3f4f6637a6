/-! # Primitive types and their keywords -/

namespace ObjectLang.Syntax

inductive Primitive where
  | i32
  | i64
  | f64
  | bool
  | string
  | void
  deriving DecidableEq, Repr, Inhabited

namespace Primitive

def all : List Primitive := [i32, i64, f64, bool, string, void]

def keyword : Primitive → String
  | i32 => "i32"
  | i64 => "i64"
  | f64 => "f64"
  | bool => "bool"
  | string => "string"
  | void => "void"

def ofKeyword? (text : String) : Option Primitive := all.find? (·.keyword == text)

def isInteger : Primitive → Bool
  | i32 | i64 => true
  | _ => false

def isNumeric (p : Primitive) : Bool := p.isInteger || p == f64

/-- Strings are the only primitive values that live on the heap. -/
def isReference (p : Primitive) : Bool := p == string

end Primitive

end ObjectLang.Syntax
