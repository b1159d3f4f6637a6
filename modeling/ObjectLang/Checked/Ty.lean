import ObjectLang.Scope.Tree

/-! # Types of checked programs

Type parameters never occur here: every checked body belongs to one choice of type arguments.
-/

namespace ObjectLang.Checked

open Syntax Scope

abbrev ClassId := Nat
abbrev FuncId := Nat
abbrev LocalId := Nat

inductive Ty where
  | primitive (p : Primitive)
  | object (cls : ClassId)
  | protocol (id : StructureId)
  | enum (id : StructureId)
  /-- The type of what was already reported; it agrees with every type. -/
  | unknown
  deriving DecidableEq, Repr, Inhabited

namespace Ty

abbrev void : Ty := .primitive .void
abbrev bool : Ty := .primitive .bool
abbrev i32 : Ty := .primitive .i32
abbrev i64 : Ty := .primitive .i64
abbrev f64 : Ty := .primitive .f64
abbrev string : Ty := .primitive .string

def isUnknown (t : Ty) : Bool := t == unknown

def isVoid (t : Ty) : Bool := t == void

def isNumeric : Ty → Bool
  | primitive p => p.isNumeric
  | _ => false

def isInteger : Ty → Bool
  | primitive p => p.isInteger
  | _ => false

/-- Values of the type live on the heap and are counted. -/
def isReference : Ty → Bool
  | primitive p => p.isReference
  | object _ | protocol _ => true
  | enum _ | unknown => false

def class? : Ty → Option ClassId
  | object c => some c
  | _ => none

end Ty

end ObjectLang.Checked
