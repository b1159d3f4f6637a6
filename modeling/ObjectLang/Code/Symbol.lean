import ObjectLang.Code.Builtin

/-! # Named parts of a module

What code can refer to: functions of the program, builtin functions, and for each class that needs
them a drop function and a virtual table; and the texts of string literals.
-/

namespace ObjectLang.Code

open Checked

inductive Callee where
  | builtin (b : Builtin)
  | function (f : FuncId)
  /-- Releases the reference fields of an object of the class. -/
  | drop (c : ClassId)
  deriving DecidableEq, Repr, Inhabited

inductive Datum where
  | vtable (c : ClassId)
  /-- The literal with this number among those of the module. -/
  | literal (k : Nat)
  deriving DecidableEq, Repr, Inhabited

def dropName (p : Program) (c : ClassId) : String :=
  (p.classAt c).display ++ "$drop$" ++ toString c

def vtableName (p : Program) (c : ClassId) : String :=
  (p.classAt c).display ++ "$vtable$" ++ toString c

def literalName (k : Nat) : String := "str$" ++ toString k

def Callee.name (p : Program) : Callee → String
  | builtin b => b.name
  | function f => (p.functionAt f).linkName
  | drop c => dropName p c

def Datum.name (p : Program) : Datum → String
  | vtable c => vtableName p c
  | literal k => literalName k

end ObjectLang.Code
