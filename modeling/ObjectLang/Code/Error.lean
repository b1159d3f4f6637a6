import ObjectLang.Source.Span

/-! # Errors of code generation

Code is generated only for programs without errors, so each of these says that something reached
code generation which should not have.
-/

namespace ObjectLang.Code

open Source

inductive ErrorKind where
  | unsupported (feature : String) (context : Option String)
  /-- A type whose values a machine cannot hold. -/
  | noMachineType (context found : String)
  | notFound (kind name : String)
  | internal (message : String) (context : Option String)
  deriving DecidableEq, Repr, Inhabited

namespace ErrorKind

def code : ErrorKind → String
  | unsupported .. => "E3001"
  | noMachineType .. => "E3003"
  | notFound .. => "E3004"
  | internal .. => "E3005"

def aside : Option String → String
  | some context => " (" ++ context ++ ")"
  | none => ""

def message : ErrorKind → String
  | unsupported feature context => "unsupported: " ++ feature ++ aside context
  | noMachineType context found => context ++ ": no machine type for " ++ found
  | notFound kind name => kind ++ " not found: " ++ name
  | internal message context => "internal error: " ++ message ++ aside context

def label : ErrorKind → String
  | unsupported feature _ => feature ++ " is not supported"
  | noMachineType _ found => "found " ++ found
  | notFound kind _ => kind ++ " not found"
  | internal .. => "internal error here"

end ErrorKind

structure Error where
  kind : ErrorKind
  /-- Where it arose, when that is known. -/
  span : Option Span := none
  deriving DecidableEq, Repr, Inhabited

namespace Error

def internal (message : String) (context : Option String := none) : Error :=
  { kind := .internal message context }

/-- Two declarations of one name that do not fit together. -/
def clash : Error := internal "cranelift error"

def redefinition : Error := internal "failed to define function"

def locate (e : Error) (span : Span) : Error := { e with span := some span }

/-- Sets the span unless the error has one already. -/
def within (e : Error) (span : Span) : Error := if e.span.isSome then e else e.locate span

end Error

end ObjectLang.Code
