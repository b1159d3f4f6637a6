import ObjectLang.Source.Span
import ObjectLang.Diagnostic.Cause

/-! # Reports

A cause at a place in the source, and the flat forms in which errors and warnings are handed out.
-/

namespace ObjectLang.Diagnostic

open Source

inductive Severity where
  | hint
  | warning
  | error
  deriving DecidableEq, Repr, Inhabited

def Severity.text : Severity → String
  | hint => "hint"
  | warning => "warning"
  | error => "error"

structure Error where
  cause : ErrorCause
  span : Span
  deriving DecidableEq, Repr, Inhabited

structure Warning where
  cause : WarningCause
  span : Span
  deriving DecidableEq, Repr, Inhabited

/-- One reported problem in full; its only label stands at its span. -/
structure Report where
  severity : Severity
  code : String
  message : String
  help : Option String
  label : String
  span : Span
  deriving DecidableEq, Repr, Inhabited

def Error.report (e : Error) : Report where
  severity := .error
  code := e.cause.code
  message := e.cause.message
  help := e.cause.help
  label := e.cause.label
  span := e.span

/-- A shadowed name is a hint; code that is never reached is a warning. -/
def WarningCause.severity : WarningCause → Severity
  | unreachable => .warning
  | shadowed _ => .hint

def Warning.report (w : Warning) : Report where
  severity := w.cause.severity
  code := w.cause.code
  message := w.cause.message
  help := none
  label := w.cause.label
  span := w.span

/-- Of the elements with one key, keeps the first. -/
def firsts {α κ : Type} [BEq κ] (key : α → κ) (seen : List κ) : List α → List α
  | [] => []
  | a :: as =>
    if seen.contains (key a) then firsts key seen as else a :: firsts key (key a :: seen) as

/-- Drops errors that say the same thing about the same span as an earlier one. -/
def distinctErrors (es : List Error) : List Error :=
  firsts (fun e => (e.span, e.cause.message)) [] es

def distinctWarnings (ws : List Warning) : List Warning :=
  firsts (fun w => (w.span, w.cause.message)) [] ws

end ObjectLang.Diagnostic
