import ObjectLang.Scope.Registry
import ObjectLang.Names.Resolver
import ObjectLang.Check.Requests

/-! # Analysis

From the files of a project to a checked program and its diagnostics.
-/

namespace ObjectLang

open Source Syntax Scope Names Diagnostic Checked Check

structure Project where
  name : String := "app"
  dependencies : List String := []
  files : List (File Mark) := []
  deriving Inhabited

structure Resolved where
  tree : Tree
  names : Resolution
  treeErrors : List Error
  nameErrors : List Error
  deriving Inhabited

def Project.resolve (p : Project) : Resolved :=
  let registry := Registry.ofFiles p.name p.dependencies p.files
  let resolver := Resolver.resolve registry.tree
  { tree := registry.tree, names := resolver.names
    treeErrors := registry.errors, nameErrors := resolver.errors }

def Resolved.sources (r : Resolved) : Sources := { tree := r.tree, names := r.names }

structure Analysis where
  tree : Tree
  implementors : Std.TreeMap StructureId (List StructureId)
  program : Program
  errors : List Error
  warnings : List Warning
  deriving Inhabited

namespace Analysis

def hasErrors (a : Analysis) : Bool := !a.errors.isEmpty

/-- Errors, then warnings. -/
def reports (a : Analysis) : List Report := a.errors.map (·.report) ++ a.warnings.map (·.report)

end Analysis

/-- Analyses a project; `none` when the fuel does not suffice. -/
def Project.analyze (p : Project) (fuel : Nat) : Option Analysis := do
  let r := p.resolve
  let (_, s) ← (checkAll r.sources fuel).run {}
  let outcome := s.outcome
  return {
    tree := r.tree, implementors := s.implementors, program := outcome.program
    errors := r.treeErrors ++ r.nameErrors ++ outcome.errors, warnings := outcome.warnings }

end ObjectLang
