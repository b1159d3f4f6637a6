import ObjectLang.Analysis
import ObjectLang.Code.Module

/-! # Compilation

Analysis, and then code if there is no error and code is wanted.
-/

namespace ObjectLang

open Checked

structure Compilation where
  analysis : Analysis
  /-- None when there are errors or only a check was asked for. -/
  code : Option Code.Module
  deriving Inhabited

/-- Compiles a project for pointers of 64 bits; `none` when the fuel does not suffice for the
analysis. -/
def Project.compile (p : Project) (checkOnly : Bool) (fuel : Nat) :
    Option (Except Code.Error Compilation) := do
  let analysis ← p.analyze fuel
  return do
    if analysis.hasErrors || checkOnly then
      return { analysis, code := none }
    else
      return { analysis, code := some (← Code.generate .i64 analysis.program) }

end ObjectLang
