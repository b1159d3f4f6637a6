/-! # Causes of diagnostics

What can be wrong with a program, and the code, wording, help and label of each cause.
-/

namespace ObjectLang.Diagnostic

/-- Why a class cannot inherit from what its clause names. -/
inductive InheritFault where
  | cycle
  | notClass
  | neverCompleted
  deriving DecidableEq, Repr, Inhabited

def InheritFault.text : InheritFault → String
  | cycle => "inheritance cycle"
  | notClass => "only classes can be inherited"
  | neverCompleted => "ancestor never completed"

inductive ErrorCause where
  | notFound (name : String)
  | alreadyDeclared (name : String)
  | unexpectedType (expected found : String)
  | cannotInfer (name : String)
  | argumentCount (expected found : Nat)
  | typeArgumentCount (expected found : Nat)
  | cannotInherit (name : String) (fault : InheritFault)
  | overridesNonVirtual (name : String)
  | missingOverride (name : String)
  | nothingToOverride (name : String)
  | misplacedVirtual
  | misplacedOverride
  | misplacedSelf
  | notNamespace (path : String)
  | protocolMethodMissing (cls protocol method : String)
  | tooDeep (name : String) (limit : Nat)
  | notAssignable
  | internal (message : String)
  deriving DecidableEq, Repr, Inhabited

namespace ErrorCause

def code : ErrorCause → String
  | notFound _ => "E2001"
  | alreadyDeclared _ => "E2002"
  | unexpectedType _ _ => "E2003"
  | cannotInfer _ => "E2004"
  | argumentCount _ _ => "E2005"
  | typeArgumentCount _ _ => "E2006"
  | cannotInherit _ _ => "E2007"
  | overridesNonVirtual _ => "E2008"
  | missingOverride _ => "E2009"
  | nothingToOverride _ => "E2010"
  | misplacedVirtual => "E2011"
  | misplacedOverride => "E2012"
  | misplacedSelf => "E2013"
  | notNamespace _ => "E2014"
  | protocolMethodMissing _ _ _ => "E2015"
  | tooDeep _ _ => "E2016"
  | notAssignable => "E2017"
  | internal _ => "E2999"

def message : ErrorCause → String
  | notFound name => s!"cannot find '{name}' in this scope"
  | alreadyDeclared name => s!"'{name}' is already declared in this scope"
  | unexpectedType expected found => s!"expected {expected}, found {found}"
  | cannotInfer name => s!"cannot infer type of '{name}'"
  | argumentCount expected found => s!"expected {expected} arguments, found {found}"
  | typeArgumentCount expected found => s!"expected {expected} type arguments, found {found}"
  | cannotInherit name fault => s!"cannot inherit from {name}: " ++ fault.text
  | overridesNonVirtual name => s!"method '{name}' overrides a non-virtual method"
  | missingOverride name => s!"method '{name}' overrides a virtual method without 'override'"
  | nothingToOverride name => s!"method '{name}' is marked 'override' but no base method exists"
  | misplacedVirtual => "'virtual' is only allowed on class methods"
  | misplacedOverride => "'override' is only allowed on class methods"
  | misplacedSelf => "'self' is only available inside methods"
  | notNamespace path => s!"'{path}' is not a namespace"
  | protocolMethodMissing cls protocol method =>
    s!"class '{cls}' does not implement '{method}' required by '{protocol}'"
  | tooDeep name limit => s!"instantiating '{name}' exceeds the depth limit of {limit}"
  | notAssignable => "invalid assignment target"
  | internal message => s!"internal compiler error: {message}"

def help : ErrorCause → Option String
  | cannotInfer _ => some "add an explicit type annotation"
  | overridesNonVirtual _ => some "mark the base method 'virtual' or rename this method"
  | missingOverride _ => some "add the 'override' keyword"
  | tooDeep _ _ => some "a generic type expands into itself without bound"
  | _ => none

def label : ErrorCause → String
  | notFound _ => "not found"
  | alreadyDeclared _ => "redeclared here"
  | unexpectedType _ _ => "type mismatch"
  | cannotInfer _ => "type annotations needed"
  | argumentCount _ _ => "wrong number of arguments"
  | typeArgumentCount _ _ => "wrong number of type arguments"
  | cannotInherit _ _ => "invalid ancestor"
  | overridesNonVirtual _ => "base method is not virtual"
  | missingOverride _ => "missing 'override'"
  | nothingToOverride _ => "nothing to override"
  | misplacedVirtual => "not a class method"
  | misplacedOverride => "not a class method"
  | misplacedSelf => "no receiver here"
  | notNamespace _ => "unknown namespace"
  | protocolMethodMissing _ _ _ => "missing protocol method"
  | tooDeep _ _ => "infinitely expanding instantiation"
  | notAssignable => "cannot assign to this expression"
  | internal _ => "here"

end ErrorCause

inductive WarningCause where
  | unreachable
  | shadowed (name : String)
  deriving DecidableEq, Repr, Inhabited

namespace WarningCause

def code : WarningCause → String
  | unreachable => "W3001"
  | shadowed _ => "W3002"

def message : WarningCause → String
  | unreachable => "unreachable code"
  | shadowed name => s!"'{name}' shadows an outer binding"

def label : WarningCause → String
  | unreachable => "this statement is never executed"
  | shadowed _ => "shadows an earlier declaration"

end WarningCause

end ObjectLang.Diagnostic
