import Std.Data.TreeSet
import ObjectLang.Scope.Tree

/-! # Resolved names

What name resolution attaches to the nodes of the source trees: kinds, parents, lexical scopes and
the targets of named types.
-/

namespace ObjectLang.Names

open Scope

abbrev ScopeId := Nat

inductive Target where
  | struct (id : StructureId)
  | typeParam (name : String)
  /-- Nothing was found, and that was reported. -/
  | unknown
  deriving DecidableEq, Repr, Inhabited

inductive NodeKind where
  | cls
  | protocol
  | enum
  | function
  | field
  | param
  | block
  | stmt
  | expr
  | type
  | use
  deriving DecidableEq, Repr, Inhabited

inductive ScopeKind where
  | ns (id : NamespaceId)
  | struct
  | function
  | block
  deriving DecidableEq, Repr, Inhabited

structure LexicalScope where
  kind : ScopeKind
  parent : Option ScopeId
  /-- The type parameters bound by a structure or a function. -/
  typeParams : List String
  file : Nat
  deriving Repr, Inhabited

structure Resolution where
  targets : Std.TreeMap Nat Target := ∅
  parents : Std.TreeMap Nat Nat := ∅
  kinds : Std.TreeMap Nat NodeKind := ∅
  scopes : Array LexicalScope := #[]
  nodeScopes : Std.TreeMap Nat ScopeId := ∅
  /-- The functions that have a receiver. -/
  members : Std.TreeSet Nat := ∅
  /-- By file, the namespaces that its uses make visible. -/
  imports : Std.TreeMap Nat (List NamespaceId) := ∅
  deriving Inhabited

namespace Resolution

def target (r : Resolution) (node : Nat) : Target := r.targets[node]?.getD .unknown

def importsOf (r : Resolution) (file : Nat) : List NamespaceId := r.imports[file]?.getD []

/-- The nearest function on the way up from `node`, which itself is not asked, in at most `bound`
steps. -/
def functionAbove (r : Resolution) : Nat → Nat → Option Nat
  | 0, _ => none
  | bound + 1, node =>
    match r.parents[node]? with
    | none => none
    | some parent =>
      if r.kinds[parent]? = some .function then some parent else functionAbove r bound parent

/-- The innermost function that contains `node`.  A way up never visits a node twice, so it takes no
more steps than there are links. -/
def enclosingFunction (r : Resolution) (node : Nat) : Option Nat :=
  r.functionAbove (r.parents.size + 1) node

def hasReceiver (r : Resolution) (node : Nat) : Bool :=
  match r.enclosingFunction node with
  | some f => r.members.contains f
  | none => false

def scopeAt (r : Resolution) (scope : ScopeId) : LexicalScope :=
  r.scopes.getD scope { kind := .block, parent := none, typeParams := [], file := 0 }

def scopeChainWithin (r : Resolution) : Nat → ScopeId → List ScopeId
  | 0, _ => []
  | bound + 1, scope =>
    scope :: match (r.scopeAt scope).parent with
      | some parent => scopeChainWithin r bound parent
      | none => []

/-- The scope and those around it, innermost first; the scope around another has a smaller
number. -/
def scopeChain (r : Resolution) (scope : ScopeId) : List ScopeId :=
  r.scopeChainWithin (scope + 1) scope

def bindsTypeParam (r : Resolution) (scope : ScopeId) (name : String) : Bool :=
  (r.scopeChain scope).any fun s => (r.scopeAt s).typeParams.contains name

end Resolution

def firstStructure (t : Tree) (name : String) (spaces : List NamespaceId) : Option StructureId :=
  spaces.findSome? fun ns => t.structureIn ns name

def firstFunction (t : Tree) (name : String) (spaces : List NamespaceId) : Option SymbolId :=
  spaces.findSome? fun ns => t.functionIn ns name

end ObjectLang.Names
