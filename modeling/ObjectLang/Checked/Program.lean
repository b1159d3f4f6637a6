import ObjectLang.Checked.InstanceCache
import ObjectLang.Checked.Tree

/-! # Checked programs

The instances of classes and functions that checking produces, and the questions that can be asked
of them.
-/

namespace ObjectLang.Checked

open Source Syntax Scope

structure FieldInst where
  name : String
  ty : Ty
  /-- Its position in the field list, where inherited fields come first. -/
  index : Nat
  declaredIn : ClassId
  span : Span
  deriving DecidableEq, Repr, Inhabited

/-- A method as its class sees it. -/
inductive MethodEntry where
  | inst (f : FuncId)
  /-- A generic method is instantiated by each call. -/
  | generic (symbol : SymbolId)
  deriving DecidableEq, Repr, Inhabited

structure ClassInst where
  /-- Tells the classes of one inheritance tree apart; its root has zero. -/
  chainId : Nat := 0
  root : ClassId
  /-- The next free `chainId`, kept by the root. -/
  nextChainId : Nat := 1
  struct : StructureId
  name : String
  /-- The name with its type arguments. -/
  display : String
  typeArgs : List Ty
  ancestor : Option ClassId := none
  fields : List FieldInst := []
  /-- The methods that the class itself declares. -/
  methods : Std.TreeMap String MethodEntry := ∅
  /-- The virtual methods that the class introduces, in the order of their slots. -/
  virtualMethods : List FuncId := []
  /-- For each slot the method that opened it, inherited slots first. -/
  slotOwners : List FuncId := []
  /-- For each slot the method that objects of exactly this class run. -/
  vtable : List FuncId := []
  init : Option FuncId := none
  protocols : List StructureId := []
  inProgress : Bool := true
  span : Span
  deriving Inhabited

structure ParamInst where
  name : String
  ty : Ty
  id : LocalId
  deriving DecidableEq, Repr, Inhabited

structure LocalInst where
  name : String
  ty : Ty
  span : Span
  deriving DecidableEq, Repr, Inhabited

structure FieldInit where
  index : Nat
  value : Expr

structure FuncInst where
  /-- None for an initializer that nobody wrote. -/
  symbol : Option SymbolId
  name : String
  linkName : String := ""
  kind : FunctionKind
  typeArgs : List Ty := []
  receiver : Option Ty := none
  params : List ParamInst := []
  /-- The parameters and then every name that the body binds. -/
  locals : List LocalInst := []
  fieldInits : List FieldInit := []
  body : Option Block := none
  returnType : Ty
  isVirtual : Bool := false
  isOverride : Bool := false
  owner : Option ClassId := none
  slot : Option Nat := none
  /-- By the `chainId` of a class, the method that it puts into this method's slot. -/
  overrides : Std.TreeMap Nat FuncId := ∅
  /-- Free and not generic, so that it can be called from outside. -/
  exported : Bool := false
  span : Span
  deriving Inhabited

def FuncInst.isDispatched (f : FuncInst) : Bool := f.slot.isSome

def FuncInst.paramTypes (f : FuncInst) : List Ty := f.params.map (·.ty)

/-- Only a virtual method has a registry of overrides. -/
structure NotVirtual where
  deriving DecidableEq, Repr

def NotVirtual.message (_ : NotVirtual) : String := "override registered on a non-virtual function"

def FuncInst.registerOverride (base : FuncInst) (chainId : Nat) (f : FuncId) :
    Except NotVirtual FuncInst :=
  if base.isVirtual then
    .ok { base with overrides := base.overrides.insert chainId f }
  else
    .error {}

structure Program where
  classes : Array ClassInst := #[]
  functions : Array FuncInst := #[]
  classCache : InstanceCache ClassKey := {}
  functionCache : InstanceCache FunctionKey := {}
  deriving Inhabited

namespace Program

def classAt (p : Program) (c : ClassId) : ClassInst := p.classes.getD c default

def functionAt (p : Program) (f : FuncId) : FuncInst := p.functions.getD f default

def updateClass (p : Program) (c : ClassId) (f : ClassInst → ClassInst) : Program :=
  { p with classes := p.classes.setIfInBounds c (f (p.classAt c)) }

def updateFunction (p : Program) (i : FuncId) (f : FuncInst → FuncInst) : Program :=
  { p with functions := p.functions.setIfInBounds i (f (p.functionAt i)) }

def functionNamed (p : Program) (linkName : String) : Option FuncId :=
  p.functions.findIdx? (·.linkName == linkName)

def chainWithin (p : Program) : Nat → ClassId → List ClassId
  | 0, _ => []
  | bound + 1, c =>
    c :: match (p.classAt c).ancestor with
      | some a => chainWithin p bound a
      | none => []

/-- The class followed by its ancestors.  No class is its own ancestor, so a chain is no longer than
the list of classes. -/
def chain (p : Program) (c : ClassId) : List ClassId := p.chainWithin (p.classes.size + 1) c

def isSubclass (p : Program) (c ancestor : ClassId) : Bool := (p.chain c).contains ancestor

/-- The nearest declaration of a method in the chain, with the class that declares it. -/
def findMethod (p : Program) (c : ClassId) (name : String) : Option (ClassId × MethodEntry) :=
  (p.chain c).findSome? fun a => (p.classAt a).methods[name]?.map fun entry => (a, entry)

def findField (p : Program) (c : ClassId) (name : String) : Option FieldInst :=
  (p.classAt c).fields.find? (·.name == name)

/-- What the slot opened by `base` holds for the class: the entry of the nearest class in the chain
that registered one. -/
def resolveOverride (p : Program) (base : FuncId) (c : ClassId) : FuncId :=
  ((p.chain c).findSome? fun a => (p.functionAt base).overrides[(p.classAt a).chainId]?).getD base

def displayType (p : Program) (t : Tree) : Ty → String
  | .primitive k => k.keyword
  | .object c => (p.classAt c).display
  | .protocol s | .enum s => t.structurePath s
  | .unknown => "<unknown>"

/-- The types with a comma between neighbours, in angle brackets; nothing when there are none. -/
def displayTypeArgs (p : Program) (t : Tree) (args : List Ty) : String :=
  if args.isEmpty then "" else "<" ++ String.intercalate ", " (args.map (p.displayType t)) ++ ">"

def methodArity (p : Program) (t : Tree) : MethodEntry → Nat
  | .inst f => (p.functionAt f).params.length
  | .generic s => (t.functionAt s).decl.params.length

end Program

end ObjectLang.Checked
