import Std.Data.TreeMap
import ObjectLang.Syntax.Tree

/-! # The tree of namespaces

Every declaration that can be reached by name.  Namespaces, structures and functions are numbered in
the order in which they are added; the root namespace is number zero.  A namespace never holds two
structures or free functions of one name, and a structure never two methods of one name.
-/

namespace ObjectLang.Scope

open Syntax

abbrev NamespaceId := Nat
abbrev StructureId := Nat
abbrev SymbolId := Nat

structure Namespace where
  name : String
  /-- The project that owns the namespace. -/
  project : String
  parent : Option NamespaceId := none
  children : Std.TreeMap String NamespaceId := ∅
  /-- The ids of the files that declare into it. -/
  files : List Nat := []
  structures : Std.TreeMap String StructureId := ∅
  functions : Std.TreeMap String SymbolId := ∅
  /-- Extension functions are found by the type of their receiver. -/
  extensions : List SymbolId := []
  deriving Inhabited

inductive StructureDecl where
  | cls (c : Class Mark)
  | protocol (p : Protocol Mark)
  | enum (e : Enum Mark)
  deriving Inhabited

inductive StructureKind where
  | cls
  | protocol
  | enum
  deriving DecidableEq, Repr, Inhabited

namespace StructureDecl

def kind : StructureDecl → StructureKind
  | cls _ => .cls
  | protocol _ => .protocol
  | enum _ => .enum

def name : StructureDecl → String
  | cls c => c.name
  | protocol p => p.name
  | enum e => e.name

def mark : StructureDecl → Mark
  | cls c => c.mark
  | protocol p => p.mark
  | enum e => e.mark

def typeParams : StructureDecl → List String
  | cls c => c.typeParams
  | protocol p => p.typeParams
  | enum _ => []

def cls? : StructureDecl → Option (Class Mark)
  | cls c => some c
  | _ => none

def protocol? : StructureDecl → Option (Protocol Mark)
  | protocol p => some p
  | _ => none

def enum? : StructureDecl → Option (Enum Mark)
  | enum e => some e
  | _ => none

end StructureDecl

structure Structure where
  ns : NamespaceId
  file : Nat
  decl : StructureDecl
  name : String := decl.name
  methods : Std.TreeMap String SymbolId := ∅
  init : Option SymbolId := none
  deriving Inhabited

inductive Owner where
  | ns (id : NamespaceId)
  | struct (id : StructureId)
  deriving DecidableEq, Repr, Inhabited

inductive FunctionKind where
  | free
  | method
  | init
  | extension
  /-- A protocol's requirement; it has no body of its own. -/
  | requirement
  deriving DecidableEq, Repr, Inhabited

structure FunctionSymbol where
  owner : Owner
  kind : FunctionKind
  file : Nat
  decl : Function Mark
  deriving Inhabited

def FunctionSymbol.name (f : FunctionSymbol) : String := f.decl.name

structure FileEntry where
  source : File Mark
  ns : NamespaceId
  deriving Inhabited

structure Tree where
  namespaces : Array Namespace
  structures : Array Structure := #[]
  functions : Array FunctionSymbol := #[]
  files : Array FileEntry := #[]
  deriving Inhabited

namespace Tree

def root : NamespaceId := 0

def ofProject (project : String) : Tree := { namespaces := #[{ name := project, project }] }

def namespaceAt (t : Tree) (ns : NamespaceId) : Namespace := t.namespaces.getD ns default

def structureAt (t : Tree) (s : StructureId) : Structure := t.structures.getD s default

def functionAt (t : Tree) (f : SymbolId) : FunctionSymbol := t.functions.getD f default

/-- The first file registered under `id`. -/
def file? (t : Tree) (id : Nat) : Option FileEntry := t.files.find? (·.source.id == id)

def updateNamespace (t : Tree) (ns : NamespaceId) (f : Namespace → Namespace) : Tree :=
  { t with namespaces := t.namespaces.setIfInBounds ns (f (t.namespaceAt ns)) }

def updateStructure (t : Tree) (s : StructureId) (f : Structure → Structure) : Tree :=
  { t with structures := t.structures.setIfInBounds s (f (t.structureAt s)) }

/-! ### Look-up -/

def lookupFrom (t : Tree) (start : NamespaceId) : List String → Option NamespaceId
  | [] => some start
  | segment :: rest =>
    match (t.namespaceAt start).children[segment]? with
    | some child => lookupFrom t child rest
    | none => none

def lookup (t : Tree) (path : List String) : Option NamespaceId := t.lookupFrom root path

def chainWithin (t : Tree) : Nat → NamespaceId → List NamespaceId
  | 0, _ => []
  | bound + 1, ns =>
    ns :: match (t.namespaceAt ns).parent with
      | some parent => chainWithin t bound parent
      | none => []

/-- The namespace and those around it, innermost first.  A parent has a smaller number than its
children, so a chain is no longer than the number of its start allows. -/
def chain (t : Tree) (ns : NamespaceId) : List NamespaceId := t.chainWithin (ns + 1) ns

def structureIn (t : Tree) (ns : NamespaceId) (name : String) : Option StructureId :=
  (t.namespaceAt ns).structures[name]?

def functionIn (t : Tree) (ns : NamespaceId) (name : String) : Option SymbolId :=
  (t.namespaceAt ns).functions[name]?

/-- The extension functions of that name declared in `ns` itself, in order of declaration. -/
def extensionsIn (t : Tree) (ns : NamespaceId) (name : String) : List SymbolId :=
  (t.namespaceAt ns).extensions.filter fun f => (t.functionAt f).name == name

/-- The names from below the root down to the namespace. -/
def segments (t : Tree) (ns : NamespaceId) : List String :=
  (((t.chain ns).filter (· != root)).map fun n => (t.namespaceAt n).name).reverse

def namespacePath (t : Tree) (ns : NamespaceId) : String := String.intercalate "." (t.segments ns)

/-- `name` as seen from the root, when it is declared in `ns`. -/
def qualify (t : Tree) (ns : NamespaceId) (name : String) : String :=
  let path := t.namespacePath ns
  if path.isEmpty then name else path ++ "." ++ name

def structurePath (t : Tree) (s : StructureId) : String :=
  t.qualify (t.structureAt s).ns (t.structureAt s).name

/-! ### Adding -/

def addScope (t : Tree) (parent : NamespaceId) (name project : String) : NamespaceId × Tree :=
  match (t.namespaceAt parent).children[name]? with
  | some child => (child, t)
  | none =>
    let id := t.namespaces.size
    let t := t.updateNamespace parent fun ns => { ns with children := ns.children.insert name id }
    (id, { t with namespaces := t.namespaces.push { name, project, parent := some parent } })

/-- Each dependency owns a child of the root that bears its name. -/
def seed (t : Tree) (dependencies : List String) : Tree :=
  dependencies.foldl (fun t name => (t.addScope root name name).2) t

def nameTaken (t : Tree) (ns : NamespaceId) (name : String) : Bool :=
  (t.namespaceAt ns).structures.contains name || (t.namespaceAt ns).functions.contains name

/-- Declares a structure under a name, by default its own, unless the name is taken. -/
def addStructure? (t : Tree) (ns : NamespaceId) (file : Nat) (decl : StructureDecl)
    (name : String := decl.name) : Option (StructureId × Tree) :=
  if t.nameTaken ns name then
    none
  else
    let id := t.structures.size
    let t := { t with structures := t.structures.push { ns, file, decl, name } }
    some (id, t.updateNamespace ns fun n =>
      { n with structures := n.structures.insert name id })

/-- Declares a function, unless its owner has one of that name.  Extension functions and
initializers are never refused. -/
def addFunction? (t : Tree) (owner : Owner) (kind : FunctionKind) (file : Nat)
    (decl : Function Mark) : Option (SymbolId × Tree) :=
  let id := t.functions.size
  let t' := { t with functions := t.functions.push { owner, kind, file, decl } }
  match owner with
  | .ns ns =>
    if kind = .extension then
      some (id, t'.updateNamespace ns fun n => { n with extensions := n.extensions ++ [id] })
    else if t.nameTaken ns decl.name then
      none
    else
      some (id, t'.updateNamespace ns fun n =>
        { n with functions := n.functions.insert decl.name id })
  | .struct s =>
    if kind = .init then
      some (id, t'.updateStructure s fun n => { n with init := some id })
    else if (t.structureAt s).methods.contains decl.name then
      none
    else
      some (id, t'.updateStructure s fun n => { n with methods := n.methods.insert decl.name id })

end Tree

end ObjectLang.Scope
