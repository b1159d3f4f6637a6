import ObjectLang.Scope.Tree
import ObjectLang.Diagnostic.Report

/-! # Registration of files

A registered file puts its declarations into the tree.  Of several declarations of one name the
first wins; each later one is reported and leaves no trace in the tree.
-/

namespace ObjectLang.Scope

open Source Syntax Diagnostic

structure Registry where
  tree : Tree
  errors : List Error := []
  deriving Inhabited

namespace Registry

def report (r : Registry) (cause : ErrorCause) (span : Span) : Registry :=
  { r with errors := r.errors ++ [{ cause, span }] }

def declareFunction (r : Registry) (owner : Owner) (kind : FunctionKind) (file : Nat)
    (f : Function Mark) : Registry :=
  match r.tree.addFunction? owner kind file f with
  | some (_, tree) => { r with tree }
  | none => r.report (.alreadyDeclared f.name) f.mark.span

def declareFunctions (r : Registry) (owner : Owner) (kind : FunctionKind) (file : Nat)
    (fs : List (Function Mark)) : Registry :=
  fs.foldl (fun r f => r.declareFunction owner kind file f) r

def declareStructure (r : Registry) (ns : NamespaceId) (file : Nat) (decl : StructureDecl)
    (members : StructureId → Registry → Registry) : Registry :=
  match r.tree.addStructure? ns file decl with
  | some (id, tree) => members id { r with tree }
  | none => r.report (.alreadyDeclared decl.name) decl.mark.span

/-- The names that occur earlier in the list, once for each further occurrence. -/
def repeats (seen : List String) : List String → List String
  | [] => []
  | x :: xs => (if seen.contains x then [x] else []) ++ repeats (x :: seen) xs

def declare (r : Registry) (ns : NamespaceId) (file : Nat) : Decl Mark → Registry
  | .function f =>
    r.declareFunction (.ns ns) (if f.receiver.isSome then .extension else .free) file f
  | .cls c =>
    r.declareStructure ns file (.cls c) fun id r =>
      (r.declareFunctions (.struct id) .init file c.init.toList).declareFunctions
        (.struct id) .method file c.methods
  | .protocol p =>
    r.declareStructure ns file (.protocol p) fun id r =>
      r.declareFunctions (.struct id) .requirement file p.methods
  | .enum e =>
    let r := (repeats [] e.variants).foldl
      (fun r name => r.report (.alreadyDeclared name) e.mark.span) r
    r.declareStructure ns file (.enum e) fun _ r => r

/-- The namespace of a path, made as far as it is missing; a new namespace belongs to the project of
the one around it. -/
def openPath (t : Tree) (ns : NamespaceId) : List String → NamespaceId × Tree
  | [] => (ns, t)
  | segment :: rest =>
    let (child, t) := t.addScope ns segment (t.namespaceAt ns).project
    openPath t child rest

def registerFile (r : Registry) (f : File Mark) : NamespaceId × Registry :=
  let (ns, tree) := openPath r.tree Tree.root f.ns
  let tree := tree.updateNamespace ns fun n => { n with files := n.files ++ [f.id] }
  let r := f.decls.foldl (fun r d => r.declare ns f.id d) { r with tree }
  (ns, { r with tree := { r.tree with files := r.tree.files.push { source := f, ns } } })

def ofFiles (project : String) (dependencies : List String) (files : List (File Mark)) : Registry :=
  files.foldl (fun r f => (r.registerFile f).2)
    { tree := (Tree.ofProject project).seed dependencies }

end Registry

end ObjectLang.Scope
