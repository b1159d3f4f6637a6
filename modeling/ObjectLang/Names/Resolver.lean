import ObjectLang.Names.Resolution
import ObjectLang.Diagnostic.Report

/-! # Name resolution

One walk over every registered file.  A name that is not found is reported and resolves to
`unknown`. A qualified name starts at the root.  A single name is a type parameter of the scopes
around it, else a structure of the innermost namespace of the file that has one, else one of the
first import.
-/

namespace ObjectLang.Names

open Source Syntax Scope Diagnostic

structure FileContext where
  tree : Tree
  file : Nat
  ns : NamespaceId

structure Resolver where
  names : Resolution := {}
  errors : List Error := []
  deriving Inhabited

namespace Resolver

def report (r : Resolver) (cause : ErrorCause) (span : Span) : Resolver :=
  { r with errors := r.errors ++ [{ cause, span }] }

def link (r : Resolver) (node : Nat) (kind : NodeKind) (parent : Option Nat) : Resolver :=
  { r with names := { r.names with
      kinds := r.names.kinds.insert node kind
      parents := match parent with
        | some p => r.names.parents.insert node p
        | none => r.names.parents } }

/-- Opens the scope of `owner`; its number is the number of scopes before it. -/
def openScope (r : Resolver) (scope : LexicalScope) (owner : Option Nat) : Resolver :=
  { r with names := { r.names with
      scopes := r.names.scopes.push scope
      nodeScopes := match owner with
        | some node => r.names.nodeScopes.insert node r.names.scopes.size
        | none => r.names.nodeScopes } }

def nextScope (r : Resolver) : ScopeId := r.names.scopes.size

section

variable (ctx : FileContext)

def lookupType (r : Resolver) (scope : ScopeId) (path : List String) : Target :=
  match path.reverse with
  | [] => .unknown
  | [name] =>
    if r.names.bindsTypeParam scope name then
      .typeParam name
    else
      match firstStructure ctx.tree name (ctx.tree.chain ctx.ns ++ r.names.importsOf ctx.file) with
      | some s => .struct s
      | none => .unknown
  | name :: outer =>
    match (ctx.tree.lookup outer.reverse).bind fun ns => ctx.tree.structureIn ns name with
    | some s => .struct s
    | none => .unknown

/-- Records what a named type denotes, and reports a type that denotes nothing. -/
def setTarget (r : Resolver) (mark : Mark) (path : List String) (scope : ScopeId) : Resolver :=
  let target := r.lookupType ctx scope path
  let r := if target = .unknown then
      r.report (.notFound (String.intercalate "." path)) mark.span
    else r
  { r with names := { r.names with targets := r.names.targets.insert mark.node target } }

mutual

def type (scope : ScopeId) (parent : Nat) (r : Resolver) : TypeExpr Mark → Resolver
  | .primitive m _ => r.link m.node .type (some parent)
  | .named m path args =>
    (types scope m.node (r.link m.node .type (some parent)) args).setTarget ctx m path scope

def types (scope : ScopeId) (parent : Nat) (r : Resolver) : List (TypeExpr Mark) → Resolver
  | [] => r
  | t :: ts => types scope parent (type scope parent r t) ts

end

def typeOption (scope : ScopeId) (parent : Nat) (r : Resolver) : Option (TypeExpr Mark) → Resolver
  | none => r
  | some t => r.type ctx scope parent t

mutual

def expr (scope : ScopeId) (parent : Nat) (r : Resolver) : Expr Mark → Resolver
  | .int m _ | .float m _ | .bool m _ | .str m _ | .ident m _ | .self m =>
    r.link m.node .expr (some parent)
  | .binary m _ left right =>
    let r := expr scope m.node (r.link m.node .expr (some parent)) left
    expr scope m.node r right
  | .unary m _ operand => expr scope m.node (r.link m.node .expr (some parent)) operand
  | .call m _ typeArgs args =>
    let r := (r.link m.node .expr (some parent)).types ctx scope m.node typeArgs
    exprs scope m.node r args
  | .methodCall m receiver _ typeArgs args =>
    let r := expr scope m.node (r.link m.node .expr (some parent)) receiver
    exprs scope m.node (r.types ctx scope m.node typeArgs) args
  | .field m object _ => expr scope m.node (r.link m.node .expr (some parent)) object
  | .new m t args =>
    exprs scope m.node ((r.link m.node .expr (some parent)).type ctx scope m.node t) args
  | .cond m condition thenBranch elseBranch =>
    let r := expr scope m.node (r.link m.node .expr (some parent)) condition
    let r := block scope m.node r thenBranch
    blockOption scope m.node r elseBranch
  | .block m body => block scope m.node (r.link m.node .expr (some parent)) body
  | .variant m t _ => (r.link m.node .expr (some parent)).type ctx scope m.node t

def exprs (scope : ScopeId) (parent : Nat) (r : Resolver) : List (Expr Mark) → Resolver
  | [] => r
  | e :: es => exprs scope parent (expr scope parent r e) es

def exprOption (scope : ScopeId) (parent : Nat) (r : Resolver) : Option (Expr Mark) → Resolver
  | none => r
  | some e => expr scope parent r e

def stmt (scope : ScopeId) (parent : Nat) (r : Resolver) : Stmt Mark → Resolver
  | .bind m _ t init =>
    let r := (r.link m.node .stmt (some parent)).typeOption ctx scope m.node t
    exprOption scope m.node r init
  | .assign m target value =>
    let r := expr scope m.node (r.link m.node .stmt (some parent)) target
    expr scope m.node r value
  | .expr m value => expr scope m.node (r.link m.node .stmt (some parent)) value
  | .ret m value => exprOption scope m.node (r.link m.node .stmt (some parent)) value
  | .loop m condition body =>
    let r := expr scope m.node (r.link m.node .stmt (some parent)) condition
    block scope m.node r body

def stmts (scope : ScopeId) (parent : Nat) (r : Resolver) : List (Stmt Mark) → Resolver
  | [] => r
  | s :: ss => stmts scope parent (stmt scope parent r s) ss

def block (outer : ScopeId) (parent : Nat) (r : Resolver) : Block Mark → Resolver
  | .mk m body tail =>
    let r := r.link m.node .block (some parent)
    let scope := r.nextScope
    let r := r.openScope
      { kind := .block, parent := some outer, typeParams := [], file := ctx.file } (some m.node)
    let r := stmts scope m.node r body
    exprOption scope m.node r tail

def blockOption (outer : ScopeId) (parent : Nat) (r : Resolver) : Option (Block Mark) → Resolver
  | none => r
  | some b => block outer parent r b

end

def param (scope : ScopeId) (parent : Nat) (r : Resolver) (p : Param Mark) : Resolver :=
  (r.link p.mark.node .param (some parent)).type ctx scope p.mark.node p.type

/-- A function has a receiver when it is a member of a structure or an extension function. -/
def function (outer : ScopeId) (owner : Option Nat) (r : Resolver) (f : Function Mark) : Resolver :=
  let node := f.mark.node
  let r := r.link node .function owner
  let r := if owner.isSome || f.receiver.isSome then
      { r with names := { r.names with members := r.names.members.insert node } }
    else r
  let scope := r.nextScope
  let r := r.openScope
    { kind := .function, parent := some outer, typeParams := f.typeParams, file := ctx.file }
    (some node)
  let r := r.typeOption ctx scope node f.receiver
  let r := f.params.foldl (param ctx scope node) r
  let r := r.typeOption ctx scope node f.returnType
  r.blockOption ctx scope node f.body

def field (scope : ScopeId) (parent : Nat) (r : Resolver) (f : Syntax.Field Mark) : Resolver :=
  let node := f.mark.node
  let r := (r.link node .field (some parent)).type ctx scope node f.type
  r.exprOption ctx scope node f.default

def cls (outer : ScopeId) (r : Resolver) (c : Class Mark) : Resolver :=
  let node := c.mark.node
  let r := r.link node .cls none
  let scope := r.nextScope
  let r := r.openScope
    { kind := .struct, parent := some outer, typeParams := c.typeParams, file := ctx.file }
    (some node)
  let r := r.typeOption ctx scope node c.ancestor
  let r := r.types ctx scope node c.protocols
  let r := c.fields.foldl (field ctx scope node) r
  let r := c.init.toList.foldl (function ctx scope (some node)) r
  c.methods.foldl (function ctx scope (some node)) r

def protocol (outer : ScopeId) (r : Resolver) (p : Protocol Mark) : Resolver :=
  let node := p.mark.node
  let r := r.link node .protocol none
  let scope := r.nextScope
  let r := r.openScope
    { kind := .struct, parent := some outer, typeParams := p.typeParams, file := ctx.file }
    (some node)
  p.methods.foldl (function ctx scope (some node)) r

def decl (outer : ScopeId) (r : Resolver) : Decl Mark → Resolver
  | .function f => r.function ctx outer none f
  | .cls c => r.cls ctx outer c
  | .protocol p => r.protocol ctx outer p
  | .enum e => r.link e.mark.node .enum none

/-- Links a use and returns the namespace that it names, if there is one. -/
def use (r : Resolver) (u : Use Mark) : Option NamespaceId × Resolver :=
  let r := r.link u.mark.node .use none
  match ctx.tree.lookup u.path with
  | some ns => (some ns, r)
  | none => (none, r.report (.notNamespace (String.intercalate "." u.path)) u.mark.span)

def uses (r : Resolver) : List (Use Mark) → List NamespaceId × Resolver
  | [] => ([], r)
  | u :: us =>
    let (ns, r) := r.use ctx u
    let (rest, r) := uses r us
    (ns.toList ++ rest, r)

/-- Walks one file: its uses, then its declarations in the scope of its namespace. -/
def file (r : Resolver) (f : File Mark) : Resolver :=
  let (imports, r) := r.uses ctx f.uses
  let r := { r with names := { r.names with imports := r.names.imports.insert f.id imports } }
  let scope := r.nextScope
  let r := r.openScope { kind := .ns ctx.ns, parent := none, typeParams := [], file := ctx.file }
    none
  f.decls.foldl (decl ctx scope) r

end

def resolve (tree : Tree) : Resolver :=
  tree.files.foldl
    (fun r entry => r.file { tree, file := entry.source.id, ns := entry.ns } entry.source) {}

end Resolver

end ObjectLang.Names
