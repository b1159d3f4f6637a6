import ObjectLang.Names.Resolver
import ObjectLang.Proofs.Fragments

/-! # The walk that resolves names

Name resolution is one walk over the nodes of a file: it enters a node, opens the scope of the node
if it has one, walks over the parts, and looks up what the node names.
-/

namespace ObjectLang.Names

open Source Syntax Scope Diagnostic

/-- The kind of the scope that the node opens. -/
def Fragment.scopeKind? : Fragment → Option ScopeKind
  | cls _ | protocol _ => some .struct
  | function _ _ => some .function
  | block _ => some .block
  | _ => none

namespace Resolver

/-- Records the kind and the parent of a node, and that it is a function with a receiver. -/
def enter (parent : Option Nat) (r : Resolver) (x : Fragment) : Resolver :=
  let r := r.link x.id x.kind parent
  if x.hasReceiver then
    { r with names := { r.names with members := r.names.members.insert x.id } }
  else r

variable (ctx : FileContext)

/-- Opens the scope of a node, if it has one. -/
def openFor (outer : ScopeId) (r : Resolver) (x : Fragment) : Resolver :=
  match x.scopeKind? with
  | some kind =>
    r.openScope { kind, parent := some outer, typeParams := x.typeParams, file := ctx.file }
      (some x.id)
  | none => r

/-- The scope in which the parts of a node stand. -/
def innerScope (outer : ScopeId) (r : Resolver) (x : Fragment) : ScopeId :=
  if x.scopeKind?.isSome then r.nextScope else outer

/-- Looks up what a named type or a use names. -/
def leave (scope : ScopeId) (r : Resolver) : Fragment → Resolver
  | .type (.named m path _) => r.setTarget ctx m path scope
  | .use u =>
    match ctx.tree.lookup u.path with
    | some _ => r
    | none => r.report (.notNamespace (String.intercalate "." u.path)) u.mark.span
  | _ => r

def walk (scope : ScopeId) (parent : Option Nat) (r : Resolver) (x : Fragment) : Resolver :=
  leave ctx scope (x.parts.attach.foldl
    (fun s y => walk ((r.enter parent x).innerScope scope x) (some x.id) s y.1)
    ((r.enter parent x).openFor ctx scope x)) x
termination_by sizeOf x
decreasing_by exact Fragment.sizeOf_lt_of_mem_parts y.2

def walkAll (scope : ScopeId) (parent : Option Nat) (r : Resolver) (xs : List Fragment) :
    Resolver :=
  xs.foldl (walk ctx scope parent) r

theorem walk_eq (scope : ScopeId) (parent : Option Nat) (r : Resolver) (x : Fragment) :
    r.walk ctx scope parent x = leave ctx scope
    (walkAll ctx ((r.enter parent x).innerScope scope x) (some x.id)
      ((r.enter parent x).openFor ctx scope x) x.parts) x := by
  rw [walk, walkAll, List.foldl_subtype (fun _ _ _ => rfl), List.unattach_attach]

theorem walkAll_append (scope : ScopeId) (parent : Option Nat) (r : Resolver)
    (xs ys : List Fragment) :
    r.walkAll ctx scope parent (xs ++ ys) =
      (r.walkAll ctx scope parent xs).walkAll ctx scope parent ys :=
  List.foldl_append

/-- Nodes of one form are walked over one after the other. -/
theorem walkAll_map {α : Type} {fragment : α → Fragment} {step : Resolver → α → Resolver}
    {scope : ScopeId} {parent : Option Nat}
    (h : ∀ r a, step r a = r.walk ctx scope parent (fragment a)) (r : Resolver)
    (as : List α) : r.walkAll ctx scope parent (as.map fragment) = as.foldl step r := by
  rw [walkAll, List.foldl_map]
  congr 1
  funext r a
  exact (h r a).symm

/-! ### Resolution is the walk -/

mutual

theorem type_eq_walk (scope : ScopeId) (parent : Nat) (r : Resolver) (t : TypeExpr Mark) :
    r.type ctx scope parent t = r.walk ctx scope (some parent) (.type t) := by
  rw [walk_eq]
  match t with
  | .primitive m p => rfl
  | .named m path args =>
    rw [type, types_eq_walkAll]
    rfl

theorem types_eq_walkAll (scope : ScopeId) (parent : Nat) (r : Resolver)
    (ts : List (TypeExpr Mark)) :
    r.types ctx scope parent ts = r.walkAll ctx scope (some parent) (ts.map .type) := by
  match ts with
  | [] => rfl
  | t :: ts =>
    rw [types, type_eq_walk, types_eq_walkAll]
    rfl

end

theorem typeOption_eq_walkAll (scope : ScopeId) (parent : Nat) (r : Resolver)
    (t : Option (TypeExpr Mark)) :
    r.typeOption ctx scope parent t = r.walkAll ctx scope (some parent) (t.toList.map .type) := by
  cases t with
  | none => rfl
  | some t => exact type_eq_walk ctx scope parent r t

mutual

theorem expr_eq_walk (scope : ScopeId) (parent : Nat) (r : Resolver) (e : Expr Mark) :
    r.expr ctx scope parent e = r.walk ctx scope (some parent) (.expr e) := by
  rw [walk_eq]
  match e with
  | .int .. | .float .. | .bool .. | .str .. | .ident .. | .self .. => rfl
  | .binary m op left right =>
    rw [expr, expr_eq_walk, expr_eq_walk]
    rfl
  | .unary m op operand =>
    rw [expr, expr_eq_walk]
    rfl
  | .call m callee typeArgs args =>
    rw [expr, types_eq_walkAll, exprs_eq_walkAll, ← walkAll_append]
    rfl
  | .methodCall m receiver method typeArgs args =>
    rw [expr, expr_eq_walk, types_eq_walkAll, exprs_eq_walkAll, ← walkAll_append]
    rfl
  | .field m object name =>
    rw [expr, expr_eq_walk]
    rfl
  | .new m type args =>
    rw [expr, type_eq_walk, exprs_eq_walkAll]
    rfl
  | .cond m condition thenBranch elseBranch =>
    rw [expr, expr_eq_walk, block_eq_walk, blockOption_eq_walkAll]
    rfl
  | .block m body =>
    rw [expr, block_eq_walk]
    rfl
  | .variant m type name =>
    rw [expr, type_eq_walk]
    rfl

theorem exprs_eq_walkAll (scope : ScopeId) (parent : Nat) (r : Resolver) (es : List (Expr Mark)) :
    r.exprs ctx scope parent es = r.walkAll ctx scope (some parent) (es.map .expr) := by
  match es with
  | [] => rfl
  | e :: es =>
    rw [exprs, expr_eq_walk, exprs_eq_walkAll]
    rfl

theorem exprOption_eq_walkAll (scope : ScopeId) (parent : Nat) (r : Resolver)
    (e : Option (Expr Mark)) :
    r.exprOption ctx scope parent e = r.walkAll ctx scope (some parent) (e.toList.map .expr) := by
  match e with
  | none => rfl
  | some e =>
    rw [exprOption, expr_eq_walk]
    rfl

theorem stmt_eq_walk (scope : ScopeId) (parent : Nat) (r : Resolver) (s : Stmt Mark) :
    r.stmt ctx scope parent s = r.walk ctx scope (some parent) (.stmt s) := by
  rw [walk_eq]
  match s with
  | .bind m name type init =>
    rw [stmt, typeOption_eq_walkAll, exprOption_eq_walkAll, ← walkAll_append]
    rfl
  | .assign m target value =>
    rw [stmt, expr_eq_walk, expr_eq_walk]
    rfl
  | .expr m value =>
    rw [stmt, expr_eq_walk]
    rfl
  | .ret m value =>
    rw [stmt, exprOption_eq_walkAll]
    rfl
  | .loop m condition body =>
    rw [stmt, expr_eq_walk, block_eq_walk]
    rfl

theorem stmts_eq_walkAll (scope : ScopeId) (parent : Nat) (r : Resolver) (ss : List (Stmt Mark)) :
    r.stmts ctx scope parent ss = r.walkAll ctx scope (some parent) (ss.map .stmt) := by
  match ss with
  | [] => rfl
  | s :: ss =>
    rw [stmts, stmt_eq_walk, stmts_eq_walkAll]
    rfl

theorem block_eq_walk (outer : ScopeId) (parent : Nat) (r : Resolver) (b : Block Mark) :
    r.block ctx outer parent b = r.walk ctx outer (some parent) (.block b) := by
  rw [walk_eq]
  match b with
  | .mk m stmts tail =>
    rw [block, stmts_eq_walkAll, exprOption_eq_walkAll, ← walkAll_append]
    rfl

theorem blockOption_eq_walkAll (outer : ScopeId) (parent : Nat) (r : Resolver)
    (b : Option (Block Mark)) :
    r.blockOption ctx outer parent b = r.walkAll ctx outer (some parent) (b.toList.map .block) := by
  match b with
  | none => rfl
  | some b =>
    rw [blockOption, block_eq_walk]
    rfl

end

theorem param_eq_walk (scope : ScopeId) (parent : Nat) (r : Resolver) (p : Param Mark) :
    r.param ctx scope parent p = r.walk ctx scope (some parent) (.param p) := by
  rw [walk_eq, param, type_eq_walk]
  rfl

/-- A member of a structure, or an extension function: only free functions have no receiver. -/
theorem function_eq_walk (outer : ScopeId) (owner : Option Nat) (r : Resolver) (kind : FunctionKind)
    (f : Function Mark) (hkind : (owner.isSome || f.receiver.isSome) =
      (Fragment.function kind f).hasReceiver) :
    r.function ctx outer owner f = r.walk ctx outer owner (.function kind f) := by
  have henter : r.enter owner (.function kind f) =
      if owner.isSome || f.receiver.isSome then
        { r.link f.mark.node .function owner with
          names := { (r.link f.mark.node .function owner).names with
            members := (r.link f.mark.node .function owner).names.members.insert f.mark.node } }
      else r.link f.mark.node .function owner := by
    rw [hkind]
    rfl
  rw [walk_eq, function, ← henter]
  simp only [typeOption_eq_walkAll, blockOption_eq_walkAll]
  rw [← walkAll_map ctx (param_eq_walk ctx _ f.mark.node), ← walkAll_append, ← walkAll_append,
    ← walkAll_append]
  rfl

theorem field_eq_walk (scope : ScopeId) (parent : Nat) (r : Resolver) (f : Syntax.Field Mark) :
    r.field ctx scope parent f = r.walk ctx scope (some parent) (.field f) := by
  rw [walk_eq, field, type_eq_walk, exprOption_eq_walkAll]
  rfl

theorem decl_eq_walk (outer : ScopeId) (r : Resolver) (d : Decl Mark) :
    r.decl ctx outer d = r.walk ctx outer none (.ofDecl d) := by
  cases d with
  | function f =>
    apply function_eq_walk
    cases f.receiver <;> rfl
  | cls c =>
    rw [Fragment.ofDecl, walk_eq, decl, cls]
    simp only [typeOption_eq_walkAll, types_eq_walkAll]
    rw [← walkAll_map ctx (field_eq_walk ctx _ c.mark.node),
      ← walkAll_map ctx (fun r f => function_eq_walk ctx _ _ r .init f rfl) _ c.init.toList,
      ← walkAll_map ctx (fun r f => function_eq_walk ctx _ _ r .method f rfl) _ c.methods,
      ← walkAll_append, ← walkAll_append, ← walkAll_append, ← walkAll_append]
    rfl
  | protocol p =>
    rw [Fragment.ofDecl, walk_eq, decl, protocol,
      ← walkAll_map ctx (fun r f => function_eq_walk ctx _ _ r .requirement f rfl) _ p.methods]
    rfl
  | enum e =>
    rw [Fragment.ofDecl, walk_eq]
    rfl

/-- A use stands in no scope. -/
theorem use_eq_walk (scope : ScopeId) (r : Resolver) (u : Use Mark) :
    (r.use ctx u).1 = ctx.tree.lookup u.path ∧
    (r.use ctx u).2 = r.walk ctx scope none (.use u) := by
  rw [walk_eq, use]
  change _ ∧ _ = leave ctx scope (r.link u.mark.node .use none) (.use u)
  rw [leave]
  cases ctx.tree.lookup u.path <;> exact ⟨rfl, rfl⟩

theorem uses_eq_walkAll (scope : ScopeId) (r : Resolver) (us : List (Use Mark)) :
    (r.uses ctx us).1 = us.filterMap (fun u => ctx.tree.lookup u.path) ∧
      (r.uses ctx us).2 = r.walkAll ctx scope none (us.map .use) := by
  induction us generalizing r with
  | nil => exact ⟨rfl, rfl⟩
  | cons u us ih =>
    obtain ⟨hns, hwalk⟩ := use_eq_walk ctx scope r u
    obtain ⟨hrest, hwalks⟩ := ih (r.use ctx u).2
    have hfirst :
      (r.uses ctx (u :: us)).1 = (r.use ctx u).1.toList ++ ((r.use ctx u).2.uses ctx us).1 := rfl
    refine ⟨?_, hwalks.trans (by rw [hwalk]; rfl)⟩
    rw [hfirst, hns, hrest, List.filterMap_cons]
    cases ctx.tree.lookup u.path <;> rfl

/-- The walk over a file, up to its declarations. -/
def enterFile (r : Resolver) (f : File Mark) : Resolver :=
  let (imports, r) := r.uses ctx f.uses
  let r := { r with names := { r.names with imports := r.names.imports.insert f.id imports } }
  r.openScope { kind := .ns ctx.ns, parent := none, typeParams := [], file := ctx.file } none

theorem file_eq_walkAll (r : Resolver) (f : File Mark) :
    r.file ctx f = (enterFile ctx r f).walkAll ctx (r.uses ctx f.uses).2.nextScope none
    (f.decls.map .ofDecl) :=
  (walkAll_map ctx (decl_eq_walk ctx _) _ f.decls).symm

end Resolver

end ObjectLang.Names
