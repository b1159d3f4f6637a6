import Mathlib.Data.List.Intervals
import ObjectLang.Names.Resolution
import ObjectLang.Syntax.Numbering

/-! # Nodes of source trees

All forms of declarations, statements, expressions and types are nodes with parts.  A site is a node
together with the nodes around it; the sites of a file are listed in the order in which its nodes
are finished.  Nodes are numbered in that order too, so that each has an id of its own.
-/

namespace ObjectLang.Names

open Source Syntax Scope

/-- A node of a source tree, with all that is written below it. -/
inductive Fragment where
  | use (u : Use Mark)
  | enum (e : Enum Mark)
  | cls (c : Class Mark)
  | protocol (p : Protocol Mark)
  | function (kind : FunctionKind) (f : Function Mark)
  | field (f : Syntax.Field Mark)
  | param (p : Param Mark)
  | block (b : Block Mark)
  | stmt (s : Stmt Mark)
  | expr (e : Expr Mark)
  | type (t : TypeExpr Mark)

namespace Fragment

def mark : Fragment → Mark
  | use x => x.mark
  | enum x => x.mark
  | cls x => x.mark
  | protocol x => x.mark
  | function _ x => x.mark
  | field x => x.mark
  | param x => x.mark
  | block x => x.mark
  | stmt x => x.mark
  | expr x => x.mark
  | type x => x.mark

def id (x : Fragment) : Nat := x.mark.node

def kind : Fragment → NodeKind
  | use _ => .use
  | enum _ => .enum
  | cls _ => .cls
  | protocol _ => .protocol
  | function _ _ => .function
  | field _ => .field
  | param _ => .param
  | block _ => .block
  | stmt _ => .stmt
  | expr _ => .expr
  | type _ => .type

/-- The type parameters that a structure or a function declares. -/
def typeParams : Fragment → List String
  | cls c => c.typeParams
  | protocol p => p.typeParams
  | function _ f => f.typeParams
  | _ => []

/-- The path of a named type. -/
def named? : Fragment → Option (List String)
  | type (.named _ path _) => some path
  | _ => none

/-- All functions but free ones have a receiver. -/
def hasReceiver : Fragment → Bool
  | function .free _ => false
  | function _ _ => true
  | _ => false

def ofDecl : Decl Mark → Fragment
  | .function f => function (if f.receiver.isSome then .extension else .free) f
  | .cls c => cls c
  | .protocol p => protocol p
  | .enum e => enum e

/-- The nodes right below it, in the order in which they are written. -/
def parts : Fragment → List Fragment
  | use _ | enum _ => []
  | cls c => c.ancestor.toList.map type ++ (c.protocols.map type ++ (c.fields.map field ++
    (c.init.toList.map (function .init) ++ c.methods.map (function .method))))
  | protocol p => p.methods.map (function .requirement)
  | function _ f => f.receiver.toList.map type ++
      (f.params.map param ++ (f.returnType.toList.map type ++
    f.body.toList.map block))
  | field f => type f.type :: f.default.toList.map expr
  | param p => [type p.type]
  | block b => b.stmts.map stmt ++ b.tail.toList.map expr
  | stmt (.bind _ _ t e) => t.toList.map type ++ e.toList.map expr
  | stmt (.assign _ e e') => [expr e, expr e']
  | stmt (.expr _ e) => [expr e]
  | stmt (.ret _ e) => e.toList.map expr
  | stmt (.loop _ e b) => [expr e, block b]
  | expr (.int _ _) | expr (.float _ _) | expr (.bool _ _) | expr (.str _ _) | expr (.ident _ _)
  | expr (.self _) => []
  | expr (.binary _ _ e e') => [expr e, expr e']
  | expr (.unary _ _ e) | expr (.field _ e _) => [expr e]
  | expr (.call _ _ ts es) => ts.map type ++ es.map expr
  | expr (.methodCall _ e _ ts es) => expr e :: (ts.map type ++ es.map expr)
  | expr (.new _ t es) => type t :: es.map expr
  | expr (.cond _ e b b') => expr e :: block b :: b'.toList.map block
  | expr (.block _ b) => [block b]
  | expr (.variant _ t _) => [type t]
  | type (.primitive _ _) => []
  | type (.named _ _ ts) => ts.map type

theorem sizeOf_lt_of_mem_parts {x y : Fragment} (h : y ∈ x.parts) : sizeOf y < sizeOf x := by
  cases x with
  | use u | enum e => cases h
  | cls x | protocol x | function kind x | field x | param x | block x | stmt x | expr x | type x =>
    cases x <;> simp only [parts, Block.stmts, Block.tail, List.mem_append, List.mem_map,
      List.mem_cons,
      Option.mem_toList, List.not_mem_nil, or_false] at h <;> grind [→ List.sizeOf_lt_of_mem]

theorem parts_induction {P : Fragment → Prop} (h : ∀ x, (∀ y ∈ x.parts, P y) → P x) (x : Fragment) :
    P x :=
  h x fun y hy =>
    have := sizeOf_lt_of_mem_parts hy
    parts_induction h y
termination_by sizeOf x

end Fragment

/-! ### Sites -/

/-- A node with the nodes around it, innermost first. -/
structure Site where
  node : Fragment
  above : List Fragment

def Site.id (x : Site) : Nat := x.node.id

/-- The nodes below it and then the node, where it stands below other nodes. -/
def Fragment.sites (above : List Fragment) (x : Fragment) : List Site :=
  x.parts.attach.flatMap (fun y => y.1.sites (x :: above)) ++ [⟨x, above⟩]
termination_by sizeOf x
decreasing_by exact Fragment.sizeOf_lt_of_mem_parts y.2

def sitesOf (above : List Fragment) (xs : List Fragment) : List Site :=
  xs.flatMap (Fragment.sites above)

variable {above : List Fragment} {x y : Fragment} {xs ys : List Fragment}

theorem Fragment.sites_eq (above : List Fragment) (x : Fragment) :
    x.sites above = sitesOf (x :: above) x.parts ++ [⟨x, above⟩] := by
  rw [sites, sitesOf, List.flatMap_subtype (fun _ _ => rfl), List.unattach_attach]

theorem sitesOf_append : sitesOf above (xs ++ ys) = sitesOf above xs ++ sitesOf above ys :=
  List.flatMap_append

theorem Fragment.mem_sites (above : List Fragment) (x : Fragment) : ⟨x, above⟩ ∈ x.sites above := by
  rw [sites_eq]
  exact List.mem_append_right _ List.mem_cons_self

theorem ids_sublist (above : List Fragment) (xs : List Fragment) :
    (xs.map Fragment.id).Sublist ((sitesOf above xs).map Site.id) := by
  induction xs with
  | nil => exact .slnil
  | cons x xs ih =>
    rw [sitesOf, List.flatMap_cons, x.sites_eq, List.map_append, List.map_append]
    exact (List.sublist_append_right _ [x.id]).append ih

/-- What stands below a part stands below the node. -/
theorem Fragment.sites_subset (h : y ∈ x.parts) : y.sites (x :: above) ⊆ x.sites above := by
  intro z hz
  rw [x.sites_eq]
  exact List.mem_append_left _ (List.mem_flatMap.mpr ⟨y, h, hz⟩)

end ObjectLang.Names

namespace ObjectLang.Syntax

open Names

/-- The nodes of a file that stand below no other ones. -/
def File.fragments (f : File Mark) : List Fragment := f.uses.map .use ++ f.decls.map .ofDecl

def File.sites (f : File Mark) : List Site := sitesOf [] f.fragments

end ObjectLang.Syntax

namespace ObjectLang.Names

open Source Syntax Scope Numbering

/-! ### Ids -/

/-- The ids of the nodes run upwards, from `lo` up to `hi`. -/
structure Ascends (lo hi : Nat) (xs : List Fragment) : Prop where
  le : lo ≤ hi
  ids : ∀ above, ((sitesOf above xs).map Site.id).Sublist (List.Ico lo hi)

namespace Ascends

variable {lo mid hi : Nat} {xs ys : List Fragment} {x : Fragment}

theorem gap (h : lo ≤ hi) : Ascends lo hi [] := ⟨h, fun _ => List.nil_sublist _⟩

theorem append (h : Ascends lo mid xs) (h' : Ascends mid hi ys) : Ascends lo hi (xs ++ ys) := by
  refine ⟨h.le.trans h'.le, fun above => ?_⟩
  rw [sitesOf_append, List.map_append, ← List.Ico.append_consecutive h.le h'.le]
  exact (h.ids above).append (h'.ids above)

/-- A node is numbered after its parts. -/
theorem node (h : Ascends lo hi x.parts) (hid : x.id = hi) : Ascends lo (hi + 1) [x] := by
  subst hid
  refine ⟨Nat.le_succ_of_le h.le, fun above => ?_⟩
  rw [sitesOf, List.flatMap_singleton, x.sites_eq, List.map_append, List.Ico.succ_top h.le]
  exact (h.ids (x :: above)).append (List.Sublist.refl [x.id])

end Ascends

/-- The nodes of what is numbered take their ids in order. -/
def Numbers {α : Type} (x : Numbering α) (fragments : α → List Fragment) : Prop :=
  ∀ c, Ascends c.nodes (x.run c).2.nodes (fragments (x.run c).1)

variable (file : Nat)

mutual

theorem numbers_type (t : TypeExpr Hint) : Numbers (t.number file) fun t => [.type t] := by
  match t with
  | .primitive h p =>
    rw [TypeExpr.number]
    exact fun c => .node (.gap (Nat.le_refl _)) rfl
  | .named h path args =>
    rw [TypeExpr.number]
    exact fun c => .node (numbers_types args c) rfl

theorem numbers_types (ts : List (TypeExpr Hint)) :
    Numbers (TypeExpr.numberList file ts) fun ts => ts.map .type := by
  match ts with
  | [] =>
    rw [TypeExpr.numberList]
    exact fun c => .gap (Nat.le_refl _)
  | t :: ts =>
    rw [TypeExpr.numberList]
    exact fun c => (numbers_type t c).append (numbers_types ts _)

end

theorem numbers_typeOption (t : Option (TypeExpr Hint)) :
    Numbers (TypeExpr.numberOption file t) fun t => t.toList.map .type := by
  cases t with
  | none => exact fun c => .gap (Nat.le_refl _)
  | some t => exact numbers_type file t

mutual

theorem numbers_expr (e : Expr Hint) : Numbers (e.number file) fun e => [.expr e] := by
  match e with
  | .int .. | .float .. | .bool .. | .str .. | .ident .. | .self .. =>
    rw [Expr.number]
    exact fun c => .node (.gap (Nat.le_refl _)) rfl
  | .binary h op left right =>
    rw [Expr.number]
    exact fun c => .node ((numbers_expr left c).append (numbers_expr right _)) rfl
  | .unary h op operand =>
    rw [Expr.number]
    exact fun c => .node (numbers_expr operand c) rfl
  | .call h name types args =>
    rw [Expr.number]
    exact fun c => .node ((numbers_types file types c).append (numbers_exprs args _)) rfl
  | .methodCall h receiver name types args =>
    rw [Expr.number]
    exact fun c => .node ((numbers_expr receiver c).append
      ((numbers_types file types _).append (numbers_exprs args _))) rfl
  | .field h object name =>
    rw [Expr.number]
    exact fun c => .node (numbers_expr object c) rfl
  | .new h type args =>
    rw [Expr.number]
    exact fun c => .node ((numbers_type file type c).append (numbers_exprs args _)) rfl
  | .cond h condition thenBranch elseBranch =>
    rw [Expr.number]
    exact fun c => .node ((numbers_expr condition c).append
      ((numbers_block thenBranch _).append (numbers_blockOption elseBranch _))) rfl
  | .block h body =>
    rw [Expr.number]
    exact fun c => .node (numbers_block body c) rfl
  | .variant h type name =>
    rw [Expr.number]
    exact fun c => .node (numbers_type file type c) rfl

theorem numbers_exprs (es : List (Expr Hint)) :
    Numbers (Expr.numberList file es) fun es => es.map .expr := by
  match es with
  | [] =>
    rw [Expr.numberList]
    exact fun c => .gap (Nat.le_refl _)
  | e :: es =>
    rw [Expr.numberList]
    exact fun c => (numbers_expr e c).append (numbers_exprs es _)

theorem numbers_exprOption (e : Option (Expr Hint)) :
    Numbers (Expr.numberOption file e) fun e => e.toList.map .expr := by
  match e with
  | none =>
    rw [Expr.numberOption]
    exact fun c => .gap (Nat.le_refl _)
  | some e =>
    rw [Expr.numberOption]
    exact numbers_expr e

theorem numbers_stmt (s : Stmt Hint) : Numbers (s.number file) fun s => [.stmt s] := by
  match s with
  | .bind h name type init =>
    rw [Stmt.number]
    exact fun c => .node ((numbers_typeOption file type c).append (numbers_exprOption init _)) rfl
  | .assign h target value =>
    rw [Stmt.number]
    exact fun c => .node ((numbers_expr target c).append (numbers_expr value _)) rfl
  | .expr h value =>
    rw [Stmt.number]
    exact fun c => .node (numbers_expr value c) rfl
  | .ret h value =>
    rw [Stmt.number]
    exact fun c => .node (numbers_exprOption value c) rfl
  | .loop h condition body =>
    rw [Stmt.number]
    exact fun c => .node ((numbers_expr condition c).append (numbers_block body _)) rfl

theorem numbers_stmts (ss : List (Stmt Hint)) :
    Numbers (Stmt.numberList file ss) fun ss => ss.map .stmt := by
  match ss with
  | [] =>
    rw [Stmt.numberList]
    exact fun c => .gap (Nat.le_refl _)
  | s :: ss =>
    rw [Stmt.numberList]
    exact fun c => (numbers_stmt s c).append (numbers_stmts ss _)

theorem numbers_block (b : Block Hint) : Numbers (b.number file) fun b => [.block b] := by
  match b with
  | .mk h body tail =>
    rw [Block.number]
    exact fun c => .node ((numbers_stmts body c).append (numbers_exprOption tail _)) rfl

theorem numbers_blockOption (b : Option (Block Hint)) :
    Numbers (Block.numberOption file b) fun b => b.toList.map .block := by
  match b with
  | none =>
    rw [Block.numberOption]
    exact fun c => .gap (Nat.le_refl _)
  | some b =>
    rw [Block.numberOption]
    exact numbers_block b

end

theorem Numbers.mapM {α β : Type} {g : α → Numbering β} {fragments : β → List Fragment}
    (h : ∀ a, Numbers (g a) fragments) (as : List α) :
    Numbers (as.mapM g) fun bs => bs.flatMap fragments := by
  induction as with
  | nil => exact fun c => .gap (Nat.le_refl _)
  | cons a as ih =>
    rw [List.mapM_cons]
    exact fun c => (h a c).append (ih _)

theorem Numbers.map {α β : Type} {g : α → Numbering β} {fragment : β → Fragment}
    (h : ∀ a, Numbers (g a) fun b => [fragment b]) (as : List α) :
    Numbers (as.mapM g) fun bs => bs.map fragment := by
  simpa only [List.map_eq_flatMap] using Numbers.mapM h as

theorem numbers_param (p : Param Hint) : Numbers (p.number file) fun p => [.param p] :=
  fun c => .node (numbers_type file p.type c) rfl

/-- A function without a body takes an id in place of one. -/
theorem numbers_function (kind : FunctionKind) (f : Function Hint) :
    Numbers (f.number file) fun f => [.function kind f] := by
  obtain ⟨mark, name, typeParams, receiver, params, returnType, body, isVirtual, isOverride⟩ := f
  intro c
  have hreceiver := numbers_typeOption file receiver { c with spans := c.spans + typeParams.length }
  have hparams := Numbers.map (numbers_param file) params
  have hreturn := numbers_typeOption file returnType
  cases body with
  | some b =>
    exact .node (hreceiver.append
      ((hparams _).append ((hreturn _).append (numbers_block file b _)))) rfl
  | none =>
    exact .node (hreceiver.append ((hparams _).append ((hreturn _).append (.gap (Nat.le_succ _)))))
      rfl

theorem numbers_field (f : Syntax.Field Hint) : Numbers (f.number file) fun f => [.field f] :=
  fun c => .node ((numbers_type file f.type c).append (numbers_exprOption file f.default _)) rfl

theorem numbers_init (f : Option (Function Hint)) :
    Numbers (Function.numberOption file f) fun f => f.toList.map (.function .init) := by
  cases f with
  | none => exact fun c => .gap (Nat.le_refl _)
  | some f => exact numbers_function file .init f

theorem numbers_decl (d : Decl Hint) : Numbers (d.number file) fun d => [.ofDecl d] := by
  intro c
  cases d with
  | function f => exact numbers_function file _ f c
  | cls k =>
    have hancestor :=
      numbers_typeOption file k.ancestor { c with spans := c.spans + k.typeParams.length }
    have hmethods := Numbers.map (numbers_function file .method) k.methods
    exact .node (hancestor.append ((numbers_types file k.protocols _).append
      ((Numbers.map (numbers_field file) k.fields _).append
      ((numbers_init file k.init _).append (hmethods _))))) rfl
  | protocol p =>
    exact .node (Numbers.map (numbers_function file .requirement) p.methods
      { c with spans := c.spans + p.typeParams.length }) rfl
  | enum e => exact .node (.gap (Nat.le_refl _)) rfl

theorem numbers_file (f : File Hint) : Numbers f.number File.fragments := by
  have huse (u : Use Hint) : Numbers (u.number f.id) fun u => [.use u] :=
    fun c => .node (.gap (Nat.le_refl _)) rfl
  exact fun c => (Numbers.map huse f.uses c).append (Numbers.map (numbers_decl f.id) f.decls _)

/-- Every node that is numbered gets an id of its own. -/
theorem nodup_numberFiles (files : List (File Hint)) :
    (((numberFiles files).1.flatMap File.sites).map Site.id).Nodup := by
  have hids := (Numbers.mapM numbers_file files {}).ids []
  rw [sitesOf, List.flatMap_assoc] at hids
  exact (List.Ico.nodup _ _).sublist hids

end ObjectLang.Names
