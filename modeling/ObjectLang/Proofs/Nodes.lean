import ObjectLang.Checked.Program

/-! # The nodes of checked bodies

A checked body is taken apart into its nodes.  Whatever was reported, integer literals are numbers,
the types of calls, of conditionals and of blocks are those of what they lead to, and a block is
marked when one of its parts diverges.
-/

namespace ObjectLang.Checked

open Syntax

/-- A part of a checked body. -/
inductive Node where
  | expr (e : Expr)
  | stmt (s : Stmt)
  | block (b : Block)

mutual

/-- The expression and all that is in it. -/
def Expr.nodes : Expr → List Node
  | e@(.field _ object _ _) => .expr e :: object.nodes
  | e@(.binary _ _ left right) => .expr e :: (left.nodes ++ right.nodes)
  | e@(.unary _ _ operand) => .expr e :: operand.nodes
  | e@(.call _ _ receiver args _) => .expr e :: (nodesOfOption receiver ++ nodesOfExprs args)
  | e@(.new _ _ _ args) => .expr e :: nodesOfExprs args
  | e@(.cond _ condition thenBranch elseBranch) =>
    .expr e :: (condition.nodes ++ (thenBranch.nodes ++ nodesOfElse elseBranch))
  | e@(.block _ body) => .expr e :: body.nodes
  | e => [.expr e]

def nodesOfOption : Option Expr → List Node
  | none => []
  | some e => e.nodes

def nodesOfExprs : List Expr → List Node
  | [] => []
  | e :: es => e.nodes ++ nodesOfExprs es

def Stmt.nodes : Stmt → List Node
  | s@(.bind _ init) => .stmt s :: nodesOfOption init
  | s@(.setVar _ value) => .stmt s :: value.nodes
  | s@(.setField object _ _ value) => .stmt s :: (object.nodes ++ value.nodes)
  | s@(.expr value) => .stmt s :: value.nodes
  | s@(.ret value) => .stmt s :: nodesOfOption value
  | s@(.loop condition body) => .stmt s :: (condition.nodes ++ body.nodes)

def nodesOfStmts : List Stmt → List Node
  | [] => []
  | s :: ss => s.nodes ++ nodesOfStmts ss

def Block.nodes : Block → List Node
  | b@(.mk stmts tail _ _ _) => .block b :: (nodesOfStmts stmts ++ nodesOfOption tail)

def nodesOfElse : Option Block → List Node
  | none => []
  | some b => b.nodes

end

/-- The parts of a function: what it does and the defaults that it stores. -/
def FuncInst.nodes (f : FuncInst) : List Node :=
  nodesOfElse f.body ++ f.fieldInits.flatMap (·.value.nodes)

theorem FuncInst.mem_nodes {f : FuncInst} {n : Node} :
    n ∈ f.nodes ↔ (∃ b, f.body = some b ∧ n ∈ b.nodes) ∨
    ∃ init ∈ f.fieldInits, n ∈ init.value.nodes := by
  rw [nodes, List.mem_append, List.mem_flatMap]
  cases f.body <;> simp [nodesOfElse]

theorem FuncInst.forall_mem_nodes {f : FuncInst} {P : Node → Prop} :
    (∀ n ∈ f.nodes, P n) ↔
      (∀ b, f.body = some b → ∀ n ∈ b.nodes, P n) ∧
        ∀ init ∈ f.fieldInits, ∀ n ∈ init.value.nodes, P n := by
  simp only [mem_nodes, or_imp, forall_and, forall_exists_index, and_imp]
  apply and_congr
  · exact ⟨fun h b hb n hn => h n b hb hn, fun h n b hb hn => h b hb n hn⟩
  · exact ⟨fun h init hinit n hn => h n init hinit hn, fun h n init hinit hn => h init hinit n hn⟩

/-! ### Blocks among the nodes -/

/-- With a block there is all that is in it. -/
def Covers (ns : List Node) : Prop := ∀ b, .block b ∈ ns → b.nodes ⊆ ns

theorem covers_nil : Covers [] := by simp [Covers]

theorem Covers.append {ns ms : List Node} (hns : Covers ns) (hms : Covers ms) :
    Covers (ns ++ ms) := by
  intro b hb
  rcases List.mem_append.mp hb with hb | hb
  · exact List.Subset.trans (hns b hb) (List.subset_append_left ns ms)
  · exact List.Subset.trans (hms b hb) (List.subset_append_right ns ms)

theorem Covers.cons {n : Node} {ns : List Node} (hns : Covers ns)
    (hn : ∀ b, n = .block b → b.nodes = n :: ns) :
    Covers (n :: ns) := by
  intro b hb
  rcases List.mem_cons.mp hb with hb | hb
  · rw [hn b hb.symm]
    exact List.Subset.refl _
  · exact List.Subset.trans (hns b hb) (List.subset_cons_self n ns)

mutual

theorem Expr.covers (e : Expr) : Covers e.nodes := by
  match e with
  | .int _ _ | .float _ _ | .bool _ _ | .str _ _ | .var _ _ | .self _ | .variant _ _ _ | .error _ =>
    exact covers_nil.cons (by simp)
  | .field _ object _ _ => exact object.covers.cons (by simp)
  | .binary _ _ left right => exact (left.covers.append right.covers).cons (by simp)
  | .unary _ _ operand => exact operand.covers.cons (by simp)
  | .call _ _ receiver args _ =>
    exact ((covers_nodesOfOption receiver).append (covers_nodesOfExprs args)).cons (by simp)
  | .new _ _ _ args => exact (covers_nodesOfExprs args).cons (by simp)
  | .cond _ condition thenBranch elseBranch =>
    have helse := covers_nodesOfElse elseBranch
    exact (condition.covers.append (thenBranch.covers.append helse)).cons (by simp)
  | .block _ body => exact body.covers.cons (by simp)

theorem covers_nodesOfOption (e : Option Expr) : Covers (nodesOfOption e) := by
  match e with
  | none => exact covers_nil
  | some e => exact e.covers

theorem covers_nodesOfExprs (es : List Expr) : Covers (nodesOfExprs es) := by
  match es with
  | [] => exact covers_nil
  | e :: es => exact e.covers.append (covers_nodesOfExprs es)

theorem Stmt.covers (s : Stmt) : Covers s.nodes := by
  match s with
  | .bind _ init => exact (covers_nodesOfOption init).cons (by simp)
  | .setVar _ value => exact value.covers.cons (by simp)
  | .setField object _ _ value => exact (object.covers.append value.covers).cons (by simp)
  | .expr value => exact value.covers.cons (by simp)
  | .ret value => exact (covers_nodesOfOption value).cons (by simp)
  | .loop condition body => exact (condition.covers.append body.covers).cons (by simp)

theorem covers_nodesOfStmts (ss : List Stmt) : Covers (nodesOfStmts ss) := by
  match ss with
  | [] => exact covers_nil
  | s :: ss => exact s.covers.append (covers_nodesOfStmts ss)

theorem Block.covers (b : Block) : Covers b.nodes := by
  match b with
  | .mk stmts tail _ _ _ =>
    refine ((covers_nodesOfStmts stmts).append (covers_nodesOfOption tail)).cons ?_
    rintro _ ⟨⟩
    rw [Block.nodes]

theorem covers_nodesOfElse (b : Option Block) : Covers (nodesOfElse b) := by
  match b with
  | none => exact covers_nil
  | some b => exact b.covers

end

theorem FuncInst.covers (f : FuncInst) : Covers f.nodes := by
  apply (covers_nodesOfElse f.body).append
  induction f.fieldInits with
  | nil => exact covers_nil
  | cons init inits ih => exact init.value.covers.append ih

/-! ### Types and marks -/

/-- A block has the type of its tail, and it is marked if one of its parts diverges. -/
def Block.Formed : Block → Prop
  | .mk stmts tail ty diverges _ =>
    ty = (tail.map Expr.ty).getD .void ∧
      diverges = (stmts.any Stmt.diverges || tail.any Expr.diverges)

variable (p : Program)

/-- What has its type from somewhere else has it from there, and a number has a type of numbers. -/
def Expr.Formed : Expr → Prop
  | .int i _ => i.ty.isNumeric = true
  | .call i f _ _ _ => i.ty = (p.functionAt f).returnType
  | .cond i _ _ none => i.ty = .void
  | .block i body => i.ty = body.ty
  | _ => True

def Node.Formed : Node → Prop
  | .expr e => e.Formed p
  | .stmt _ => True
  | .block b => b.Formed

def Formed (nodes : List Node) : Prop := ∀ n ∈ nodes, n.Formed p

variable {p} {n : Node} {ns ms : List Node}

theorem formed_nil : Formed p [] := by simp [Formed]

theorem formed_cons : Formed p (n :: ns) ↔ n.Formed p ∧ Formed p ns := List.forall_mem_cons

theorem formed_append : Formed p (ns ++ ms) ↔ Formed p ns ∧ Formed p ms := List.forall_mem_append

end ObjectLang.Checked
