import ObjectLang.Source.Span
import ObjectLang.Syntax.Primitive
import ObjectLang.Syntax.Operator

/-! # Source trees

Every node of a tree carries a mark of type `α`.  A tree as written is marked with the places that
were given by hand, if any; a numbered tree is marked with node ids and spans.
-/

namespace ObjectLang.Syntax

open Source

inductive TypeExpr (α : Type) where
  | primitive (mark : α) (kind : Primitive)
  | named (mark : α) (path : List String) (args : List (TypeExpr α))
  deriving Inhabited

mutual

inductive Expr (α : Type) where
  | int (mark : α) (value : Int)
  | float (mark : α) (bits : UInt64)
  | bool (mark : α) (value : Bool)
  | str (mark : α) (text : String)
  | ident (mark : α) (name : String)
  | self (mark : α)
  | binary (mark : α) (op : BinaryOp) (left right : Expr α)
  | unary (mark : α) (op : UnaryOp) (operand : Expr α)
  | call (mark : α) (callee : List String) (typeArgs : List (TypeExpr α)) (args : List (Expr α))
  | methodCall (mark : α) (receiver : Expr α) (method : String) (typeArgs : List (TypeExpr α))
      (args : List (Expr α))
  | field (mark : α) (object : Expr α) (name : String)
  | new (mark : α) (type : TypeExpr α) (args : List (Expr α))
  | cond (mark : α) (condition : Expr α) (thenBranch : Block α) (elseBranch : Option (Block α))
  | block (mark : α) (body : Block α)
  | variant (mark : α) (type : TypeExpr α) (name : String)

inductive Stmt (α : Type) where
  | bind (mark : α) (name : String) (type : Option (TypeExpr α)) (init : Option (Expr α))
  | assign (mark : α) (target value : Expr α)
  | expr (mark : α) (value : Expr α)
  | ret (mark : α) (value : Option (Expr α))
  | loop (mark : α) (condition : Expr α) (body : Block α)

/-- The tail expression is the value of the block. -/
inductive Block (α : Type) where
  | mk (mark : α) (stmts : List (Stmt α)) (tail : Option (Expr α))

end

structure Param (α : Type) where
  mark : α
  name : String
  type : TypeExpr α
  deriving Inhabited

/-- A free function, method, initializer, extension function or protocol requirement. -/
structure Function (α : Type) where
  mark : α
  name : String
  typeParams : List String := []
  /-- The type that an extension function is called on. -/
  receiver : Option (TypeExpr α) := none
  params : List (Param α) := []
  returnType : Option (TypeExpr α) := none
  body : Option (Block α) := none
  isVirtual : Bool := false
  isOverride : Bool := false
  deriving Inhabited

structure Field (α : Type) where
  mark : α
  name : String
  type : TypeExpr α
  default : Option (Expr α) := none
  deriving Inhabited

structure Class (α : Type) where
  mark : α
  name : String
  typeParams : List String := []
  ancestor : Option (TypeExpr α) := none
  protocols : List (TypeExpr α) := []
  fields : List (Field α) := []
  init : Option (Function α) := none
  methods : List (Function α) := []
  deriving Inhabited

structure Protocol (α : Type) where
  mark : α
  name : String
  typeParams : List String := []
  methods : List (Function α) := []
  deriving Inhabited

structure Enum (α : Type) where
  mark : α
  name : String
  variants : List String := []
  deriving Inhabited

inductive Decl (α : Type) where
  | function (f : Function α)
  | cls (c : Class α)
  | protocol (p : Protocol α)
  | enum (e : Enum α)

/-- Makes the declarations of a namespace visible in a file. -/
structure Use (α : Type) where
  mark : α
  path : List String

structure File (α : Type) where
  id : Nat
  path : String := ""
  /-- The namespace of the declarations; the empty path is the project's root. -/
  ns : List String := []
  uses : List (Use α) := []
  decls : List (Decl α) := []
  deriving Inhabited

variable {α : Type}

def TypeExpr.mark : TypeExpr α → α
  | .primitive m _ | .named m _ _ => m

def Expr.mark : Expr α → α
  | .int m _ | .float m _ | .bool m _ | .str m _ | .ident m _ | .self m | .binary m _ _ _
  | .unary m _ _ | .call m _ _ _ | .methodCall m _ _ _ _ | .field m _ _ | .new m _ _
  | .cond m _ _ _ | .block m _ | .variant m _ _ => m

def Expr.remark (m : α) : Expr α → Expr α
  | .int _ n => .int m n
  | .float _ b => .float m b
  | .bool _ b => .bool m b
  | .str _ s => .str m s
  | .ident _ x => .ident m x
  | .self _ => .self m
  | .binary _ op l r => .binary m op l r
  | .unary _ op e => .unary m op e
  | .call _ f ts es => .call m f ts es
  | .methodCall _ e x ts es => .methodCall m e x ts es
  | .field _ e x => .field m e x
  | .new _ t es => .new m t es
  | .cond _ c t e => .cond m c t e
  | .block _ b => .block m b
  | .variant _ t x => .variant m t x

def Stmt.mark : Stmt α → α
  | .bind m _ _ _ | .assign m _ _ | .expr m _ | .ret m _ | .loop m _ _ => m

def Stmt.remark (m : α) : Stmt α → Stmt α
  | .bind _ x t e => .bind m x t e
  | .assign _ t v => .assign m t v
  | .expr _ e => .expr m e
  | .ret _ e => .ret m e
  | .loop _ c b => .loop m c b

def Block.mark : Block α → α
  | .mk m _ _ => m

def Block.stmts : Block α → List (Stmt α)
  | .mk _ s _ => s

def Block.tail : Block α → Option (Expr α)
  | .mk _ _ t => t

def Decl.mark : Decl α → α
  | .function f => f.mark
  | .cls c => c.mark
  | .protocol p => p.mark
  | .enum e => e.mark

def Decl.name : Decl α → String
  | .function f => f.name
  | .cls c => c.name
  | .protocol p => p.name
  | .enum e => e.name

/-- The id and the span of a node of a numbered tree. -/
structure Mark where
  node : Nat
  span : Span
  deriving DecidableEq, Repr, Inhabited

end ObjectLang.Syntax
