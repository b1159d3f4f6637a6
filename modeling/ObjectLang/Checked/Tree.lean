import ObjectLang.Checked.Ty

/-! # Checked trees

Bodies after checking: every expression knows its type, every name is a local, a field, a function
or a class instance.
-/

namespace ObjectLang.Checked

open Source Syntax Scope

/-- What every checked expression carries. -/
structure Info where
  ty : Ty
  span : Span
  deriving DecidableEq, Repr, Inhabited

/-- How a call finds its target. -/
inductive Dispatch where
  | static
  | virtual (slot : Nat)
  deriving DecidableEq, Repr, Inhabited

mutual

inductive Expr where
  | int (info : Info) (value : Int)
  | float (info : Info) (bits : UInt64)
  | bool (info : Info) (value : Bool)
  | str (info : Info) (text : String)
  | var (info : Info) (id : LocalId)
  | self (info : Info)
  | field (info : Info) (object : Expr) (cls : ClassId) (index : Nat)
  | binary (info : Info) (op : BinaryOp) (left right : Expr)
  | unary (info : Info) (op : UnaryOp) (operand : Expr)
  | call (info : Info) (function : FuncId) (receiver : Option Expr) (args : List Expr)
      (dispatch : Dispatch)
  | new (info : Info) (cls : ClassId) (init : Option FuncId) (args : List Expr)
  | cond (info : Info) (condition : Expr) (thenBranch : Block) (elseBranch : Option Block)
  | block (info : Info) (body : Block)
  | variant (info : Info) (enum : StructureId) (discriminant : Nat)
  /-- Stands for an expression that was reported. -/
  | error (info : Info)

inductive Stmt where
  | bind (id : LocalId) (init : Option Expr)
  | setVar (id : LocalId) (value : Expr)
  | setField (object : Expr) (cls : ClassId) (index : Nat) (value : Expr)
  | expr (value : Expr)
  | ret (value : Option Expr)
  | loop (condition : Expr) (body : Block)

/-- A block diverges when every way through it ends in a return. -/
inductive Block where
  | mk (stmts : List Stmt) (tail : Option Expr) (ty : Ty) (diverges : Bool) (span : Span)

end

namespace Expr

def info : Expr → Info
  | int i _ | float i _ | bool i _ | str i _ | var i _ | self i | field i _ _ _ | binary i _ _ _
  | unary i _ _ | call i _ _ _ _ | new i _ _ _ | cond i _ _ _ | block i _ | variant i _ _
  | error i => i

def ty (e : Expr) : Ty := e.info.ty

def span (e : Expr) : Span := e.info.span

end Expr

namespace Block

def stmts : Block → List Stmt
  | mk s _ _ _ _ => s

def tail : Block → Option Expr
  | mk _ t _ _ _ => t

def ty : Block → Ty
  | mk _ _ t _ _ => t

def diverges : Block → Bool
  | mk _ _ _ d _ => d

def span : Block → Span
  | mk _ _ _ _ s => s

def empty (span : Span) : Block := .mk [] none .void false span

end Block

def Expr.diverges : Expr → Bool
  | .block _ b => b.diverges
  | .cond _ _ t (some e) => t.diverges && e.diverges
  | _ => false

def Stmt.diverges : Stmt → Bool
  | .ret _ => true
  | .expr e => e.diverges
  | _ => false

end ObjectLang.Checked
