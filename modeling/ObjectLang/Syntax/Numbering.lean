import ObjectLang.Syntax.Tree

/-! # Numbering of nodes and spans

Nodes are numbered in the order in which they are finished: the parts from left to right, then the
node.  A node takes the next id and the next span.  The `k`-th span covers three bytes from `4 * k`
at the start of line `k + 1`; a place given by hand replaces it, but the span is taken all the same.
-/

namespace ObjectLang.Syntax

open Source

def defaultPlace (k : Nat) : Place :=
  { start := 4 * k, stop := 4 * k + 3, line := k + 1, column := 1 }

/-- How many ids and how many spans are taken. -/
structure Counter where
  nodes : Nat := 0
  spans : Nat := 0
  deriving DecidableEq, Repr, Inhabited

abbrev Numbering := StateM Counter

namespace Numbering

def skipSpan : Numbering Unit := modify fun c => { c with spans := c.spans + 1 }

def skipSpans (names : List String) : Numbering Unit :=
  modify fun c => { c with spans := c.spans + names.length }

def take (file : Nat) (hint : Option Place) : Numbering Mark := do
  let c ← get
  set { c with nodes := c.nodes + 1, spans := c.spans + 1 }
  return { node := c.nodes, span := Span.ofPlace file (hint.getD (defaultPlace c.spans)) }

end Numbering

/-- A tree as written: marked with the places given by hand. -/
abbrev Hint := Option Place

section

variable (file : Nat)

mutual

def TypeExpr.number : TypeExpr Hint → Numbering (TypeExpr Mark)
  | .primitive h p => return .primitive (← Numbering.take file h) p
  | .named h path args => do
    let args ← TypeExpr.numberList args
    return .named (← Numbering.take file h) path args

def TypeExpr.numberList : List (TypeExpr Hint) → Numbering (List (TypeExpr Mark))
  | [] => return []
  | t :: ts => do
    let t ← TypeExpr.number t
    return t :: (← TypeExpr.numberList ts)

end

def TypeExpr.numberOption : Option (TypeExpr Hint) → Numbering (Option (TypeExpr Mark))
  | none => return none
  | some t => return some (← t.number file)

mutual

def Expr.number : Expr Hint → Numbering (Expr Mark)
  | .int h n => return .int (← Numbering.take file h) n
  | .float h b => return .float (← Numbering.take file h) b
  | .bool h b => return .bool (← Numbering.take file h) b
  | .str h s => return .str (← Numbering.take file h) s
  | .ident h x => return .ident (← Numbering.take file h) x
  | .self h => return .self (← Numbering.take file h)
  | .binary h op l r => do
    let l ← Expr.number l
    let r ← Expr.number r
    return .binary (← Numbering.take file h) op l r
  | .unary h op e => do
    let e ← Expr.number e
    return .unary (← Numbering.take file h) op e
  | .call h f ts es => do
    let ts ← TypeExpr.numberList file ts
    let es ← Expr.numberList es
    return .call (← Numbering.take file h) f ts es
  | .methodCall h e x ts es => do
    let e ← Expr.number e
    let ts ← TypeExpr.numberList file ts
    let es ← Expr.numberList es
    return .methodCall (← Numbering.take file h) e x ts es
  | .field h e x => do
    let e ← Expr.number e
    return .field (← Numbering.take file h) e x
  | .new h t es => do
    let t ← t.number file
    let es ← Expr.numberList es
    return .new (← Numbering.take file h) t es
  | .cond h c t e => do
    let c ← Expr.number c
    let t ← Block.number t
    let e ← Block.numberOption e
    return .cond (← Numbering.take file h) c t e
  | .block h b => do
    let b ← Block.number b
    return .block (← Numbering.take file h) b
  | .variant h t x => do
    let t ← t.number file
    return .variant (← Numbering.take file h) t x

def Expr.numberList : List (Expr Hint) → Numbering (List (Expr Mark))
  | [] => return []
  | e :: es => do
    let e ← Expr.number e
    return e :: (← Expr.numberList es)

def Expr.numberOption : Option (Expr Hint) → Numbering (Option (Expr Mark))
  | none => return none
  | some e => return some (← Expr.number e)

def Stmt.number : Stmt Hint → Numbering (Stmt Mark)
  | .bind h x t e => do
    let t ← TypeExpr.numberOption file t
    let e ← Expr.numberOption e
    return .bind (← Numbering.take file h) x t e
  | .assign h t v => do
    let t ← Expr.number t
    let v ← Expr.number v
    return .assign (← Numbering.take file h) t v
  | .expr h e => do
    let e ← Expr.number e
    return .expr (← Numbering.take file h) e
  | .ret h e => do
    let e ← Expr.numberOption e
    return .ret (← Numbering.take file h) e
  | .loop h c b => do
    let c ← Expr.number c
    let b ← Block.number b
    return .loop (← Numbering.take file h) c b

def Stmt.numberList : List (Stmt Hint) → Numbering (List (Stmt Mark))
  | [] => return []
  | s :: ss => do
    let s ← Stmt.number s
    return s :: (← Stmt.numberList ss)

def Block.number : Block Hint → Numbering (Block Mark)
  | .mk h ss t => do
    let ss ← Stmt.numberList ss
    let t ← Expr.numberOption t
    return .mk (← Numbering.take file h) ss t

def Block.numberOption : Option (Block Hint) → Numbering (Option (Block Mark))
  | none => return none
  | some b => return some (← Block.number b)

end

def Param.number (p : Param Hint) : Numbering (Param Mark) := do
  let type ← p.type.number file
  return { mark := ← Numbering.take file p.mark, name := p.name, type }

/-- A function without a body takes an id and a span where its body would stand. -/
def Function.number (f : Function Hint) : Numbering (Function Mark) := do
  Numbering.skipSpans f.typeParams
  let receiver ← TypeExpr.numberOption file f.receiver
  let params ← f.params.mapM (Param.number file)
  let returnType ← TypeExpr.numberOption file f.returnType
  let body ← match f.body with
    | some b => some <$> b.number file
    | none => do
      let _ ← Numbering.take file none
      pure none
  return {
    mark := ← Numbering.take file f.mark, name := f.name, typeParams := f.typeParams
    receiver, params, returnType, body
    isVirtual := f.isVirtual, isOverride := f.isOverride }

def Function.numberOption : Option (Function Hint) → Numbering (Option (Function Mark))
  | none => return none
  | some f => return some (← f.number file)

def Field.number (f : Field Hint) : Numbering (Field Mark) := do
  let type ← f.type.number file
  let default ← Expr.numberOption file f.default
  return { mark := ← Numbering.take file f.mark, name := f.name, type, default }

def Class.number (c : Class Hint) : Numbering (Class Mark) := do
  Numbering.skipSpans c.typeParams
  let ancestor ← TypeExpr.numberOption file c.ancestor
  let protocols ← TypeExpr.numberList file c.protocols
  let fields ← c.fields.mapM (Field.number file)
  let init ← Function.numberOption file c.init
  let methods ← c.methods.mapM (Function.number file)
  return {
    mark := ← Numbering.take file c.mark, name := c.name, typeParams := c.typeParams
    ancestor, protocols, fields, init, methods }

def Protocol.number (p : Protocol Hint) : Numbering (Protocol Mark) := do
  Numbering.skipSpans p.typeParams
  let methods ← p.methods.mapM (Function.number file)
  return {
    mark := ← Numbering.take file p.mark, name := p.name, typeParams := p.typeParams, methods }

def Enum.number (e : Enum Hint) : Numbering (Enum Mark) := do
  return { mark := ← Numbering.take file e.mark, name := e.name, variants := e.variants }

def Decl.number : Decl Hint → Numbering (Decl Mark)
  | .function f => .function <$> f.number file
  | .cls c => .cls <$> c.number file
  | .protocol p => .protocol <$> p.number file
  | .enum e => .enum <$> e.number file

def Use.number (u : Use Hint) : Numbering (Use Mark) := do
  return { mark := ← Numbering.take file u.mark, path := u.path }

end

/-- Numbers the uses and the declarations of a file, which then takes a span itself. -/
def File.number (f : File Hint) : Numbering (File Mark) := do
  let uses ← f.uses.mapM (Use.number f.id)
  let decls ← f.decls.mapM (Decl.number f.id)
  Numbering.skipSpan
  return { id := f.id, path := f.path, ns := f.ns, uses, decls }

/-- Numbers a whole project: ids and spans run through all its files. -/
def numberFiles (files : List (File Hint)) : List (File Mark) × Counter :=
  (files.mapM File.number).run {}

end ObjectLang.Syntax
