import ObjectLang.Code.Lowering

/-! # Typing rules of checked trees

What a checked body has to satisfy: nothing in it was reported, every value has a type, and every
part has a type that its place takes.  Whether a class conforms to a protocol makes no difference
here, as a value of a protocol is only ever handed on.
-/

namespace ObjectLang.Checked

open Syntax

def Ty.isValue (t : Ty) : Bool := !t.isVoid && !t.isUnknown

namespace Program

variable (p : Program)

def fits (source target : Ty) : Bool :=
  source == target ||
    match source, target with
    | .object c, .object d => p.isSubclass c d
    | .object _, .protocol _ => true
    | _, _ => false

theorem isVoid_of_fits {p : Program} {source target : Ty} (h : p.fits source target)
    (ht : target.isVoid = false) : source.isVoid = false := by
  simp only [fits, Bool.or_eq_true, beq_iff_eq] at h
  obtain rfl | h := h
  · exact ht
  · cases source with
    | object c => rfl
    | _ => cases h

def takes (op : BinaryOp) (left right : Ty) : Bool :=
  if op.isArithmetic then
    (op == .add && left == .string && right == .string) || (left.isNumeric && left == right)
  else if op.isOrdering then
    left.isNumeric && left == right
  else if op.isEquality then
    (p.fits left right || p.fits right left) && left.isValue && right.isValue
  else
    left == .bool && right == .bool

def fieldType (c : ClassId) (index : Nat) : Option Ty := (p.classAt c).fields[index]?.map (·.ty)

def initTypes (init : Option FuncId) : List Ty :=
  match init with
  | some g => (p.functionAt g).paramTypes
  | none => []

/-- The initializer works on objects of the class and returns nothing. -/
def initializes (init : Option FuncId) (c : ClassId) : Bool :=
  init.all fun g => (p.functionAt g).receiver == some (.object c) &&
    (p.functionAt g).returnType.isVoid

def sameSignature (g h : FuncId) : Bool :=
  (p.functionAt g).paramTypes == (p.functionAt h).paramTypes &&
    (p.functionAt g).returnType == (p.functionAt h).returnType

/-- A virtual call goes through a slot that the class of the receiver has for such functions. -/
def dispatches (g : FuncId) (receiver : Ty) : Dispatch → Bool
  | .static => true
  | .virtual slot =>
    receiver.class?.any fun c => (p.classAt c).vtable[slot]?.any fun h => p.sameSignature h g

end Program

def FuncInst.localType (f : FuncInst) (id : LocalId) : Option Ty := f.locals[id]?.map (·.ty)

/-- Arithmetic stays in the type of its operands; everything else is a truth value. -/
def operatorType (op : BinaryOp) (operand : Ty) : Ty := if op.isArithmetic then operand else .bool

section

variable (p : Program) (f : FuncInst)

mutual

def exprTyped : Expr → Bool
  | .int i _ => i.ty.isNumeric
  | .float i _ => i.ty == .f64
  | .bool i _ => i.ty == .bool
  | .str i _ => i.ty == .string
  | .var i id => f.localType id == some i.ty
  | .self i => f.receiver == some i.ty
  | .field i object c index =>
    exprTyped object && object.ty == .object c && p.fieldType c index == some i.ty
  | .binary i op left right =>
    exprTyped left && exprTyped right && p.takes op left.ty right.ty &&
      i.ty == operatorType op left.ty
  | .unary i .neg operand => exprTyped operand && operand.ty.isNumeric && i.ty == operand.ty
  | .unary i .not operand => exprTyped operand && operand.ty == .bool && i.ty == .bool
  | .call i g none args dispatch =>
    ((p.functionAt g).receiver.isNone && dispatch == .static) &&
      argsTyped (p.functionAt g).paramTypes args && i.ty == (p.functionAt g).returnType
  | .call i g (some receiver) args dispatch =>
    exprTyped receiver &&
      ((p.functionAt g).receiver.any (p.fits receiver.ty) && p.dispatches g receiver.ty dispatch) &&
      argsTyped (p.functionAt g).paramTypes args && i.ty == (p.functionAt g).returnType
  | .new i c init args =>
    (init == (p.classAt c).init && p.initializes init c) && argsTyped (p.initTypes init) args &&
      i.ty == .object c
  | .cond i condition thenBranch none =>
    exprTyped condition && condition.ty == .bool && blockTyped thenBranch && i.ty == .void
  | .cond i condition thenBranch (some elseBranch) =>
    exprTyped condition && condition.ty == .bool && blockTyped thenBranch &&
      blockTyped elseBranch && (thenBranch.diverges || p.fits thenBranch.ty i.ty) &&
      (elseBranch.diverges || p.fits elseBranch.ty i.ty)
  | .block i body => blockTyped body && i.ty == body.ty
  | .variant i enum _ => i.ty == .enum enum
  | .error _ => false

/-- As many arguments as parameters, each of a type that its parameter takes. -/
def argsTyped : List Ty → List Expr → Bool
  | [], [] => true
  | t :: ts, e :: es => exprTyped e && p.fits e.ty t && argsTyped ts es
  | _, _ => false

def stmtTyped : Stmt → Bool
  | .bind id none => (f.localType id).isSome
  | .bind id (some init) => exprTyped init && (f.localType id).any (p.fits init.ty)
  | .setVar id value => exprTyped value && (f.localType id).any (p.fits value.ty)
  | .setField object c index value =>
    exprTyped object && object.ty == .object c && exprTyped value &&
      (p.fieldType c index).any (p.fits value.ty)
  | .expr value => exprTyped value
  | .ret none => f.returnType.isVoid
  | .ret (some value) => exprTyped value && p.fits value.ty f.returnType && f.returnType.isValue
  | .loop condition body => exprTyped condition && condition.ty == .bool && blockTyped body

def stmtsTyped : List Stmt → Bool
  | [] => true
  | s :: ss => stmtTyped s && stmtsTyped ss

/-- A block has the type of its tail, and diverges if one of its parts does. -/
def blockTyped : Block → Bool
  | .mk stmts none ty diverges _ =>
    stmtsTyped stmts && ty == .void && diverges == stmts.any (·.diverges)
  | .mk stmts (some tail) ty diverges _ =>
    stmtsTyped stmts && exprTyped tail && ty == tail.ty &&
      diverges == (stmts.any (·.diverges) || tail.diverges)

end

def fieldInitTyped (c : ClassId) (init : FieldInit) : Bool :=
  exprTyped p f init.value && (p.fieldType c init.index).any (p.fits init.value.ty)

def resultTyped (body : Block) : Bool :=
  f.returnType.isVoid || body.diverges || (body.tail.any fun e => p.fits e.ty f.returnType)

end

def paramsTyped (f : FuncInst) : Bool :=
  f.params.zipIdx.all fun (q, k) => q.id == k && f.localType k == some q.ty

def initTyped (p : Program) (f : FuncInst) : Bool :=
  match f.kind, f.owner with
  | .init, some c => f.receiver == some (.object c) && f.fieldInits.all (fieldInitTyped p f c)
  | .init, none => false
  | _, _ => true

def functionTyped (p : Program) (f : FuncInst) : Bool :=
  f.locals.all (·.ty.isValue) && f.receiver.all (·.isValue) && !f.returnType.isUnknown &&
    paramsTyped f && initTyped p f &&
    f.body.any fun body => blockTyped p f body && resultTyped p f body

end ObjectLang.Checked
