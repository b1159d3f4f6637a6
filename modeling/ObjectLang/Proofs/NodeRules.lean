import ObjectLang.Proofs.Nodes
import ObjectLang.Proofs.Work

/-! # Rules for the nodes of checked bodies

What every node of a checked body has to satisfy, said node by node.  A type that is unknown was
reported, or stands for something that was, and agrees with every type; so it breaks no rule.
-/

namespace ObjectLang.Check

open Source Syntax Scope Names Diagnostic Checked

/-- What the body of a function is judged by. -/
structure Judge where
  state : State
  locals : List LocalInst
  selfType : Option Ty
  returnType : Ty

namespace Judge

variable (j : Judge)

/-- A value of type `source`, a type of the program, may stand where `target` is asked for. -/
def Accepts (target source : Ty) : Prop :=
  source.Within j.state.program ∧ j.state.isAssignable source target = true

/-- The class has a field of the type at the index. -/
def HasField (cls : ClassId) (index : Nat) (ty : Ty) : Prop :=
  cls < j.state.program.classes.size ∧
    ∃ field, (j.state.program.classAt cls).fields[index]? = some field ∧ field.ty = ty

/-- There are as many arguments as parameters of the function, each of a type that its parameter
accepts. -/
def Takes (f : FuncId) (args : List Expr) : Prop :=
  f < j.state.program.functions.size ∧
    List.Forall₂ (fun ty arg => j.Accepts ty (Expr.ty arg))
    (j.state.program.functionAt f).paramTypes
      args

/-- The operator takes operands of these types. -/
def TakesOperands (op : BinaryOp) (left right : Ty) : Prop :=
  if op.isArithmetic then
    (left = right ∧ left.isNumeric = true) ∨ (op = .add ∧ left = .string ∧ right = .string)
  else if op.isOrdering then
    left = right ∧ left.isNumeric = true
  else if op.isEquality then
    j.Accepts left right ∨ j.Accepts right left
  else
    left = .bool ∧ right = .bool

/-- The expression is a truth value. -/
def IsCondition (e : Expr) : Prop := e.ty ≠ .unknown → e.ty = .bool

def ExprRule : Expr → Prop
  | .int i _ => i.ty.isNumeric = true
  | .float i _ => i.ty = .f64
  | .bool i _ => i.ty = .bool
  | .str i _ => i.ty = .string
  | .var i id => ∃ l, j.locals[id]? = some l ∧ l.ty = i.ty
  | .self i => j.selfType = some i.ty
  | .field i object cls index => object.ty = .object cls ∧ j.HasField cls index i.ty
  | .binary i op left right => left.ty ≠ .unknown → right.ty ≠ .unknown →
    j.TakesOperands op left.ty right.ty ∧ i.ty = if op.isArithmetic then left.ty else .bool
  | .unary i .neg operand => operand.ty ≠ .unknown → operand.ty.isNumeric = true ∧ i.ty = operand.ty
  | .unary i .not operand => IsCondition operand ∧ i.ty = .bool
  | .call i f receiver args _ =>
    j.Takes f args ∧ i.ty = (j.state.program.functionAt f).returnType ∧
      Option.Rel (fun ty e => j.Accepts ty (Expr.ty e)) (j.state.program.functionAt f).receiver
      receiver
  | .new i cls init args =>
    i.ty = .object cls ∧ cls < j.state.program.classes.size ∧
      ∃ f, init = some f ∧ (j.state.program.classAt cls).init = some f ∧ j.Takes f args
  | .cond i condition _ none => IsCondition condition ∧ i.ty = .void
  | .cond i condition thenBranch (some elseBranch) =>
    IsCondition condition ∧ (thenBranch.diverges = false → j.Accepts i.ty thenBranch.ty) ∧
      (elseBranch.diverges = false → j.Accepts i.ty elseBranch.ty)
  | .block i body => i.ty = body.ty
  | .variant i enum _ => i.ty = .enum enum
  | .error i => i.ty = .unknown

def StmtRule : Stmt → Prop
  | .bind id init => ∃ l, j.locals[id]? = some l ∧ ∀ e, init = some e → j.Accepts l.ty (Expr.ty e)
  | .setVar id value => ∃ l, j.locals[id]? = some l ∧ j.Accepts l.ty value.ty
  | .setField object cls index value =>
    object.ty = .object cls ∧ ∃ ty, j.HasField cls index ty ∧ j.Accepts ty value.ty
  | .expr _ => True
  | .ret (some value) => j.Accepts j.returnType value.ty
  | .ret none => j.returnType ≠ .unknown → j.returnType = .void
  | .loop condition _ => IsCondition condition

/-- The value of a block is that of its tail. -/
def BlockRule : Block → Prop
  | .mk _ (some e) ty _ _ => ty = e.ty
  | .mk _ none ty _ _ => ty = .void

/-- A call through a slot is a call of a method that has this slot.  On an object that has just been
made a method is called without its slot.  If the nearest method of the name in the object's class
is not generic, it is the one that is called, and it is what the table of the class has in its
slot. -/
def DispatchRule : Expr → Prop
  | .call _ f (some (.new _ cls _ _)) _ .static =>
    cls < j.state.program.classes.size ∧
      ∀ b g, j.state.program.findMethod cls (j.state.program.functionAt f).name =
      some (b, .inst g) →
        g = f ∧ ∀ k, (j.state.program.functionAt f).slot = some k →
          (j.state.program.classAt cls).vtable[k]? = some f
  | .call _ f _ _ (.virtual k) => (j.state.program.functionAt f).slot = some k
  | _ => True

/-- The node obeys the typing rules. -/
def Typing : Node → Prop
  | .expr e => j.ExprRule e
  | .stmt s => j.StmtRule s
  | .block b => BlockRule b

/-- The node obeys the rule for calls of methods. -/
def Dispatches : Node → Prop
  | .expr e => j.DispatchRule e
  | .stmt _ | .block _ => True

/-- All the nodes obey the rules. -/
def Passes (nodes : List Node) : Prop := ∀ n ∈ nodes, j.Typing n ∧ j.Dispatches n

theorem blockRule_of_formed {b : Block} (h : b.Formed) : BlockRule b := by
  cases b with
  | mk stmts tail ty diverges span => cases tail <;> exact h.1

variable {j} {n : Node} {ns ms : List Node}

theorem passes_nil : j.Passes [] := nofun

theorem Passes.append (hn : j.Passes ns) (hm : j.Passes ms) : j.Passes (ns ++ ms) := fun n h =>
  (List.mem_append.mp h).elim (hn n) (hm n)

theorem Passes.cons (ht : j.Typing n) (hd : j.Dispatches n) (hn : j.Passes ns) :
    j.Passes (n :: ns) := by
  intro m hm
  rcases List.mem_cons.mp hm with rfl | hm
  · exact ⟨ht, hd⟩
  · exact hn m hm

end Judge

/-! ### What is added later breaks no rule -/

/-- The part of a function that its callers see is the same. -/
structure FuncInst.SameForCallers (f g : FuncInst) : Prop where
  name : g.name = f.name
  params : g.params = f.params
  returnType : g.returnType = f.returnType
  receiver : g.receiver = f.receiver
  slot : g.slot = f.slot

/-- Every class of the one state is complete and stays as it is, and so do the functions as far as
their callers see. -/
structure Extends (s t : State) : Prop where
  classes : s.program.classes.size ≤ t.program.classes.size
  functions : s.program.functions.size ≤ t.program.functions.size
  kept : ∀ {c}, c < s.program.classes.size → (s.program.classAt c).Kept (t.program.classAt c)
  chain : ∀ {c}, c < s.program.classes.size → t.program.chain c = s.program.chain c
  within : ∀ {c d}, c < s.program.classes.size → d ∈ s.program.chain c → d < s.program.classes.size
  function : ∀ {f}, f < s.program.functions.size →
    FuncInst.SameForCallers (s.program.functionAt f) (t.program.functionAt f)
  implementors : ∀ {p x}, x ∈ s.implementorsOf p → x ∈ t.implementorsOf p

namespace Extends

variable {s t : State} {c : ClassId} {n : String}

theorem isAssignable (h : Extends s t) {source target : Ty} (hsource : source.Within s.program)
    (hfit : s.isAssignable source target = true) : t.isAssignable source target = true := by
  simp only [State.isAssignable, Bool.or_eq_true] at hfit ⊢
  refine hfit.imp_right fun hfit => ?_
  cases source with
  | object c =>
    have hc := hsource c rfl
    cases target with
    | object d =>
      dsimp only at hfit ⊢
      rw [Program.isSubclass, h.chain hc]
      exact hfit
    | protocol p =>
      dsimp only at hfit ⊢
      rw [h.chain hc]
      rw [List.any_eq_true] at hfit ⊢
      rcases hfit with ⟨a, ha, hfit⟩
      refine ⟨a, ha, ?_⟩
      rw [(h.kept (h.within hc ha)).1]
      rw [List.contains_iff_mem] at hfit ⊢
      exact h.implementors hfit
    | _ => cases hfit
  | _ => cases hfit

theorem findMethod (h : Extends s t) (hc : c < s.program.classes.size) :
    t.program.findMethod c n = s.program.findMethod c n := by
  rw [Program.findMethod, Program.findMethod, h.chain hc]
  refine Program.findSome?_congr fun a ha => ?_
  rw [(h.kept (h.within hc ha)).1]

end Extends

namespace Judge

/-- What the later judge goes by has been added to what the earlier one went by. -/
structure Grows (j j' : Judge) : Prop where
  state : Extends j.state j'.state
  locals : j.locals <+: j'.locals
  selfType : j'.selfType = j.selfType
  returnType : j'.returnType = j.returnType

namespace Grows

variable {j j' : Judge} (h : j.Grows j')

include h

theorem getElem?_locals {id : LocalId} {l : LocalInst} (hl : j.locals[id]? = some l) :
    j'.locals[id]? = some l := by
  rcases h.locals with ⟨rest, hrest⟩
  rw [← hrest, List.getElem?_append_left (List.getElem?_eq_some_iff.mp hl).1]
  exact hl

theorem accepts {target source : Ty} (ha : j.Accepts target source) : j'.Accepts target source :=
  ⟨ha.1.mono h.state.classes, h.state.isAssignable ha.1 ha.2⟩

theorem hasField {cls : ClassId} {index : Nat} {ty : Ty} (hf : j.HasField cls index ty) :
    j'.HasField cls index ty := by
  refine ⟨Nat.lt_of_lt_of_le hf.1 h.state.classes, ?_⟩
  rw [(h.state.kept hf.1).1]
  exact hf.2

theorem takes {f : FuncId} {args : List Expr} (ht : j.Takes f args) : j'.Takes f args := by
  refine ⟨Nat.lt_of_lt_of_le ht.1 h.state.functions, ?_⟩
  rw [FuncInst.paramTypes, (h.state.function ht.1).params]
  exact ht.2.imp fun _ _ => h.accepts

theorem takesOperands {op : BinaryOp} {left right : Ty} (ht : j.TakesOperands op left right) :
    j'.TakesOperands op left right := by
  rw [TakesOperands] at ht ⊢
  split at ht
  · next hop => rwa [if_pos hop]
  · next hop =>
    rw [if_neg hop]
    split at ht
    · next hop => rwa [if_pos hop]
    · next hop =>
      rw [if_neg hop]
      split at ht
      · next hop =>
        rw [if_pos hop]
        exact ht.imp h.accepts h.accepts
      · next hop => rwa [if_neg hop]

theorem exprRule {e : Expr} (he : j.ExprRule e) : j'.ExprRule e := by
  cases e with
  | int => exact he
  | float => exact he
  | bool => exact he
  | str => exact he
  | var i id =>
    rcases he with ⟨l, hl, hty⟩
    exact ⟨l, h.getElem?_locals hl, hty⟩
  | self i => exact h.selfType.trans he
  | field i object cls index => exact ⟨he.1, h.hasField he.2⟩
  | binary i op left right => exact fun hl hr => ⟨h.takesOperands (he hl hr).1, (he hl hr).2⟩
  | unary i op operand => cases op <;> exact he
  | call i f receiver args dispatch =>
    rcases he with ⟨hargs, hty, hreceiver⟩
    have hf := h.state.function hargs.1
    refine ⟨h.takes hargs, hty.trans hf.returnType.symm, ?_⟩
    rw [hf.receiver]
    generalize (j.state.program.functionAt f).receiver = ty at hreceiver ⊢
    cases hreceiver with
    | some ha => exact .some (h.accepts ha)
    | none => exact .none
  | new i cls init args =>
    rcases he with ⟨hty, hcls, f, hinit, hclass, hargs⟩
    refine ⟨hty, Nat.lt_of_lt_of_le hcls h.state.classes, f, hinit, ?_, h.takes hargs⟩
    rw [(h.state.kept hcls).1]
    exact hclass
  | cond i condition thenBranch elseBranch =>
    cases elseBranch with
    | none => exact he
    | some elseBranch =>
      exact ⟨he.1, fun hd => h.accepts (he.2.1 hd), fun hd => h.accepts (he.2.2 hd)⟩
  | block => exact he
  | variant => exact he
  | error => exact he

theorem stmtRule {s : Stmt} (hs : j.StmtRule s) : j'.StmtRule s := by
  cases s with
  | bind id init =>
    rcases hs with ⟨l, hl, hinit⟩
    exact ⟨l, h.getElem?_locals hl, fun e he => h.accepts (hinit e he)⟩
  | setVar id value =>
    rcases hs with ⟨l, hl, hvalue⟩
    exact ⟨l, h.getElem?_locals hl, h.accepts hvalue⟩
  | setField object cls index value =>
    rcases hs with ⟨hobject, ty, hfield, hvalue⟩
    exact ⟨hobject, ty, h.hasField hfield, h.accepts hvalue⟩
  | expr => trivial
  | ret value =>
    cases value with
    | none =>
      rw [StmtRule, h.returnType]
      exact hs
    | some value =>
      rw [StmtRule, h.returnType]
      exact h.accepts hs
  | loop => exact hs

theorem dispatchRule {e : Expr} (he : j.ExprRule e) (hd : j.DispatchRule e) :
    j'.DispatchRule e := by
  rw [DispatchRule.eq_def] at hd ⊢
  split at hd
  · have hf := h.state.function he.1.1
    refine ⟨Nat.lt_of_lt_of_le hd.1 h.state.classes, fun b g hfind => ?_⟩
    rw [hf.name, h.state.findMethod hd.1] at hfind
    rw [hf.slot, (h.state.kept hd.1).1]
    exact hd.2 b g hfind
  · exact (h.state.function he.1.1).slot.trans hd
  · trivial

theorem passes {ns : List Node} (hn : j.Passes ns) : j'.Passes ns := by
  intro n hmem
  rcases hn n hmem with ⟨ht, hd⟩
  cases n with
  | expr e => exact ⟨h.exprRule ht, h.dispatchRule ht hd⟩
  | stmt s => exact ⟨h.stmtRule ht, trivial⟩
  | block b => exact ⟨ht, trivial⟩

end Grows

end Judge

end ObjectLang.Check
