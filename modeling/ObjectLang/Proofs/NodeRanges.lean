import ObjectLang.Proofs.NodeRules

/-! # The numbers in checked bodies

Classes, functions, locals, fields, slots and variants are named by numbers.  Whatever was reported,
a node of a checked body has only numbers of what is there, and what is added later does not change
that.
-/

/-- The structure is an enum that has a variant of the number. -/
def ObjectLang.Scope.Tree.HasVariant (t : Scope.Tree) (enum : StructureId) (k : Nat) : Prop :=
  ∃ decl, (t.structureAt enum).decl.enum? = some decl ∧ k < decl.variants.length

namespace ObjectLang.Check.Judge

open Scope Checked

variable (j : Judge) (tree : Tree)

/-- The class has a field at the index. -/
def HasIndex (cls : ClassId) (index : Nat) : Prop :=
  cls < j.state.program.classes.size ∧ index < (j.state.program.classAt cls).fields.length

/-- The receiver is an object of a class whose table has the slot. -/
def HasSlot (receiver : Option Expr) (k : Nat) : Prop :=
  ∃ e c, receiver = some e ∧ e.ty = .object c ∧ k < (j.state.program.classAt c).vtable.length

def ExprRange : Expr → Prop
  | .var _ id => id < j.locals.length
  | .field _ _ cls index => j.HasIndex cls index
  | .call _ f receiver _ dispatch =>
    f < j.state.program.functions.size ∧
      ((j.state.program.functionAt f).receiver.isSome → receiver.isSome) ∧
      ∀ k, dispatch = .virtual k → j.HasSlot receiver k
  | .new _ cls init _ =>
    cls < j.state.program.classes.size ∧ ∀ f, init = some f → f < j.state.program.functions.size
  | .variant _ enum k => tree.HasVariant enum k
  | _ => True

def StmtRange : Stmt → Prop
  | .bind id _ | .setVar id _ => id < j.locals.length
  | .setField _ cls index _ => j.HasIndex cls index
  | _ => True

/-- The numbers in the node are those of something that is there, and its type is one of the
program. -/
def InRange : Node → Prop
  | .expr e => e.ty.Within j.state.program ∧ j.ExprRange tree e
  | .stmt s => j.StmtRange s
  | .block b => b.ty.Within j.state.program

def Ranged (nodes : List Node) : Prop := ∀ n ∈ nodes, j.InRange tree n

variable {j tree} {n : Node} {ns ms : List Node}

theorem ranged_nil : j.Ranged tree [] := nofun

theorem Ranged.append (hn : j.Ranged tree ns) (hm : j.Ranged tree ms) : j.Ranged tree (ns ++ ms) :=
  fun n h =>
  (List.mem_append.mp h).elim (hn n) (hm n)

theorem Ranged.cons (h : j.InRange tree n) (hn : j.Ranged tree ns) : j.Ranged tree (n :: ns) := by
  intro m hm
  rcases List.mem_cons.mp hm with rfl | hm
  · exact h
  · exact hn m hm

theorem exprRange_static {i : Info} {f : FuncId} {receiver : Option Expr} {es : List Expr}
    (hf : f < j.state.program.functions.size)
    (hreceiver : (j.state.program.functionAt f).receiver.isSome → receiver.isSome) :
    j.ExprRange tree (.call i f receiver es .static) :=
  ⟨hf, hreceiver, fun k hk => by cases hk⟩

theorem HasField.hasIndex {cls : ClassId} {index : Nat} {ty : Ty} (h : j.HasField cls index ty) :
    j.HasIndex cls index := by
  obtain ⟨hcls, field, hfield, -⟩ := h
  exact ⟨hcls, (List.getElem?_eq_some_iff.mp hfield).1⟩

namespace Grows

variable {j' : Judge} (h : j.Grows j')

include h

theorem local_lt {id : Nat} (hid : id < j.locals.length) : id < j'.locals.length :=
  Nat.lt_of_lt_of_le hid h.locals.length_le

theorem hasIndex {cls : ClassId} {index : Nat} (hindex : j.HasIndex cls index) :
    j'.HasIndex cls index := by
  refine ⟨Nat.lt_of_lt_of_le hindex.1 h.state.classes, ?_⟩
  rw [(h.state.kept hindex.1).1]
  exact hindex.2

theorem hasSlot {receiver : Option Expr} {k : Nat} (hslot : j.HasSlot receiver k) :
    j'.HasSlot receiver k := by
  obtain ⟨e, c, he, hty, hk⟩ := hslot
  have hc : c < j.state.program.classes.size := by
    refine Nat.lt_of_not_le fun hle => ?_
    rw [Program.classAt_of_size_le hle] at hk
    exact absurd hk (Nat.not_lt_zero k)
  refine ⟨e, c, he, hty, ?_⟩
  rw [(h.state.kept hc).1]
  exact hk

theorem exprRange {e : Expr} (he : j.ExprRange tree e) : j'.ExprRange tree e := by
  cases e with
  | var i id => exact h.local_lt he
  | field i object cls index => exact h.hasIndex he
  | call i f receiver args dispatch =>
    obtain ⟨hf, hreceiver, hslot⟩ := he
    refine ⟨Nat.lt_of_lt_of_le hf h.state.functions, fun hsome => ?_,
      fun k hk => h.hasSlot (hslot k hk)⟩
    rw [(h.state.function hf).receiver] at hsome
    exact hreceiver hsome
  | new i cls init args =>
    exact ⟨Nat.lt_of_lt_of_le he.1 h.state.classes, fun f hf =>
      Nat.lt_of_lt_of_le (he.2 f hf) h.state.functions⟩
  | variant i enum k => exact he
  | _ => trivial

theorem stmtRange {s : Stmt} (hs : j.StmtRange s) : j'.StmtRange s := by
  cases s with
  | bind id init => exact h.local_lt hs
  | setVar id value => exact h.local_lt hs
  | setField object cls index value => exact h.hasIndex hs
  | _ => trivial

theorem ranged (hn : j.Ranged tree ns) : j'.Ranged tree ns := by
  intro n hmem
  have hrange := hn n hmem
  cases n with
  | expr e => exact ⟨hrange.1.mono h.state.classes, h.exprRange hrange.2⟩
  | stmt s => exact h.stmtRange hrange
  | block b => exact Ty.Within.mono hrange h.state.classes

/-- The functions that are called have the types that they had. -/
theorem formed (hn : j.Ranged tree ns) (hf : Formed j.state.program ns) :
    Formed j'.state.program ns := by
  intro n hmem
  have hform := hf n hmem
  cases n with
  | expr e =>
    cases e with
    | call i f receiver args dispatch =>
      have hlt : f < j.state.program.functions.size := (hn _ hmem).2.1
      exact Eq.trans hform (h.state.function hlt).returnType.symm
    | cond i condition thenBranch elseBranch => cases elseBranch <;> exact hform
    | _ => exact hform
  | _ => exact hform

end Grows

end ObjectLang.Check.Judge
