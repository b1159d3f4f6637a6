import Mathlib.Data.Finset.Card
import Mathlib.Data.Finset.Prod
import Mathlib.Data.Multiset.DershowitzManna
import ObjectLang.Proofs.Records

/-! # What is still to be done

Checking comes to an end although classes and functions lead to others without bound.  What is asked
for without type arguments is new only finitely often.  What is asked for with type arguments lies
one step deeper, and there is a limit to the depth: a class that waits or a body in the queue is
replaced by any number of others, but these weigh less.
-/

namespace ObjectLang.Check

open Source Syntax Scope Names Diagnostic Checked
open Multiset (IsDershowitzMannaLT)

/-! ### Multisets of weights -/

/-- Some weights may have been replaced by smaller ones, and weights below `b` may have been
added. -/
def Sheds (b : Nat) (m m' : Multiset Nat) : Prop :=
  ∃ added : Multiset Nat, (∀ w ∈ added, w < b) ∧
    (m' = m + added ∨ IsDershowitzMannaLT m' (m + added))

section

variable {b b' w : Nat} {m m' m'' l : Multiset Nat}

theorem isDershowitzMannaLT_add_right (h : IsDershowitzMannaLT m m') (l : Multiset Nat) :
    IsDershowitzMannaLT (m + l) (m' + l) := by
  obtain ⟨x, y, z, hz, rfl, rfl, hyz⟩ := h
  exact ⟨x + l, y, z, hz, by rw [add_right_comm], by rw [add_right_comm], hyz⟩

/-- What is left when weights are taken away. -/
theorem eq_or_isDershowitzMannaLT_of_le (h : m ≤ m') : m = m' ∨ IsDershowitzMannaLT m m' := by
  obtain ⟨l, rfl⟩ := Multiset.le_iff_exists_add.mp h
  rcases eq_or_ne l 0 with rfl | hl
  · exact .inl (add_zero m).symm
  · exact .inr ⟨m, 0, l, hl, (add_zero m).symm, rfl, by simp⟩

theorem Sheds.refl (b : Nat) (m : Multiset Nat) : Sheds b m m :=
  ⟨0, by simp, .inl (add_zero m).symm⟩

theorem Sheds.mono (h : Sheds b m m') (hb : b ≤ b') : Sheds b' m m' := by
  obtain ⟨added, hadded, h⟩ := h
  exact ⟨added, fun w hw => Nat.lt_of_lt_of_le (hadded w hw) hb, h⟩

theorem Sheds.trans (h : Sheds b m m') (h' : Sheds b m' m'') : Sheds b m m'' := by
  obtain ⟨added, hadded, h⟩ := h
  obtain ⟨added', hadded', h'⟩ := h'
  refine ⟨added + added', fun w hw => (Multiset.mem_add.mp hw).elim (hadded w) (hadded' w), ?_⟩
  rw [← add_assoc]
  have hall :
      m' + added' = m + added + added' ∨ IsDershowitzMannaLT (m' + added') (m + added + added') :=
    h.imp (fun h => by rw [h]) fun h => isDershowitzMannaLT_add_right h added'
  rcases h' with rfl | h'
  · exact hall
  · rcases hall with hall | hall
    · exact .inr (hall ▸ h')
    · exact .inr (h'.trans hall)

theorem Sheds.add_right (h : Sheds b m m') (l : Multiset Nat) : Sheds b (m + l) (m' + l) := by
  obtain ⟨added, hadded, h⟩ := h
  refine ⟨added, hadded, ?_⟩
  rw [add_right_comm]
  exact h.imp (fun h => by rw [h]) fun h => isDershowitzMannaLT_add_right h l

theorem Sheds.of_le (h : m' ≤ m) : Sheds b m m' :=
  ⟨0, by simp, by simpa using eq_or_isDershowitzMannaLT_of_le h⟩

theorem Sheds.add (m : Multiset Nat) (hw : w < b) : Sheds b m (m + {w}) :=
  ⟨{w}, by simpa using hw, .inl rfl⟩

/-- All that was added weighs less than one more weight would. -/
theorem Sheds.lt (h : Sheds b m m') : IsDershowitzMannaLT m' (m + {b}) := by
  obtain ⟨added, hadded, h⟩ := h
  have hlt : IsDershowitzMannaLT (m + added) (m + {b}) :=
    ⟨m, added, {b}, by simp, rfl, rfl, fun w hw => ⟨b, by simp, hadded w hw⟩⟩
  rcases h with rfl | h
  · exact hlt
  · exact h.trans hlt

end

/-! ### Counts and weights -/

/-- How much could still be asked for without type arguments, and the weights of what has been
begun. -/
abbrev Load := Nat × Multiset Nat

/-- The load became smaller but for weights below `b`. -/
def Spends (b : Nat) (x y : Load) : Prop := y.1 < x.1 ∨ y.1 ≤ x.1 ∧ Sheds b x.2 y.2

/-- With weights of its own. -/
def Load.plus (x : Load) (l : Multiset Nat) : Load := (x.1, x.2 + l)

def Lighter : Load → Load → Prop := Prod.Lex (· < ·) IsDershowitzMannaLT

theorem wellFounded_lighter : WellFounded Lighter :=
  WellFounded.prod_lex Nat.lt_wfRel.wf Multiset.wellFounded_isDershowitzMannaLT

section

variable {b b' w : Nat} {x y z : Load} {l m m' : Multiset Nat}

theorem Spends.refl (b : Nat) (x : Load) : Spends b x x := .inr ⟨le_rfl, .refl b x.2⟩

theorem Spends.fst_le (h : Spends b x y) : y.1 ≤ x.1 := h.elim le_of_lt And.left

theorem Spends.mono (h : Spends b x y) (hb : b ≤ b') : Spends b' x y :=
  h.imp_right fun h => ⟨h.1, h.2.mono hb⟩

theorem Spends.trans (h : Spends b x y) (h' : Spends b y z) : Spends b x z := by
  rcases h with h | ⟨h, hm⟩
  · exact .inl (lt_of_le_of_lt h'.fst_le h)
  · rcases h' with h' | ⟨h', hm'⟩
    · exact .inl (lt_of_lt_of_le h' h)
    · exact .inr ⟨h'.trans h, hm.trans hm'⟩

theorem Spends.plus (h : Spends b x y) (l : Multiset Nat) : Spends b (x.plus l) (y.plus l) :=
  h.imp_right fun h => ⟨h.1, h.2.add_right l⟩

theorem Spends.lighter (h : Spends b x y) : Lighter y (x.plus {b}) := by
  rw [Lighter, Prod.lex_def]
  rcases h with h | ⟨h, hm⟩
  · exact .inl h
  · rcases lt_or_eq_of_le h with h | h
    · exact .inl h
    · exact .inr ⟨h, hm.lt⟩

theorem Spends.add (x : Load) (hw : w < b) : Spends b x (x.plus {w}) := .inr ⟨le_rfl, .add x.2 hw⟩

theorem Spends.lighter_of_lt (h : Spends b x y) (hw : w < b) : Lighter (y.plus {w}) (x.plus {b}) :=
  (h.trans (.add y hw)).lighter

/-- A weight was taken up, and what came in its place weighs less. -/
theorem Spends.of_take (h : Spends b (x.plus l) y) (b' : Nat) : Spends b' (x.plus (l + {b})) y := by
  rcases h with h | ⟨h, hm⟩
  · exact .inl h
  · refine .inr ⟨h, 0, by simp, .inr ?_⟩
    simpa only [Load.plus, add_assoc, add_zero] using hm.lt

theorem Spends.of_le (h : Spends b x (y.plus m')) (hle : m ≤ m') : Spends b x (y.plus m) :=
  h.trans (.inr ⟨le_rfl, .of_le (add_le_add_right hle _)⟩)

end

/-! ### The load of a state -/

/-- How many generic instantiations may still nest below a depth. -/
def roomAt (depth : Nat) : Nat := maxDepth - depth

def Pending.weight (d : Pending) : Nat := 2 * roomAt d.depth + 1

def BodyTask.weight (task : BodyTask) : Nat := 2 * roomAt task.env.depth

/-- What is asked for without type arguments. -/
inductive Plain where
  | cls
  | function
  | extension
  deriving DecidableEq

def Plain.all : Finset Plain := {.cls, .function, .extension}

/-- There is no instance of the declaration with that number yet.  An extension function counts with
the type that its clause stands for. -/
def Missing (src : Sources) (p : Program) : Plain → Nat → Prop
  | .cls, i => p.classFor ⟨i, []⟩ = none
  | .function, i => p.functionFor ⟨i, [], none⟩ = none
  | .extension, i => ∀ clause ty, (src.tree.functionAt i).decl.receiver = some clause →
    typeOf src p ∅ clause = some ty → p.functionFor ⟨i, [], some ty⟩ = none

open Classical in
/-- How many of the declarations below `n` are missing. -/
noncomputable def outstanding (src : Sources) (n : Nat) (p : Program) : Nat :=
  ((Plain.all ×ˢ Finset.range n).filter fun x => Missing src p x.1 x.2).card

noncomputable def State.load (src : Sources) (n : Nat) (s : State) : Load :=
  (outstanding src n s.program,
    ↑(s.waiting.map fun w => w.pending.weight) + ↑(s.bodies.map fun task => task.weight))

section

variable {src : Sources} {n : Nat} {s t : State}

theorem Retains.missing (h : Retains s t) {kind : Plain} {i : Nat}
    (hi : Missing src t.program kind i) : Missing src s.program kind i := by
  have hnone {α : Type} {x y : Option α} (hxy : ∀ a, x = some a → y = some a) (hy : y = none) :
      x = none :=
    Option.eq_none_iff_forall_ne_some.mpr fun a ha => by simp [hxy a ha] at hy
  cases kind with
  | cls => exact hnone (fun _ => h.classes) hi
  | function => exact hnone (fun _ => h.functions) hi
  | extension =>
    exact fun clause ty hclause hty => hnone (fun _ => h.functions)
      (hi clause ty hclause (typeOf_later h.classes clause hty))

theorem Retains.outstanding_le (h : Retains s t) :
    outstanding src n t.program ≤ outstanding src n s.program := by
  classical
  exact Finset.card_le_card (Finset.monotone_filter_right _ fun _ _ => h.missing)

/-- Something that was missing is there. -/
theorem Retains.outstanding_lt (h : Retains s t) (kind : Plain) {i : Nat} (hi : i < n)
    (hs : Missing src s.program kind i) (ht : ¬Missing src t.program kind i) :
    outstanding src n t.program < outstanding src n s.program := by
  classical
  have hmem : (kind, i) ∈ Plain.all ×ˢ Finset.range n := by
    cases kind <;> simp [Plain.all, hi]
  refine Finset.card_lt_card (Finset.ssubset_iff_of_subset
    (Finset.monotone_filter_right _ fun _ _ => h.missing) |>.mpr ⟨(kind, i), ?_, ?_⟩)
  · exact Finset.mem_filter.mpr ⟨hmem, hs⟩
  · exact fun hfilter => ht (Finset.mem_filter.mp hfilter).2

end

end ObjectLang.Check
