import Mathlib.Data.List.Nodup
import Mathlib.Data.Fintype.Card
import ObjectLang.Checked.Program

/-! # Chains of ancestors

The numbers of a class's ancestors in their inheritance tree get smaller and smaller, so a chain
ends before its bound does, and a class's chain is the class followed by the chain of its ancestor.
-/

namespace ObjectLang.Checked.Program

variable {p q : Program} {c d e a : ClassId}

/-- The class has been built. -/
def Built (p : Program) (c : ClassId) : Prop :=
  c < p.classes.size ∧ (p.classAt c).inProgress = false

/-- An ancestor is there and has a smaller number than the class below it. -/
def Ranked (p : Program) : Prop :=
  ∀ ⦃c a⦄, (p.classAt c).ancestor = some a →
    a < p.classes.size ∧ (p.classAt a).chainId < (p.classAt c).chainId

theorem classAt_of_size_le (h : p.classes.size ≤ c) : p.classAt c = default := by
  simp [classAt, Array.getElem?_eq_none h]

theorem lt_size_of_ancestor (h : (p.classAt c).ancestor = some a) : c < p.classes.size := by
  by_contra hc
  rw [classAt_of_size_le (Nat.le_of_not_lt hc)] at h
  cases h

theorem chainWithin_succ (n : Nat) (c : ClassId) :
    p.chainWithin (n + 1) c = c :: (p.classAt c).ancestor.elim [] (p.chainWithin n) := by
  rw [chainWithin]
  cases (p.classAt c).ancestor <;> rfl

/-! ### The bound is never reached -/

section

variable (hp : p.Ranked)

include hp

theorem lt_size_of_mem_chainWithin {n : Nat} (hc : c < p.classes.size)
    (hd : d ∈ p.chainWithin n c) : d < p.classes.size := by
  induction n generalizing c with
  | zero => simp [chainWithin] at hd
  | succ n ih =>
    rw [chainWithin_succ] at hd
    rcases List.mem_cons.mp hd with rfl | hd
    · exact hc
    · cases ha : (p.classAt c).ancestor with
      | none => simp [ha] at hd
      | some a =>
        rw [ha] at hd
        exact ih (hp ha).1 hd

theorem chainId_le_of_mem_chainWithin {n : Nat} (hd : d ∈ p.chainWithin n c) :
    (p.classAt d).chainId ≤ (p.classAt c).chainId := by
  induction n generalizing c with
  | zero => simp [chainWithin] at hd
  | succ n ih =>
    rw [chainWithin_succ] at hd
    rcases List.mem_cons.mp hd with rfl | hd
    · exact Nat.le_refl _
    · cases ha : (p.classAt c).ancestor with
      | none => simp [ha] at hd
      | some a =>
        rw [ha] at hd
        have := ih hd
        have := (hp ha).2
        omega

theorem nodup_chainWithin (n : Nat) (c : ClassId) : (p.chainWithin n c).Nodup := by
  induction n generalizing c with
  | zero => simp [chainWithin]
  | succ n ih =>
    rw [chainWithin_succ]
    cases ha : (p.classAt c).ancestor with
    | none => simp
    | some a =>
      refine List.nodup_cons.mpr ⟨fun hc => ?_, ih a⟩
      have := chainId_le_of_mem_chainWithin hp hc
      have := (hp ha).2
      omega

omit hp in
theorem length_le_size_of_nodup {l : List ClassId} (hl : l.Nodup)
    (hlt : ∀ d ∈ l, d < p.classes.size) : l.length ≤ p.classes.size := by
  have hsub : l ⊆ List.range p.classes.size := fun d hd => List.mem_range.mpr (hlt d hd)
  simpa using (hl.subperm hsub).length_le

omit hp in
theorem chainWithin_succ_eq {n : Nat} (h : (p.chainWithin n c).length < n) :
    p.chainWithin (n + 1) c = p.chainWithin n c := by
  induction n generalizing c with
  | zero => simp at h
  | succ n ih =>
    rw [chainWithin_succ] at h ⊢
    rw [chainWithin_succ n]
    cases ha : (p.classAt c).ancestor with
    | none => rfl
    | some a =>
      simp only [ha, Option.elim_some, List.length_cons] at h ⊢
      rw [ih (by omega)]

/-- The chain of a class is the class followed by the chain of its ancestor. -/
theorem chain_eq (c : ClassId) :
    p.chain c = c :: (p.classAt c).ancestor.elim [] p.chain := by
  rw [chain, chainWithin_succ]
  cases ha : (p.classAt c).ancestor with
  | none => rfl
  | some a =>
    simp only [Option.elim_some, List.cons.injEq, true_and]
    refine (chainWithin_succ_eq ?_).symm
    -- Together with `c` the classes above it are no more than there are classes.
    have hnodup := nodup_chainWithin hp (p.classes.size + 1) c
    have hlt := length_le_size_of_nodup hnodup
      fun d => lt_size_of_mem_chainWithin hp (lt_size_of_ancestor ha)
    rw [chainWithin_succ, ha] at hlt
    exact Nat.lt_of_succ_le (by simpa using hlt)

theorem chain_of_none (h : (p.classAt c).ancestor = none) : p.chain c = [c] := by
  rw [chain_eq hp, h, Option.elim_none]

theorem chain_of_some (h : (p.classAt c).ancestor = some a) :
    p.chain c = c :: p.chain a := by
  rw [chain_eq hp, h, Option.elim_some]

omit hp in
theorem self_mem_chain (p : Program) (c : ClassId) : c ∈ p.chain c := by
  rw [chain, chainWithin_succ]
  exact List.mem_cons_self

/-- From the ancestor to the class: what holds of a class if it holds of its ancestor holds of
all. -/
theorem ancestor_induction {motive : ClassId → Prop}
    (h : ∀ c, (∀ a, (p.classAt c).ancestor = some a → motive a) → motive c) (c : ClassId) :
    motive c := by
  induction hn : (p.classAt c).chainId using Nat.strong_induction_on generalizing c with
  | _ n ih =>
    subst hn
    exact h c fun a ha => ih _ (hp ha).2 a rfl

theorem mem_chain_cases (h : d ∈ p.chain c) :
    d = c ∨ ∃ a, (p.classAt c).ancestor = some a ∧ d ∈ p.chain a := by
  rw [chain_eq hp] at h
  rcases List.mem_cons.mp h with rfl | h
  · exact .inl rfl
  · cases ha : (p.classAt c).ancestor with
    | none => simp [ha] at h
    | some a => exact .inr ⟨a, rfl, by simpa [ha] using h⟩

theorem mem_chain_of_ancestor (h : (p.classAt c).ancestor = some a)
    (hd : d ∈ p.chain a) : d ∈ p.chain c := by
  rw [chain_of_some hp h]
  exact List.mem_cons_of_mem c hd

theorem mem_chain_trans (hd : d ∈ p.chain c) (he : e ∈ p.chain d) :
    e ∈ p.chain c := by
  induction c using ancestor_induction hp with
  | _ c ih =>
    rcases mem_chain_cases hp hd with rfl | ⟨a, ha, hd⟩
    · exact he
    · exact mem_chain_of_ancestor hp ha (ih a ha hd)

theorem chain_congr (hq : q.Ranked)
    (h : ∀ d ∈ p.chain c, (q.classAt d).ancestor = (p.classAt d).ancestor) :
    q.chain c = p.chain c := by
  induction c using ancestor_induction hp with
  | _ c ih =>
    have hc := h c (p.self_mem_chain c)
    cases ha : (p.classAt c).ancestor with
    | none => rw [chain_of_none hp ha, chain_of_none hq (hc.trans ha)]
    | some a =>
      rw [chain_of_some hp ha, chain_of_some hq (hc.trans ha),
        ih a ha fun d hd => h d (mem_chain_of_ancestor hp ha hd)]

end

end ObjectLang.Checked.Program
