import ObjectLang.Checked.Program

/-! # Tables of instances

What is found in the tables of a program, and in its caches, after one of them was changed.
-/

namespace ObjectLang

/-! ## Arrays that are read with a fallback -/

section

variable {α : Type} (xs : Array α) (x fallback : α) (i k : Nat)

theorem getD_of_le {k : Nat} (h : xs.size ≤ k) : xs.getD k fallback = fallback := by
  rw [Array.getD_eq_getD_getElem?, Array.getElem?_eq_none h, Option.getD_none]

theorem getD_push :
    (xs.push x).getD k fallback = if k = xs.size then x else xs.getD k fallback := by
  simp only [Array.getD_eq_getD_getElem?, Array.getElem?_push]
  split <;> rfl

/-- Only what stands at a place of the array can be changed. -/
theorem getD_modify (f : α → α) :
    (xs.modify i f).getD k fallback =
      if k = i ∧ k < xs.size then f (xs.getD k fallback) else xs.getD k fallback := by
  simp only [Array.getD_eq_getD_getElem?, Array.getElem?_modify]
  by_cases hk : k = i
  · subst hk
    by_cases hlt : k < xs.size <;> simp [hlt]
  · simp [hk, Ne.symm hk]

theorem getD_set {i : Nat} (h : i < xs.size) :
    (xs.setIfInBounds i x).getD k fallback = if k = i then x else xs.getD k fallback := by
  simp only [Array.getD_eq_getD_getElem?, Array.getElem?_setIfInBounds]
  by_cases hk : k = i
  · subst hk
    simp [h]
  · simp [hk, Ne.symm hk]

/-- Whether or not the place is one of the array. -/
theorem getD_set_cases :
    (xs.setIfInBounds i x).getD k fallback = xs.getD k fallback ∨
      k = i ∧ (xs.setIfInBounds i x).getD k fallback = x := by
  by_cases h : i < xs.size
  · rw [getD_set xs x fallback k h]
    split
    · next hk => exact .inr ⟨hk, rfl⟩
    · exact .inl rfl
  · rw [Array.setIfInBounds_eq_of_size_le (Nat.le_of_not_lt h)]
    exact .inl rfl

end

namespace Checked

/-! ## Programs -/

namespace InstanceCache

variable {κ : Type} [DecidableEq κ] (c : InstanceCache κ) (key key' : κ) (entry : CacheEntry)

/-- An entry is found under the key under which it was put last. -/
theorem find?_setEntry (es : List (κ × CacheEntry)) :
    (setEntry key entry es).find? (·.1 = key') =
      if key = key' then some (key, entry) else es.find? (·.1 = key') := by
  induction es with
  | nil => by_cases hk : key = key' <;> simp [setEntry, hk]
  | cons e es ih =>
    rw [setEntry]
    by_cases he : e.1 = key
    · by_cases hk : key = key'
      · simp [he, hk]
      · simp [he, hk]
    · by_cases hk : key = key'
      · subst hk
        simp [he, ih]
      · simp [he, hk, List.find?_cons, ih]

theorem get?_set :
    (c.set key entry).get? key' = if key = key' then some entry else c.get? key' := by
  rw [get?, set, find?_setEntry]
  split
  · rfl
  · rfl

theorem get?_begin (id : Nat) :
    (c.begin key id).get? key' = if key = key' then some (.inProgress id) else c.get? key' :=
  get?_set c key key' _

theorem get?_finish (id : Nat) :
    (c.finish key id).get? key' = if key = key' then some (.done id) else c.get? key' :=
  get?_set c key key' _

theorem lookup_fst : (c.lookup key).1 = c.get? key := by
  rw [lookup]
  cases c.get? key <;> rfl

/-- Looking up counts, but changes no entry. -/
@[simp] theorem get?_lookup : (c.lookup key).2.get? key' = c.get? key' := by
  rw [lookup]
  cases c.get? key <;> rfl

end InstanceCache

namespace Program

variable (p : Program) (c d : ClassId) (f g : FuncId)

@[simp] theorem size_updateClass (u : ClassInst → ClassInst) :
    (p.updateClass c u).classes.size = p.classes.size := by
  simp [updateClass]

@[simp] theorem size_updateFunction (u : FuncInst → FuncInst) :
    (p.updateFunction f u).functions.size = p.functions.size := by
  simp [updateFunction]

variable {c f}

theorem classAt_updateClass (hc : c < p.classes.size) (u : ClassInst → ClassInst) :
    (p.updateClass c u).classAt d = if d = c then u (p.classAt c) else p.classAt d :=
  getD_set _ _ _ d hc

/-- The class with the number may not be there. -/
theorem classAt_updateClass_cases (c d : ClassId) (u : ClassInst → ClassInst) :
    (p.updateClass c u).classAt d = p.classAt d ∨
      d = c ∧ (p.updateClass c u).classAt d = u (p.classAt c) :=
  getD_set_cases ..

theorem functionAt_updateFunction (hf : f < p.functions.size) (u : FuncInst → FuncInst) :
    (p.updateFunction f u).functionAt g = if g = f then u (p.functionAt f) else p.functionAt g :=
  getD_set _ _ _ g hf

@[simp] theorem functionAt_updateClass (u : ClassInst → ClassInst) :
    (p.updateClass c u).functionAt g = p.functionAt g := rfl

@[simp] theorem classAt_updateFunction (u : FuncInst → FuncInst) :
    (p.updateFunction f u).classAt d = p.classAt d := rfl

@[simp] theorem functions_updateClass (u : ClassInst → ClassInst) :
    (p.updateClass c u).functions = p.functions := rfl

@[simp] theorem classes_updateFunction (u : FuncInst → FuncInst) :
    (p.updateFunction f u).classes = p.classes := rfl

end Program

end Checked

end ObjectLang
