import ObjectLang.Code.Lowering
import ObjectLang.Proofs.Instances

/-! # What emission does to the emitter

A run of an emission is taken apart into the runs of its steps.  Emission only adds: blocks that
exist keep their parameters and their code, and of these only the current one gets more code.
-/

namespace ObjectLang.Code

open Checked

/-! ## Runs of emissions -/

theorem eq_ok_of_toOption {ε α : Type} {x : Except ε α} {a : α} (h : x.toOption = some a) :
    x = .ok a := by
  cases x with
  | error e => cases h
  | ok b =>
    cases h
    rfl

theorem except_bind_ok {ε α β : Type} {x : Except ε α} {f : α → Except ε β} {b : β}
    (h : (x >>= f) = .ok b) : ∃ a, x = .ok a ∧ f a = .ok b := by
  cases x with
  | error e => cases h
  | ok a => exact ⟨a, rfl, h⟩

namespace Emit

variable {α β : Type} {s s' : Emitter} {a : α}

theorem bind_ok {x : Emit α} {f : α → Emit β} {b : β} (h : (x >>= f) s = .ok (b, s')) :
    ∃ a t, x s = .ok (a, t) ∧ f a t = .ok (b, s') := by
  change (x s >>= fun p => f p.1 p.2) = _ at h
  obtain ⟨p, hp, h⟩ := except_bind_ok h
  exact ⟨p.1, p.2, hp, h⟩

theorem map_ok {x : Emit α} {f : α → β} {b : β} (h : (f <$> x) s = .ok (b, s')) :
    ∃ a, x s = .ok (a, s') ∧ b = f a := by
  obtain ⟨a, t, hx, hp⟩ := bind_ok (x := x) (f := fun a => pure (f a)) h
  cases hp
  exact ⟨a, hx, rfl⟩

theorem pure_ok {b : α} (h : (pure a : Emit α) s = .ok (b, s')) : b = a ∧ s' = s := by
  cases h
  exact ⟨rfl, rfl⟩

theorem lift_ok {x : Except Error α} (h : (liftM x : Emit α) s = .ok (a, s')) :
    x = .ok a ∧ s' = s := by
  change (x >>= fun a => Except.ok (a, s)) = _ at h
  cases x with
  | error e => simp [bind, Except.bind] at h
  | ok b =>
    cases h
    exact ⟨rfl, rfl⟩

theorem throw_ok {e : Error} (h : (throw e : Emit α) s = .ok (a, s')) : False := by
  cases h

end Emit

/-! ## Single steps -/

namespace Emitter

def blockAt (s : Emitter) (b : BlockId) : Block := s.blocks.getD b default

/-- The emitter with one more instruction in the current block. -/
def push (s : Emitter) (i : Instr) : Emitter :=
  { s with
    order :=
      if (s.blocks.getD s.current default).code.isEmpty then s.order.push s.current else s.order
    blocks := s.blocks.modify s.current fun b => { b with code := b.code.push i } }

def withValue (s : Emitter) : Emitter := { s with nextValue := s.nextValue + 1 }

def withBlock (s : Emitter) : Emitter := { s with blocks := s.blocks.push {} }

def withSlot (s : Emitter) (t : MachineType) : Emitter := { s with slots := s.slots.push t }

def withParam (s : Emitter) (b : BlockId) (t : MachineType) : Emitter :=
  { s with
    nextValue := s.nextValue + 1
    blocks := s.blocks.modify b fun k => { k with params := k.params ++ [(s.nextValue, t)] } }

/-- The emitter in a new block that is never reached. -/
def beyond (s : Emitter) : Emitter := { s.withBlock with current := s.blocks.size, dead := true }

/-- The current block exists. -/
def Inside (s : Emitter) : Prop := s.current < s.blocks.size

variable (s : Emitter) (i : Instr)

@[simp] theorem push_current : (s.push i).current = s.current := rfl
@[simp] theorem push_slots : (s.push i).slots = s.slots := rfl
@[simp] theorem push_nextValue : (s.push i).nextValue = s.nextValue := rfl
@[simp] theorem push_scopes : (s.push i).scopes = s.scopes := rfl
@[simp] theorem push_dead : (s.push i).dead = s.dead := rfl
@[simp] theorem push_literals : (s.push i).literals = s.literals := rfl
@[simp] theorem push_blocks_size : (s.push i).blocks.size = s.blocks.size := by simp [push]
@[simp] theorem withValue_blockAt (b : BlockId) : s.withValue.blockAt b = s.blockAt b := rfl

theorem push_blockAt (b : BlockId) :
    (s.push i).blockAt b =
      if b = s.current ∧ b < s.blocks.size then
        { s.blockAt b with code := (s.blockAt b).code.push i }
      else s.blockAt b := by
  exact getD_modify ..

theorem push_blockAt_current (hs : s.Inside) :
    (s.push i).blockAt s.current =
      { s.blockAt s.current with code := (s.blockAt s.current).code.push i } := by
  rw [push_blockAt, if_pos ⟨rfl, hs⟩]

theorem push_blockAt_ne {b : BlockId} (hb : b ≠ s.current) :
    (s.push i).blockAt b = s.blockAt b := by
  rw [push_blockAt, if_neg (by simp [hb])]

/-- A block that does not exist has neither parameters nor code, as a new one. -/
theorem blockAt_of_size_le {b : BlockId} (hb : s.blocks.size ≤ b) : s.blockAt b = {} := by
  simp only [blockAt, Array.getD_eq_getD_getElem?, Array.getElem?_eq_none hb]
  rfl

theorem withBlock_blockAt (b : BlockId) : s.withBlock.blockAt b = s.blockAt b := by
  by_cases hb : b = s.blocks.size
  · rw [s.blockAt_of_size_le (Nat.le_of_eq hb.symm)]
    simp [blockAt, withBlock, Array.getD_eq_getD_getElem?, hb]
  · simp [blockAt, withBlock, Array.getD_eq_getD_getElem?, Array.getElem?_push, hb]

theorem withParam_blockAt (b c : BlockId) (t : MachineType) :
    (s.withParam b t).blockAt c =
      if c = b ∧ c < s.blocks.size then
        { s.blockAt c with params := (s.blockAt c).params ++ [(s.nextValue, t)] }
      else s.blockAt c := by
  exact getD_modify ..

end Emitter

section

variable (s : Emitter)

theorem addParam_run (b : BlockId) (t : MachineType) :
    addParam b t s = .ok (s.nextValue, s.withParam b t) := rfl

/-- A return goes on in a block that is never reached. -/
theorem leave_run (i : Instr) :
    (do emit i; switchTo (← newBlock); setDead true : Emit Unit) s =
    .ok ((), (s.push i).beyond) := rfl

end

/-! ## Growth -/

/-- What was emitted stays, and only the current block and new ones have got code. -/
structure Grows (s s' : Emitter) : Prop where
  size : s.blocks.size ≤ s'.blocks.size
  current : s'.current = s.current ∨ s.blocks.size ≤ s'.current
  inside : s'.Inside
  kept : ∀ b < s.blocks.size, b ≠ s.current → s'.blockAt b = s.blockAt b
  params : (s'.blockAt s.current).params = (s.blockAt s.current).params
  code : (s.blockAt s.current).code.toList <+: (s'.blockAt s.current).code.toList
  values : s.nextValue ≤ s'.nextValue
  slots : s.slots.size ≤ s'.slots.size
  literals : s.literals.toList <+: s'.literals.toList

namespace Grows

variable {s t u : Emitter}

theorem refl (hs : s.Inside) : Grows s s where
  size := Nat.le_refl _
  current := .inl rfl
  inside := hs
  kept _ _ _ := rfl
  params := rfl
  code := List.prefix_rfl
  values := Nat.le_refl _
  slots := Nat.le_refl _
  literals := List.prefix_rfl

theorem trans (hst : Grows s t) (htu : Grows t u) (hs : s.Inside) : Grows s u where
  size := Nat.le_trans hst.size htu.size
  current := by
    rcases htu.current with h | h
    · rw [h]; exact hst.current
    · exact .inr (Nat.le_trans hst.size h)
  inside := htu.inside
  kept b hb hne := by
    have hbt : b ≠ t.current := by
      rcases hst.current with h | h
      · rwa [h]
      · exact Nat.ne_of_lt (Nat.lt_of_lt_of_le hb h)
    rw [htu.kept b (Nat.lt_of_lt_of_le hb hst.size) hbt, hst.kept b hb hne]
  params := by
    rcases hst.current with h | h
    · rw [← hst.params, ← h, htu.params]
    · rw [htu.kept _ (Nat.lt_of_lt_of_le hs hst.size) (Nat.ne_of_lt (Nat.lt_of_lt_of_le hs h)),
        hst.params]
  code := by
    rcases hst.current with h | h
    · exact hst.code.trans (h ▸ htu.code)
    · rw [htu.kept _ (Nat.lt_of_lt_of_le hs hst.size) (Nat.ne_of_lt (Nat.lt_of_lt_of_le hs h))]
      exact hst.code
  values := Nat.le_trans hst.values htu.values
  slots := Nat.le_trans hst.slots htu.slots
  literals := hst.literals.trans htu.literals

section

variable (h : Grows s t)

include h

theorem push (hs : s.Inside) (i : Instr) : Grows s (t.push i) := by
  refine h.trans ?_ hs
  exact
    { size := by simp
      current := .inl rfl
      inside := by simpa [Emitter.Inside] using h.inside
      kept := fun b _ hb => t.push_blockAt_ne i hb
      params := by rw [t.push_blockAt_current i h.inside]
      code := by
        rw [t.push_blockAt_current i h.inside, Array.toList_push]
        exact List.prefix_append _ _
      values := Nat.le_refl _
      slots := Nat.le_refl _
      literals := List.prefix_rfl }

theorem congr (hb : u.blocks = t.blocks) (hc : u.current = t.current)
    (hv : t.nextValue ≤ u.nextValue) (hs : t.slots.size ≤ u.slots.size)
    (hl : t.literals.toList <+: u.literals.toList) : Grows s u := by
  have hu (b : BlockId) : u.blockAt b = t.blockAt b := by simp [Emitter.blockAt, hb]
  exact
    { size := hb ▸ h.size
      current := hc ▸ h.current
      inside := by simpa [Emitter.Inside, hb, hc] using h.inside
      kept := fun b hlt hne => by rw [hu, h.kept b hlt hne]
      params := by rw [hu, h.params]
      code := by rw [hu]; exact h.code
      values := Nat.le_trans h.values hv
      slots := Nat.le_trans h.slots hs
      literals := h.literals.trans hl }

theorem withValue : Grows s t.withValue :=
  h.congr rfl rfl (Nat.le_succ _) (Nat.le_refl _) List.prefix_rfl

theorem withSlot (k : MachineType) : Grows s (t.withSlot k) :=
  h.congr rfl rfl (Nat.le_refl _) (by simp [Emitter.withSlot]) List.prefix_rfl

theorem setScopes (scopes : List (List Pending)) : Grows s { t with scopes } :=
  h.congr rfl rfl (Nat.le_refl _) (Nat.le_refl _) List.prefix_rfl

theorem setDead (dead : Bool) : Grows s { t with dead } :=
  h.congr rfl rfl (Nat.le_refl _) (Nat.le_refl _) List.prefix_rfl

theorem withBlock : Grows s t.withBlock :=
  { size := Nat.le_trans h.size (by simp [Emitter.withBlock])
    current := h.current
    inside := by simpa [Emitter.Inside, Emitter.withBlock] using Nat.lt_succ_of_lt h.inside
    kept := fun b hb hne => by rw [t.withBlock_blockAt, h.kept b hb hne]
    params := by rw [t.withBlock_blockAt, h.params]
    code := by rw [t.withBlock_blockAt]; exact h.code
    values := h.values
    slots := h.slots
    literals := h.literals }

/-- A parameter may be added to a block that is new. -/
theorem withParam (hs : s.Inside) {b : BlockId} (hb : s.blocks.size ≤ b)
    (k : MachineType) : Grows s (t.withParam b k) := by
  have hk (c : BlockId) (hc : c < s.blocks.size) : (t.withParam b k).blockAt c = t.blockAt c := by
    rw [t.withParam_blockAt, if_neg]
    rintro ⟨rfl, -⟩
    exact absurd hc (Nat.not_lt.mpr hb)
  exact
    { size := Nat.le_trans h.size (by simp [Emitter.withParam])
      current := h.current
      inside := by simpa [Emitter.Inside, Emitter.withParam] using h.inside
      kept := fun c hc hne => by rw [hk c hc, h.kept c hc hne]
      params := by rw [hk _ hs, h.params]
      code := by rw [hk _ hs]; exact h.code
      values := Nat.le_trans h.values (by simp [Emitter.withParam])
      slots := h.slots
      literals := h.literals }

/-- Emission may go on in a block that is new. -/
theorem switch {b : BlockId} (hb : s.blocks.size ≤ b) (hbt : b < t.blocks.size) :
    Grows s { t with current := b } :=
  { size := h.size
    current := .inr hb
    inside := hbt
    kept := h.kept
    params := h.params
    code := h.code
    values := h.values
    slots := h.slots
    literals := h.literals }

theorem beyond : Grows s t.beyond :=
  (h.withBlock.switch h.size (by simp [Emitter.withBlock])).setDead true

end

end Grows

/-! ## Final code -/

/-- Everything that was emitted so far stands in the final blocks. -/
def Emitter.Within (s : Emitter) (blocks : Array Block) : Prop :=
  ∀ b < s.blocks.size, (blocks.getD b default).params = (s.blockAt b).params ∧
    (s.blockAt b).code.toList <+: (blocks.getD b default).code.toList

variable {blocks : Array Block} {s : Emitter}

theorem Grows.within {t : Emitter} (h : Grows s t) (ht : t.Within blocks) : s.Within blocks := by
  intro b hb
  obtain ⟨hp, hc⟩ := ht b (Nat.lt_of_lt_of_le hb h.size)
  by_cases hne : b = s.current
  · subst hne
    exact ⟨hp.trans h.params, h.code.trans hc⟩
  · rw [h.kept b hb hne] at hp hc
    exact ⟨hp, hc⟩

/-- The code that follows the place where the emitter stands. -/
def Emitter.rest (s : Emitter) (blocks : Array Block) : List Instr :=
  (blocks.getD s.current default).code.toList.drop (s.blockAt s.current).code.size

theorem Emitter.rest_push {i : Instr} (hs : s.Inside) (h : (s.push i).Within blocks) :
    s.rest blocks = i :: (s.push i).rest blocks := by
  obtain ⟨tail, ht⟩ := (h s.current (by rw [push_blocks_size]; exact hs)).2
  rw [s.push_blockAt_current i hs, Array.toList_push] at ht
  simp only [rest, push_current, s.push_blockAt_current i hs, ← ht, Array.size_push]
  rw [← Array.length_toList, List.append_assoc, List.drop_left, ← List.append_assoc]
  have hdrop : ((s.blockAt s.current).code.toList ++ [i] ++ tail).drop
      ((s.blockAt s.current).code.toList ++ [i]).length = tail := List.drop_left
  simpa using hdrop.symm

/-- A block that is still empty is entered at the place where the emitter stands. -/
theorem Emitter.rest_of_empty (h : (s.blockAt s.current).code = #[]) :
    s.rest blocks = (blocks.getD s.current default).code.toList := by
  simp [rest, h]

end ObjectLang.Code
