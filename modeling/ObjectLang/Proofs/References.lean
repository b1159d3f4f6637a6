import Mathlib.Algebra.BigOperators.Group.Finset.Basic
import ObjectLang.Memory.Counting

/-! # References between cells

What a heap looks like to one who only asks which cells are allocated, how high their counts are and
which references they hold; and what the steps of reference counting change in that picture.
-/

namespace ObjectLang.Memory

/-- The value is one that a reference field can hold. -/
def Value.IsReference (v : Value) : Prop := v = .null ∨ ∃ a, v = .ref a

namespace Heap

variable {h h' : Heap} {a b : Address} {c d : Cell}

/-- The count of a cell; zero where there is none. -/
def count (h : Heap) (a : Address) : Nat := h.cells[a]?.elim 0 (·.count)

/-- There was a cell at the address, and it was freed. -/
def isFreed (h : Heap) (a : Address) : Bool := h.cells[a]?.any (·.freed)

def contentAt (h : Heap) (a : Address) : Option Content := h.cells[a]?.map (·.content)

/-- What the reference fields of a cell hold. -/
def references (h : Heap) (a : Address) : List Value := (h.contentAt a).elim [] dropped

/-- The addresses of the cells that are allocated. -/
def live (h : Heap) : Finset Address := (Finset.range h.cells.size).filter fun a => ¬h.isFreed a

theorem mem_live : a ∈ h.live ↔ ∃ c, h.cells[a]? = some c ∧ c.freed = false := by
  rw [live, Finset.mem_filter, Finset.mem_range]
  constructor
  · rintro ⟨hlt, hfreed⟩
    exact ⟨h.cells[a], Array.getElem?_eq_getElem hlt, by simpa [isFreed, hlt] using hfreed⟩
  · rintro ⟨c, hc, hfreed⟩
    exact ⟨(Array.getElem?_eq_some_iff.mp hc).1, by simp [isFreed, hc, hfreed]⟩

theorem cell_of_live (ha : a ∈ h.live) :
    ∃ c, h.cell a = .ok c ∧ h.cells[a]? = some c ∧ c.freed = false := by
  obtain ⟨c, hc, hfreed⟩ := mem_live.mp ha
  refine ⟨c, ?_, hc, hfreed⟩
  rw [cell, hc]
  simp [hfreed]

theorem isFreed_of_live (ha : a ∈ h.live) : h.isFreed a = false := by
  obtain ⟨c, hc, hfreed⟩ := mem_live.mp ha
  simp [isFreed, hc, hfreed]

section

variable (hc : h.cells[a]? = some c)

include hc

theorem count_eq : h.count a = c.count := by
  rw [count, hc]
  rfl

theorem references_eq : h.references a = dropped c.content := by
  rw [references, contentAt, hc]
  rfl

/-! ### Replacing a cell -/

theorem getElem?_setCell (d : Cell) (b : Address) :
    (h.setCell a d).cells[b]? = if b = a then some d else h.cells[b]? := by
  have ha := (Array.getElem?_eq_some_iff.mp hc).1
  by_cases hb : b = a
  · subst hb
    simp [setCell, ha]
  · simp [setCell, hb, Ne.symm hb]

theorem count_setCell (d : Cell) (b : Address) :
    (h.setCell a d).count b = if b = a then d.count else h.count b := by
  rw [count, getElem?_setCell hc, count]
  split <;> rfl

theorem isFreed_setCell (d : Cell) (b : Address) :
    (h.setCell a d).isFreed b = if b = a then d.freed else h.isFreed b := by
  rw [isFreed, getElem?_setCell hc, isFreed]
  split <;> rfl

theorem contentAt_setCell (d : Cell) (b : Address) :
    (h.setCell a d).contentAt b = if b = a then some d.content else h.contentAt b := by
  rw [contentAt, getElem?_setCell hc, contentAt]
  split <;> rfl

end

theorem live_of_isFreed (hsize : h'.cells.size = h.cells.size) (hfreed : h'.isFreed = h.isFreed) :
    h'.live = h.live := by
  rw [live, live, hsize, hfreed]

theorem size_setCell (h : Heap) (a : Address) (d : Cell) :
    (h.setCell a d).cells.size = h.cells.size := by
  simp [setCell]

/-! ### Steps -/

/-- The heaps differ in the count of one cell. -/
structure Recounts (h : Heap) (a : Address) (n : Nat) (h' : Heap) : Prop where
  count : ∀ b, h'.count b = if b = a then n else h.count b
  contents : h'.contentAt = h.contentAt
  freed : h'.isFreed = h.isFreed
  live : h'.live = h.live

/-- One cell of the heap is freed in the other. -/
structure Loses (h : Heap) (a : Address) (h' : Heap) : Prop where
  count : h'.count = h.count
  contents : h'.contentAt = h.contentAt
  freed : ∀ b, h'.isFreed b = (decide (b = a) || h.isFreed b)
  live : h'.live = h.live.erase a

theorem recounts_setCell (hc : h.cells[a]? = some c) (n : Nat) (counters : Counters) :
    h.Recounts a n { h.setCell a { c with count := n } with counters } := by
  have hfreed : (h.setCell a { c with count := n }).isFreed = h.isFreed := by
    funext b
    rw [isFreed_setCell hc]
    split
    · next hb => simp [hb, isFreed, hc]
    · rfl
  refine ⟨count_setCell hc _, ?_, hfreed, live_of_isFreed (size_setCell h a _) hfreed⟩
  funext b
  refine (contentAt_setCell hc _ b).trans ?_
  split
  · next hb => simp [hb, contentAt, hc]
  · rfl

theorem loses_setCell (hc : h.cells[a]? = some c) (counters : Counters) :
    h.Loses a { h.setCell a { c with freed := true } with counters } := by
  have hfreed (b : Address) : (h.setCell a { c with freed := true }).isFreed b =
      (decide (b = a) || h.isFreed b) := by
    rw [isFreed_setCell hc]
    split
    · next hb => simp [hb]
    · next hb => simp [hb]
  refine ⟨?_, ?_, hfreed, ?_⟩
  · funext b
    refine (count_setCell hc _ b).trans ?_
    split
    · next hb => simp [hb, count, hc]
    · rfl
  · funext b
    refine (contentAt_setCell hc _ b).trans ?_
    split
    · next hb => simp [hb, contentAt, hc]
    · rfl
  · change (h.setCell a { c with freed := true }).live = _
    ext b
    simp only [live, Finset.mem_erase, Finset.mem_filter, size_setCell, hfreed]
    simp only [Bool.or_eq_true, decide_eq_true_eq, not_or]
    tauto

theorem retain_of_live (ha : a ∈ h.live) (hcount : h.count a + 1 < countModulus) :
    ∃ h', h.retain (.ref a) = .ok h' ∧ h.Recounts a (h.count a + 1) h' ∧
      h'.counters = { h.counters with retains := h.counters.retains + 1 } := by
  obtain ⟨c, hcell, hc, -⟩ := cell_of_live ha
  rw [count_eq hc] at hcount ⊢
  refine ⟨_, by rw [retain, hcell]; rfl, ?_, rfl⟩
  rw [Nat.mod_eq_of_lt hcount]
  exact recounts_setCell hc _ _

/-- Releasing a cell takes one from its count; the last reference takes those of the cell with
it. -/
theorem perform_release_of_live (ha : a ∈ h.live) (hpos : 0 < h.count a)
    (hcount : h.count a < countModulus) :
    ∃ h', h.perform (.release (.ref a)) = .ok (h',
        if h.count a = 1 then (h.references a).map .release ++ [.free a] else []) ∧
      h.Recounts a (h.count a - 1) h' ∧
      h'.counters = { h.counters with releases := h.counters.releases + 1 } := by
  obtain ⟨c, hcell, hc, -⟩ := cell_of_live ha
  rw [count_eq hc] at hpos hcount ⊢
  rw [references_eq hc]
  refine ⟨_, by rw [perform, hcell]; rfl, ?_, rfl⟩
  have hdown : (c.count + (countModulus - 1)) % countModulus = c.count - 1 := by
    rw [show c.count + (countModulus - 1) = (c.count - 1) + countModulus by
      have : 0 < countModulus := by decide
      omega, Nat.add_mod_right, Nat.mod_eq_of_lt (by omega)]
  rw [hdown]
  exact recounts_setCell hc _ _

theorem perform_free_of_live (ha : a ∈ h.live) :
    ∃ h', h.perform (.free a) = .ok (h', []) ∧ h.Loses a h' ∧
      h'.counters = { h.counters with frees := h.counters.frees + 1 } := by
  obtain ⟨c, hcell, hc, -⟩ := cell_of_live ha
  exact ⟨_, by rw [perform, hcell]; rfl, loses_setCell hc _, rfl⟩

end Heap

end ObjectLang.Memory
