import Mathlib.Algebra.Order.BigOperators.Group.Finset
import ObjectLang.Proofs.References

/-! # Releases

The last release of a cell releases what the cell holds before the cell is freed, so counts and
references do not match while a release is under way.  What is left to do makes up for the
difference: a reference that a dying cell holds is one that a task will release.
-/

namespace ObjectLang.Memory.Heap

open Finset

variable {h h' : Heap} {a b : Address} {task : Task} {tasks new : List Task}

/-! ### What is left to do -/

def Task.freed? : Task → Option Address
  | .free a => some a
  | .release _ => none

/-- The cells that have lost their last reference and wait to be freed. -/
def dying (tasks : List Task) : List Address := tasks.filterMap Task.freed?

@[simp] theorem dying_nil : dying [] = [] := rfl

@[simp] theorem dying_release (v : Value) (tasks : List Task) :
    dying (.release v :: tasks) = dying tasks := rfl

@[simp] theorem dying_free (a : Address) (tasks : List Task) :
    dying (.free a :: tasks) = a :: dying tasks := rfl

theorem dying_drop (vs : List Value) (a : Address) (tasks : List Task) :
    dying (vs.map .release ++ [.free a] ++ tasks) = a :: dying tasks := by
  induction vs with
  | nil => rfl
  | cons v vs ih => exact ih

/-- The cells whose references count: those of a dying cell are left to its tasks. -/
def standing (h : Heap) (tasks : List Task) : Finset Address := h.live.filter (· ∉ dying tasks)

theorem mem_standing : a ∈ h.standing tasks ↔ a ∈ h.live ∧ a ∉ dying tasks := by
  rw [standing, mem_filter]

/-- How many references to the address there are in fields, from outside and in tasks.  The fields
of a cell are taken from `fields`. -/
def demand (h : Heap) (fields : Address → List Value) (outside : Address → Nat) (tasks : List Task)
    (a : Address) : Nat :=
  ∑ b ∈ h.standing tasks, (fields b).count (.ref a) + outside a + tasks.count (.release (.ref a))

/-- The state of a heap while a release is under way.  Where `fields` leaves out some of what a cell
holds, something keeps that cell allocated. -/
structure Underway (h : Heap) (fields : Address → List Value) (outside : Address → Nat)
    (kept : Address → Prop) (tasks : List Task) : Prop where
  count : ∀ a ∈ h.live, h.count a = h.demand fields outside tasks a
  live : ∀ a, 0 < h.demand fields outside tasks a → a ∈ h.live
  few : ∀ a, h.demand fields outside tasks a < countModulus
  spent : ∀ a ∈ dying tasks, a ∈ h.live ∧ h.count a = 0
  nodup : (dying tasks).Nodup
  released : ∀ v, .release v ∈ tasks → v.IsReference
  held : ∀ a ∈ h.live, ∀ v ∈ h.references a, v.IsReference
  whole : ∀ a ∈ h.live, fields a = h.references a ∨ kept a
  keeps : ∀ a, kept a → a ∈ h.standing tasks ∧
    (0 < outside a ∨ h.count a = 0 ∨ ∃ b, kept b ∧ .ref a ∈ fields b)

section

variable {fields : Address → List Value} {outside : Address → Nat} {kept : Address → Prop}

theorem references_of_contents (hcontents : h'.contentAt = h.contentAt) :
    h'.references = h.references := by
  funext b
  rw [references, hcontents, references]

/-- The demand for an address when one release of `a` is done without freeing anything. -/
theorem demand_release (hlive : h'.live = h.live) (b : Address) :
    h.demand fields outside (.release (.ref a) :: tasks) b =
      h'.demand fields outside tasks b + if b = a then 1 else 0 := by
  have hstanding : h'.standing tasks = h.standing (.release (.ref a) :: tasks) := by
    rw [standing, standing, hlive, dying_release]
  rw [demand, demand, hstanding, List.count_cons]
  by_cases hb : b = a
  · subst hb
    simp [Nat.add_assoc]
  · simp [hb, Ne.symm hb]

/-- A cell that dies hands its references over to its tasks. -/
theorem demand_drop (hlive : h'.live = h.live) (ha : a ∈ h.live) (hdying : a ∉ dying tasks)
    (hfields : fields a = h.references a) (b : Address) :
    h.demand fields outside (.release (.ref a) :: tasks) b =
      h'.demand fields outside ((h.references a).map .release ++ [.free a] ++ tasks) b +
        if b = a then 1 else 0 := by
  rw [demand_release hlive]
  congr 1
  have hstanding : h'.standing ((h.references a).map .release ++ [.free a] ++ tasks) =
      (h'.standing tasks).erase a := by
    ext c
    simp only [mem_standing, dying_drop, mem_erase, List.mem_cons, not_or]
    tauto
  have hmem : a ∈ h'.standing tasks := mem_standing.mpr ⟨hlive ▸ ha, hdying⟩
  have hcount : ((h.references a).map Task.release).count (.release (.ref b)) =
      (h.references a).count (.ref b) :=
    List.count_map_of_injective _ _ (fun _ _ => Task.release.inj) _
  rw [demand, demand, hstanding, ← add_sum_erase _ _ hmem, List.count_append, List.count_append,
    hcount, hfields]
  simp only [List.count_cons, List.count_nil]
  simp
  omega

namespace Underway

section

variable (hu : h.Underway fields outside kept (.release (.ref a) :: tasks))

include hu

/-- What a release reaches is allocated and counted. -/
theorem of_release :
    a ∈ h.live ∧ 0 < h.count a ∧ h.count a < countModulus ∧ a ∉ dying tasks := by
  have hdemand : 0 < h.demand fields outside (.release (.ref a) :: tasks) a := by
    rw [demand, List.count_cons_self]
    exact Nat.succ_pos _
  have hlive := hu.live a hdemand
  have hcount := hu.count a hlive
  refine ⟨hlive, hcount ▸ hdemand, hcount ▸ hu.few a, fun hdying => ?_⟩
  rw [← hcount, (hu.spent a hdying).2] at hdemand
  exact Nat.lt_irrefl 0 hdemand

theorem not_kept (hlast : h.count a = 1) :
    ¬kept a := by
  intro hkept
  obtain ⟨hstanding, hwhy⟩ := hu.keeps a hkept
  have hcount := hu.count a (mem_standing.mp hstanding).1
  rw [hlast, demand, List.count_cons_self] at hcount
  rcases hwhy with houtside | hzero | ⟨b, hb, hfield⟩
  · omega
  · omega
  · have hpos : 0 < (fields b).count (.ref a) := List.count_pos_iff.mpr hfield
    have hle := single_le_sum (f := fun b => (fields b).count (.ref a)) (fun _ _ => Nat.zero_le _)
      (hu.keeps b hb).1
    omega

omit hu in
theorem passNull (hu : h.Underway fields outside kept (.release .null :: tasks)) :
    h.Underway fields outside kept tasks := by
  have hdemand (a : Address) :
      h.demand fields outside (.release .null :: tasks) a = h.demand fields outside tasks a := by
    rw [demand, demand, List.count_cons_of_ne (by simp [Value.null])]
    rfl
  exact ⟨fun a ha => hdemand a ▸ hu.count a ha, fun a ha => hu.live a (hdemand a ▸ ha),
    fun a => hdemand a ▸ hu.few a, hu.spent, hu.nodup,
    fun v hv => hu.released v (List.mem_cons_of_mem _ hv), hu.held, hu.whole, hu.keeps⟩

/-- A release of `a` is done, and it leaves `rest` to do. -/
theorem recount (hrecounts : h.Recounts a (h.count a - 1) h') {rest : List Task}
    (hdemand : ∀ b, h.demand fields outside (.release (.ref a) :: tasks) b =
      h'.demand fields outside rest b + if b = a then 1 else 0)
    (hdying : ∀ b ∈ dying rest, b ∈ dying tasks ∨ b = a ∧ h.count a = 1)
    (hnodup : (dying rest).Nodup)
    (hreleased : ∀ v, .release v ∈ rest → v.IsReference) (hkept : ∀ b, kept b → b ∉ dying rest) :
    h'.Underway fields outside kept rest := by
  have hcount (b : Address) : h'.count b = h.count b - if b = a then 1 else 0 := by
    rw [hrecounts.count]
    split
    · next hb => rw [hb]
    · rfl
  have hreferences := references_of_contents hrecounts.contents
  refine ⟨fun b hb => ?_, fun b hb => ?_, fun b => ?_, fun b hb => ?_, hnodup, hreleased, ?_, ?_,
    fun b hb => ?_⟩
  · rw [hrecounts.live] at hb
    rw [hcount, hu.count b hb, hdemand]
    omega
  · rw [hrecounts.live]
    exact hu.live b (hdemand b ▸ Nat.lt_of_lt_of_le hb (Nat.le_add_right _ _))
  · exact Nat.lt_of_le_of_lt (hdemand b ▸ Nat.le_add_right _ _) (hu.few b)
  · rw [hrecounts.live, hcount]
    rcases hdying b hb with hb | ⟨rfl, hlast⟩
    · obtain ⟨hlive, hzero⟩ := hu.spent b hb
      exact ⟨hlive, by rw [hzero, Nat.zero_sub]⟩
    · exact ⟨hu.of_release.1, by rw [hlast, if_pos rfl]⟩
  · rw [hrecounts.live, hreferences]
    exact hu.held
  · rw [hrecounts.live, hreferences]
    exact hu.whole
  · obtain ⟨hstanding, hwhy⟩ := hu.keeps b hb
    refine ⟨mem_standing.mpr ⟨hrecounts.live ▸ (mem_standing.mp hstanding).1, hkept b hb⟩, ?_⟩
    exact hwhy.imp_right (.imp_left fun hzero => by rw [hcount, hzero, Nat.zero_sub])

theorem lower (hrecounts : h.Recounts a (h.count a - 1) h') :
    h'.Underway fields outside kept tasks :=
  hu.recount hrecounts (demand_release hrecounts.live) (fun _ => .inl) hu.nodup
    (fun v hv => hu.released v (List.mem_cons_of_mem _ hv)) fun b hb =>
    (mem_standing.mp (hu.keeps b hb).1).2

theorem drop (hlast : h.count a = 1)
    (hrecounts : h.Recounts a (h.count a - 1) h') :
    h'.Underway fields outside kept ((h.references a).map .release ++ [.free a] ++ tasks) := by
  obtain ⟨hlive, -, -, hdying⟩ := hu.of_release
  have hkept := hu.not_kept hlast
  refine hu.recount hrecounts
    (demand_drop hrecounts.live hlive hdying ((hu.whole a hlive).resolve_right hkept)) ?_ ?_ ?_ ?_
  · intro b hb
    rw [dying_drop] at hb
    exact (List.mem_cons.mp hb).symm.imp_right fun hb => ⟨hb, hlast⟩
  · rw [dying_drop]
    exact List.nodup_cons.mpr ⟨hdying, hu.nodup⟩
  · intro v hv
    rcases List.mem_append.mp hv with hv | hv
    · have hheld : v ∈ h.references a := by simpa using hv
      exact hu.held a hlive v hheld
    · exact hu.released v (List.mem_cons_of_mem _ hv)
  · intro b hb hmem
    rw [dying_drop] at hmem
    rcases List.mem_cons.mp hmem with rfl | hmem
    · exact hkept hb
    · exact (mem_standing.mp (hu.keeps b hb).1).2 hmem

end

theorem lose (hu : h.Underway fields outside kept (.free a :: tasks)) (hloses : h.Loses a h') :
    h'.Underway fields outside kept tasks := by
  obtain ⟨hlive, hzero⟩ := hu.spent a List.mem_cons_self
  have hnodup := List.nodup_cons.mp hu.nodup
  have hstanding : h'.standing tasks = h.standing (.free a :: tasks) := by
    ext b
    simp only [mem_standing, hloses.live, mem_erase, dying_free, List.mem_cons, not_or]
    tauto
  have hdemand (b : Address) :
      h'.demand fields outside tasks b = h.demand fields outside (.free a :: tasks) b := by
    rw [demand, demand, hstanding, List.count_cons_of_ne (by simp)]
  have hreferences := references_of_contents hloses.contents
  refine ⟨fun b hb => ?_, fun b hb => ?_, fun b => ?_, fun b hb => ?_, hnodup.2,
    fun v hv => hu.released v (List.mem_cons_of_mem _ hv), fun b hb => ?_, fun b hb => ?_,
    fun b hb => ?_⟩
  · rw [hloses.live] at hb
    rw [hloses.count, hdemand]
    exact hu.count b (mem_of_mem_erase hb)
  · rw [hdemand] at hb
    have hb' := hu.live b hb
    rw [hloses.live, mem_erase]
    refine ⟨?_, hb'⟩
    rintro rfl
    rw [← hu.count b hb', hzero] at hb
    exact Nat.lt_irrefl 0 hb
  · exact hdemand b ▸ hu.few b
  · obtain ⟨hb', hcount⟩ := hu.spent b (List.mem_cons_of_mem _ hb)
    rw [hloses.live, mem_erase, hloses.count]
    refine ⟨⟨?_, hb'⟩, hcount⟩
    rintro rfl
    exact hnodup.1 hb
  · rw [hreferences]
    exact hu.held b (mem_of_mem_erase (hloses.live ▸ hb))
  · rw [hreferences]
    exact hu.whole b (mem_of_mem_erase (hloses.live ▸ hb))
  · rw [hstanding, hloses.count]
    exact hu.keeps b hb

end Underway

end

/-! ### What is counted -/

/-- The counters say how many cells are allocated and how high their counts are together. -/
structure Booked (h : Heap) : Prop where
  allocs : h.counters.allocs = h.counters.frees + h.live.card
  retains : h.counters.retains = h.counters.releases + ∑ a ∈ h.live, h.count a

/-- The sum of the counts when one of them has changed. -/
theorem Recounts.sum_count {n : Nat} (hrecounts : h.Recounts a n h') (ha : a ∈ h.live) :
    ∑ b ∈ h'.live, h'.count b + h.count a = ∑ b ∈ h.live, h.count b + n := by
  have hrest : ∑ b ∈ h.live.erase a, h'.count b = ∑ b ∈ h.live.erase a, h.count b :=
    sum_congr rfl fun b hb => by rw [hrecounts.count, if_neg (ne_of_mem_erase hb)]
  rw [hrecounts.live, ← add_sum_erase _ _ ha, ← add_sum_erase _ h.count ha, hrest, hrecounts.count,
    if_pos rfl]
  omega

theorem Booked.retain (hb : h.Booked) (ha : a ∈ h.live)
    (hrecounts : h.Recounts a (h.count a + 1) h')
    (hcounters : h'.counters = { h.counters with retains := h.counters.retains + 1 }) :
    h'.Booked := by
  have hsum := hrecounts.sum_count ha
  refine ⟨?_, ?_⟩
  · rw [hcounters, hrecounts.live]
    exact hb.allocs
  · rw [hcounters]
    have := hb.retains
    simp only
    omega

theorem Booked.release (hb : h.Booked) (ha : a ∈ h.live) (hpos : 0 < h.count a)
    (hrecounts : h.Recounts a (h.count a - 1) h')
    (hcounters : h'.counters = { h.counters with releases := h.counters.releases + 1 }) :
    h'.Booked := by
  have hsum := hrecounts.sum_count ha
  refine ⟨?_, ?_⟩
  · rw [hcounters, hrecounts.live]
    exact hb.allocs
  · rw [hcounters]
    have := hb.retains
    simp only
    omega

theorem Booked.free (hb : h.Booked) (ha : a ∈ h.live) (hzero : h.count a = 0)
    (hloses : h.Loses a h')
    (hcounters : h'.counters = { h.counters with frees := h.counters.frees + 1 }) : h'.Booked := by
  have hcard := card_erase_add_one ha
  have hsum := add_sum_erase _ h.count ha
  refine ⟨?_, ?_⟩
  · rw [hcounters, hloses.live]
    have := hb.allocs
    simp only
    omega
  · rw [hcounters, hloses.live, hloses.count]
    have := hb.retains
    simp only
    omega

/-! ### From heap to heap -/

/-- The count of the cell goes from one to zero. -/
def dies (a : Address) (h h' : Heap) : Bool := h.count a == 1 && h'.count a == 0

/-- The cell is freed. -/
def vanishes (a : Address) (h h' : Heap) : Bool := !h.isFreed a && h'.isFreed a

/-- How often something happens from one heap to the next. -/
def tally (p : Heap → Heap → Bool) : List Heap → Nat
  | g :: g' :: gs => (p g g').toNat + tally p (g' :: gs)
  | _ => 0

/-- How much there is to do at most. -/
def toDo (h : Heap) (tasks : List Task) : Nat :=
  tasks.length + ∑ a ∈ h.standing tasks, ((h.references a).length + 1)

/-- What happens to the whole when one task is done. -/
structure Advances (h : Heap) (tasks : List Task) (h' : Heap) (rest : List Task) : Prop where
  contents : h'.contentAt = h.contentAt
  booked : h.Booked → h'.Booked
  freed : ∀ a, (h.isFreed a).toNat + (vanishes a h h').toNat = (h'.isFreed a).toNat
  dying : ∀ a, (dying tasks).count a + (dies a h h').toNat =
    (dying rest).count a + (vanishes a h h').toNat
  toDo : h'.toDo rest < h.toDo tasks

theorem Recounts.vanishes {n : Nat} (hrecounts : h.Recounts a n h') (b : Address) :
    vanishes b h h' = false := by
  rw [Heap.vanishes, hrecounts.freed]
  simp

theorem Recounts.dies {n : Nat} (hrecounts : h.Recounts a n h') (b : Address) :
    dies b h h' = (decide (b = a) && h.count a == 1 && n == 0) := by
  rw [Heap.dies, hrecounts.count]
  by_cases hb : b = a
  · simp [hb]
  · simp only [hb, if_false, decide_false, Bool.false_and, Bool.and_eq_false_iff,
      beq_eq_false_iff_ne]
    omega

theorem advances_lower (hrecounts : h.Recounts a (h.count a - 1) h')
    (hbooked : h.Booked → h'.Booked)
    (hmore : 1 < h.count a) : h.Advances (.release (.ref a) :: tasks) h' tasks := by
  refine ⟨hrecounts.contents, hbooked, fun b => ?_, fun b => ?_, ?_⟩
  · rw [hrecounts.vanishes, hrecounts.freed]
    rfl
  · rw [hrecounts.vanishes, hrecounts.dies, dying_release]
    have : (h.count a == 1) = false := by simpa using Nat.ne_of_gt hmore
    simp [this]
  · rw [toDo, toDo, standing, standing, hrecounts.live, references_of_contents hrecounts.contents,
      dying_release, List.length_cons]
    omega

theorem advances_drop (hrecounts : h.Recounts a (h.count a - 1) h') (hbooked : h.Booked → h'.Booked)
    (hlast : h.count a = 1) (ha : a ∈ h.live) (hdying : a ∉ dying tasks) :
    h.Advances (.release (.ref a) :: tasks) h'
    ((h.references a).map .release ++ [.free a] ++ tasks) := by
  refine ⟨hrecounts.contents, hbooked, fun b => ?_, fun b => ?_, ?_⟩
  · rw [hrecounts.vanishes, hrecounts.freed]
    rfl
  · rw [hrecounts.vanishes, hrecounts.dies, dying_release, dying_drop, List.count_cons, hlast]
    by_cases hb : b = a
    · simp [hb]
    · simp [hb, Ne.symm hb]
  · have hstanding : h'.standing ((h.references a).map .release ++ [.free a] ++ tasks) =
        (h.standing (.release (.ref a) :: tasks)).erase a := by
      ext c
      simp only [mem_standing, dying_drop, dying_release, mem_erase, List.mem_cons, not_or,
        hrecounts.live]
      tauto
    have hmem : a ∈ h.standing (.release (.ref a) :: tasks) := mem_standing.mpr ⟨ha, hdying⟩
    rw [toDo, toDo, hstanding, references_of_contents hrecounts.contents, ← add_sum_erase _ _ hmem]
    simp only [List.length_append, List.length_map, List.length_cons, List.length_nil]
    omega

theorem advances_free (hloses : h.Loses a h') (hbooked : h.Booked → h'.Booked) (ha : a ∈ h.live) :
    h.Advances (.free a :: tasks) h' tasks := by
  have hvanishes (b : Address) : vanishes b h h' = decide (b = a) := by
    rw [vanishes, hloses.freed]
    by_cases hb : b = a
    · simp [hb, isFreed_of_live ha]
    · simp [hb]
  refine ⟨hloses.contents, hbooked, fun b => ?_, fun b => ?_, ?_⟩
  · rw [hvanishes, hloses.freed]
    by_cases hb : b = a
    · simp [hb, isFreed_of_live ha]
    · simp [hb]
  · have hdies : dies b h h' = false := by
      rw [dies, hloses.count]
      simp only [Bool.and_eq_false_iff, beq_eq_false_iff_ne]
      omega
    rw [hvanishes, hdies, dying_free, List.count_cons]
    by_cases hb : b = a
    · simp [hb]
    · simp [hb, Ne.symm hb]
  · have hstanding : h'.standing tasks = h.standing (.free a :: tasks) := by
      ext b
      simp only [mem_standing, hloses.live, mem_erase, dying_free, List.mem_cons, not_or]
      tauto
    rw [toDo, toDo, hstanding, references_of_contents hloses.contents]
    simp

theorem advances_null : h.Advances (.release .null :: tasks) h tasks := by
  refine ⟨rfl, id, fun b => ?_, fun b => ?_, ?_⟩
  · simp [vanishes]
  · have hdies : dies b h h = false := by
      simp only [dies, Bool.and_eq_false_iff, beq_eq_false_iff_ne]
      omega
    simp [vanishes, hdies]
  · rw [toDo, toDo, standing, standing, dying_release]
    simp

section

variable {fields : Address → List Value} {outside : Address → Nat} {kept : Address → Prop}

/-- Every task can be done, and the heap stays as it has to be. -/
theorem Underway.step (hu : h.Underway fields outside kept (task :: tasks)) :
    ∃ h' new, h.perform task = .ok (h', new) ∧ h'.Underway fields outside kept (new ++ tasks) ∧
      h.Advances (task :: tasks) h' (new ++ tasks) := by
  cases task with
  | release v =>
    rcases hu.released v List.mem_cons_self with rfl | ⟨a, rfl⟩
    · exact ⟨h, [], rfl, hu.passNull, advances_null⟩
    · obtain ⟨hlive, hpos, hlt, hdying⟩ := hu.of_release
      obtain ⟨h', hperform, hrecounts, hcounters⟩ := perform_release_of_live hlive hpos hlt
      have hbooked (hb : h.Booked) : h'.Booked := hb.release hlive hpos hrecounts hcounters
      by_cases hlast : h.count a = 1
      · rw [if_pos hlast] at hperform
        exact ⟨h', _, hperform, hu.drop hlast hrecounts, advances_drop hrecounts hbooked hlast
          hlive hdying⟩
      · rw [if_neg hlast] at hperform
        exact ⟨h', _, hperform, hu.lower hrecounts, advances_lower hrecounts hbooked (by omega)⟩
  | free a =>
    obtain ⟨hlive, hzero⟩ := hu.spent a List.mem_cons_self
    obtain ⟨h', hperform, hloses, hcounters⟩ := perform_free_of_live hlive
    exact ⟨h', [], hperform, hu.lose hloses,
      advances_free hloses (fun hb => hb.free hlive hzero hloses hcounters) hlive⟩

end

/-! ### Whole releases -/

/-- The heaps that are passed through when tasks are done, from the first to the last. -/
def moments : Nat → Heap → List Task → List Heap
  | fuel + 1, h, task :: tasks =>
    match h.perform task with
    | .ok (h', new) => h :: moments fuel h' (new ++ tasks)
    | .error _ => [h]
  | _, h, _ => [h]

/-- The heaps of a way from one heap to another.  On it a cell is freed as often as its count goes
from one to zero, apart from those that `waiting` gives. -/
structure Passes (gs : List Heap) (h h' : Heap) (waiting : Address → Nat) : Prop where
  first : gs.head? = some h
  last : gs.getLast? = some h'
  booked : h.Booked → ∀ g ∈ gs, g.Booked
  freed : ∀ a, (h.isFreed a).toNat + tally (vanishes a) gs = (h'.isFreed a).toNat
  dying : ∀ a, waiting a + tally (dies a) gs = tally (vanishes a) gs

theorem passes_refl (h : Heap) : Passes [h] h h fun _ => 0 :=
  ⟨rfl, rfl, fun hb _ hg => List.mem_singleton.mp hg ▸ hb, fun _ => rfl, fun _ => rfl⟩

theorem tally_append (p : Heap → Heap → Bool) {gs gs' : List Heap} {g g' : Heap}
    (hlast : gs.getLast? = some g) (hfirst : gs'.head? = some g') :
    tally p (gs ++ gs') = tally p gs + (p g g').toNat + tally p gs' := by
  induction gs with
  | nil => cases hlast
  | cons f gs ih =>
    cases gs with
    | nil =>
      cases hlast
      obtain ⟨rest, rfl⟩ := List.head?_eq_some_iff.mp hfirst
      simp [tally]
    | cons f' gs =>
      rw [List.getLast?_cons_cons] at hlast
      rw [List.cons_append, List.cons_append, tally, ← List.cons_append, ih hlast, tally]
      omega

section

variable {fields : Address → List Value} {outside : Address → Nat} {kept : Address → Prop}

theorem passes_cons {rest : List Task} {g : Heap} {gs : List Heap}
    (hadvances : h.Advances tasks g rest) (hpasses : Passes gs g h' fun a => (dying rest).count a) :
    Passes (h :: gs) h h' fun a => (dying tasks).count a := by
  have htally (p : Heap → Heap → Bool) : tally p (h :: gs) = (p h g).toNat + tally p gs := by
    have hlast : [h].getLast? = some h := rfl
    rw [← List.singleton_append, tally_append p hlast hpasses.first]
    simp [tally]
  refine ⟨rfl, ?_, fun hb f hf => ?_, fun a => ?_, fun a => ?_⟩
  · rw [List.getLast?_cons, hpasses.last]
    rfl
  · rcases List.mem_cons.mp hf with rfl | hf
    · exact hb
    · exact hpasses.booked (hadvances.booked hb) f hf
  · rw [htally, ← Nat.add_assoc, hadvances.freed]
    exact hpasses.freed a
  · rw [htally, htally, ← hpasses.dying a]
    have := hadvances.dying a
    omega

theorem Underway.run (hu : h.Underway fields outside kept tasks) {fuel : Nat}
    (hfuel : h.toDo tasks ≤ fuel) :
    ∃ h', performAll fuel h tasks = .ok h' ∧ h'.Underway fields outside kept [] ∧
      h'.contentAt = h.contentAt ∧ Passes (moments fuel h tasks) h h' fun a =>
      (dying tasks).count a := by
  induction fuel generalizing h tasks with
  | zero =>
    cases tasks with
    | nil => exact ⟨h, rfl, hu, rfl, passes_refl h⟩
    | cons task tasks => simp [toDo] at hfuel
  | succ fuel ih =>
    cases tasks with
    | nil => exact ⟨h, rfl, hu, rfl, passes_refl h⟩
    | cons task tasks =>
      obtain ⟨g, new, hperform, hg, hadvances⟩ := hu.step
      have hless := hadvances.toDo
      obtain ⟨h', hrun, hdone, hcontents, hpasses⟩ := ih hg (by omega)
      refine ⟨h', ?_, hdone, hcontents.trans hadvances.contents, ?_⟩
      · rw [performAll, hperform]
        exact hrun
      · rw [moments, hperform]
        exact passes_cons hadvances hpasses

end

end ObjectLang.Memory.Heap
