import Mathlib.Algebra.Order.BigOperators.Group.Finset
import ObjectLang.Proofs.Cascades

/-! # Heaps whose counts are right

The count of a cell is the number of references to it, from the fields of allocated cells and from
outside.  Allocating, retaining and releasing keep it so, and so does storing a reference into a
field, whether the field is written before the old reference is released or after that.
-/

namespace ObjectLang.Memory

open Code Finset

/-- The size is a word of 32 bits, and the reference fields are fields behind the header. -/
structure Object.Framed (o : Object) : Prop where
  size : o.size < 0x100000000
  nodup : (o.drop.getD []).Nodup
  within : ∀ k ∈ o.drop.getD [], Layout.headerSize ≤ k ∧ k < o.size

/-- One if the value points to the address. -/
def Value.points (v : Value) (a : Address) : Nat := if v = .ref a then 1 else 0

namespace Heap

variable {h h' : Heap} {a b : Address} {outside : Address → Nat}

/-- How many reference fields of allocated cells hold the address. -/
def holders (h : Heap) (a : Address) : Nat := ∑ b ∈ h.live, (h.references b).count (.ref a)

/-- Counts are the numbers of references, from fields and from outside, and there are none to cells
that are not allocated. -/
structure Counted (h : Heap) (outside : Address → Nat) : Prop where
  count : ∀ a ∈ h.live, h.count a = h.holders a + outside a
  live : ∀ a, 0 < h.holders a + outside a → a ∈ h.live
  few : ∀ a, h.holders a + outside a < countModulus
  held : ∀ a ∈ h.live, ∀ v ∈ h.references a, v.IsReference
  framed : ∀ {a o}, h.contentAt a = some (.object o) → o.Framed

/-! ### Allocation -/

theorem getElem?_alloc (h : Heap) (content : Content) (b : Address) :
    (h.alloc content).2.cells[b]? = if b = h.cells.size then some { content } else h.cells[b]? := by
  rw [alloc, Array.getElem?_push]

theorem size_not_live (h : Heap) : h.cells.size ∉ h.live := by
  rw [mem_live]
  rintro ⟨c, hc, -⟩
  exact Nat.lt_irrefl _ (Array.getElem?_eq_some_iff.mp hc).1

theorem count_size (h : Heap) : h.count h.cells.size = 0 := by
  rw [count, Array.getElem?_eq_none (Nat.le_refl _)]
  rfl

/-- What is different after an allocation. -/
structure Allocates (h : Heap) (content : Content) (h' : Heap) : Prop where
  count : h'.count = h.count
  contents : ∀ b, h'.contentAt b = if b = h.cells.size then some content else h.contentAt b
  freed : h'.isFreed = h.isFreed
  live : h'.live = insert h.cells.size h.live
  counters : h'.counters = { h.counters with allocs := h.counters.allocs + 1 }

theorem allocates_alloc (h : Heap) (content : Content) :
    h.Allocates content (h.alloc content).2 := by
  have hget := getElem?_alloc h content
  have hnone : h.cells[h.cells.size]? = none := Array.getElem?_eq_none (Nat.le_refl _)
  refine ⟨?_, fun b => ?_, ?_, ?_, rfl⟩
  · funext b
    rw [count, hget, count]
    split
    · next hb =>
      rw [hb, hnone]
      rfl
    · rfl
  · rw [contentAt, hget, contentAt]
    split <;> rfl
  · funext b
    rw [isFreed, hget, isFreed]
    split
    · next hb =>
      rw [hb, hnone]
      rfl
    · rfl
  · ext b
    simp only [mem_live, mem_insert, hget]
    by_cases hb : b = h.cells.size
    · simp [hb]
    · simp [hb]

/-- A cell that holds nothing is allocated. -/
theorem Counted.alloc (hc : h.Counted outside) {content : Content}
    (hallocates : h.Allocates content h')
    (hnull : ∀ v ∈ dropped content, v = .null) (hframed : ∀ o, content = .object o → o.Framed) :
    h'.Counted outside := by
  have hreferences (b : Address) :
      h'.references b = if b = h.cells.size then dropped content else h.references b := by
    rw [references, hallocates.contents]
    split <;> rfl
  have hholders (a : Address) : h'.holders a = h.holders a := by
    rw [holders, hallocates.live, sum_insert h.size_not_live, hreferences, if_pos rfl]
    have hzero : (dropped content).count (.ref a) = 0 :=
      List.count_eq_zero.mpr fun hmem => by cases hnull _ hmem
    rw [hzero, Nat.zero_add]
    refine sum_congr rfl fun b hb => ?_
    have hne : b ≠ h.cells.size := by
      rintro rfl
      exact h.size_not_live hb
    rw [hreferences, if_neg hne]
  have hsize : h.holders h.cells.size + outside h.cells.size = 0 := by
    by_contra hne
    exact h.size_not_live (hc.live _ (Nat.pos_of_ne_zero hne))
  refine ⟨fun a ha => ?_, fun a ha => ?_, fun a => hholders a ▸ hc.few a, fun a ha v hv => ?_,
    fun {a o} ho => ?_⟩
  · rw [hallocates.count, hholders]
    rw [hallocates.live] at ha
    rcases mem_insert.mp ha with rfl | ha
    · rw [hsize]
      exact h.count_size
    · exact hc.count a ha
  · rw [hallocates.live]
    exact mem_insert_of_mem (hc.live a (hholders a ▸ ha))
  · rw [hreferences] at hv
    rw [hallocates.live] at ha
    split at hv
    · exact .inl (hnull v hv)
    · next hne => exact hc.held a ((mem_insert.mp ha).resolve_left hne) v hv
  · rw [hallocates.contents] at ho
    split at ho
    · exact hframed o (Option.some.inj ho)
    · exact hc.framed ho

theorem Booked.alloc (hb : h.Booked) {content : Content} (hallocates : h.Allocates content h') :
    h'.Booked := by
  refine ⟨?_, ?_⟩
  · rw [hallocates.counters, hallocates.live, card_insert_of_notMem h.size_not_live]
    have := hb.allocs
    simp only
    omega
  · rw [hallocates.counters, hallocates.live, sum_insert h.size_not_live, hallocates.count]
    rw [count_size, Nat.zero_add]
    exact hb.retains

/-! ### Holders -/

theorem demand_nil (h : Heap) (fields : Address → List Value) (outside : Address → Nat)
    (a : Address) :
    h.demand fields outside [] a = ∑ b ∈ h.live, (fields b).count (.ref a) + outside a := by
  rw [demand, standing, filter_true_of_mem (by simp)]
  rfl

theorem demand_single (h : Heap) (fields : Address → List Value) (outside : Address → Nat)
    (v : Value) (a : Address) : h.demand fields outside [.release v] a =
      ∑ b ∈ h.live, (fields b).count (.ref a) + outside a + v.points a := by
  have hstanding : h.standing [.release v] = h.live := filter_true_of_mem (by simp)
  have hcount : [Task.release v].count (.release (.ref a)) = v.points a := by
    rw [List.count_singleton, Value.points]
    simp
  rw [demand, hstanding, hcount]

theorem Counted.retain (hc : h.Counted outside) (ha : a ∈ h.live)
    (hfew : h.holders a + outside a + 1 < countModulus)
    (hrecounts : h.Recounts a (h.count a + 1) h') :
    h'.Counted fun b => outside b + (Value.ref a).points b := by
  have hreferences := references_of_contents hrecounts.contents
  have hholders (b : Address) : h'.holders b = h.holders b := by
    rw [holders, hrecounts.live, hreferences, holders]
  have hpoints (b : Address) : (Value.ref a).points b = if b = a then 1 else 0 := by
    simp [Value.points, eq_comm]
  refine ⟨fun b hb => ?_, fun b hb => ?_, fun b => ?_, ?_,
    fun ho => hc.framed (hrecounts.contents ▸ ho)⟩
  · rw [hrecounts.live] at hb
    rw [hrecounts.count, hholders, hpoints]
    have := hc.count b hb
    split
    · next heq =>
      subst heq
      omega
    · omega
  · rw [hholders, hpoints] at hb
    rw [hrecounts.live]
    split at hb
    · next heq => exact heq ▸ ha
    · exact hc.live b hb
  · rw [hholders, hpoints]
    split
    · next heq => exact heq ▸ hfew
    · exact hc.few b
  · rw [hrecounts.live, hreferences]
    exact hc.held

/-- One of the references from outside is about to be released. -/
theorem Counted.underway (hc : h.Counted outside) {v : Value} (hv : v.IsReference)
    (houtside : ∀ a, v.points a ≤ outside a) :
    h.Underway h.references (fun a => outside a - v.points a) (fun _ => False) [.release v] := by
  have hdemand (a : Address) :
      h.demand h.references (fun a => outside a - v.points a) [.release v] a =
      h.holders a + outside a := by
    rw [demand_single, ← holders]
    have := houtside a
    omega
  refine ⟨fun a ha => ?_, fun a ha => ?_, fun a => ?_, nofun, .nil, fun w hw => ?_, hc.held,
    fun _ _ => .inl rfl, fun _ => False.elim⟩
  · rw [hdemand]
    exact hc.count a ha
  · exact hc.live a (hdemand a ▸ ha)
  · exact hdemand a ▸ hc.few a
  · cases List.mem_singleton.mp hw
    exact hv

/-- Releases are done, and no other reference is left out. -/
theorem Underway.counted {kept : Address → Prop} (hu : h.Underway h.references outside kept [])
    (hframed : ∀ {a o}, h.contentAt a = some (.object o) → o.Framed) : h.Counted outside := by
  have hdemand (a : Address) : h.demand h.references outside [] a = h.holders a + outside a :=
    demand_nil h h.references outside a
  refine ⟨fun a ha => ?_, fun a ha => ?_, fun a => ?_, hu.held, hframed⟩
  · rw [← hdemand]
    exact hu.count a ha
  · exact hu.live a (hdemand a ▸ ha)
  · exact hdemand a ▸ hu.few a

theorem length_references (hframed : ∀ {a o}, h.contentAt a = some (.object o) → o.Framed)
    (a : Address) :
    (h.references a).length + 1 ≤ countModulus := by
  rw [references]
  cases hcontent : h.contentAt a with
  | none => decide
  | some content =>
    cases content with
    | text s => exact Nat.succ_le_of_lt (by decide : 0 < countModulus)
    | object o =>
      obtain ⟨hsize, hnodup, hwithin⟩ := hframed hcontent
      have hsubset : (o.drop.getD []).toFinset ⊆ range o.size := fun k hk =>
        mem_range.mpr (hwithin k (List.mem_toFinset.mp hk)).2
      have hcard := card_le_card hsubset
      rw [List.toFinset_card_of_nodup hnodup, card_range] at hcard
      change ((o.drop.getD []).map _).length + 1 ≤ 0x100000000
      rw [List.length_map]
      omega

/-- The bound on the tasks of a release is high enough. -/
theorem toDo_release (hframed : ∀ {a o}, h.contentAt a = some (.object o) → o.Framed) (v : Value) :
    h.toDo [.release v] ≤ h.taskBound := by
  have hsum :
      ∑ a ∈ h.standing [.release v], ((h.references a).length + 1) ≤
      h.cells.size * countModulus := by
    calc ∑ a ∈ h.standing [.release v], ((h.references a).length + 1)
        ≤ ∑ a ∈ range h.cells.size, ((h.references a).length + 1) :=
          sum_le_sum_of_subset ((filter_subset _ _).trans (filter_subset _ _))
      _ ≤ ∑ a ∈ range h.cells.size, countModulus := sum_le_sum fun a _ =>
        length_references hframed a
      _ = h.cells.size * countModulus := by rw [sum_const_nat fun _ _ => rfl, card_range]
  have hpos : 0 < countModulus := by decide
  rw [toDo, taskBound, Nat.add_mul, Nat.one_mul]
  simp only [List.length_singleton]
  omega

/-- The heaps that a release passes through. -/
def course (h : Heap) (v : Value) : List Heap := moments h.taskBound h [.release v]

theorem Underway.release {v : Value} {fields : Address → List Value} {kept : Address → Prop}
    (hu : h.Underway fields outside kept [.release v])
    (hframed : ∀ {a o}, h.contentAt a = some (.object o) → o.Framed) :
    ∃ h', h.release v = .ok h' ∧ h'.Underway fields outside kept [] ∧ h'.contentAt = h.contentAt ∧
      Passes (h.course v) h h' fun _ => 0 :=
  hu.run (toDo_release hframed v)

/-! ### Stores -/

/-- The cell is an allocated object that has a reference field at the offset. -/
structure HasField (h : Heap) (a : Address) (offset : Nat) (o : Object) : Prop where
  live : a ∈ h.live
  object : h.contentAt a = some (.object o)
  offset : offset ∈ o.drop.getD []

/-- The reference fields of an object other than the one at the offset. -/
def others (o : Object) (offset : Nat) : List Value :=
  ((o.drop.getD []).erase offset).map fun k => o.fields.getD k .null

theorem dropped_perm {o : Object} {offset : Nat} (hoffset : offset ∈ o.drop.getD []) :
    (dropped (.object o)).Perm (o.fields.getD offset .null :: others o offset) :=
  (List.perm_cons_erase hoffset).map fun k => o.fields.getD k .null

theorem others_insert {o : Object} {offset : Nat} (hnodup : (o.drop.getD []).Nodup) (v : Value) :
    others { o with fields := o.fields.insert offset v } offset = others o offset := by
  refine List.map_congr_left fun k hk => ?_
  have hne : offset ≠ k := by
    rintro rfl
    exact (List.Nodup.mem_erase_iff hnodup).mp hk |>.1 rfl
  rw [Std.TreeMap.getD_insert, if_neg (by simpa using hne)]

/-- What is different after a store. -/
structure Stores (h : Heap) (a : Address) (content : Content) (h' : Heap) : Prop where
  count : h'.count = h.count
  contents : ∀ b, h'.contentAt b = if b = a then some content else h.contentAt b
  freed : h'.isFreed = h.isFreed
  live : h'.live = h.live
  counters : h'.counters = h.counters

section

variable {offset : Nat} {o : Object} {v : Value}

section

variable (hfield : h.HasField a offset o)

include hfield

theorem object_of_hasField :
    ∃ c, h.object (.ref a) = .ok (a, c, o) ∧ h.cells[a]? = some c := by
  obtain ⟨c, hcell, hc, -⟩ := cell_of_live hfield.live
  have hcontent := hfield.object
  rw [contentAt, hc] at hcontent
  obtain ⟨n, freed, content⟩ := c
  cases hcontent
  exact ⟨_, by rw [object, hcell]; rfl, hc⟩

theorem mem_references : o.fields.getD offset .null ∈ h.references a := by
  rw [references, hfield.object]
  exact List.mem_map.mpr ⟨offset, hfield.offset, rfl⟩

theorem load_of_hasField (hframed : o.Framed) :
    h.load .i64 (.ref a) offset = .ok (o.fields.getD offset .null) := by
  obtain ⟨c, hobject, -⟩ := object_of_hasField hfield
  have hne : offset ≠ Layout.vtableOffset := by
    have hle := (hframed.within offset hfield.offset).1
    rintro rfl
    exact absurd hle (by decide)
  rw [load, hobject]
  exact if_neg hne

theorem store_of_hasField (v : Value) :
    ∃ h', h.store (.ref a) offset v = .ok h' ∧
      h.Stores a (.object { o with fields := o.fields.insert offset v }) h' := by
  obtain ⟨c, hobject, hc⟩ := object_of_hasField hfield
  refine ⟨_, by rw [store, hobject]; rfl, ?_⟩
  have hfreed :
      (h.setCell a
        { c with content := .object { o with fields := o.fields.insert offset v } }).isFreed =
      h.isFreed := by
    funext b
    rw [isFreed_setCell hc]
    split
    · next hb => simp [hb, isFreed, hc]
    · rfl
  refine ⟨?_, contentAt_setCell hc _, hfreed, live_of_isFreed (size_setCell h a _) hfreed, rfl⟩
  funext b
  rw [count_setCell hc]
  split
  · next hb => simp [hb, count, hc]
  · rfl

end

/-- A field more or less makes a difference of one reference. -/
theorem sum_count_field {s : Finset Address} (ha : a ∈ s) {f g : Address → List Value}
    (hne : ∀ b, b ≠ a → f b = g b) (hperm : (f a).Perm (v :: g a)) (b : Address) :
    ∑ x ∈ s, (f x).count (.ref b) = ∑ x ∈ s, (g x).count (.ref b) + v.points b := by
  have hrest : ∑ x ∈ s.erase a, (f x).count (.ref b) = ∑ x ∈ s.erase a, (g x).count (.ref b) :=
    sum_congr rfl fun x hx => by rw [hne x (ne_of_mem_erase hx)]
  have hfield : (f a).count (.ref b) = (g a).count (.ref b) + v.points b := by
    rw [hperm.count_eq, List.count_cons, Value.points]
    simp
  rw [← add_sum_erase _ _ ha, ← add_sum_erase s (fun x => (g x).count (.ref b)) ha, hrest, hfield]
  omega

/-- What the cells hold in their reference fields, without the one at the offset. -/
def fieldsBut (h : Heap) (a : Address) (offset : Nat) (o : Object) (b : Address) : List Value :=
  if b = a then others o offset else h.references b

theorem fieldsBut_self : h.fieldsBut a offset o a = others o offset := if_pos rfl

theorem fieldsBut_of_ne (hb : b ≠ a) : h.fieldsBut a offset o b = h.references b := if_neg hb

theorem sum_fieldsBut (hfield : h.HasField a offset o) (b : Address) :
    h.holders b = ∑ x ∈ h.live, (h.fieldsBut a offset o x).count (.ref b) +
      (o.fields.getD offset .null).points b := by
  refine sum_count_field hfield.live (fun x hx => (fieldsBut_of_ne hx).symm) ?_ b
  rw [fieldsBut_self, references, hfield.object]
  exact dropped_perm hfield.offset

section

variable (hfield : h.HasField a offset o)
  (hstores : h.Stores a (.object { o with fields := o.fields.insert offset v }) h')

include hfield hstores

theorem Stores.sum_fieldsBut (hnodup : (o.drop.getD []).Nodup) (b : Address) :
    h'.holders b = ∑ x ∈ h.live, (h.fieldsBut a offset o x).count (.ref b) + v.points b := by
  have hreferences (x : Address) : h'.references x =
      if x = a then dropped (.object { o with fields := o.fields.insert offset v })
      else h.references x := by
    rw [references, hstores.contents]
    split <;> rfl
  rw [holders, hstores.live]
  refine sum_count_field hfield.live (fun x hx => ?_) ?_ b
  · rw [fieldsBut_of_ne hx, hreferences, if_neg hx]
  · rw [fieldsBut_self, hreferences, if_pos rfl, ← others_insert hnodup v]
    have hperm := dropped_perm (o := { o with fields := o.fields.insert offset v }) hfield.offset
    rwa [Std.TreeMap.getD_insert_self] at hperm

theorem Stores.held (hv : v.IsReference)
    (hheld : ∀ b ∈ h.live, ∀ w ∈ h.references b, w.IsReference) :
    ∀ b ∈ h'.live, ∀ w ∈ h'.references b, w.IsReference := by
  intro b hb w hw
  rw [hstores.live] at hb
  rw [references, hstores.contents] at hw
  split at hw
  · obtain ⟨k, hk, rfl⟩ := List.mem_map.mp hw
    rw [Std.TreeMap.getD_insert]
    split
    · exact hv
    · refine hheld a hfield.live _ ?_
      rw [references, hfield.object]
      exact List.mem_map.mpr ⟨k, hk, rfl⟩
  · exact hheld b hb w hw

theorem Stores.framed
    (hframed : ∀ {a o}, h.contentAt a = some (.object o) → o.Framed) {b : Address} {o' : Object}
    (ho' : h'.contentAt b = some (.object o')) : o'.Framed := by
  rw [hstores.contents] at ho'
  split at ho'
  · cases ho'
    obtain ⟨hsize, hnodup, hwithin⟩ := hframed hfield.object
    exact ⟨hsize, hnodup, hwithin⟩
  · exact hframed ho'

/-- A reference from outside went into a field, and the one that was there is about to be
released. -/
theorem Counted.displace (hc : h.Counted fun b => outside b + v.points b) (hv : v.IsReference) :
    h'.Underway h'.references outside (fun _ => False) [.release (o.fields.getD offset .null)] := by
  have hdemand (b : Address) :
      h'.demand h'.references outside [.release (o.fields.getD offset .null)] b =
      h.holders b + (outside b + v.points b) := by
    rw [demand_single, ← holders, hstores.sum_fieldsBut hfield (hc.framed hfield.object).nodup,
      Heap.sum_fieldsBut hfield]
    omega
  refine ⟨fun b hb => ?_, fun b hb => ?_, fun b => hdemand b ▸ hc.few b, nofun, .nil,
    fun w hw => ?_, hstores.held hfield hv hc.held, fun _ _ => .inl rfl, fun _ => False.elim⟩
  · rw [hdemand, hstores.count]
    exact hc.count b (hstores.live ▸ hb)
  · rw [hstores.live]
    exact hc.live b (hdemand b ▸ hb)
  · cases List.mem_singleton.mp hw
    exact hc.held a hfield.live _ (mem_references hfield)

/-- A reference from outside goes into a field whose own reference is gone already. -/
theorem Underway.fill {kept : Address → Prop}
    (hu : h.Underway (h.fieldsBut a offset o) (fun b => outside b + v.points b) kept [])
    (hframed : ∀ {a o}, h.contentAt a = some (.object o) → o.Framed) (hv : v.IsReference) :
    h'.Counted outside := by
  have hdemand (b : Address) :
      h.demand (h.fieldsBut a offset o) (fun b => outside b + v.points b) [] b =
      h'.holders b + outside b := by
    rw [demand_nil, hstores.sum_fieldsBut hfield (hframed hfield.object).nodup]
    omega
  refine ⟨fun b hb => ?_, fun b hb => ?_, fun b => hdemand b ▸ hu.few b,
    hstores.held hfield hv hu.held, hstores.framed hfield hframed⟩
  · rw [← hdemand, hstores.count]
    exact hu.count b (hstores.live ▸ hb)
  · rw [hstores.live]
    exact hu.live b (hdemand b ▸ hb)

end

/-- The cell was just allocated, or there is a way to it from outside. -/
inductive Reachable (h : Heap) (outside : Address → Nat) : Address → Prop where
  | fresh {a : Address} (ha : a ∈ h.live) (hzero : h.count a = 0) : Reachable h outside a
  | outside {a : Address} (ha : 0 < outside a) : Reachable h outside a
  | field {a b : Address} (hb : Reachable h outside b) (hlive : b ∈ h.live)
      (hfield : .ref a ∈ h.references b) :
      Reachable h outside a

/-- There is a way to the cell that does not lead through the given fields of it. -/
inductive Kept (h : Heap) (outside : Address → Nat) (fields : Address → List Value) :
    Address → Prop where
  | fresh {a : Address} (ha : a ∈ h.live) (hzero : h.count a = 0) : Kept h outside fields a
  | outside {a : Address} (ha : 0 < outside a) : Kept h outside fields a
  | field {a b : Address} (hb : Kept h outside fields b) (hfield : .ref a ∈ fields b) :
      Kept h outside fields a

/-- A way to a cell need not lead through the cell itself. -/
theorem Reachable.kept (hb : h.Reachable outside b) : h.Kept outside (h.fieldsBut a offset o) b ∨
    h.Kept outside (h.fieldsBut a offset o) a := by
  induction hb with
  | fresh ha hzero => exact .inl (.fresh ha hzero)
  | outside ha => exact .inl (.outside ha)
  | @field c b _ _ hfield ih =>
    refine ih.elim (fun hb => ?_) .inr
    by_cases heq : b = a
    · exact .inr (heq ▸ hb)
    · refine .inl (.field hb ?_)
      rwa [fieldsBut_of_ne heq]

theorem fieldsBut_subset (hfield : h.HasField a offset o) (b : Address) :
    h.fieldsBut a offset o b ⊆ h.references b := by
  rw [fieldsBut]
  split
  · next heq =>
    rw [heq, references, hfield.object]
    exact fun v hv => (dropped_perm hfield.offset).symm.subset (List.mem_cons_of_mem _ hv)
  · exact List.Subset.refl _

theorem Counted.live_of_mem (hc : h.Counted outside) (hb : b ∈ h.live)
    (ha : .ref a ∈ h.references b) :
    a ∈ h.live := by
  have hle : (h.references b).count (.ref a) ≤ h.holders a :=
    single_le_sum (f := fun b => (h.references b).count (.ref a)) (fun _ _ => Nat.zero_le _) hb
  have hpos := List.count_pos_iff.mpr ha
  exact hc.live a (by omega)

theorem Kept.live (hb : h.Kept outside (h.fieldsBut a offset o) b) (hc : h.Counted outside)
    (hfield : h.HasField a offset o) : b ∈ h.live := by
  induction hb with
  | fresh ha _ => exact ha
  | outside ha => exact hc.live _ (Nat.lt_of_lt_of_le ha (Nat.le_add_left _ _))
  | field _ hmem ih => exact hc.live_of_mem ih (fieldsBut_subset hfield _ hmem)

/-- The reference in a field is about to be released, and something keeps the object. -/
theorem Counted.overwrite (hc : h.Counted outside) (hfield : h.HasField a offset o)
    (hreach : h.Reachable outside a) :
    h.Underway (h.fieldsBut a offset o) outside (h.Kept outside (h.fieldsBut a offset o))
      [.release (o.fields.getD offset .null)] := by
  have hdemand (b : Address) : h.demand (h.fieldsBut a offset o) outside
      [.release (o.fields.getD offset .null)] b = h.holders b + outside b := by
    rw [demand_single, sum_fieldsBut hfield]
    omega
  refine ⟨fun b hb => ?_, fun b hb => hc.live b (hdemand b ▸ hb), fun b => hdemand b ▸ hc.few b,
    nofun, .nil, fun w hw => ?_, hc.held, fun b hb => ?_, fun b hb => ?_⟩
  · rw [hdemand]
    exact hc.count b hb
  · cases List.mem_singleton.mp hw
    exact hc.held a hfield.live _ (mem_references hfield)
  · by_cases heq : b = a
    · subst heq
      exact .inr (hreach.kept.elim id id)
    · exact .inl (fieldsBut_of_ne heq)
  · refine ⟨mem_standing.mpr ⟨hb.live hc hfield, by simp⟩, ?_⟩
    cases hb with
    | fresh _ hzero => exact .inr (.inl hzero)
    | outside hpos => exact .inl hpos
    | field hb hmem => exact .inr (.inr ⟨_, hb, hmem⟩)

end

end Heap

end ObjectLang.Memory
