import ObjectLang.Proofs.CountedHeaps

/-! # Sequences of operations on a heap

Cells are allocated, holders come and go, and references are stored into fields.  However long this
goes on, no operation fails, the count of a cell stays the number of references to it, and a cell is
freed when and only when its count goes from one to zero.
-/

namespace ObjectLang.Memory

open Code Finset

namespace Heap

variable {h h' : Heap} {outside : Address → Nat}

/-! ### Ways from heap to heap -/

theorem dies_of_count (hcount : h'.count = h.count) (a : Address) : dies a h h' = false := by
  rw [dies, hcount]
  simp only [Bool.and_eq_false_iff, beq_eq_false_iff_ne]
  omega

theorem vanishes_of_freed (hfreed : h'.isFreed = h.isFreed) (a : Address) :
    vanishes a h h' = false := by
  rw [vanishes, hfreed]
  simp

theorem passes_pair (hbooked : h.Booked → h'.Booked) (hfreed : h'.isFreed = h.isFreed)
    (hdies : ∀ a, dies a h h' = false) : Passes [h, h'] h h' fun _ => 0 := by
  have hvanishes := vanishes_of_freed hfreed
  refine ⟨rfl, rfl, fun hb g hg => ?_, fun a => ?_, fun a => ?_⟩
  · rcases List.mem_pair.mp hg with rfl | rfl
    · exact hb
    · exact hbooked hb
  · simp [tally, hvanishes, hfreed]
  · simp [tally, hvanishes, hdies]

variable {os : List Operation} {o : Operation} {a : Address} {g : Heap}

theorem Passes.append {gs gs' : List Heap} (hp : Passes gs h g fun _ => 0)
    (hp' : Passes gs' g h' fun _ => 0) :
    Passes (gs ++ gs') h h' fun _ => 0 := by
  have hdies (a : Address) :
      tally (dies a) (gs ++ gs') = tally (dies a) gs + tally (dies a) gs' := by
    rw [tally_append _ hp.last hp'.first, dies_of_count rfl]
    rfl
  have hvanishes (a : Address) :
      tally (vanishes a) (gs ++ gs') = tally (vanishes a) gs + tally (vanishes a) gs' := by
    rw [tally_append _ hp.last hp'.first, vanishes_of_freed rfl]
    rfl
  refine ⟨?_, ?_, fun hb f hf => ?_, fun a => ?_, fun a => ?_⟩
  · rw [List.head?_append, hp.first]
    rfl
  · rw [List.getLast?_append, hp'.last]
    rfl
  · rcases List.mem_append.mp hf with hf | hf
    · exact hp.booked hb f hf
    · exact hp'.booked (hp.booked hb g (List.mem_of_getLast? hp.last)) f hf
  · rw [hvanishes, ← Nat.add_assoc, hp.freed, hp'.freed]
  · rw [hdies, hvanishes, ← hp.dying a, ← hp'.dying a]
    omega

/-! ### Operations -/

/-- Something that is done to a heap from outside. -/
inductive Operation where
  | newObject (size : Nat) (vtable : Value) (drop : Option (List Nat))
  | newText (s : String)
  | retain (v : Value)
  | release (v : Value)
  /-- Retains the new value, releases the one that is in the field and then writes the field. -/
  | store (a : Address) (offset : Nat) (v : Value)
  /-- Retains the new value, writes the field and then releases the one that was in it. -/
  | exchange (a : Address) (offset : Nat) (v : Value)

namespace Operation

/-- The heap after the operation, and all heaps that it passes through. -/
def run (h : Heap) : Operation → Except Fault (Heap × List Heap)
  | newObject size vtable drop =>
    let h' := (h.newObject size vtable drop).2
    .ok (h', [h, h'])
  | newText s =>
    let h' := (h.newText s).2
    .ok (h', [h, h'])
  | retain v => do
    let h' ← h.retain v
    return (h', [h, h'])
  | release v => do
    let h' ← h.release v
    return (h', h.course v)
  | store a offset v => do
    let g ← h.retain v
    let old ← g.load .i64 (.ref a) offset
    let g' ← g.release old
    let h' ← g'.store (.ref a) offset v
    return (h', [h, g] ++ g.course old ++ [g', h'])
  | exchange a offset v => do
    let g ← h.retain v
    let old ← g.load .i64 (.ref a) offset
    let g' ← g.store (.ref a) offset v
    let h' ← g'.release old
    return (h', [h, g] ++ [g, g'] ++ g'.course old)

/-- The references from outside after the operation. -/
def after (outside : Address → Nat) : Operation → Address → Nat
  | retain v => fun a => outside a + v.points a
  | release v => fun a => outside a - v.points a
  | _ => outside

end Operation

/-- The value is null or an allocated cell that can have one more reference. -/
def Takes (h : Heap) (outside : Address → Nat) (v : Value) : Prop :=
  v.IsReference ∧ ∀ a, v = .ref a → a ∈ h.live ∧ h.holders a + outside a + 1 < countModulus

/-- What an operation has to respect: holders retain what is allocated and release what they hold,
and references are stored into reference fields.  The object whose field is written after the
release must not be one that only the old reference keeps. -/
def Operation.Allowed (h : Heap) (outside : Address → Nat) : Operation → Prop
  | newObject size vtable drop => Object.Framed { size := max size Layout.headerSize, vtable, drop }
  | newText _ => True
  | retain v => h.Takes outside v
  | release v => v.IsReference ∧ ∀ a, v = .ref a → 0 < outside a
  | store a offset v => (∃ o, h.HasField a offset o) ∧ h.Reachable outside a ∧ h.Takes outside v
  | exchange a offset v => (∃ o, h.HasField a offset o) ∧ h.Takes outside v

def runAll (h : Heap) : List Operation → Except Fault (Heap × List Heap)
  | [] => .ok (h, [h])
  | o :: os => do
    let (g, gs) ← o.run h
    let (h', gs') ← runAll g os
    return (h', gs ++ gs')

def outsideAll (outside : Address → Nat) (os : List Operation) : Address → Nat :=
  os.foldl (fun outside o => o.after outside) outside

/-- Each operation is allowed when its turn comes. -/
def AllAllowed (h : Heap) (outside : Address → Nat) : List Operation → Prop
  | [] => True
  | o :: os =>
    o.Allowed h outside ∧ ∀ g gs, o.run h = .ok (g, gs) → AllAllowed g (o.after outside) os

/-! ### A check for operations -/

instance (v : Value) : Decidable v.IsReference :=
  match v with
  | .ref a => .isTrue (.inr ⟨a, rfl⟩)
  | .int n => decidable_of_iff (n = 0) (by simp [Value.IsReference, Value.null])
  | .float _ | .datum _ | .code _ => .isFalse (by simp [Value.IsReference, Value.null])

instance (v : Value) (p : Address → Prop) [DecidablePred p] : Decidable (∀ a, v = .ref a → p a) :=
  match v with
  | .ref a => decidable_of_iff (p a) (by simp)
  | .int _ | .float _ | .datum _ | .code _ => .isTrue (by simp)

instance (v : Value) : Decidable (h.Takes outside v) := inferInstanceAs (Decidable (_ ∧ _))

instance (o : Object) : Decidable o.Framed :=
  decidable_of_iff (o.size < 0x100000000 ∧ (o.drop.getD []).Nodup ∧
      ∀ k ∈ o.drop.getD [], Layout.headerSize ≤ k ∧ k < o.size)
    ⟨fun hf => ⟨hf.1, hf.2.1, hf.2.2⟩, fun hf => ⟨hf.size, hf.nodup, hf.within⟩⟩

instance (a : Address) (offset : Nat) : Decidable (∃ o, h.HasField a offset o) :=
  match hcontent : h.contentAt a with
  | some (.object o) => decidable_of_iff (a ∈ h.live ∧ offset ∈ o.drop.getD [])
      ⟨fun ⟨hlive, hoffset⟩ => ⟨o, hlive, hcontent, hoffset⟩, fun ⟨o', hfield⟩ => by
        obtain rfl : o = o' := by simpa [hcontent] using hfield.object
        exact ⟨hfield.live, hfield.offset⟩⟩
  | some (.text _) | none => .isFalse fun ⟨_, hfield⟩ => by simpa [hcontent] using hfield.object

/-- Computes whether an operation is allowed; an object is taken to be reachable only if it has a
reference from outside. -/
def Operation.check (h : Heap) (outside : Address → Nat) : Operation → Bool
  | newObject size vtable drop =>
    decide (Object.Framed { size := max size Layout.headerSize, vtable, drop })
  | newText _ => true
  | retain v => decide (h.Takes outside v)
  | release v => decide (v.IsReference ∧ ∀ a, v = .ref a → 0 < outside a)
  | store a offset v => decide ((∃ o, h.HasField a offset o) ∧ 0 < outside a ∧ h.Takes outside v)
  | exchange a offset v => decide ((∃ o, h.HasField a offset o) ∧ h.Takes outside v)

def checkAll (h : Heap) (outside : Address → Nat) : List Operation → Bool
  | [] => true
  | o :: os => o.check h outside && (o.run h).toOption.all fun (g, _) =>
    checkAll g (o.after outside) os

theorem Operation.allowed_of_check (ho : o.check h outside = true) : o.Allowed h outside := by
  cases o with
  | newText s => trivial
  | store a offset v =>
    obtain ⟨hfield, houtside, htakes⟩ := of_decide_eq_true ho
    exact ⟨hfield, .outside houtside, htakes⟩
  | newObject | retain | release | exchange =>
    have hallowed := of_decide_eq_true ho
    exact hallowed

theorem allAllowed_of_checkAll (hos : h.checkAll outside os = true) : h.AllAllowed outside os := by
  induction os generalizing h outside with
  | nil => trivial
  | cons o os ih =>
    obtain ⟨ho, hrest⟩ := Bool.and_eq_true_iff.mp hos
    refine ⟨Operation.allowed_of_check ho, fun g gs hrun => ih ?_⟩
    rwa [hrun] at hrest

/-! ### What operations keep -/

/-- What a new holder changes: nothing but counts. -/
structure Retains (h : Heap) (outside : Address → Nat) (v : Value) (g : Heap) : Prop where
  counted : g.Counted fun a => outside a + v.points a
  passes : Passes [h, g] h g fun _ => 0
  contents : g.contentAt = h.contentAt
  live : g.live = h.live
  fresh : ∀ a, h.count a = 0 → g.count a = 0 ∨ 0 < v.points a

theorem retain_of_takes (hc : h.Counted outside) {v : Value} (hv : h.Takes outside v) :
    ∃ g, h.retain v = .ok g ∧ h.Retains outside v g := by
  obtain ⟨rfl | ⟨a, rfl⟩, htakes⟩ := hv
  · exact ⟨h, rfl, hc, passes_pair id rfl (dies_of_count rfl), rfl, rfl, fun _ => .inl⟩
  · obtain ⟨hlive, hfew⟩ := htakes a rfl
    obtain ⟨g, hretain, hrecounts, hcounters⟩ := retain_of_live hlive (hc.count a hlive ▸ hfew)
    refine ⟨g, hretain, hc.retain hlive hfew hrecounts, ?_, hrecounts.contents, hrecounts.live,
      fun b hb => ?_⟩
    · exact passes_pair (fun hb => hb.retain hlive hrecounts hcounters) hrecounts.freed fun b => by
        simp [hrecounts.dies]
    · rw [hrecounts.count]
      split
      · next heq => exact .inr (by simp [heq, Value.points])
      · exact .inl hb

theorem Retains.reachable {v : Value} (hr : h.Retains outside v g) (ha : h.Reachable outside a) :
    g.Reachable (fun a => outside a + v.points a) a := by
  induction ha with
  | fresh ha hzero =>
    rcases hr.fresh _ hzero with hzero | hpos
    · exact .fresh (hr.live ▸ ha) hzero
    · exact .outside (Nat.lt_of_lt_of_le hpos (Nat.le_add_left _ _))
  | outside ha => exact .outside (Nat.lt_of_lt_of_le ha (Nat.le_add_right _ _))
  | field _ hlive hfield ih =>
    exact .field ih (hr.live ▸ hlive) (references_of_contents hr.contents ▸ hfield)

theorem HasField.of_contents {offset : Nat} {o : Object} (hfield : h.HasField a offset o)
    (hcontents : h'.contentAt = h.contentAt) (hlive : a ∈ h'.live) : h'.HasField a offset o :=
  ⟨hlive, hcontents ▸ hfield.object, hfield.offset⟩

theorem passes_stores {content : Content} (hstores : h.Stores a content h') :
    Passes [h, h'] h h' fun _ => 0 := by
  refine passes_pair (fun hb => ⟨?_, ?_⟩) hstores.freed (dies_of_count hstores.count)
  · rw [hstores.counters, hstores.live]
    exact hb.allocs
  · rw [hstores.counters, hstores.live, hstores.count]
    exact hb.retains

section

variable {g g' : Heap} {a : Address} {offset : Nat} {v old : Value}

theorem bind_ok {α β : Type} {x : Except Fault α} {y : α} (hx : x = .ok y)
    (f : α → Except Fault β) :
    x >>= f = f y := by
  rw [hx]
  rfl

theorem Operation.run_store (hretain : h.retain v = .ok g)
    (hload : g.load .i64 (.ref a) offset = .ok old)
    (hrelease : g.release old = .ok g') (hstore : g'.store (.ref a) offset v = .ok h') :
    (store a offset v).run h = .ok (h', [h, g] ++ g.course old ++ [g', h']) := by
  rw [run, bind_ok hretain, bind_ok hload, bind_ok hrelease, bind_ok hstore]
  rfl

theorem Operation.run_exchange (hretain : h.retain v = .ok g)
    (hload : g.load .i64 (.ref a) offset = .ok old)
    (hstore : g.store (.ref a) offset v = .ok g') (hrelease : g'.release old = .ok h') :
    (exchange a offset v).run h = .ok (h', [h, g] ++ [g, g'] ++ g'.course old) := by
  rw [run, bind_ok hretain, bind_ok hload, bind_ok hstore, bind_ok hrelease]
  rfl

end

/-- An allowed operation is carried out, and counts are right after it. -/
theorem Operation.run_of_allowed (hc : h.Counted outside) (ho : o.Allowed h outside) :
    ∃ h' gs, o.run h = .ok (h', gs) ∧ h'.Counted (o.after outside) ∧ Passes gs h h' fun _ => 0 := by
  cases o with
  | newObject size vtable drop =>
    have hallocates :=
      allocates_alloc h (.object { size := max size Layout.headerSize, vtable, drop })
    refine ⟨_, _, rfl, hc.alloc hallocates ?_ ?_, ?_⟩
    · intro v hv
      obtain ⟨k, -, rfl⟩ := List.mem_map.mp hv
      exact Std.TreeMap.getD_emptyc
    · rintro o ⟨⟩
      exact ho
    · exact passes_pair (fun hb => hb.alloc hallocates) hallocates.freed
        (dies_of_count hallocates.count)
  | newText s =>
    have hallocates := allocates_alloc h (.text s)
    refine ⟨_, _, rfl, hc.alloc hallocates (by simp [dropped]) (by simp), ?_⟩
    exact passes_pair (fun hb => hb.alloc hallocates) hallocates.freed
      (dies_of_count hallocates.count)
  | retain v =>
    obtain ⟨g, hretain, hretains⟩ := retain_of_takes hc ho
    exact ⟨g, [h, g], by rw [run, hretain]; rfl, hretains.counted, hretains.passes⟩
  | release v =>
    have houtside (a : Address) : v.points a ≤ outside a := by
      rw [Value.points]
      split
      · next heq => exact ho.2 a heq
      · exact Nat.zero_le _
    obtain ⟨h', hrelease, hu, hcontents, hpasses⟩ := (hc.underway ho.1 houtside).release hc.framed
    rw [← references_of_contents hcontents] at hu
    exact ⟨h', h.course v, by rw [run, hrelease]; rfl, hu.counted (hcontents ▸ hc.framed), hpasses⟩
  | store a offset v =>
    obtain ⟨⟨o, hfield⟩, hreach, htakes⟩ := ho
    obtain ⟨g, hretain, hretains⟩ := retain_of_takes hc htakes
    have hg := hretains.counted
    have hfield : g.HasField a offset o :=
      hfield.of_contents hretains.contents (hretains.live ▸ hfield.live)
    obtain ⟨g', hrelease, hu, hcontents, hpasses⟩ :=
      (hg.overwrite hfield (hretains.reachable hreach)).release hg.framed
    have hlive : a ∈ g'.live := by
      have hkept : g.Kept _ (g.fieldsBut a offset o) a :=
        (hretains.reachable hreach).kept.elim id id
      exact (mem_standing.mp (hu.keeps a hkept).1).1
    have hfield' := hfield.of_contents hcontents hlive
    obtain ⟨h', hstore, hstores⟩ := store_of_hasField hfield' v
    have hbut : g.fieldsBut a offset o = g'.fieldsBut a offset o := by
      funext b
      rw [fieldsBut, fieldsBut, references_of_contents hcontents]
    rw [hbut] at hu
    refine ⟨h', [h, g] ++ g.course _ ++ [g', h'],
      run_store hretain (load_of_hasField hfield (hg.framed hfield.object)) hrelease hstore,
      hu.fill hfield' hstores (hcontents ▸ hg.framed) htakes.1, ?_⟩
    exact (hretains.passes.append hpasses).append (passes_stores hstores)
  | exchange a offset v =>
    obtain ⟨⟨o, hfield⟩, htakes⟩ := ho
    obtain ⟨g, hretain, hretains⟩ := retain_of_takes hc htakes
    have hg := hretains.counted
    have hfield : g.HasField a offset o :=
      hfield.of_contents hretains.contents (hretains.live ▸ hfield.live)
    obtain ⟨g', hstore, hstores⟩ := store_of_hasField hfield v
    obtain ⟨h', hrelease, hu, hcontents, hpasses⟩ := (hg.displace hfield hstores htakes.1).release
      (hstores.framed hfield hg.framed)
    rw [← references_of_contents hcontents] at hu
    refine ⟨h', [h, g] ++ [g, g'] ++ g'.course _,
      run_exchange hretain (load_of_hasField hfield (hg.framed hfield.object)) hstore hrelease,
      hu.counted (hcontents ▸ hstores.framed hfield hg.framed), ?_⟩
    exact (hretains.passes.append (passes_stores hstores)).append hpasses

theorem run_cons {gs gs' : List Heap} (ho : o.run h = .ok (g, gs))
    (hos : g.runAll os = .ok (h', gs')) :
    h.runAll (o :: os) = .ok (h', gs ++ gs') := by
  simp only [runAll, ho, hos, bind, Except.bind, pure, Except.pure]

theorem passes_runAll (hc : h.Counted outside) (hos : h.AllAllowed outside os) :
    ∃ h' gs, h.runAll os = .ok (h', gs) ∧ h'.Counted (outsideAll outside os) ∧
    Passes gs h h' fun _ => 0 := by
  induction os generalizing h outside with
  | nil => exact ⟨h, [h], rfl, hc, passes_refl h⟩
  | cons o os ih =>
    obtain ⟨ho, hrest⟩ := hos
    obtain ⟨g, gs, hrun, hg, hpasses⟩ := o.run_of_allowed hc ho
    obtain ⟨h', gs', hruns, hcounted, hpasses'⟩ := ih hg (hrest g gs hrun)
    exact ⟨h', gs ++ gs', run_cons hrun hruns, hcounted, hpasses.append hpasses'⟩

/-- Any allowed operations are carried out: no release goes on for ever and nothing freed is
touched.  After them counts are right again, every cell was freed as often as its count went from
one to zero, which is once at most, and the counters were right at all times. -/
theorem counted_runAll (hc : h.Counted outside) {os : List Operation}
    (hos : h.AllAllowed outside os) :
    ∃ h' gs, h.runAll os = .ok (h', gs) ∧ h'.Counted (outsideAll outside os) ∧
      (∀ a, tally (vanishes a) gs = tally (dies a) gs ∧
        (h.isFreed a).toNat + tally (vanishes a) gs = (h'.isFreed a).toNat) ∧
      (h.Booked → ∀ g ∈ gs, g.Booked) := by
  obtain ⟨h', gs, hrun, hcounted, hpasses⟩ := passes_runAll hc hos
  refine ⟨h', gs, hrun, hcounted, fun a => ⟨?_, hpasses.freed a⟩, hpasses.booked⟩
  rw [← hpasses.dying a, Nat.zero_add]

/-- Two objects are tied into a ring, and the ring is broken when only one of them is held from
outside. -/
def ring : List Operation :=
  [.newObject 40 .null (some [32]), .newObject 40 .null (some [32]), .retain (.ref 0),
    .retain (.ref 1),
    .store 0 32 (.ref 1), .exchange 1 32 (.ref 0), .release (.ref 1), .store 0 32 .null,
    .release (.ref 0)]

theorem counted_empty : Counted {} fun _ => 0 := by
  have hholders (a : Address) : holders {} a = 0 := rfl
  exact ⟨by simp [live], by simp [hholders], by simp [hholders, countModulus], by simp [live],
    by simp [contentAt]⟩

theorem counted_runAll_ring : ∃ h' gs, runAll {} ring = .ok (h', gs) ∧
    h'.Counted (outsideAll (fun _ => 0) ring) ∧
      (∀ a, tally (vanishes a) gs = tally (dies a) gs ∧
        (isFreed {} a).toNat + tally (vanishes a) gs = (h'.isFreed a).toNat) ∧
      (Booked {} → ∀ g ∈ gs, g.Booked) :=
  counted_runAll counted_empty (allAllowed_of_checkAll (by decide +kernel))

example : (runAll {} ring).toOption.map
    (fun (h, _) => (h.isFreed 0, h.isFreed 1, h.counters.frees)) =
    some (true, true, 2) := by decide +kernel

def faultOf {α : Type} : Except Fault α → Option Fault
  | .ok _ => none
  | .error e => some e

theorem eq_error_of_faultOf {α : Type} {x : Except Fault α} {e : Fault} (h : faultOf x = some e) :
    x = .error e := by
  cases x with
  | ok _ => cases h
  | error _ =>
    cases h
    rfl

/-- An object that no one holds any more, except for its own field. -/
def selfHeld : List Operation :=
  [.newObject 40 .null (some [32]), .retain (.ref 0), .store 0 32 (.ref 0), .release (.ref 0)]

/-- Counts are right and the field is there, but the release of the old reference frees the object,
and the write finds it freed. -/
theorem store_touches_freed :
    ∃ h gs, runAll {} selfHeld = .ok (h, gs) ∧ h.Counted (outsideAll (fun _ => 0) selfHeld) ∧
      (∃ o, h.HasField 0 32 o) ∧ h.Takes (outsideAll (fun _ => 0) selfHeld) .null ∧
      (Operation.store 0 32 .null).run h = .error (.useAfterFree 0) := by
  have hallowed : AllAllowed {} (fun _ => 0) selfHeld :=
    allAllowed_of_checkAll (by decide +kernel)
  obtain ⟨h, gs, hrun, hcounted, -⟩ := passes_runAll counted_empty hallowed
  have hstore : ((runAll {} selfHeld).toOption.all fun (h, _) =>
      decide (∃ o, h.HasField 0 32 o) &&
        decide (faultOf ((Operation.store 0 32 .null).run h) = some (.useAfterFree 0))) = true := by
    decide +kernel
  rw [hrun] at hstore
  obtain ⟨hfield, hfault⟩ := Bool.and_eq_true_iff.mp hstore
  exact ⟨h, gs, hrun, hcounted, of_decide_eq_true hfield, ⟨.inl rfl, by simp [Value.null]⟩,
    eq_error_of_faultOf (of_decide_eq_true hfault)⟩

end Heap

end ObjectLang.Memory
