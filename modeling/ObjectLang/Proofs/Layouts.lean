import Mathlib.Data.List.Forall2
import Mathlib.Order.Interval.Finset.Nat
import ObjectLang.Proofs.ClassInvariant
import ObjectLang.Proofs.Placement

/-! # Layouts along inheritance

Fields are placed one behind the other, so a layout goes on where the layout of the ancestor stops,
and no two fields share a byte.
-/

namespace ObjectLang.Code

open Checked

theorem dvd_alignUp (n align : Nat) : align ∣ alignUp n align := Nat.dvd_mul_left _ _

/-- The bytes of an object that the field takes. -/
def FieldLayout.range (f : FieldLayout) : Finset Nat := .Ico f.offset (f.offset + f.type.bytes)

/-- The layout is one for the field. -/
structure FieldLayout.Suits (ptr : MachineType) (field : FieldInst) (f : FieldLayout) : Prop where
  type : valueType ptr field.ty = .ok f.type
  isReference : f.isReference = field.ty.isReference

namespace Layout

variable {ptr : MachineType} {cursor stop : Nat} {fs : List FieldInst} {ls : List FieldLayout}

/-! ### Placing -/

/-- Each field starts behind the one before it. -/
structure Sequential (cursor stop : Nat) (ls : List FieldLayout) : Prop where
  start : ∀ f ∈ ls, cursor ≤ f.offset
  finish : ∀ f ∈ ls, f.offset + f.type.bytes ≤ stop
  le : cursor ≤ stop
  behind : ls.Pairwise fun f g => f.offset + f.type.bytes ≤ g.offset
  aligned : ∀ f ∈ ls, f.type.bytes ∣ f.offset

theorem Sequential.cons {f : FieldLayout} (h : Sequential (f.offset + f.type.bytes) stop ls)
    (hle : cursor ≤ f.offset) (hdvd : f.type.bytes ∣ f.offset) :
    Sequential cursor stop (f :: ls) where
  start := by
    refine List.forall_mem_cons.mpr ⟨hle, fun g hg => ?_⟩
    exact hle.trans ((Nat.le_add_right _ _).trans (h.start g hg))
  finish := List.forall_mem_cons.mpr ⟨h.le, h.finish⟩
  le := hle.trans ((Nat.le_add_right _ _).trans h.le)
  behind := .cons h.start h.behind
  aligned := List.forall_mem_cons.mpr ⟨hdvd, h.aligned⟩

theorem sequential_place (h : place ptr cursor fs = .ok (ls, stop)) :
    Sequential cursor stop ls := by
  induction fs generalizing cursor ls with
  | nil =>
    cases h
    exact ⟨by simp, by simp, Nat.le_refl _, .nil, by simp⟩
  | cons f fs ih =>
    obtain ⟨type, rest, -, hrest, rfl⟩ := place_cons h
    exact (ih hrest).cons (le_alignUp cursor type.bytes_pos) (dvd_alignUp cursor type.bytes)

theorem suits_place (h : place ptr cursor fs = .ok (ls, stop)) :
    List.Forall₂ (FieldLayout.Suits ptr) fs ls := by
  induction fs generalizing cursor ls with
  | nil =>
    cases h
    exact .nil
  | cons f fs ih =>
    obtain ⟨type, rest, htype, hrest, rfl⟩ := place_cons h
    exact .cons ⟨htype, rfl⟩ (ih hrest)

/-! ### Layouts of classes -/

/-- What makes a layout one that objects can have. -/
structure Sound (l : Layout) : Prop where
  header : ∀ f ∈ l.fields, headerSize ≤ f.offset
  aligned : ∀ f ∈ l.fields, f.type.bytes ∣ f.offset
  inside : ∀ f ∈ l.fields, f.range ⊆ .range l.size
  disjoint : ∀ (i j : Nat) (f g : FieldLayout), i ≠ j → l.fields[i]? = some f →
    l.fields[j]? = some g → Disjoint f.range g.range
  size : 8 ∣ l.size
  /-- A field is released with the object once if it holds references, else not at all. -/
  released : ∀ f ∈ l.fields, l.referenceOffsets.count f.offset = if f.isReference then 1 else 0
  /-- Nothing else is released with the object. -/
  references : ∀ o ∈ l.referenceOffsets, ∃ f ∈ l.fields, f.isReference = true ∧ f.offset = o

theorem Sequential.disjoint (h : Sequential cursor stop ls) {i j : Nat} {f g : FieldLayout}
    (hij : i ≠ j) (hi : ls[i]? = some f) (hj : ls[j]? = some g) : Disjoint f.range g.range := by
  have hlt {i j : Nat} {f g : FieldLayout} (hij : i < j) (hi : ls[i]? = some f)
      (hj : ls[j]? = some g) : Disjoint f.range g.range := by
    obtain ⟨hilt, rfl⟩ := List.getElem?_eq_some_iff.mp hi
    obtain ⟨hjlt, rfl⟩ := List.getElem?_eq_some_iff.mp hj
    have hle := List.pairwise_iff_getElem.mp h.behind i j hilt hjlt hij
    exact Finset.disjoint_left.mpr fun b hb hb' => by
      rw [FieldLayout.range, Finset.mem_Ico] at hb hb'
      omega
  rcases Nat.lt_or_gt_of_ne hij with hij | hij
  · exact hlt hij hi hj
  · exact (hlt hij hj hi).symm

/-- No two fields start at one place. -/
theorem Sequential.nodup (h : Sequential cursor stop ls) : (ls.map (·.offset)).Nodup := by
  refine List.pairwise_map.mpr (h.behind.imp fun {f g} hle => ?_)
  have := f.type.bytes_pos
  omega

theorem count_references (h : (ls.map (·.offset)).Nodup) {f : FieldLayout} (hf : f ∈ ls) :
    ((ls.filter (·.isReference)).map (·.offset)).count f.offset =
    if f.isReference then 1 else 0 := by
  have hnodup : ((ls.filter (·.isReference)).map (·.offset)).Nodup :=
    h.sublist (List.filter_sublist.map _)
  split
  · next href => exact List.count_eq_one_of_mem hnodup (List.mem_map_of_mem (by simp [hf, href]))
  · next href =>
    refine List.count_eq_zero_of_not_mem fun hmem => href ?_
    obtain ⟨g, hg, hoffset⟩ := List.mem_map.mp hmem
    rw [List.mem_filter] at hg
    rw [← List.inj_on_of_nodup_map h hg.1 hf hoffset]
    exact hg.2

variable {c : ClassInst} {l : Layout}

theorem ofClass_ok (h : ofClass ptr c = .ok l) :
    ∃ stop, place ptr headerSize c.fields = .ok (l.fields, stop) ∧ l.size = alignUp stop 8 := by
  unfold ofClass at h
  split at h
  · cases h
  · obtain ⟨⟨fields, stop⟩, hplace, h⟩ := except_bind_ok h
    cases h
    exact ⟨stop, hplace, rfl⟩

theorem sound_ofClass (h : ofClass ptr c = .ok l) : l.Sound := by
  obtain ⟨stop, hplace, hsize⟩ := ofClass_ok h
  have hseq := sequential_place hplace
  refine ⟨hseq.start, hseq.aligned, fun f hf b hb => ?_, fun i j f g => hseq.disjoint,
    hsize ▸ dvd_alignUp stop 8, fun f hf => count_references hseq.nodup hf, fun o ho => ?_⟩
  · have hstop := hseq.finish f hf
    have hle : stop ≤ alignUp stop 8 := le_alignUp stop (by decide)
    rw [FieldLayout.range, Finset.mem_Ico] at hb
    rw [Finset.mem_range, hsize]
    omega
  · obtain ⟨f, hf, rfl⟩ := List.mem_map.mp ho
    obtain ⟨hf, href⟩ := List.mem_filter.mp hf
    exact ⟨f, hf, href, rfl⟩

theorem suits_ofClass (h : ofClass ptr c = .ok l) :
    List.Forall₂ (FieldLayout.Suits ptr) c.fields l.fields := by
  obtain ⟨stop, hplace⟩ := place_of_ofClass h
  exact suits_place hplace

/-- A class that has the fields of another first has its layout first. -/
theorem prefix_ofClass {d : ClassInst} {k : Layout} (hc : ofClass ptr c = .ok k)
    (hd : ofClass ptr d = .ok l) (hfields : c.fields <+: d.fields) : k.fields <+: l.fields := by
  obtain ⟨stop, hplace⟩ := place_of_ofClass hc
  obtain ⟨stop', hplace'⟩ := place_of_ofClass hd
  exact place_prefix hplace hplace' (hfields.map _)

theorem fieldAt_of_prefix {k : Layout} (h : k.fields <+: l.fields) {index : Nat} {f : FieldLayout}
    (hf : k.fieldAt index = .ok f) : l.fieldAt index = .ok f := by
  rw [fieldAt] at hf ⊢
  cases hk : k.fields[index]? with
  | none =>
    rw [hk] at hf
    cases hf
  | some g =>
    rw [hk] at hf
    cases hf
    obtain ⟨back, hback⟩ := h
    rw [← hback, List.getElem?_append_left (List.getElem?_eq_some_iff.mp hk).1, hk]

end Layout

theorem exists_mapM_ok {α β ε : Type} {f : α → Except ε β} {as : List α}
    (h : ∀ a ∈ as, ∃ b, f a = .ok b) : ∃ bs, as.mapM f = .ok bs := by
  induction as with
  | nil => exact ⟨[], rfl⟩
  | cons a as ih =>
    rw [List.forall_mem_cons] at h
    obtain ⟨b, hb⟩ := h.1
    obtain ⟨bs, hbs⟩ := ih h.2
    refine ⟨b :: bs, ?_⟩
    rw [List.mapM_cons, hb]
    change (as.mapM f >>= _) = _
    rw [hbs]
    rfl

/-- The layouts are those of the classes, in their order. -/
theorem layouts_getElem? {ptr : MachineType} {p : Program} {ls : List Layout}
    (h : layouts ptr p = .ok ls) {c : ClassId} (hc : c < p.classes.size) :
    ∃ l, ls[c]? = some l ∧ Layout.ofClass ptr (p.classAt c) = .ok l := by
  have hall := forall₂_of_mapM_ok h
  have hlength : p.classes.size = ls.length := by simpa using hall.length_eq
  have hget := hall.get (i := c) (by simpa using hc) (hlength ▸ hc)
  refine ⟨_, List.getElem?_eq_getElem (hlength ▸ hc), ?_⟩
  simpa [Program.classAt, hc] using hget

theorem lt_size_of_layouts {ptr : MachineType} {p : Program} {ls : List Layout}
    (h : layouts ptr p = .ok ls) {c : ClassId} {l : Layout} (hc : ls[c]? = some l) :
    c < p.classes.size := by
  have hlength : p.classes.size = ls.length := by simpa using (forall₂_of_mapM_ok h).length_eq
  rw [hlength]
  exact (List.getElem?_eq_some_iff.mp hc).1

end ObjectLang.Code

namespace ObjectLang.Checked.Program

/-- A class has the fields of all its ancestors first. -/
theorem ClassTable.fields_prefix {p : Program} (hp : p.ClassTable) {c d : ClassId}
    (hd : d < p.classes.size) (hc : c ∈ p.chain d) :
    (p.classAt c).fields <+: (p.classAt d).fields := by
  induction d using ancestor_induction hp.placed.ranked with
  | _ d ih =>
    rcases mem_chain_cases hp.placed.ranked hc with rfl | ⟨a, ha, hc⟩
    · exact List.prefix_rfl
    · exact (ih a ha (hp.placed.built ha).1 hc).trans ((hp.laid hd).inherited ha)

end ObjectLang.Checked.Program

namespace ObjectLang

open Source Syntax Scope Checked Check Code

/-- After any requests: if all classes have layouts, then the layout of a class is sound, it is one
for the fields of the class, and the layouts of its ancestors are what it starts with, so that a
field is found in an object of a subclass where the code for the ancestor looks for it. -/
theorem layouts_of_reachable (name : String) (dependencies : List String) (files : List (File Hint))
    {s : State} (h : Reachable (Project.ofWritten name dependencies files).resolve.sources s)
    {ptr : MachineType} {ls : List Layout} (hls : layouts ptr s.program = .ok ls) {d : ClassId}
    {l : Layout} (hd : ls[d]? = some l) :
    l.Sound ∧ List.Forall₂ (FieldLayout.Suits ptr) (s.program.classAt d).fields l.fields ∧
      ∀ a ∈ s.program.chain d, ∃ k, ls[a]? = some k ∧ k.fields <+: l.fields ∧
        ∀ index f, k.fieldAt index = .ok f → l.fieldAt index = .ok f := by
  have hs := h.orderly (regular_sources name dependencies files)
  have hlt := lt_size_of_layouts hls hd
  obtain ⟨l', hl', hof⟩ := layouts_getElem? hls hlt
  obtain rfl : l = l' := Option.some.inj (hd.symm.trans hl')
  refine ⟨Layout.sound_ofClass hof, Layout.suits_ofClass hof, fun a ha => ?_⟩
  obtain ⟨k, hk, hofk⟩ := layouts_getElem? hls (hs.table.placed.mem_chain_lt hlt ha)
  have hprefix := Layout.prefix_ofClass hofk hof (hs.table.fields_prefix hlt ha)
  exact ⟨k, hk, hprefix, fun index f => Layout.fieldAt_of_prefix hprefix⟩

/-- A duck with fields of three sizes below an animal. -/
def ducks : List (File Hint) := [{
  id := 0
  decls := [
    .cls {
      mark := none, name := "Duck", ancestor := some (.named none ["Animal"] [])
      fields := [{ mark := none, name := "flies", type := .primitive none .bool },
        { mark := none, name := "wings", type := .primitive none .i64 },
        { mark := none, name := "mate", type := .named none ["Duck"] [] }] },
    .cls {
      mark := none, name := "Animal"
      fields := [{ mark := none, name := "legs", type := .primitive none .i32 },
        { mark := none, name := "name", type := .primitive none .string }] }] }]

theorem layouts_ducks :
    ∃ s ls l, Reachable (Project.ofWritten "app" [] ducks).resolve.sources s ∧
      layouts .i64 s.program = .ok ls ∧ ls[0]? = some l ∧ 1 ∈ s.program.chain 0 ∧
      l = ⟨72, [⟨32, .i32, false⟩, ⟨40, .i64, true⟩, ⟨48, .i8, false⟩, ⟨56, .i64, false⟩,
        ⟨64, .i64, true⟩]⟩ ∧ l.referenceOffsets = [40, 64] ∧ l.Sound ∧
      ∃ k, ls[1]? = some k ∧ k.fields <+: l.fields := by
  have hrun : ((checkAll (Project.ofWritten "app" [] ducks).resolve.sources 50 {}).any fun r =>
      match layouts .i64 r.2.program with
      | .ok ls => decide (ls[0]? = some ⟨72, [⟨32, .i32, false⟩, ⟨40, .i64, true⟩, ⟨48, .i8, false⟩,
          ⟨56, .i64, false⟩, ⟨64, .i64, true⟩]⟩ ∧ 1 ∈ r.2.program.chain 0)
      | .error _ => false) = true := by decide +kernel
  cases h : checkAll (Project.ofWritten "app" [] ducks).resolve.sources 50 {} with
  | none =>
    rw [h] at hrun
    cases hrun
  | some r =>
    rw [h, Option.any_some] at hrun
    cases hls : layouts .i64 r.2.program with
    | error e =>
      rw [hls] at hrun
      cases hrun
    | ok ls =>
      rw [hls] at hrun
      obtain ⟨hl, hchain⟩ := of_decide_eq_true hrun
      have hreach := Reachable.checkAll .start h
      obtain ⟨hsound, -, hprefix⟩ := layouts_of_reachable "app" [] ducks hreach hls hl
      obtain ⟨k, hk, hfields, -⟩ := hprefix 1 hchain
      exact ⟨r.2, ls, _, hreach, hls, hl, hchain, rfl, rfl, hsound, k, hk, hfields⟩

end ObjectLang
