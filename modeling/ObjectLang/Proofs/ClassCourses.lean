import ObjectLang.Proofs.Registers

/-! # Classes come to an end

A request for a class leads to others: for the types of its fields and signatures, for its ancestor,
and for the classes that wait for it.  Each of them weighs less than what led to it, so all of them
are answered if there is enough fuel, and the records are in order in the end.
-/

namespace ObjectLang.Check

open Filter
open Source Syntax Scope Names Diagnostic Checked

variable {src : Sources} {n b : Nat} {s t u : State} {μ : Load}

/-! ### The course -/

/-- The course on which instances, ancestors and the load are watched, and in addition what `J`
says. -/
def trackCourse (hproper : src.Proper n) (extra : Nat) (J : State → Prop)
    (hJ : ∀ {s t}, Recorded src s → Recorded src t → t.depth = s.depth →
      Tracks src n (2 * roomAt s.depth + extra) none s t → J s → J t) : Course src where
  holds s := Recorded src s ∧ J s
  goes s t := t.depth = s.depth ∧ Tracks src n (2 * roomAt s.depth + extra) none s t
  strict := True
  live := True
  bound := n
  trans h h' := ⟨h'.1.trans h.1, h.2.trans (h.1 ▸ h'.2)⟩
  level h := h.1
  still hs hwork hrecords := by
    obtain ⟨ht, hst⟩ := hs.1.still (n := n) hwork (hrecords trivial)
    exact ⟨⟨ht, hJ hs.1 ht hwork.depth hst hs.2⟩, hwork.depth, hst⟩
  retains _ _ _ h := h.2.follows.retains
  proper _ := hproper
  generics _ _ hs := hs.1.generics
  opens {s key} inst hs hkey := by
    obtain ⟨hnone, hkey, hbelongs⟩ := hkey trivial
    have hget (key' : FunctionKey) :
        ((s.program.functionCache.begin key s.program.functions.size).get? key').map (·.id) =
          if key = key' then some s.program.functions.size else s.program.functionFor key' := by
      rw [InstanceCache.get?_begin]
      split <;> rfl
    obtain ⟨ht, hst⟩ := hs.1.withFunction (n := n) (b := 2 * roomAt s.depth + extra) inst
      (s.program.functionCache.begin key s.program.functions.size)
      (fun {key' f} h => by
        rw [hget, if_neg fun heq => ?_]
        · exact h
        · cases hnone.symm.trans (heq ▸ h))
      (fun {key' f} h => by
        rw [hget] at h
        split at h
        · next heq => exact .inr ⟨(Option.some.inj h).symm, heq ▸ hkey⟩
        · exact .inl h)
      fun h => by
        rw [hget, if_pos (Option.some.inj (hkey.symm.trans h))]
        exact ⟨rfl, Option.some.inj (hkey.symm.trans h) ▸ hbelongs⟩
    exact ⟨⟨ht, hJ hs.1 ht rfl hst hs.2⟩, rfl, hst⟩
  pushes {s} inst hs hkey := by
    obtain ⟨ht, hst⟩ := hs.1.withFunction (n := n) (b := 2 * roomAt s.depth + extra) inst
      s.program.functionCache id .inl fun h => by cases hkey.symm.trans h
    exact ⟨⟨ht, hJ hs.1 ht rfl hst hs.2⟩, rfl, hst⟩

/-- Requests for classes and completions of classes succeed where the load together with their own
weight is as `P` says. -/
structure Settles (src : Sources) (n : Nat) (P : Load → Prop) : Prop where
  requests : ∀ {s struct} typeArgs span, Recorded src s →
    P ((s.load src n).plus {2 * roomAt s.depth}) → struct < n →
    Leads (fun i => requestClass src i struct typeArgs span) s fun r t =>
      Recorded src t ∧ t.depth = s.depth ∧ Tracks src n (2 * roomAt s.depth) none s t ∧
        Answered src t struct typeArgs span r
  completions : ∀ {s ancestor fuel} pending, Tendsto fuel atTop atTop → Recorded src s →
    P ((s.load src n).plus {pending.weight}) → pending.cls < s.program.classes.size →
    pending.cls ∉ s.parked → Inherits src s pending.cls ancestor →
    Leads (fun i => completeClass src (requestClass src i) (fuel i) pending ancestor) s fun _ t =>
      Recorded src t ∧ t.depth = s.depth ∧ Tracks src n pending.weight (some pending.cls) s t

section

variable {hproper : src.Proper n} {extra : Nat} {J : State → Prop}
  {hJ : ∀ {s t}, Recorded src s → Recorded src t → t.depth = s.depth →
    Tracks src n (2 * roomAt s.depth + extra) none s t → J s → J t}

theorem trackCourse_queues {grow : Nat} (hgrow : grow = 0 → 0 < extra) :
    (trackCourse hproper extra J hJ).Queues grow := by
  intro s task hs htask hroom
  have hweight : task.weight < 2 * roomAt s.depth + extra := by
    rw [BodyTask.weight, htask, roomAt, roomAt]
    rcases Nat.eq_zero_or_pos grow with h | h
    · have := hgrow h
      omega
    · have := hroom h
      omega
  obtain ⟨ht, hst⟩ := hs.1.withBody (n := n) hweight
  exact ⟨⟨ht, hJ hs.1 ht rfl hst hs.2⟩, rfl, hst⟩

theorem trackCourse_serves {P : Load → Prop} (h : Settles src n P)
    (hP : ∀ {s}, J s → P ((s.load src n).plus {2 * roomAt s.depth})) :
    (trackCourse hproper extra J hJ).Serves (requestClass src) := by
  refine fun struct typeArgs span => .of_leads fun {s} hs hstruct => ?_
  refine (h.requests typeArgs span hs.1 (hP hs.2) (hstruct trivial)).imp ?_
  rintro r t ⟨ht, hdepth, hst, hr⟩
  have hst := hst.mono (Nat.le_add_right _ extra)
  exact ⟨⟨ht, hJ hs.1 ht hdepth hst hs.2⟩, ⟨hdepth, hst⟩, fun _ => hr⟩

end

/-! ### Stages of a class -/

/-- Whatever is added below the weight `w`, a further weight below `w'` stays below `μ`. -/
def Ahead (w w' : Nat) (μ x : Load) : Prop :=
  ∀ ⦃y v⦄, Spends w x y → v < w' → Lighter (y.plus {v}) μ

theorem Ahead.later {w w' : Nat} {x y : Load} (h : Ahead w w' μ x) (hxy : Spends w x y) :
    Ahead w w' μ y :=
  fun _ _ hy hv => h (hxy.trans hy) hv

/-- A class is on its way, at the depth of the request that made it. -/
structure Stage (src : Sources) (n : Nat) (cls : ClassId) (key : ClassKey)
    (ancestor : Option ClassId) (depth w : Nat) (μ : Load) (s : State) : Prop where
  depth_eq : s.depth = depth
  ahead : Ahead (2 * roomAt depth + 1) w μ (s.load src n)
  lt : cls < s.program.classes.size
  notMem : cls ∉ s.parked
  key_eq : (s.program.classAt cls).key = key
  ancestor_eq : (s.program.classAt cls).ancestor = ancestor

section

variable {cls : ClassId} {key : ClassKey} {ancestor : Option ClassId} {depth w : Nat}

theorem Stage.later (hs : Recorded src s) (ht : Recorded src t) (hdepth : t.depth = s.depth)
    (hst : Tracks src n (2 * roomAt s.depth + 1) none s t)
    (h : Stage src n cls key ancestor depth w μ s) : Stage src n cls key ancestor depth w μ t := by
  obtain ⟨hancestor, hparked⟩ := hst.follows.ancestor h.lt h.notMem nofun
  refine ⟨hdepth.trans h.depth_eq, h.ahead.later ?_, ?_, hparked, ?_, ?_⟩
  · exact h.depth_eq ▸ hst.spends
  · exact Nat.lt_of_lt_of_le h.lt hst.follows.classes
  · exact (hst.follows.key_eq hs ht h.lt).trans h.key_eq
  · exact hancestor.trans h.ancestor_eq

/-- The course of a class between two changes of its ancestor. -/
def stageCourse (hproper : src.Proper n) (cls : ClassId) (key : ClassKey)
    (ancestor : Option ClassId) (depth w : Nat) (μ : Load) : Course src :=
  trackCourse hproper 1 (Stage src n cls key ancestor depth w μ) Stage.later

theorem stageCourse_serves {hproper : src.Proper n} (h : Settles src n (Lighter · μ))
    (hw : 2 * roomAt depth < w) :
    (stageCourse hproper cls key ancestor depth w μ).Serves (requestClass src) :=
  trackCourse_serves h fun hs => hs.ahead (.refl _ _) (hs.depth_eq ▸ hw)

theorem stageCourse_queues {hproper : src.Proper n} :
    (stageCourse hproper cls key ancestor depth w μ).Queues 0 :=
  trackCourse_queues fun _ => Nat.one_pos

end

/-! ### Building and completing -/

section

variable (hproper : src.Proper n) (h : Settles src n (Lighter · μ))

include hproper h

variable {ancestor : Option ClassId} {struct : StructureId}

theorem leads_buildLayout {cls : ClassId} {key : ClassKey} {old : Option ClassId} {depth w : Nat}
    (hw : 2 * roomAt depth < w) (decl : Class Mark) (subst : Subst) (hs : Recorded src s)
    (hstage : Stage src n cls key old depth w μ s) (hancestor : Inherits src s cls ancestor) :
    Leads (fun i => buildLayout src (requestClass src i) cls decl subst ancestor) s fun _ t =>
      Recorded src t ∧ Stage src n cls key ancestor depth w μ t ∧
        Tracks src n (2 * roomAt depth + 1) (some cls) s t := by
  let k := stageCourse hproper cls key old depth w μ
  have hr : k.Serves (requestClass src) := stageCourse_serves h hw
  have hfields (inherited : List FieldInst) := safe_layoutFields hr cls subst inherited decl.fields
  simp only [buildLayout]
  refine .bind ((Works.still (k := k) (P := fun _ => True) (.takeChainId cls ancestor)).leads
    trivial ⟨hs, hstage⟩ trivial) fun {r s1} hs1 => ?_
  refine .bind ((Works.still (k := k) (P := fun _ => True) .getProgram).leads trivial hs1.1 trivial)
    fun {p s2} hs2 => ?_
  refine .bind ((hfields _).leads trivial hs2.1 trivial) fun {fields s3} hs3 => ?_
  obtain ⟨⟨hrecorded, hstage3⟩, hdepth, htracks⟩ :=
    And.intro hs3.1 (k.trans hs1.2.1 (k.trans hs2.2.1 hs3.2.1))
  rw [hstage.depth_eq] at htracks
  have hinherits := htracks.follows.inherits hs hrecorded hstage.lt hancestor
  have hlast (slotOwners : List FuncId) := hrecorded.rebuild (n := n) (b := 2 * roomAt depth + 1)
    hstage3.lt (f := fun c => { c with
      chainId := r.2, root := r.1, ancestor, fields, slotOwners }) rfl (.inl ⟨rfl, rfl⟩) rfl rfl
    hinherits
  refine .step rfl ⟨(hlast _).1, ⟨hstage3.depth_eq, hstage3.ahead.later (hlast _).2.spends, ?_,
    hstage3.notMem, ?_, ?_⟩, htracks.weaken.trans (hlast _).2⟩
  · exact Nat.lt_of_lt_of_le hstage3.lt (hlast _).2.follows.classes
  · exact ((hlast _).2.follows.key_eq hrecorded (hlast _).1 hstage3.lt).trans hstage3.key_eq
  · exact congrArg ClassInst.ancestor
      ((Program.classAt_updateClass s3.program cls hstage3.lt _).trans (if_pos rfl))

theorem leads_buildClass {pending : Pending} (hs : Recorded src s)
    (hμ : μ = (s.load src n).plus {pending.weight}) (hlt : pending.cls < s.program.classes.size)
    (hparked : pending.cls ∉ s.parked) (hancestor : Inherits src s pending.cls ancestor) :
    Leads (fun i => buildClass src (requestClass src i) pending ancestor) s fun _ t =>
      Recorded src t ∧ t.depth = s.depth ∧ Tracks src n pending.weight (some pending.cls) s t := by
  simp only [buildClass]
  refine .bind (Q := fun r t => s = r ∧ s = t) (.step rfl ⟨rfl, rfl⟩) ?_
  rintro _ _ ⟨rfl, rfl⟩
  cases hdecl : (src.tree.structureAt (s.program.classAt pending.cls).struct).decl.cls? with
  | none => exact .step rfl ⟨hs, rfl, .refl s⟩
  | some decl =>
    have hw : 2 * roomAt pending.depth < pending.weight := Nat.lt_succ_self _
    have hstage : Stage src n pending.cls (s.program.classAt pending.cls).key
        (s.program.classAt pending.cls).ancestor pending.depth pending.weight μ
        (s.atDepth pending.depth) :=
      ⟨rfl, fun y v hy hv => hμ ▸ hy.lighter_of_lt hv, hlt, hparked, rfl, rfl⟩
    refine .bind (Q := fun _ t => s.atDepth pending.depth = t) (.step rfl rfl) ?_
    rintro _ _ rfl
    have hinherits : Inherits src (s.atDepth pending.depth) pending.cls ancestor :=
      hancestor.later ⟨id, id, id⟩ rfl
    refine .bind (leads_buildLayout hproper h hw decl _ (hs.atDepth _) hstage hinherits) ?_
    rintro _ s2 ⟨hs2, hstage2, htracks2⟩
    -- Between the layout and the end of the class its ancestor does not change.
    let k := stageCourse hproper pending.cls (s.program.classAt pending.cls).key ancestor
      pending.depth pending.weight μ
    have hr : k.Serves (requestClass src) := stageCourse_serves h hw
    have hq : k.Queues 0 := stageCourse_queues
    have hcls {t : State} (ht : k.holds t) (_ : k.strict) : pending.cls < t.program.classes.size ∧
        (t.program.classAt pending.cls).struct = (s.program.classAt pending.cls).struct :=
      ⟨ht.2.lt, congrArg ClassKey.struct ht.2.key_eq⟩
    refine .bind ((Works.forM fun method hmethod => safe_buildMethod hr hq pending.cls hdecl
      hmethod).leads trivial ⟨hs2, hstage2⟩ trivial) fun hs3 => ?_
    refine .bind ((safe_buildInit hr hq pending.cls _).leads trivial hs3.1 trivial) fun hs4 => ?_
    refine .bind ((Works.forM fun clause _ => safe_checkConformance hr hcls _ clause).leads
      trivial hs4.1 trivial) fun {_ s5} hs5 => ?_
    obtain ⟨⟨hrecorded, hstage5⟩, -, htracks5⟩ :=
      And.intro hs5.1 (k.trans hs3.2.1 (k.trans hs4.2.1 hs5.2.1))
    rw [hstage2.depth_eq] at htracks5
    have htracks := htracks2.trans htracks5.weaken
    have hinherits5 := htracks.follows.inherits (hs.atDepth _) hrecorded hlt hinherits
    obtain ⟨ht, hst⟩ := hrecorded.rebuild (n := n) (b := pending.weight) hstage5.lt
      (f := fun c => { c with
        vtable := c.slotOwners.map fun base => s5.program.resolveOverride base pending.cls
        inProgress := false }) rfl (.inr rfl) rfl rfl (hstage5.ancestor_eq ▸ hinherits5)
    refine .bind (Q := fun _ t => Recorded src t ∧
      Tracks src n pending.weight (some pending.cls) (s.atDepth pending.depth) t)
      (.step rfl ⟨ht, htracks.trans hst⟩) ?_
    rintro _ s6 ⟨hs6, htracks6⟩
    exact .step rfl ⟨hs6.atDepth _, rfl, htracks6.restore _⟩

/-- Some of the classes that waited for a class are still to be completed. -/
structure Descends (src : Sources) (n : Nat) (s : State) (pending : Pending) (rest : List Pending)
    (t : State) : Prop where
  recorded : Recorded src t
  depth_eq : t.depth = s.depth
  follows : Follows (some pending.cls) s t
  spends : Spends pending.weight (s.load src n) ((t.load src n).plus ↑(rest.map fun d => d.weight))
  nodup : (rest.map (·.cls)).Nodup
  waited : ∀ d ∈ rest, d.cls < t.program.classes.size ∧ d.cls ∉ t.parked ∧
    Inherits src t d.cls (some pending.cls)
  others : ∀ d ∈ rest, ∀ c, c < s.program.classes.size → c ∉ s.parked → some pending.cls ≠ some c →
    some d.cls ≠ some c

omit hproper h in
/-- Once a class is built, those that wait for it are taken up. -/
theorem descends_withoutWaiting {pending : Pending} (ht : Recorded src t)
    (hdepth : t.depth = s.depth) (hst : Tracks src n pending.weight (some pending.cls) s t) :
    Descends src n s pending (t.descendants pending.cls) (t.withoutWaiting pending.cls) := by
  have hmem {d : Pending} (hd : d ∈ t.descendants pending.cls) :
      ∃ w ∈ t.waiting, w.ancestor = pending.cls ∧ w.pending = d := by
    obtain ⟨w, hw, rfl⟩ := List.mem_map.mp hd
    obtain ⟨hw, hancestor⟩ := List.mem_filter.mp hw
    exact ⟨w, hw, by simpa using hancestor, rfl⟩
  have hsub : (t.withoutWaiting pending.cls).parked.Sublist t.parked := List.filter_sublist.map _
  have hrecorded : Recorded src (t.withoutWaiting pending.cls) :=
    ht.of_work rfl rfl List.filter_sublist .rfl
  refine ⟨hrecorded, hdepth, ?_, ?_, ?_, fun d hd => ?_, fun d hd c hc hparked hne => ?_⟩
  · refine ⟨hst.follows.classes, hst.follows.foundClass, hst.follows.foundFunction,
      hst.follows.errors, hst.follows.withdrawn, fun hc hparked hne => ?_⟩
    obtain ⟨hancestor, hparked⟩ := hst.follows.ancestor hc hparked hne
    exact ⟨hancestor, fun h => hparked (hsub.subset h)⟩
  · rw [← State.load_eq_plus_descendants]
    exact hst.spends
  · rw [State.descendants, List.map_map]
    exact ht.nodup.sublist (List.filter_sublist.map _)
  · obtain ⟨w, hw, hancestor, rfl⟩ := hmem hd
    obtain ⟨hlt, hinherits⟩ := ht.waits w hw
    refine ⟨hlt, fun hparked => ?_, hancestor ▸ hinherits.later ⟨id, id, id⟩ rfl⟩
    -- A class waits only once, so it does not wait for another one.
    obtain ⟨w', hw', heq⟩ := List.mem_map.mp hparked
    obtain ⟨hw', hother⟩ := List.mem_filter.mp hw'
    cases List.inj_on_of_nodup_map ht.nodup hw' hw heq
    simp [hancestor] at hother
  · obtain ⟨w, hw, -, rfl⟩ := hmem hd
    intro heq
    exact (hst.follows.ancestor hc hparked hne).2
      (Option.some.inj heq ▸ List.mem_map_of_mem hw)

theorem leads_completeClass {pending : Pending} {fuel : Nat → Nat}
    (hfuel : Tendsto fuel atTop atTop)
    (hs : Recorded src s) (hμ : μ = (s.load src n).plus {pending.weight})
    (hlt : pending.cls < s.program.classes.size) (hparked : pending.cls ∉ s.parked)
    (hancestor : Inherits src s pending.cls ancestor) :
    Leads (fun i => completeClass src (requestClass src i) (fuel i) pending ancestor) s fun _ t =>
      Recorded src t ∧ t.depth = s.depth ∧ Tracks src n pending.weight (some pending.cls) s t := by
  refine .fueled (x := fun i fuel => completeClass src (requestClass src i) fuel pending ancestor)
    hfuel (fun _ => rfl) ?_
  simp only [completeClass]
  refine .bind (leads_buildClass hproper h hs hμ hlt hparked hancestor) ?_
  rintro _ u ⟨hu, hdepth, hsu⟩
  refine .bind (Q := fun ds v => Descends src n s pending ds v)
    (.step rfl (descends_withoutWaiting hu hdepth hsu)) fun {ds v} hds => ?_
  -- Each of the classes that waited weighs less than the one for which it waited, together with
  -- whatever the others left behind; completing it does not touch those that are still to come.
  refine (Leads.forM (Descends src n s pending) (fun {d rest v} hv => ?_) hds).imp
    fun {_ v} hv => ?_
  · obtain ⟨hdlt, hdparked, hdinherits⟩ := hv.waited d List.mem_cons_self
    have hlighter : Lighter ((v.load src n).plus {d.weight}) μ :=
      hμ ▸ (hv.spends.of_le (by simp)).lighter
    refine (h.completions d ((tendsto_sub_atTop_nat 1).comp hfuel) hv.recorded hlighter hdlt
      hdparked hdinherits).imp ?_
    rintro _ v' ⟨hv', hdepth', hvv'⟩
    obtain ⟨hdmem, hnodup⟩ := List.nodup_cons.mp hv.nodup
    refine ⟨hv', hdepth'.trans hv.depth_eq, ?_, ?_, hnodup, fun d' hd' => ?_, fun d' hd' =>
      hv.others d' (List.mem_cons_of_mem d hd')⟩
    · exact hv.follows.trans_of hvv'.follows fun hc hparked hne =>
        hv.others d List.mem_cons_self _ hc hparked hne
    · refine hv.spends.trans ?_
      have htake := (hvv'.spends.plus ↑(rest.map fun d => d.weight)).of_take pending.weight
      rw [List.map_cons, ← Multiset.cons_coe, ← Multiset.singleton_add, add_comm]
      exact htake
    · obtain ⟨hlt', hparked', hinherits'⟩ := hv.waited d' (List.mem_cons_of_mem d hd')
      have hne : some d.cls ≠ some d'.cls := fun heq =>
        hdmem (List.mem_map.mpr ⟨d', hd', (Option.some.inj heq).symm⟩)
      exact ⟨Nat.lt_of_lt_of_le hlt' hvv'.follows.classes,
        (hvv'.follows.ancestor hlt' hparked' hne).2,
        hvv'.follows.inherits hv.recorded hv' hlt' hinherits'⟩
  · refine ⟨hv.recorded, hv.depth_eq, hv.follows, ?_⟩
    simpa [Load.plus] using hv.spends

/-! ### Requests -/

omit hproper h in
/-- What is decided about the type that a class names as its ancestor. -/
theorem judgeAncestor_spec (src : Sources) (cls : ClassId) (outer : List ClassId) (span : Span)
    (ty : Ty) (s : State) :
    ∃ r t, judgeAncestor src cls outer span ty s = some (r, t) ∧ SameWork s t ∧
    SameRecords src s t ∧
      ∀ a, r = .ready a ∨ (∃ base, a = some base ∧ r = .waiting base) →
        (∃ base, a = some base ∧ ty = .object base) ∨
          a = none ∧ (ty = .unknown ∨ ∃ text fault, Reported t (.cannotInherit text fault)
          span) := by
  have hrefuse (ty : Ty) (fault : InheritFault) (hfault : fault ≠ .neverCompleted) :
      ∃ r t, refuseAncestor src ty span fault s = some (r, t) ∧ SameWork s t ∧ SameRecords src s t ∧
        r = .ready none ∧ ∃ text fault, Reported t (.cannotInherit text fault) span := by
    have hstill : Still src (refuseAncestor src ty span fault) :=
      .of_quiet (.refuseAncestor src ty span hfault)
    obtain ⟨r, t, ht, hwork, hrecords⟩ := hstill s
    refine ⟨r, t, ht, hwork, hrecords, ?_⟩
    cases ht
    exact ⟨rfl, s.program.displayType src.tree ty, fault, by simp [Reported]⟩
  cases ty with
  | unknown => exact ⟨_, s, rfl, .refl s, .refl s, by simp⟩
  | object base =>
    simp only [judgeAncestor]
    by_cases hbuilt : (s.program.classAt base).inProgress = false
    · refine ⟨.ready (some base), s, ?_, .refl s, .refl s, by simp⟩
      change (if _ then _ else _ : Checking Ancestor) s = _
      rw [if_pos (by simp [hbuilt])]
      rfl
    · by_cases hwait : (base ≠ cls && !outer.contains base) = true
      · refine ⟨.waiting base, s, ?_, .refl s, .refl s, by simp⟩
        change (if _ then _ else if _ then _ else _ : Checking Ancestor) s = _
        rw [if_neg (by simpa using hbuilt), if_pos hwait]
        rfl
      · obtain ⟨r, t, ht, hwork, hrecords, rfl, hreported⟩ :=
          hrefuse (.object base) .cycle (by simp)
        refine ⟨.ready none, t, ?_, hwork, hrecords, fun a ha => .inr ?_⟩
        · change (if _ then _ else if _ then _ else _ : Checking Ancestor) s = _
          rw [if_neg (by simpa using hbuilt), if_neg hwait]
          exact ht
        · simp at ha
          exact ⟨ha.symm, .inr hreported⟩
  | primitive _ | protocol _ | enum _ =>
    obtain ⟨r, t, ht, hwork, hrecords, rfl, hreported⟩ := hrefuse _ .notClass (by simp)
    refine ⟨.ready none, t, ht, hwork, hrecords, fun a ha => .inr ?_⟩
    simp at ha
    exact ⟨ha.symm, .inr hreported⟩

/-- The ancestor that was found is right. -/
def Ancestor.Right (src : Sources) (s : State) (cls : ClassId) : Ancestor → Prop
  | .ready ancestor => Inherits src s cls ancestor
  | .waiting ancestor => Inherits src s cls (some ancestor)

theorem leads_resolveAncestor {cls : ClassId} {typeArgs : List Ty} {depth w : Nat}
    (hw : 2 * roomAt depth < w) {decl : Class Mark}
    (hdecl : (src.tree.structureAt struct).decl.cls? = some decl) (hs : Recorded src s)
    (hstage : Stage src n cls ⟨struct, typeArgs⟩ ancestor depth w μ s) :
    Leads (fun i => resolveAncestor src (requestClass src i) cls decl
      (Subst.bind ∅ decl.typeParams typeArgs)) s fun r t =>
      Recorded src t ∧ Stage src n cls ⟨struct, typeArgs⟩ ancestor depth w μ t ∧
        Tracks src n (2 * roomAt depth + 1) none s t ∧ r.Right src t cls := by
  let k := stageCourse hproper cls ⟨struct, typeArgs⟩ ancestor depth w μ
  have hr : k.Serves (requestClass src) := stageCourse_serves h hw
  have hclause {t : State} (ht : Stage src n cls ⟨struct, typeArgs⟩ ancestor depth w μ t) :
      clauseOf src t.program cls = decl.ancestor := by
    have hkey := ht.key_eq
    simp only [ClassInst.key, ClassKey.mk.injEq] at hkey
    rw [clauseOf, hkey.1, hdecl]
    rfl
  have hsubst {t : State} (ht : Stage src n cls ⟨struct, typeArgs⟩ ancestor depth w μ t) :
      classSubst src t.program cls = Subst.bind ∅ decl.typeParams typeArgs := by
    have hkey := ht.key_eq
    simp only [ClassInst.key, ClassKey.mk.injEq] at hkey
    rw [classSubst, hkey.1, hkey.2, StructureDecl.typeParams_of_cls? hdecl]
  simp only [resolveAncestor]
  cases hancestor : decl.ancestor with
  | none => exact .step rfl ⟨hs, hstage, .refl s, .root ((hclause hstage).trans hancestor)⟩
  | some clause =>
    have hmodify (f : State → List ClassId) {P : State → Prop}
        (hP : ∀ {s t}, Retains s t → P s → P t) :
        Works k P (fun _ => (modify fun s => { s with resolving := f s } : Checking PUnit))
          fun _ s => P s :=
      .step fun {s} hs hp => by
        have hrecords : SameRecords src s { s with resolving := f s } :=
          .of_program rfl rfl ⟨[], by simp, by simp⟩ rfl
        obtain ⟨ht, hst⟩ := k.stay hs hrecords ⟨rfl, rfl, rfl, rfl⟩
        exact ⟨_, _, rfl, ht, hst, hP hrecords.retains hp⟩
    have hwork : Works k (fun _ => True) (fun i => do
        let outer := (← get).resolving
        modify fun s => { s with resolving := cls :: outer }
        let ty ← resolveType src (requestClass src i) (Subst.bind ∅ decl.typeParams typeArgs) clause
        modify fun s => { s with resolving := outer }
        judgeAncestor src cls outer clause.mark.span ty) fun r t => r.Right src t cls := by
      refine .bind (.quiet .get) fun outer => .bind (hmodify _ (P := fun _ => True) fun _ => id)
          fun _ =>
        .bind (works_resolveType hr clause) fun ty => .bind (hmodify _ (P := fun s =>
          True → Resolves src s (Subst.bind ∅ decl.typeParams typeArgs) clause ty)
          fun hst h _ => hst.resolves (h trivial)) fun _ => .step fun {s} hs hty => ?_
      obtain ⟨r, t, ht, hwork, hrecords, hspec⟩ :=
        judgeAncestor_spec src cls outer.resolving clause.mark.span ty s
      obtain ⟨hkt, hst⟩ := k.stay hs hrecords hwork
      have hty := hrecords.retains.resolves (hty trivial)
      have hright {a : Option ClassId} (ha : r = .ready a ∨ ∃ base, a = some base ∧
          r = .waiting base) :
          Inherits src t cls a := by
        have hclause := (hclause hkt.2).trans hancestor
        rcases hspec a ha with ⟨base, rfl, rfl⟩ | ⟨rfl, rfl | ⟨text, fault, hreported⟩⟩
        · exact .below hclause (hsubst hkt.2 ▸ hty.known (by simp))
        · exact .faulty hclause (hsubst hkt.2 ▸ hty.unknown rfl)
        · exact .refused hclause hreported
      refine ⟨r, t, ht, hkt, hst, ?_⟩
      cases r with
      | ready a => exact hright (.inl rfl)
      | waiting a => exact hright (.inr ⟨a, rfl, rfl⟩)
    refine (hwork.leads trivial ⟨hs, hstage⟩ trivial).imp ?_
    rintro r t ⟨⟨ht, hstage'⟩, ⟨-, hst⟩, hright⟩
    exact ⟨ht, hstage', hstage.depth_eq ▸ hst, hright⟩

omit hproper h in
/-- A class is made at the depth of its request, or one step deeper if it has type arguments. -/
theorem enterDepth_spec (src : Sources) (struct : StructureId) (typeArgs : List Ty) (span : Span)
    (s : State) :
    (∃ t, enterDepth src struct typeArgs span s = some (none, t) ∧ SameWork s t ∧
        SameRecords src s t ∧ maxDepth ≤ s.depth ∧
        Reported t (.tooDeep (src.tree.structurePath struct) maxDepth) span) ∨
      ∃ depth, enterDepth src struct typeArgs span s = some (some depth, s) ∧
        (typeArgs = [] ∨ roomAt depth < roomAt s.depth) := by
  by_cases hempty : typeArgs = []
  · exact .inr ⟨s.depth, by subst hempty; rfl, .inl hempty⟩
  by_cases hroom : maxDepth ≤ s.depth
  · have hreport : Still src (report (.tooDeep (src.tree.structurePath struct) maxDepth) span) :=
      .report span
    obtain ⟨_, t, ht, hwork, hrecords⟩ := hreport s
    refine .inl ⟨t, ?_, hwork, hrecords, hroom, ?_⟩
    · change (if _ then _ else if _ then _ else _ : Checking (Option Nat)) s = _
      rw [if_neg (by simpa using hempty), if_pos hroom]
      cases ht
      rfl
    · cases ht
      simp [Reported]
  · refine .inr ⟨s.depth + 1, ?_, .inr ?_⟩
    · change (if _ then _ else if _ then _ else _ : Checking (Option Nat)) s = _
      rw [if_neg (by simpa using hempty), if_neg hroom]
      rfl
    · simp only [roomAt]
      omega

omit hproper h in
/-- Beginning a class leaves room for what weighs at most as much as the class itself. -/
theorem Spends.of_withClass {inst : ClassInst} {depth : Nat}
    (hdepth : inst.typeArgs = [] ∨ roomAt depth < roomAt s.depth) (hstruct : inst.struct < n)
    (hnone : s.program.classFor inst.key = none)
    (hfollows : Follows none s ((s.atDepth depth).withClass inst)) {y : Load}
    (hy : Spends (2 * roomAt depth + 2) (((s.atDepth depth).withClass inst).load src n) y) :
    Spends (2 * roomAt s.depth) (s.load src n) y := by
  -- Without type arguments one thing less is missing; with them the class lies deeper.
  rcases hdepth with hempty | hroom
  · have hkey : inst.key = ⟨inst.struct, []⟩ := by rw [ClassInst.key, hempty]
    rw [hkey] at hnone
    refine .inl (lt_of_le_of_lt hy.fst_le (hfollows.retains.outstanding_lt .cls hstruct hnone ?_))
    simp [Missing, State.withClass, Program.classFor, InstanceCache.get?_begin, hkey]
  · exact (hfollows.spends rfl rfl).trans (hy.mono (by omega))

theorem leads_instantiateClass {typeArgs : List Ty} {decl : Class Mark}
    (hdecl : (src.tree.structureAt struct).decl.cls? = some decl) (span : Span)
    (hs : Recorded src s) (hcount : typeArgs.length = decl.typeParams.length)
    (hμ : μ = (s.load src n).plus {2 * roomAt s.depth})
    (hnone : s.program.classFor ⟨struct, typeArgs⟩ = none) (hstruct : struct < n) :
    Leads (fun i => instantiateClass src (requestClass src i) i struct decl typeArgs span) s
    fun r t =>
      Recorded src t ∧ t.depth = s.depth ∧ Tracks src n (2 * roomAt s.depth) none s t ∧
        Answered src t struct typeArgs span r := by
  simp only [instantiateClass]
  refine .bind (Q := fun r t => s = r ∧ s = t) (.step rfl ⟨rfl, rfl⟩) ?_
  rintro _ _ ⟨rfl, rfl⟩
  obtain ⟨t, ht, hwork, hrecords, hdeep, hreported⟩ | ⟨depth, henter, hdepth⟩ :=
    enterDepth_spec src struct typeArgs span s
  · refine .bind (Q := fun r u => none = r ∧ t = u) (.step ht ⟨rfl, rfl⟩) ?_
    rintro _ _ ⟨rfl, rfl⟩
    obtain ⟨hrecorded, hst⟩ := hs.still (n := n) hwork hrecords
    exact .step rfl ⟨hrecorded, hwork.depth, hst,
        fun c hc => absurd hc.symm (Option.some_ne_none c), fun _ =>
      .inr (.inr ⟨hwork.depth ▸ hdeep, hreported⟩)⟩
  refine .bind (Q := fun r u => some depth = r ∧ s = u) (.step henter ⟨rfl, rfl⟩) ?_
  rintro _ _ ⟨rfl, rfl⟩
  refine .bind (Q := fun _ t => s.atDepth depth = t) (.step rfl rfl) ?_
  rintro _ _ rfl
  refine .bind (Q := fun r t => s.program = r ∧ s.atDepth depth = t) (.step rfl ⟨rfl, rfl⟩) ?_
  rintro _ _ ⟨rfl, rfl⟩
  -- The class is in the tables before its ancestor is looked for.
  let inst : ClassInst := {
    root := s.program.classes.size, struct, name := decl.name
    display := decl.name ++ s.program.displayTypeArgs src.tree typeArgs, typeArgs
    span := decl.mark.span }
  obtain ⟨hs2, hfollows2⟩ := (hs.atDepth depth).withClass inst hnone rfl
    (StructureDecl.typeParams_of_cls? hdecl ▸ hcount) rfl rfl
  have hfollows := hfollows2.of_atDepth
  generalize hs2_eq : (s.atDepth depth).withClass inst = s2 at hs2 hfollows2 hfollows
  have hspends {y : Load} (hy : Spends (2 * roomAt depth + 2) (s2.load src n) y) :
      Spends (2 * roomAt s.depth) (s.load src n) y := by
    subst hs2_eq
    exact .of_withClass hdepth hstruct hnone hfollows hy
  have hstage :
      Stage src n s.program.classes.size ⟨struct, typeArgs⟩ none depth (2 * roomAt depth + 2) μ
      s2 := by
    refine ⟨?_, fun y v hy hv => ?_, ?_, fun hmem => ?_, ?_, ?_⟩
    · exact hs2_eq ▸ rfl
    · rw [hμ]
      exact (hspends ((hy.mono (Nat.le_succ _)).trans (.add y hv))).lighter
    · rw [← hs2_eq]
      exact Nat.lt_of_lt_of_eq (Nat.lt_succ_self _) (Array.size_push ..).symm
    · obtain ⟨w, hw, heq⟩ := List.mem_map.mp hmem
      rw [← hs2_eq] at hw
      exact Nat.lt_irrefl _ (heq ▸ (hs.waits w hw).1)
    · rw [← hs2_eq]
      exact congrArg ClassInst.key ((getD_push ..).trans (if_pos rfl))
    · rw [← hs2_eq]
      exact congrArg ClassInst.ancestor ((getD_push ..).trans (if_pos rfl))
  refine .bind (Q := fun r t => s.program.classes.size = r ∧ s2 = t) (.step (by rw [← hs2_eq]; rfl)
    ⟨rfl, rfl⟩) ?_
  rintro _ _ ⟨rfl, rfl⟩
  refine .bind (leads_resolveAncestor hproper h (by omega) hdecl hs2 hstage) ?_
  rintro r s3 ⟨hs3, hstage3, htracks3, hright⟩
  -- Whether the class is completed or waits, it is there and no other class was changed.
  have hlast {x : Nat → Checking Unit} (hx : Leads x s3 fun _ t => Recorded src t ∧
      Tracks src n (2 * roomAt depth + 2) (some s.program.classes.size) s3 t) :
      Leads (fun i => do
        x i
        setDepth s.depth
        return some s.program.classes.size) s3 fun r t => Recorded src t ∧ t.depth = s.depth ∧
          Tracks src n (2 * roomAt s.depth) none s t ∧ Answered src t struct typeArgs span r := by
    refine .bind hx ?_
    rintro _ s4 ⟨hs4, htracks4⟩
    refine .bind (Q := fun _ t => s4.atDepth s.depth = t) (.step rfl rfl) ?_
    rintro _ _ rfl
    have hfollows3 : Follows none s s3 := hfollows.trans htracks3.follows
    have hfollows4 : Follows none s s4 := hfollows3.trans_of htracks4.follows fun hc _ _ heq =>
      Nat.lt_irrefl _ (Option.some.inj heq ▸ hc)
    refine .step rfl ⟨hs4.atDepth _, rfl, ⟨hfollows4.atDepth _, ?_⟩, fun c hc => ?_,
      fun hnone => absurd hnone (Option.some_ne_none _)⟩
    · exact hspends ((htracks3.spends.mono (Nat.le_succ _)).trans htracks4.spends)
    · rw [← Option.some.inj hc]
      exact htracks4.follows.foundClass (hs3.classes.mpr ⟨hstage3.lt, hstage3.key_eq⟩)
  cases r with
  | ready ancestor =>
    have hlighter := hstage3.ahead (.refl _ _) (Nat.lt_succ_self (2 * roomAt depth + 1))
    refine hlast ((h.completions ⟨s.program.classes.size, depth⟩ tendsto_id hs3 hlighter
      hstage3.lt hstage3.notMem hright).imp ?_)
    rintro _ t ⟨ht, -, hst⟩
    exact ⟨ht, hst.mono (Nat.le_succ _)⟩
  | waiting ancestor =>
    exact hlast (x := fun _ => modify fun s' => { s' with
        waiting := s'.waiting ++ [⟨ancestor, ⟨s.program.classes.size, depth⟩⟩] })
      (.step rfl (hs3.withWaiting (w := ⟨ancestor, ⟨s.program.classes.size, depth⟩⟩) hstage3.lt
        hstage3.notMem hright (Nat.lt_succ_self _)))

theorem leads_requestClass (typeArgs : List Ty) (span : Span) (hs : Recorded src s)
    (hμ : μ = (s.load src n).plus {2 * roomAt s.depth}) (hstruct : struct < n) :
    Leads (fun i => requestClass src i struct typeArgs span) s fun r t =>
      Recorded src t ∧ t.depth = s.depth ∧ Tracks src n (2 * roomAt s.depth) none s t ∧
        Answered src t struct typeArgs span r := by
  refine .succ ?_ rfl
  simp only [requestClass]
  obtain ⟨s1, hfind, hwork1, hrecords1, herrors⟩ := findClass_spec src ⟨struct, typeArgs⟩ s
  obtain ⟨hs1, htracks1⟩ := hs.still (n := n) (b := 2 * roomAt s.depth) hwork1 hrecords1
  have hdepth := hwork1.depth
  -- The search leaves a mark in the cache, which is no part of the load.
  have hload : s1.load src n = s.load src n := by
    have hback : Retains s1 s := by
      refine ⟨fun h => hrecords1.classFor _ ▸ h, fun h => hrecords1.functionFor _ ▸ h, fun h => ?_⟩
      rwa [Reported, herrors, hrecords1.withdrawn] at h
    rw [State.load, State.load, hwork1.waiting, hwork1.bodies,
      le_antisymm hrecords1.retains.outstanding_le hback.outstanding_le]
  refine .bind (Q := fun r t => s.program.classFor ⟨struct, typeArgs⟩ = r ∧ s1 = t)
    (.step hfind ⟨rfl, rfl⟩) ?_
  rintro found _ ⟨hfound, rfl⟩
  rw [← hrecords1.classFor] at hfound
  cases found with
  | some c =>
    refine .step rfl ⟨hs1, hdepth, htracks1, fun c' hc' => ?_, by simp⟩
    exact hc' ▸ hfound
  | none =>
    dsimp only
    cases hdecl : (src.tree.structureAt struct).decl.cls? with
    | none => exact .step rfl ⟨hs1, hdepth, htracks1, by simp, fun _ => .inl hdecl⟩
    | some decl =>
      dsimp only
      split
      · next hcount =>
        have hreport : Still src
            (report (.typeArgumentCount decl.typeParams.length typeArgs.length) span) :=
          .report span
        obtain ⟨_, t, ht, hwork, hrecords⟩ := hreport s1
        obtain ⟨hrecorded, htracks2⟩ := hs1.still (n := n) (b := 2 * roomAt s.depth) hwork hrecords
        refine .bind (Q := fun _ u => t = u) (.step ht rfl) ?_
        rintro _ _ rfl
        refine .step rfl ⟨hrecorded, hwork.depth.trans hdepth, htracks1.trans htracks2, by simp,
          fun _ => ?_⟩
        exact .inr (.inl (StructureDecl.typeParams_of_cls? hdecl ▸ hcount))
      · next hcount =>
        refine (leads_instantiateClass hproper h hdecl span hs1 (not_not.mp hcount)
          (by rw [hμ, hload, hdepth]) hfound hstruct).imp ?_
        rintro r t ⟨ht, hdepth', htracks2, hanswered⟩
        exact ⟨ht, hdepth'.trans hdepth, htracks1.trans (hdepth ▸ htracks2), hanswered⟩

end

/-- Every request for a class is answered, and every class that can be completed is. -/
theorem settles (hproper : src.Proper n) : Settles src n fun _ => True := by
  -- The induction is on the load together with the weight of the request or of the class.
  have hall (μ : Load) : Settles src n (· = μ) := by
    induction μ using wellFounded_lighter.induction with
    | _ μ ih =>
      have h : Settles src n (Lighter · μ) :=
        ⟨fun typeArgs span hs hlighter hstruct => (ih _ hlighter).requests typeArgs span hs
          rfl hstruct, fun pending hfuel hs hlighter hlt hparked hancestor =>
            (ih _ hlighter).completions pending hfuel hs rfl hlt hparked hancestor⟩
      exact ⟨fun typeArgs span hs hμ hstruct =>
          leads_requestClass hproper h typeArgs span hs hμ.symm hstruct,
        fun _ hfuel hs hμ hlt hparked hancestor =>
          leads_completeClass hproper h hfuel hs hμ.symm hlt hparked hancestor⟩
  exact ⟨fun typeArgs span hs _ hstruct => (hall _).requests typeArgs span hs rfl hstruct,
    fun pending hfuel hs _ hlt hparked hancestor =>
      (hall _).completions pending hfuel hs rfl hlt hparked hancestor⟩

end ObjectLang.Check
