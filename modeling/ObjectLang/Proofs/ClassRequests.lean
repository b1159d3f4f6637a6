import ObjectLang.Proofs.ClassCompletion

/-! # Requests for classes

A class that is asked for is found, made and completed, or made and put on hold until its ancestor
has been built.  Classes that are still on hold when a request from outside has been served are
completed without an ancestor.
-/

namespace ObjectLang.Check

open Source Syntax Scope Names Diagnostic Checked

variable {src : Sources} {closed : Trust} {w : Work} {s t : State} {cls : ClassId}

/-! ### Ancestors -/

theorem Program.built_of_inProgress {p : Program} (h : (p.classAt cls).inProgress = false) :
    p.Built cls := by
  refine ⟨?_, h⟩
  by_contra hlt
  rw [Program.classAt_of_size_le (Nat.le_of_not_lt hlt)] at h
  cases h

/-- While a type was resolved for a class, the class was one whose ancestor is being resolved. -/
theorem Advances.restore {resolving : List ClassId} (h : Advances w { s with resolving } t) :
    Advances w s { t with resolving := s.resolving } :=
  ⟨h.classes, h.functions, h.kept, h.alike, h.signed, h.slots, h.fresh, rfl, h.implementors,
    h.clean⟩

/-- The class may be put on hold until `base` has been built. -/
structure MayWait (closed : Trust) (cls base : ClassId) (s : State) : Prop where
  ne : base ≠ cls
  inProgress : (s.program.classAt base).inProgress = true
  lt : closed → base < s.program.classes.size
  unresolved : base ∉ s.resolving
  alone : closed → ∀ x ∈ s.waiting, x.ancestor ≠ cls

theorem refuseAncestor_eq {ty : Ty} {span : Span} {fault : InheritFault} {r : Ancestor}
    (h : refuseAncestor src ty span fault s = some (r, t)) : r = .ready none := by
  rcases bind_some h with ⟨_, s1, -, h⟩
  rcases bind_some h with ⟨_, s2, -, h⟩
  cases h
  rfl

theorem judgeAncestor_some {outer : List ClassId} {span : Span} {ty : Ty} {r : Ancestor}
    (h : judgeAncestor src cls outer span ty s = some (r, t)) :
    Reports s t ∧ (∀ a, r = .ready (some a) → t.program.Built a) ∧
      ∀ base, r = .waiting base → ty = .object base ∧ base ≠ cls ∧ base ∉ outer ∧
        (t.program.classAt base).inProgress = true := by
  refine ⟨(Quiet.judgeAncestor src cls outer span ty).reports h, ?_⟩
  have hrefuse {ty : Ty} {fault : InheritFault}
      (h : refuseAncestor src ty span fault s = some (r, t)) :
      (∀ a, r = .ready (some a) → t.program.Built a) ∧
        ∀ base, r = .waiting base → ty = .object base ∧ base ≠ cls ∧ base ∉ outer ∧
          (t.program.classAt base).inProgress = true := by
    rw [refuseAncestor_eq h]
    exact ⟨nofun, nofun⟩
  cases ty with
  | unknown =>
    cases h
    exact ⟨nofun, nofun⟩
  | primitive _ => exact hrefuse h
  | protocol _ => exact hrefuse h
  | enum _ => exact hrefuse h
  | object base =>
    rw [judgeAncestor] at h
    rcases bind_some h with ⟨_, _, hget, h⟩
    cases hget
    split at h
    · next hbuilt =>
      cases h
      refine ⟨?_, nofun⟩
      rintro _ ⟨⟩
      exact Program.built_of_inProgress (by simpa using hbuilt)
    · next hprogress =>
      split at h
      · next hfree =>
        cases h
        refine ⟨nofun, ?_⟩
        rintro _ ⟨⟩
        simp only [Bool.and_eq_true, decide_eq_true_eq, Bool.not_eq_true', List.contains_eq_mem,
          decide_eq_false_iff_not] at hfree
        exact ⟨rfl, hfree.1, hfree.2, by simpa using hprogress⟩
      · exact hrefuse h

section

variable {request : ClassRequest} (hr : Serves src closed request)

include hr

theorem orderly_resolveAncestor {decl : Class Mark} {subst : Subst} {r : Ancestor}
    (hs : Orderly src closed (w.begin cls) s) (hno : closed → ∀ x ∈ s.waiting, x.ancestor ≠ cls)
    (hsubst : closed → subst.Within s.program)
    (h : resolveAncestor src request cls decl subst s = some (r, t)) :
    Orderly src closed (w.begin cls) t ∧ Advances (w.begin cls) s t ∧
      (∀ a, r = .ready (some a) → t.program.Built a) ∧
      ∀ base, r = .waiting base → MayWait closed cls base t := by
  rw [resolveAncestor] at h
  cases hancestor : decl.ancestor with
  | none =>
    rw [hancestor] at h
    cases h
    exact ⟨hs, .refl _ s, nofun, nofun⟩
  | some clause =>
    rw [hancestor] at h
    rcases bind_some h with ⟨_, _, hget, h⟩
    cases hget
    rcases bind_some h with ⟨_, s1, h1, h⟩
    cases h1
    rcases bind_some h with ⟨ty, s2, h2, h⟩
    rcases bind_some h with ⟨_, s3, h3, h⟩
    cases h3
    have hs1 : Orderly src closed (w.begin cls) { s with resolving := cls :: s.resolving } := by
      refine hs.setResolving fun hc x hx hmem => ?_
      rcases List.mem_cons.mp hmem with hmem | hmem
      · exact hno hc x hx hmem
      · exact hs.agenda.unresolved hc x hx hmem
    rcases orderly_resolveType hr hs1 hsubst h2 with ⟨hs2, hst2, hty, -⟩
    have hresolving : s2.resolving = cls :: s.resolving := hst2.resolving
    have hunresolved (hc : closed) (x : Waiting) (hx : x ∈ s2.waiting) :
        x.ancestor ≠ cls ∧ x.ancestor ∉ s.resolving := by
      have := hs2.agenda.unresolved hc x hx
      rw [hresolving, List.mem_cons] at this
      exact ⟨fun h => this (.inl h), fun h => this (.inr h)⟩
    have hs3 : Orderly src closed (w.begin cls) { s2 with resolving := s.resolving } :=
      hs2.setResolving fun hc x hx => (hunresolved hc x hx).2
    rcases judgeAncestor_some h with ⟨hreports, hready, hwaiting⟩
    rcases hreports.orderly hs3 with ⟨ht, hst3⟩
    refine ⟨ht, hst2.restore.trans hst3, hready, fun base hbase => ?_⟩
    rcases hwaiting base hbase with ⟨rfl, hne, hfree, hprogress⟩
    refine ⟨hne, hprogress, fun hc => ?_, ?_, fun hc x hx => ?_⟩
    · exact Nat.lt_of_lt_of_le (hty hc base rfl) hst3.classes
    · rw [hst3.resolving]
      exact hfree
    · rcases hreports with ⟨_, _, rfl, -⟩
      exact (hunresolved hc x hx).1

end

/-! ### New classes -/

theorem quiet_enterDepth (struct : StructureId) (typeArgs : List Ty) (span : Span) :
    Quiet (enterDepth src struct typeArgs span) :=
  Quiet.get.bind fun _ => .ite (.pure _)
    (.ite ((Quiet.report span).bind fun _ => .pure _) (.pure _))

theorem enterDepth_clean {struct : StructureId} {typeArgs : List Ty} {span : Span} {r : Option Nat}
    (h : enterDepth src struct typeArgs span s = some (r, t)) (ht : t.Clean) : r ≠ none := by
  rw [enterDepth] at h
  rcases bind_some h with ⟨_, _, hget, h⟩
  cases hget
  dsimp only at h
  split at h
  · cases h
    simp
  split at h
  · rcases bind_some h with ⟨_, s1, h1, h⟩
    cases h1
    cases h
    exact absurd ht (Reports.not_clean (.refl _))
  · cases h
    simp

/-- Nobody waits for a class that does not exist yet. -/
theorem Orderly.not_awaited (hs : Orderly src closed w s) (hc : closed) (x : Waiting)
    (hx : x ∈ s.waiting) : x.ancestor ≠ s.program.classes.size := by
  rcases (hs.agenda.ordered hc).ancestor_mem hx with hmem | hmem
  · exact Nat.ne_of_lt (hs.agenda.lt _ hmem)
  · rcases List.mem_map.mp hmem with ⟨y, hy, heq⟩
    rw [← heq]
    exact Nat.ne_of_lt (hs.agenda.blank y hy).1

/-- Nor is a signature being resolved for it. -/
theorem Orderly.spares_new (hs : Orderly src closed w s) (hc : closed) :
    Spares w s s.program.classes.size :=
  fun f hf howner => Nat.lt_irrefl _ (hs.lt_of_known ((hs.signing f hf).owner hc _ howner))

theorem Orderly.openClass {key : ClassKey} {inst : ClassId → ClassInst}
    (hs : Orderly src closed w s) (h : openClass key inst s = some (cls, t))
    (hblank : ∀ id, (inst id).Blank id) (hstruct : ∀ id, (inst id).struct = key.struct)
    (htypeArgs : ∀ id, (inst id).typeArgs = key.typeArgs)
    (hdecl : ∃ decl, (src.tree.structureAt key.struct).decl.cls? = some decl)
    (hwithin : closed → ∀ ty ∈ key.typeArgs, ty.Within s.program)
    (hcount : key.typeArgs.length = (src.tree.structureAt key.struct).decl.typeParams.length)
    (hknown : closed.known → .unknown ∉ key.typeArgs)
    (hdisplay : src.tree.Unmarked → ∀ id, Unmarked (inst id).display) :
    Orderly src closed (w.begin cls) t ∧ Advances w s t ∧ (t.program.classAt cls).Blank cls ∧
      (closed → ∀ x ∈ t.waiting, x.ancestor ≠ cls) ∧ (closed → Spares w t cls) := by
  have happlied (hc : closed.known) (id : ClassId) : Applied src (inst id) := by
    refine ⟨?_, ?_⟩ <;> rw [htypeArgs]
    · rw [hstruct, hcount]
    · exact hknown hc
  cases h
  rcases hs.pushClass (hblank _) (hstruct _) (htypeArgs _) hdecl hwithin (fun hc => happlied hc _)
    (fun ht => hdisplay ht _) with ⟨ht, hst⟩
  refine ⟨ht, hst, ?_, hs.not_awaited, hs.spares_new⟩
  rw [Program.classAt_push_self (p := s.program) rfl]
  exact hblank _

theorem Orderly.putOnHold {base : ClassId} (depth : Nat) (hs : Orderly src closed (w.begin cls) s)
    (hblank : (s.program.classAt cls).Blank cls) (hwait : MayWait closed cls base s)
    (hsigning : closed → Spares w s cls) :
    Orderly src closed w { s with waiting := s.waiting ++ [⟨base, ⟨cls, depth⟩⟩] } ∧
      Advances w s { s with waiting := s.waiting ++ [⟨base, ⟨cls, depth⟩⟩] } := by
  refine hs.wait hblank hwait.alone (fun hc => ?_) hwait.unresolved hsigning
  rcases hs.agenda.progress base (hwait.lt hc) hwait.inProgress with hmem | hmem
  · exact .inl ((List.mem_cons.mp hmem).resolve_left hwait.ne)
  · exact .inr hmem

section

variable {request : ClassRequest} (hr : Serves src closed request) (hreg : src.Regular)

include hr hreg

theorem orderly_instantiateClass {fuel : Nat} {struct : StructureId} {decl : Class Mark}
    {typeArgs : List Ty} {span : Span} {r : Option ClassId} (hs : Orderly src closed w s)
    (hdecl : (src.tree.structureAt struct).decl.cls? = some decl)
    (hargs : closed → ∀ ty ∈ typeArgs, ty.Within s.program)
    (hknown : closed.known → .unknown ∉ typeArgs)
    (hcount : typeArgs.length = decl.typeParams.length)
    (h : instantiateClass src request fuel struct decl typeArgs span s = some (r, t)) :
    Orderly src closed w t ∧ Advances w s t ∧ (∀ c, r = some c → c < t.program.classes.size) ∧
      (t.Clean → r ≠ none) := by
  rw [instantiateClass] at h
  rcases bind_some h with ⟨_, _, hget, h⟩
  cases hget
  rcases bind_some h with ⟨entered, s1, h1, h⟩
  rcases (quiet_enterDepth _ _ _).orderly hs h1 with ⟨hs1, hst1⟩
  cases entered with
  | none =>
    cases h
    exact ⟨hs1, hst1, by simp, fun hclean => absurd rfl (enterDepth_clean h1 hclean)⟩
  | some depth =>
    rcases bind_some h with ⟨_, s2, h2, h⟩
    cases h2
    rcases hs1.setDepth depth with ⟨hs2, hst2⟩
    rcases bind_some h with ⟨_, _, hget, h⟩
    cases hget
    rcases bind_some h with ⟨cls, s3, h3, h⟩
    rw [← StructureDecl.typeParams_of_cls? hdecl] at hcount
    have hargs2 (hc : closed) (ty) (hty : ty ∈ typeArgs) :=
      (hargs hc ty hty).mono (hst1.trans hst2).classes
    have hdisplay (ht : src.tree.Unmarked) (_ : ClassId) :
        Unmarked (decl.name ++ s1.program.displayTypeArgs src.tree typeArgs) := by
      rw [← StructureDecl.name_of_cls? hdecl]
      exact (ht.structures struct).append
        (Program.unmarked_displayTypeArgs ht (hs1.labels.displays ht) typeArgs)
    rcases hs2.openClass h3 (fun _ =>
      ⟨rfl, rfl, Nat.one_pos, rfl, rfl, fun _ => rfl, rfl, rfl, rfl, rfl⟩)
      (fun _ => rfl) (fun _ => rfl) ⟨decl, hdecl⟩ hargs2 hcount hknown hdisplay with
      ⟨hs3, hst3, hblank3, halone, hspares3⟩
    have hst13 := hst1.trans (hst2.trans hst3)
    rcases bind_some h with ⟨found, s4, h4, h⟩
    rcases orderly_resolveAncestor hr hs3 halone
      (fun hc => Subst.Within.empty.bind fun ty hty => (hargs hc ty hty).mono hst13.classes) h4 with
      ⟨hs4, hst4, hready, hwaiting⟩
    have hblank4 := hblank3.kept (hst4.kept (.inr List.mem_cons_self))
    have hspares4 (hc : closed) : Spares w s4 cls :=
      (hspares3 hc).advance hs3.signing hst4
    have hst14 := hst13.trans hst4.of_begin
    -- Either way the class is no longer active afterwards.
    have hlast {s5 : State} (hs5 : Orderly src closed w s5) (hst5 : Advances w s4 s5)
        (h : (do setDepth s.depth; return some cls : Checking (Option ClassId)) s5 = some (r, t)) :
        Orderly src closed w t ∧ Advances w s t ∧ (∀ c, r = some c → c < t.program.classes.size) ∧
          (t.Clean → r ≠ none) := by
      cases h
      rcases hs5.setDepth s.depth with ⟨ht, hst6⟩
      refine ⟨ht, hst14.trans (hst5.trans hst6), ?_, fun _ => by simp⟩
      rintro _ ⟨⟩
      exact Nat.lt_of_lt_of_le hs4.lt_of_begin hst5.classes
    cases found with
    | ready ancestor =>
      rcases bind_some h with ⟨_, s5, h5, h⟩
      rcases orderly_completeClass hr hreg hs4 hblank4
        (fun a ha => hready a (ha ▸ rfl)) hspares4 h5 with ⟨hs5, hst5⟩
      exact hlast hs5 hst5 h
    | waiting base =>
      rcases bind_some h with ⟨_, s5, h5, h⟩
      cases h5
      rcases hs4.putOnHold depth hblank4 (hwaiting base rfl) hspares4 with ⟨hs5, hst5⟩
      exact hlast hs5 hst5 h

end

/-- A request for a class, where `request` serves those that it leads to. -/
def requestStep (src : Sources) (request : ClassRequest) (fuel : Nat) : ClassRequest :=
  fun struct typeArgs span => do
    if let some id ← findClass { struct, typeArgs } then
      return some id
    match (src.tree.structureAt struct).decl.cls? with
    | none => return none
    | some decl =>
      if typeArgs.length ≠ decl.typeParams.length then
        report (.typeArgumentCount decl.typeParams.length typeArgs.length) span
        return none
      else
        instantiateClass src request fuel struct decl typeArgs span

theorem requestClass_succ (src : Sources) (fuel : Nat) :
    requestClass src (fuel + 1) = requestStep src (requestClass src fuel) fuel := rfl

theorem serves_requestStep (hreg : src.Regular) {request : ClassRequest}
    (hr : Serves src closed request)
    (fuel : Nat) : Serves src closed (requestStep src request fuel) := by
  intro w s struct typeArgs span r t hs hargs hknown h
  rw [requestStep] at h
  rcases bind_some h with ⟨found, s1, h1, h⟩
  rcases hs.findClass h1 with ⟨hs1, hst1, -, hlt⟩
  cases found with
  | some c =>
    cases h
    exact ⟨hs1, hst1, hlt, by simp⟩
  | none =>
    dsimp only at h
    cases hdecl : (src.tree.structureAt struct).decl.cls? with
    | none =>
      rw [hdecl] at h
      cases h
      exact ⟨hs1, hst1, by simp, fun _ _ => rfl⟩
    | some decl =>
      rw [hdecl] at h
      dsimp only at h
      split at h
      · rcases bind_some h with ⟨_, s2, h2, h⟩
        cases h
        rcases (Quiet.report span).orderly hs1 h2 with ⟨ht, hst2⟩
        cases h2
        exact ⟨ht, hst1.trans hst2, by simp,
          fun hclean => absurd hclean (Reports.not_clean (.refl _))⟩
      · next hcount =>
        rcases orderly_instantiateClass hr hreg hs1 hdecl
          (fun hc ty hty => (hargs hc ty hty).mono hst1.classes) hknown (not_not.mp hcount) h with
          ⟨ht, hst2, hlt, hgiven⟩
        exact ⟨ht, hst1.trans hst2, hlt, fun hclean hr => absurd hr (hgiven hclean)⟩

/-- However deeply classes lead to classes, a request keeps to the rules. -/
theorem serves_requestClass (hreg : src.Regular) (fuel : Nat) :
    Serves src closed (requestClass src fuel) := by
  induction fuel with
  | zero =>
    intro w s struct typeArgs span r t hs hargs hknown h
    cases h
  | succ fuel ih =>
    rw [requestClass_succ]
    exact serves_requestStep hreg ih fuel

/-! ### Orphans -/

theorem reportOrphan_some {x : Waiting} (h : reportOrphan src x s = some ((), t)) :
    ∃ errors, t = { s with errors := s.errors ++ errors } ∧ ∀ e ∈ errors, ¬e.cause.IsInternal := by
  rcases bind_some h with ⟨_, _, hget, h⟩
  cases hget
  dsimp only at h
  cases hclause : (src.tree.structureAt (s.program.classAt x.pending.cls).struct).decl.cls?.bind
    (·.ancestor) with
  | none =>
    rw [hclause] at h
    cases h
    exact ⟨[], by simp, by simp⟩
  | some clause =>
    rw [hclause] at h
    cases h
    exact ⟨_, rfl, by simp [ErrorCause.IsInternal]⟩

/-- The classes that are on hold become active, whatever they wait for. -/
theorem Orderly.takeAll (hs : Orderly src closed {} s) :
    Orderly src closed { active := s.waiting.map (·.pending.cls) } { s with waiting := [] } := by
  have hagenda := hs.agenda
  refine ⟨hs.table, hs.exact, hs.catalogue, hs.initialized, hs.typed, ?_, hs.reserve,
    fun f hf => absurd hf List.not_mem_nil, fun h => hs.uniform (h.of_clean fun h => h), hs.labels,
    hs.tasks, hs.proper⟩
  refine ⟨?_, fun c hc => ?_, fun c hc hprogress => ?_, nofun, fun _ => trivial, fun _ => nofun⟩
  · simpa using hagenda.nodup
  · rcases List.mem_map.mp hc with ⟨x, hx, rfl⟩
    exact (hagenda.blank x hx).1
  · exact .inl ((hagenda.progress c hc hprogress).resolve_left List.not_mem_nil)

theorem orderly_completeOrphans {request : ClassRequest} {fuel : Nat}
    (hr : Serves src closed request) (hreg : src.Regular) (hs : Orderly src closed {} s)
    (h : completeOrphans src request fuel s = some ((), t)) :
    Orderly src closed {} t ∧ Advances {} s t ∧ t.waiting = [] := by
  induction fuel generalizing s with
  | zero => cases h
  | succ fuel ih =>
    rw [completeOrphans] at h
    rcases bind_some h with ⟨_, _, hget, h⟩
    cases hget
    split at h
    · next hempty =>
      cases h
      exact ⟨hs, .refl _ _, List.isEmpty_iff.mp hempty⟩
    · rcases bind_some h with ⟨_, s1, h1, h⟩
      cases h1
      rcases bind_some h with ⟨_, s2, h2, h⟩
      have hst1 : Advances {} s { s with waiting := [] } :=
        .of_program rfl rfl (fun _ _ h => h) fun h => h
      have hrun := forM_some (fun rest u =>
        Orderly src closed { active := rest.map (·.pending.cls) } u ∧
          Advances {} s u ∧ ∀ x ∈ rest, (u.program.classAt x.pending.cls).Blank x.pending.cls) ?_
        ⟨hs.takeAll, hst1, fun x hx => (hs.agenda.blank x hx).2⟩ h2
      · rcases ih hrun.1 h with ⟨ht, hst, hwaiting⟩
        exact ⟨ht, hrun.2.1.trans hst, hwaiting⟩
      · rintro x rest u v ⟨hu, hsu, hblanks⟩ hstep
        rcases bind_some hstep with ⟨_, u1, hu1, hstep⟩
        obtain ⟨errors, rfl, he⟩ := reportOrphan_some hu1
        rcases hu.report errors u.warnings he with ⟨hu1, huu1⟩
        rcases orderly_completeClass (w := { active := rest.map (·.pending.cls) }) hr hreg hu1
          (hblanks x List.mem_cons_self) (by simp)
          (fun _ f hf => absurd hf List.not_mem_nil) hstep with ⟨hv, huv⟩
        have huu1 : Advances {} u _ := huu1.weaken (List.nil_subset _) fun _ h => h
        have huv' : Advances {} _ v := huv.weaken (List.nil_subset _) fun _ h => h
        refine ⟨hv, hsu.trans (huu1.trans huv'), fun y hy => ?_⟩
        have hblank := hblanks y (List.mem_cons_of_mem x hy)
        exact hblank.kept (huv.kept (.inr (List.mem_map_of_mem hy)))

end ObjectLang.Check
