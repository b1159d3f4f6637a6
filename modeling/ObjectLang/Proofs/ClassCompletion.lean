import ObjectLang.Proofs.MethodBuilding

/-! # Completing classes

With its initializer, the protocols that it conforms to and its table a class is complete; then it
is the turn of those that waited for it.  So whatever request for a class is made, everything that
it leads to keeps to the rules.
-/

namespace ObjectLang.Check

open Source Syntax Scope Names Diagnostic Checked

variable {src : Sources} {closed : Trust} {w : Work} {s t : State} {cls : ClassId}

/-- The record of the class that is being built is changed where the table of classes does not
look. -/
theorem Orderly.annotate (hs : Orderly src closed (w.begin cls) s)
    (hprogress : (s.program.classAt cls).inProgress = true) {u : ClassInst → ClassInst}
    (hsame : (s.program.classAt cls).SameTable (u (s.program.classAt cls)))
    (hstruct : (u (s.program.classAt cls)).struct = (s.program.classAt cls).struct)
    (htypeArgs : (u (s.program.classAt cls)).typeArgs = (s.program.classAt cls).typeArgs)
    (hdisplay : (u (s.program.classAt cls)).display = (s.program.classAt cls).display)
    (hvirtual : (u (s.program.classAt cls)).virtualMethods = (s.program.classAt cls).virtualMethods)
    (hinit : ∀ f, (u (s.program.classAt cls)).init = some f →
      f < s.program.functions.size ∧ (s.program.functionAt f).owner = some cls) :
    Orderly src closed (w.begin cls) { s with program := s.program.updateClass cls u } ∧
      Advances w s { s with program := s.program.updateClass cls u } := by
  have hlt := hs.lt_of_begin
  have hrecord : (s.program.updateClass cls u).classAt cls = u (s.program.classAt cls) := by
    rw [Program.classAt_updateClass _ cls hlt, if_pos rfl]
  have hrebuilds := rebuilds_updateClass hlt hstruct htypeArgs hdisplay
  have hsame (c : ClassId) :
      (s.program.classAt c).SameTable ((s.program.updateClass cls u).classAt c) := by
    by_cases hc : c = cls
    · rw [hc, hrecord]
      exact hsame
    · rw [hrebuilds.other c hc]
      exact .refl _
  refine ⟨hs.rebuild List.mem_cons_self hrebuilds
    (hs.table.congr hrebuilds.size hsame (.of_eq rfl))
    (fun hc => (hs.exact hc).congr hs.table (fun c => (hsame c).toSameSlots) (.of_eq rfl))
    (fun h => ((hs.uniform h).slots cls).congr (.of_eq rfl) (hsame cls).slotOwners)
    (fun _ _ _ => rfl)
    (hrecord ▸ hinit) ?_ ?_ ?_ ?_ (hs.reserve.congr hrebuilds.size (fun c => (hsame c).toSamePlace)
      fun c => (Program.built_congr hrebuilds.size (hsame c).inProgress).mpr),
    .rebuild (hs.not_known hprogress) hrebuilds⟩
  · rw [(hsame cls).methods]
    exact fun n f hf => hs.catalogue.generics hf
  · rw [(hsame cls).inProgress, hprogress]
    nofun
  · rw [(hsame cls).fields]
    exact fun hc => ((hs.typed hc).classes cls).fields
  · rw [hrecord, hvirtual]
    exact fun hc => ((hs.typed hc).classes cls).virtualMethods

/-! ### The initializer -/

theorem orderly_synthesizeInit {f : FuncId} (hs : Orderly src closed w s) (hcls : cls ∈ w.active)
    (h : synthesizeInit src cls s = some (f, t)) :
    Orderly src closed w t ∧ Advances w s t ∧ f < t.program.functions.size ∧
      (t.program.functionAt f).owner = some cls := by
  rw [synthesizeInit] at h
  rcases bind_some h with ⟨_, _, hget, h⟩
  cases hget
  rcases bind_some h with ⟨id, s1, h1, h⟩
  rcases bind_some h with ⟨_, s2, h2, h⟩
  cases h
  cases h2
  have hobject : (Ty.object cls).Within s.program :=
    fun c hc => Ty.object.inj hc ▸ hs.agenda.lt cls hcls
  rcases hs.addFunction h1 (fun _ => ⟨rfl, fun _ => rfl⟩) (fun _ => rfl)
    (fun _ => label_init (fun ht => hs.labels.displays ht cls) rfl rfl rfl)
    (fun _ c hc => congrArg (fun c => some (Ty.object c)) (Option.some.inj hc))
    (fun _ _ c hc => .inr (Option.some.inj hc ▸ hcls))
    (fun _ _ => ⟨nofun, fun ty hty => Option.some.inj hty ▸ hobject, nofun, nofun,
      Ty.within_primitive _⟩)
    (fun _ => ⟨rfl, fun b hb => ⟨rfl, _, (Option.some.inj hb).symm⟩⟩) with ⟨hs1, hst1, hlt, hself⟩
  have htask : TaskFits closed s1.program { function := f, env := {
      subst := classSubst src s.program cls
      ns := (src.tree.structureAt (s.program.classAt cls).struct).ns
      file := (src.tree.structureAt (s.program.classAt cls).struct).file
      cls := some cls, selfType := some (.object cls), depth := s.depth } } := by
    refine ⟨hlt, ?_, ?_, fun hc => (within_classSubst hs hc cls).mono hst1.classes⟩
    · rw [hself]
    · rw [hself]
      rfl
  rcases hs1.queueBody htask with ⟨ht, hst2⟩
  exact ⟨ht, hst1.trans hst2, hlt, by rw [hself]⟩

section

variable {request : ClassRequest} {struct : StructureId} (hr : Serves src closed request)
  (hreg : src.Regular)

include hr hreg

/-- Without a report there is an initializer. -/
theorem orderly_requestInit {r : Option FuncId} (hs : Orderly src closed w s)
    (hcls : cls ∈ w.active)
    (h : requestInit src request cls (src.tree.structureAt struct).init s = some (r, t)) :
    Orderly src closed w t ∧ Advances w s t ∧
      (∀ f, r = some f → f < t.program.functions.size ∧ (t.program.functionAt f).owner = some cls) ∧
      (t.Clean → r ≠ none) := by
  cases hinit : (src.tree.structureAt struct).init with
  | none =>
    rw [hinit] at h
    rcases map_some h with ⟨f, hf, rfl⟩
    rcases orderly_synthesizeInit hs hcls hf with ⟨ht, hst, hf⟩
    refine ⟨ht, hst, ?_, fun _ => nofun⟩
    rintro _ ⟨⟩
    exact hf
  | some symbol =>
    rw [hinit] at h
    rcases hreg.init hinit with ⟨hstruct, hkind⟩
    have hkey (_ : closed) : KeyWithin s.program
        { symbol, typeArgs := [], receiver := some (.object cls) } :=
      ⟨nofun, fun ty hty c hc => Ty.object.inj ((Option.some.inj hty).trans hc) ▸
        hs.agenda.lt cls hcls⟩
    rcases orderly_requestFunction hr hs hkey (fun _ => .inr ⟨cls, hcls, rfl⟩)
      (fun _ => bare_of_struct hstruct) h with ⟨ht, hst, hfound⟩
    refine ⟨ht, hst, fun f hf => ?_, requestFunction_ne_none rfl rfl (by rw [hkind]; nofun) h⟩
    rcases hfound f hf with ⟨hlt, hsat⟩
    refine ⟨hlt, ?_⟩
    rw [hsat.answers.owner, ownerOf, hstruct, hsat.receiver fun _ _ => ⟨cls, rfl⟩]

theorem orderly_buildInit (hs : Orderly src closed (w.begin cls) s)
    (hprogress : (s.program.classAt cls).inProgress = true)
    (h : buildInit src request cls struct s = some ((), t)) :
    Orderly src closed (w.begin cls) t ∧ Advances w s t ∧
      (t.program.classAt cls).inProgress = true ∧
      (t.Clean → (t.program.classAt cls).init ≠ none) := by
  rw [buildInit] at h
  rcases bind_some h with ⟨r, s1, h1, h⟩
  cases h
  rcases orderly_requestInit hr hreg hs List.mem_cons_self h1 with ⟨hs1, hst1, hf, hsome⟩
  have hprogress1 : (s1.program.classAt cls).inProgress = true := by
    rw [(hst1.kept (.inr List.mem_cons_self)).1]
    exact hprogress
  rcases hs1.annotate hprogress1 (u := fun c => { c with init := r })
    ⟨⟨⟨rfl, rfl, rfl, Nat.le_refl _⟩, rfl, rfl⟩, rfl, rfl, rfl⟩ rfl rfl rfl rfl hf with ⟨ht, hst2⟩
  have hrecord : (s1.program.updateClass cls fun c => { c with init := r }).classAt cls =
      { s1.program.classAt cls with init := r } := by
    rw [Program.classAt_updateClass _ cls hs1.lt_of_begin, if_pos rfl]
  refine ⟨ht, hst1.of_begin.trans hst2, ?_, ?_⟩
  · dsimp only
    rw [hrecord]
    exact hprogress1
  · dsimp only
    rw [hrecord]
    exact hsome

/-! ### Protocols -/

omit hreg

theorem orderly_checkConformance {subst : Subst} {clause : TypeExpr Mark}
    (hs : Orderly src closed (w.begin cls) s)
    (hprogress : (s.program.classAt cls).inProgress = true)
    (hsubst : closed → subst.Within s.program)
    (h : checkConformance src request cls struct subst clause s = some ((), t)) :
    Orderly src closed (w.begin cls) t ∧ Advances w s t ∧
      (t.program.classAt cls).inProgress = true ∧
      (t.program.classAt cls).init = (s.program.classAt cls).init := by
  rw [checkConformance] at h
  rcases bind_some h with ⟨ty, s1, h1, h⟩
  rcases orderly_resolveType hr hs hsubst h1 with ⟨hs1, hst1, -⟩
  have hkept := hst1.kept (c := cls) (.inr List.mem_cons_self)
  have hprogress1 : (s1.program.classAt cls).inProgress = true := by
    rw [hkept.1]
    exact hprogress
  have hinit1 : (s1.program.classAt cls).init = (s.program.classAt cls).init := by rw [hkept.1]
  have hst1 := hst1.of_begin
  -- What only reports leaves the class as it is.
  have hquiet {x : Checking Unit} (hx : Quiet x) (h : x s1 = some ((), t)) :
      Orderly src closed (w.begin cls) t ∧ Advances w s t ∧
        (t.program.classAt cls).inProgress = true ∧
        (t.program.classAt cls).init = (s.program.classAt cls).init := by
    rcases hx.orderly hs1 h with ⟨ht, hst⟩
    rw [(hx.reports h).program]
    exact ⟨ht, hst1.trans hst.of_begin, hprogress1, hinit1⟩
  cases ty with
  | unknown => exact hquiet (.pure _) h
  | primitive _ => exact hquiet (.reportFound _ _ _ _) h
  | object _ => exact hquiet (.reportFound _ _ _ _) h
  | enum _ => exact hquiet (.reportFound _ _ _ _) h
  | protocol named =>
    dsimp only at h
    cases hprotocol : (src.tree.structureAt named).decl.protocol? with
    | none =>
      rw [hprotocol] at h
      exact hquiet (.pure _) h
    | some protocol =>
      rw [hprotocol] at h
      rcases bind_some h with ⟨p, _, hget, h⟩
      cases hget
      rcases bind_some h with ⟨_, s2, h2, h⟩
      have hreport := (Quiet.forM fun _ => .report _).reports h2
      rcases hreport.orderly hs1 with ⟨hs2, hst2⟩
      have hst2 := hst1.trans hst2.of_begin
      rw [← hreport.program] at hprogress1 hinit1
      split at h
      · rcases bind_some h with ⟨_, s3, h3, h⟩
        cases h3
        rcases hs2.annotate hprogress1
          (u := fun c => { c with protocols := c.protocols ++ [named] })
          ⟨⟨⟨rfl, rfl, rfl, Nat.le_refl _⟩, rfl, rfl⟩, rfl, rfl, rfl⟩ rfl rfl rfl rfl
          (fun _ hf => hs2.catalogue.inits hf) with ⟨hs3, hst3⟩
        rcases hs3.addImplementor h with ⟨ht, hst4⟩
        have hrecord := (hst4.kept (c := cls) (.inr List.mem_cons_self)).1
        dsimp only at hrecord
        rw [Program.classAt_updateClass _ cls hs2.lt_of_begin, if_pos rfl] at hrecord
        refine ⟨ht, hst2.trans (hst3.trans hst4.of_begin), ?_, ?_⟩
        · rw [hrecord]
          exact hprogress1
        · rw [hrecord]
          exact hinit1
      · cases h
        exact ⟨hs2, hst2, hprogress1, hinit1⟩

theorem orderly_conformances {subst : Subst} {clauses : List (TypeExpr Mark)}
    (hs : Orderly src closed (w.begin cls) s)
    (hprogress : (s.program.classAt cls).inProgress = true)
    (hsubst : closed → subst.Within s.program)
    (h : clauses.forM (checkConformance src request cls struct subst) s = some ((), t)) :
    Orderly src closed (w.begin cls) t ∧ Advances w s t ∧
      (t.program.classAt cls).inProgress = true ∧
      (t.program.classAt cls).init = (s.program.classAt cls).init := by
  refine forM_some (fun _ u => Orderly src closed (w.begin cls) u ∧ Advances w s u ∧
    (u.program.classAt cls).inProgress = true ∧
    (u.program.classAt cls).init = (s.program.classAt cls).init) ?_
    ⟨hs, .refl w s, hprogress, rfl⟩ h
  rintro clause _ u v ⟨hu, hsu, hprogress, hinit⟩ hstep
  rcases orderly_checkConformance hr hu hprogress (fun hc => (hsubst hc).mono hsu.classes)
    hstep with ⟨hv, huv, hprogress', hinit'⟩
  exact ⟨hv, hsu.trans huv, hprogress', hinit'.trans hinit⟩

end

/-! ### The table -/

theorem orderly_finishClass (hs : Orderly src closed (w.begin cls) s)
    (hprogress : (s.program.classAt cls).inProgress = true)
    (hinit : s.Clean → (s.program.classAt cls).init ≠ none)
    (h : finishClass cls s = some ((), t)) :
    Orderly src closed (w.begin cls) t ∧ Advances w s t ∧ t.program.Built cls := by
  rw [finishClass] at h
  rcases bind_some h with ⟨p, _, hget, h⟩
  cases hget
  rcases bind_some h with ⟨_, s1, h1, h⟩
  have hlt := hs.lt_of_begin
  cases h1
  have hrebuilds := rebuilds_updateClass hlt (u := fun c => { c with
    vtable := c.slotOwners.map fun base => s.program.resolveOverride base cls,
    inProgress := false }) rfl rfl rfl
  have hrecord := Program.classAt_updateClass s.program cls hlt fun c => { c with
    vtable := c.slotOwners.map fun base => s.program.resolveOverride base cls, inProgress := false }
  rw [if_pos rfl] at hrecord
  have hfinish : s.program.Finishes _ cls :=
    ⟨hrebuilds.toSameButClass, Program.not_built hprogress, rfl, hrecord⟩
  have hs1 := hs.rebuild List.mem_cons_self hrebuilds (hfinish.classTable hs.table)
    (fun hc => hfinish.exact hs.table (hs.exact hc))
    (fun h => ((hs.uniform h).slots cls).congr (.of_eq rfl) (by rw [hrecord])) (fun _ _ _ => rfl)
    (by rw [hrecord]; exact fun f hf => hs.catalogue.inits hf)
    (by rw [hrecord]; exact fun n f hf => hs.catalogue.generics hf)
    (by rw [hrecord]; exact fun hc _ => hinit hc)
    (by rw [hrecord]; exact fun hc => ((hs.typed hc).classes cls).fields)
    (by rw [hrecord]; exact fun hc => ((hs.typed hc).classes cls).virtualMethods)
    (hs.reserve.congr hfinish.size (fun c => (hfinish.sameSlots c).toSamePlace)
      fun c => hfinish.built hfinish.unbuilt)
  have hbuilt : (s.program.updateClass cls _).Built cls := ⟨hrebuilds.size ▸ hlt, by rw [hrecord]⟩
  rcases hs1.closeClass (hrebuilds.size ▸ hlt) hrebuilds.struct hrebuilds.typeArgs h with ⟨ht, hst⟩
  refine ⟨ht, ?_, hst.built hbuilt⟩
  exact (Advances.rebuild (hs.not_known hprogress) hrebuilds).trans
    hst.of_begin

/-! ### A class and those that wait for it -/

section

variable {request : ClassRequest} (hr : Serves src closed request) (hreg : src.Regular)

include hr hreg

theorem orderly_buildClass {pending : Pending} {ancestor : Option ClassId}
    (hs : Orderly src closed (w.begin pending.cls) s)
    (hblank : (s.program.classAt pending.cls).Blank pending.cls)
    (hancestor : ∀ a, ancestor = some a → s.program.Built a)
    (hsigning : closed → Spares w s pending.cls)
    (h : buildClass src request pending ancestor s = some ((), t)) :
    Orderly src closed (w.begin pending.cls) t ∧ Advances w s t ∧ t.program.Built pending.cls := by
  rw [buildClass] at h
  rcases bind_some h with ⟨_, _, hget, h⟩
  cases hget
  rcases hs.catalogue.declared hs.lt_of_begin with ⟨decl, hdecl⟩
  dsimp only at h
  rw [hdecl] at h
  rcases bind_some h with ⟨_, s1, h1, h⟩
  cases h1
  rcases bind_some h with ⟨_, s2, h2, h⟩
  rcases bind_some h with ⟨_, s3, h3, h⟩
  rcases bind_some h with ⟨_, s4, h4, h⟩
  rcases bind_some h with ⟨_, s5, h5, h⟩
  rcases bind_some h with ⟨_, s6, h6, h⟩
  cases h
  have hsubst (hc : closed) := within_classSubst hs hc pending.cls
  rcases hs.setDepth pending.depth with ⟨hs1, hst1⟩
  have hst1 := hst1.of_begin
  rcases orderly_buildLayout hr hs1 hblank hancestor hsubst h2 with ⟨hs2, hst2, hbegun⟩
  have hsigning2 (hc : closed) : Spares w s2 pending.cls :=
    (hsigning hc).advance hs.signing (hst1.trans hst2)
  rcases orderly_buildMethods hs2 hr hreg (hreg.nodes hdecl) hsigning2 ⟨hbegun.struct, hbegun.init,
    hbegun.inProgress, fun n hn => absurd (hbegun.methods n) hn⟩ h3 with ⟨hs3, hst3, -, hprogress3⟩
  rcases orderly_buildInit hr hreg hs3 hprogress3 h4 with ⟨hs4, hst4, hprogress4, hinit4⟩
  have hst14 := hst1.trans (hst2.trans (hst3.trans hst4))
  rcases orderly_conformances hr hs4 hprogress4 (fun hc => (hsubst hc).mono hst14.classes) h5 with
    ⟨hs5, hst5, hprogress5, hinit5⟩
  rcases orderly_finishClass hs5 hprogress5 (fun hc => hinit5 ▸ hinit4 (hst5.clean hc)) h6 with
    ⟨hs6, hst6, hbuilt⟩
  rcases hs6.setDepth s.depth with ⟨ht, hst7⟩
  refine ⟨ht, ?_, hbuilt⟩
  exact hst14.trans (hst5.trans (hst6.trans hst7.of_begin))

/-- Each of several classes that are next in line is completed, and nothing of the others is
changed. -/
theorem orderly_completeClass {fuel : Nat} {pending : Pending} {ancestor : Option ClassId}
    (hs : Orderly src closed (w.begin pending.cls) s)
    (hblank : (s.program.classAt pending.cls).Blank pending.cls)
    (hancestor : ∀ a, ancestor = some a → s.program.Built a)
    (hsigning : closed → Spares w s pending.cls)
    (h : completeClass src request fuel pending ancestor s = some ((), t)) :
    Orderly src closed w t ∧ Advances w s t := by
  induction fuel generalizing w s t pending ancestor with
  | zero => cases h
  | succ fuel ih =>
    rw [completeClass] at h
    rcases bind_some h with ⟨_, s1, h1, h⟩
    rcases bind_some h with ⟨ds, s2, h2, h⟩
    rcases orderly_buildClass hr hreg hs hblank hancestor hsigning h1 with ⟨hs1, hst1, hbuilt⟩
    rcases hs1.takeWaiting hbuilt h2 with ⟨hs2, hst2, hprogram, hblanks, hspares⟩
    -- The rest of the list is active, so its classes stay blank.
    have hrun := forM_some (fun rest u =>
      Orderly src closed { w with active := rest.map (·.cls) ++ w.active } u ∧ Advances w s2 u ∧
        u.program.Built pending.cls ∧ (∀ d ∈ rest, (u.program.classAt d.cls).Blank d.cls) ∧
        (closed → ∀ d ∈ rest, Spares w u d.cls)) ?_
      ⟨hs2, .refl w s2, hprogram ▸ hbuilt, hblanks, hspares⟩ h
    · exact ⟨hrun.1, hst1.trans (hst2.trans hrun.2.1)⟩
    · rintro d rest u v ⟨hu, hsu, hbuilt, hblanks, hspares⟩ hstep
      rcases ih (w := { w with active := rest.map (·.cls) ++ w.active }) hu
        (hblanks d List.mem_cons_self) (by rintro _ ⟨⟩; exact hbuilt)
        (fun hc => hspares hc d List.mem_cons_self) hstep with ⟨hv, huv⟩
      refine ⟨hv, hsu.trans (huv.weaken (List.subset_append_right _ _) fun _ h => h),
        huv.built hbuilt, fun d' hd' => ?_, fun hc d' hd' => ?_⟩
      · refine (hblanks d' (List.mem_cons_of_mem d hd')).kept (huv.kept (.inr ?_))
        exact List.mem_append_left _ (List.mem_map_of_mem hd')
      · exact (hspares hc d' (List.mem_cons_of_mem d hd')).advance hu.signing huv

end

end ObjectLang.Check
