import ObjectLang.Proofs.Functions
import ObjectLang.Proofs.StageTrees

/-! # Functions are well formed

The code of a typed function can be emitted, unless a new literal would get the name of a function,
and it is well formed.
-/

namespace ObjectLang.Checked

/-- Every class is complete, and its fields hold values. -/
def Program.isLaidOut (p : Program) : Bool :=
  p.classes.all fun c => !c.inProgress && c.fields.all (·.ty.isValue)

end ObjectLang.Checked

namespace ObjectLang.Code

open Syntax Checked Simulation

variable {cx : Context} {sig : Signature} {base : Array String}

/-! ### The slots of locals -/

variable (cx sig base) in
/-- The emitter is in the first block, and some locals have their slots. -/
structure Opening (done : List LocalInst) (s : Emitter) : Prop where
  charted : Charted cx.program cx.ptr (fun _ => ∅) {0} s.nextValue (s.code sig)
  size : s.blocks.size = 1
  current : s.current = 0
  params : (s.blockAt 0).params = (List.range sig.params.length).zip sig.params
  slots : List.Forall₂ (fun l t => machineType cx.ptr l.ty = .ok (some t)) done s.slots.toList
  scopes : s.scopes = []
  literals : s.literals = base

theorem opening_entry (cx : Context) (sig : Signature) (base : Array String) :
    Opening cx sig base [] (entry ((List.range sig.params.length).zip sig.params) base) := by
  set ps := (List.range sig.params.length).zip sig.params with hps
  have hids : ps.map (·.1) = List.range sig.params.length := by simp [hps, List.map_fst_zip]
  have hlength : ps.length = sig.params.length := by simp [hps]
  have hblocks (b : BlockId) (hb : b < (Emitter.code sig (entry ps base)).blocks.size) : b = 0 :=
    Nat.lt_one_iff.mp hb
  have hdefs : (Block.mk ps #[]).definitions cx.program cx.ptr = ps := List.append_nil ps
  refine ⟨⟨?_, ?_, ?_, ?_, ?_, ?_, ?_⟩, rfl, rfl, rfl, .nil, rfl, rfl⟩
  · rintro b hb hn
    exact absurd (hblocks b hb) hn
  · rintro b hb - i hi
    obtain rfl := hblocks b hb
    cases hi
  · rintro b hb
    obtain rfl := hblocks b hb
    trivial
  · rintro b hb
    obtain rfl := hblocks b hb
    change ((Block.mk ps #[]).definitions cx.program cx.ptr |>.map (·.1)).Nodup
    rw [hdefs, hids]
    exact List.nodup_range
  · rintro a ha b hb - - - - -
    rw [hblocks a ha, hblocks b hb]
  · rintro b hb d hd
    obtain rfl := hblocks b hb
    change d ∈ (Block.mk ps #[]).definitions cx.program cx.ptr at hd
    rw [hdefs] at hd
    have hmem : d.1 ∈ List.range sig.params.length := hids ▸ List.mem_map_of_mem hd
    exact Nat.lt_of_lt_of_eq (List.mem_range.mp hmem) hlength.symm
  · rintro b - d hd
    cases hd

namespace Opening

variable {done : List LocalInst} {s : Emitter} {l : LocalInst} {t : MachineType}

section

variable (h : Opening cx sig base done s)

include h

theorem inside : s.Inside := by
  rw [Emitter.Inside, h.current, h.size]
  exact Nat.zero_lt_one

theorem withSlot (ht : machineType cx.ptr l.ty = .ok (some t)) :
    Opening cx sig base (done ++ [l]) (s.withSlot t) :=
  { h with
    charted := h.charted.congr rfl ⟨[t], by simp [Emitter.withSlot]⟩ (Nat.le_refl _)
      (fun _ _ => rfl) fun _ _ => Iff.rfl
    slots := by
      rw [Emitter.withSlot, Array.toList_push]
      exact List.rel_append h.slots (.cons ht .nil) }

/-- An instruction with at most a new value as its result. -/
theorem push {i : Instr} {n : ValueId} (hn : s.nextValue ≤ n)
    (hterm : i.isTerminator = false)
    (hresult : ∀ d, i.result cx.program cx.ptr = some d → s.nextValue ≤ d.1 ∧ d.1 < n)
    (hfits : i.Fits cx.program cx.ptr (s.code sig)
      { d | d ∈ (s.blockAt 0).definitions cx.program cx.ptr }) :
    Opening cx sig base done ((s.withValues n).push i) where
  charted := by
    refine h.charted.push (s := s.withValues n) h.inside h.current ?_
      (by simp [Instr.targets_eq_nil hterm]) hn hresult (by simp [hterm])
    rw [Chart.behind, Set.empty_union, Emitter.code_blockAt]
    exact h.current ▸ hfits
  size := (Emitter.push_blocks_size _ i).trans h.size
  current := h.current
  params := by
    rw [Emitter.push_blockAt]
    split
    · next heq =>
      rw [← h.params]
      rfl
    · exact h.params
  slots := h.slots
  scopes := h.scopes
  literals := h.literals

theorem mem_push {i : Instr} {n : ValueId} {d : ValueId × MachineType}
    (hd : i.result cx.program cx.ptr = some d) :
    d ∈ (((s.withValues n).push i).blockAt 0).definitions cx.program cx.ptr := by
  have hat := (s.withValues n).push_blockAt_current i h.inside
  rw [show (s.withValues n).current = 0 from h.current] at hat
  rw [hat, Block.definitions_push, hd]
  exact List.mem_append_right _ List.mem_cons_self

theorem localSlot (hr : Ready cx sig)
    (ht : machineType cx.ptr l.ty = .ok (some t)) :
    Opening cx sig base (done ++ [l]) (Simulation.localSlot cx.ptr t l s) := by
  have hslot := h.withSlot ht
  rw [Simulation.localSlot]
  split
  · next href =>
    obtain rfl : t = cx.ptr :=
      Option.some.inj (Except.ok.inj (ht.symm.trans (machineType_of_isReference href)))
    have hnull := hslot.push (i := .intConst s.nextValue cx.ptr 0) (Nat.le_succ s.nextValue) rfl
      (by simp [Instr.result, Emitter.withSlot]) ⟨hr.ptr_isFloat, cx.ptr.holds_zero⟩
    refine hnull.push (Nat.le_refl _) rfl (by simp [Instr.result]) ⟨cx.ptr, ?_, ?_⟩
    · simp [Emitter.code, Emitter.push, Emitter.withValues, Emitter.withSlot]
    · exact hslot.mem_push (n := s.nextValue + 1) rfl
  · exact hslot

end

end Opening

theorem emitLocals_run {l : LocalInst} {t : MachineType}
    (ht : machineType cx.ptr l.ty = .ok (some t)) (ls : List LocalInst) (s : Emitter) :
    emitLocals cx (l :: ls) s = emitLocals cx ls (localSlot cx.ptr t l s) := by
  rw [emitLocals, List.forM, valueType_eq_ok.mpr ht, localSlot]
  cases l.ty.isReference <;> rfl

theorem emitLocals_opening (hr : Ready cx sig) {ls done : List LocalInst} {s : Emitter}
    (hls : ∀ l ∈ ls, l.ty.isValue = true) (h : Opening cx sig base done s) :
    ∃ s', emitLocals cx ls s = .ok ((), s') ∧ Opening cx sig base (done ++ ls) s' := by
  induction ls generalizing done s with
  | nil => exact ⟨s, rfl, by rwa [List.append_nil]⟩
  | cons l ls ih =>
    rw [List.forall_mem_cons] at hls
    obtain ⟨t, ht⟩ := exists_machineType cx.ptr hls.1
    obtain ⟨s', hrun, hs'⟩ := ih hls.2 (h.localSlot hr ht)
    exact ⟨s', (emitLocals_run ht ls s).trans hrun, by rwa [List.append_assoc] at hs'⟩

/-! ### The start of a function -/

theorem range_zip_forall₂ {tys : List Ty} {ts : List MachineType} {T : Supply}
    (h : List.Forall₂ (fun ty t => machineType cx.ptr ty = .ok (some t)) tys ts) {k : Nat}
    (hT : ∀ d ∈ (List.range' k ts.length).zip ts, d ∈ T) :
    List.Forall₂ (fun v ty => ∃ t, machineType cx.ptr ty = .ok (some t) ∧ (v, t) ∈ T)
      (List.range' k ts.length) tys := by
  induction h generalizing k with
  | nil => exact .nil
  | cons hty _ ih =>
    rw [List.length_cons, List.range'_succ, List.zip_cons_cons, List.forall_mem_cons] at hT
    rw [List.length_cons, List.range'_succ]
    exact .cons ⟨_, hty, hT.1⟩ (ih hT.2)

/-- Behind the slots of all locals the first scope is opened. -/
def Opening.world (s : Emitter) : World := ⟨fun _ => ∅, { s with scopes := [[]] }⟩

namespace Opening

variable {s : Emitter}

theorem passed (h : Opening cx sig base cx.function.locals s) (hr : Ready cx sig) :
    List.Forall₂ ((world s).Has cx) (List.range sig.params.length) (passedTypes cx.function) := by
  have hmem : ∀ d ∈ (List.range' 0 sig.params.length).zip sig.params, d ∈ (world s).here cx := by
    intro d hd
    rw [← List.range_eq_range', ← h.params] at hd
    refine .inr ?_
    change d ∈ (s.blockAt s.current).definitions cx.program cx.ptr
    rw [h.current]
    exact List.mem_append_left _ hd
  have hall := range_zip_forall₂ (signature_ok hr.signature).1 hmem
  rwa [← List.range_eq_range'] at hall

theorem stage (h : Opening cx sig base cx.function.locals s) (hr : Ready cx sig) :
    Stage cx sig base ∅ (world s) where
  drawn :=
    { charted := h.charted.congr rfl List.prefix_rfl (Nat.le_refl _) (fun _ _ => rfl) fun b _ => by
        simp [world, h.current]
      locals := fun id l hid => by
        obtain ⟨t, hslot, ht⟩ := getElem?_of_forall₂ h.slots hid
        exact ⟨t, ht, by simpa [world] using hslot⟩
      literals := ⟨[], by simp [world, h.literals], .nil, by simp⟩ }
  inside := h.inside
  apart := Set.notMem_empty _
  pending := by simp
  scopes := by simp [world]
  active := by simp [world]
  self v ty hv hty := by
    have hpassed := h.passed hr
    rw [Context.receiver?, hty] at hv
    cases hv
    rw [passedTypes, hty, signature_length hr.signature, passedTypes, hty] at hpassed
    simp only [Option.toList_some, List.cons_append, List.length_cons, List.range_succ_eq_map]
      at hpassed
    exact (List.forall₂_cons.mp hpassed).1

end Opening

/-! ### Bodies -/

variable {pending : Set BlockId} {W : World}

theorem localType_of_paramsTyped {f : FuncInst} (h : paramsTyped f = true) :
    ∀ q ∈ f.params, f.localType q.id = some q.ty := by
  intro q hq
  obtain ⟨k, hk, rfl⟩ := List.mem_iff_getElem.mp hq
  simp only [paramsTyped, List.all_eq_true, Bool.and_eq_true, beq_iff_eq] at h
  obtain ⟨hid, hty⟩ :=
    h (f.params[k], k) (List.mem_zipIdx_iff_getElem?.mpr (List.getElem?_eq_getElem hk))
  exact hid.symm ▸ hty

namespace Stage

theorem emitParams (assigned : List LocalId) {params : List ParamInst} {ids : List ValueId}
    (hparams : ∀ q ∈ params, cx.function.localType q.id = some q.ty)
    (hs : Stage cx sig base pending W) (hids : List.Forall₂ (W.Has cx) ids (params.map (·.ty))) :
    Builds cx sig base pending (Code.emitParams cx assigned (params.zip ids)) W
    fun _ _ => True := by
  induction params generalizing ids W with
  | nil => exact .pure hs trivial
  | cons q params ih =>
    rw [List.map_cons] at hids
    rw [List.forall_mem_cons] at hparams
    cases hids with
    | cons hv hids =>
      rw [List.zip_cons_cons, Code.emitParams, List.forM]
      have hown {W' : World} (hs' : Stage cx sig base pending W') (href : q.ty.isReference = true) :
          Builds cx sig base pending (Code.own (.slot q.id)) W' fun _ _ => True :=
        hs'.own (q := .slot q.id) (hs'.slot_ptr hparams.1 href)
      refine Builds.bind (Q := fun _ _ => True) ?_ fun _ W1 _ hs1 hl1 _ =>
        ih hparams.2 hs1 (hids.imp fun _ _ h => hl1.has h)
      refine .lift (hs.slot hparams.1).1
        ((hs.setLocal hparams.1 hv).bind fun _ W1 _ hs1 hl1 _ => ?_)
      refine .ite (fun hassigned => ?_) fun _ => .pure hs1 trivial
      rw [Bool.and_eq_true] at hassigned
      refine (hs1.retain (hl1.here (hv.mem_ptr hassigned.1))).bind fun _ W2 _ hs2 _ _ => ?_
      exact hown hs2 hassigned.1

theorem fieldInits (hr : Ready cx sig) {c : ClassId} {inits : List FieldInit}
    (h : inits.all (fieldInitTyped cx.program cx.function c))
    (hn : inits.flatMap (·.value.nodes) ⊆ cx.function.nodes) (hs : Stage cx sig base pending W)
    {object : ValueId} (hobject : (object, cx.ptr) ∈ W.here cx) :
    Builds cx sig base pending (inits.forM fun init => do
        let v ← Code.needed cx init.value (lowerExpr cx init.value)
        Code.storeField cx object c init.index v) W fun _ _ => True := by
  induction inits generalizing W with
  | nil => exact .pure hs trivial
  | cons init inits ih =>
    simp only [List.all_cons, fieldInitTyped, Bool.and_eq_true, Option.any_eq_true] at h
    obtain ⟨⟨hvalue, ty, hfield, hfits⟩, hinits⟩ := h
    rw [List.flatMap_cons, List.append_subset] at hn
    obtain ⟨field, -, htype, -⟩ := hr.field hfield
    rw [List.forM]
    refine Builds.bind (Q := fun _ _ => True) ?_ fun _ W1 _ hs1 hl1 _ =>
      ih hinits hn.2 hs1 (hl1.here hobject)
    refine (hs.neededFor hvalue hfits (isValue_of_machineType htype)
      (lowerExpr_builds hr init.value hvalue hn.1 hs)).bind fun v W1 _ hs1 hl1 hv => ?_
    exact hs1.storeField hr hfield (hl1.here hobject) hv

theorem emitFieldInits (hr : Ready cx sig) (h : initTyped cx.program cx.function)
    (hkind : cx.function.kind = .init) (hs : Stage cx sig base pending W) :
    Builds cx sig base pending (Code.emitFieldInits cx) W fun _ _ => True := by
  rw [initTyped, hkind] at h
  cases hc : cx.function.owner with
  | none =>
    rw [hc] at h
    cases h
  | some c =>
    simp only [hc, Bool.and_eq_true, beq_iff_eq] at h
    have hreceiver : cx.receiver? = some 0 := by
      rw [Context.receiver?, h.1]
      rfl
    rw [Code.emitFieldInits, hreceiver, hc]
    exact hs.fieldInits hr h.2 (List.subset_append_right _ _)
      ((hs.self 0 _ hreceiver h.1).mem_ptr rfl)

theorem closeDead (hs : Stage cx sig base pending W) (hdead : W.emitter.dead = true) :
    Closes cx sig base pending Code.closeDead W := by
  have h := hs.trap hdead ()
  rwa [bind_pure] at h

/-- On a live path the body has the result that the function returns. -/
theorem returns {body : Checked.Block} (h : blockTyped cx.program cx.function body)
    (hresult : resultTyped cx.program cx.function body) (hs : Stage cx sig base pending W)
    {r : Option ValueId} {W' : World} (hrun : lowerBlock cx body W.emitter = .ok (r, W'.emitter))
    (hlive : W'.emitter.dead = false) (hr : ∀ v, r = some v → W'.Has cx v body.ty) :
    cx.function.returnType.isVoid = true ∨ ∃ v, r = some v ∧
    W'.Has cx v cx.function.returnType := by
  simp only [resultTyped, Bool.or_eq_true, Option.any_eq_true] at hresult
  obtain (hvoid | hd) | ⟨e, he, hfits⟩ := hresult
  · exact .inl hvoid
  · have hdead := lowerBlock_dies body (formed_of_blockTyped body h) hd _ _ _ hrun hs.inside
    rw [hlive] at hdead
    cases hdead
  · by_cases hvoid : cx.function.returnType.isVoid = true
    · exact .inl hvoid
    · obtain ⟨stmts, tail, ty, d, span⟩ := body
      obtain rfl : tail = some e := he
      obtain ⟨⟨-, rfl⟩, -⟩ : (_ ∧ ty = e.ty) ∧ _ := by
        simpa only [blockTyped, Bool.and_eq_true, beq_iff_eq] using h
      have hty := Program.isVoid_of_fits hfits (by simpa using hvoid)
      have hyields := lowerBlock_yields rfl _ (formed_of_blockTyped _ h) (.inl hty)
      obtain ⟨v, rfl⟩ := Option.isSome_iff_exists.mp (hyields _ _ _ hrun hs.inside hlive)
      exact .inr ⟨v, rfl, (hr v rfl).fits hfits⟩

theorem emitTail (hr : Ready cx sig) {body : Checked.Block}
    (h : blockTyped cx.program cx.function body)
    (hn : body.nodes ⊆ cx.function.nodes) (hresult : resultTyped cx.program cx.function body)
    (hs : Stage cx sig base pending W) :
    Closes cx sig base pending (Simulation.emitTail cx body) W := by
  refine Closes.bind (lowerBlock_builds hr body h hn hs) fun r W1 hrun hs1 _ hvalue => ?_
  refine .isDead (.ite (hs1.closeDead ·) fun hlive => ?_)
  have hvalue : Option.Rel (fun v t => (v, t) ∈ W1.here cx)
      (if cx.function.returnType.isVoid then none else r) sig.result := by
    obtain hvoid | ⟨v, rfl, hv⟩ := hs.returns h hresult hrun (by simpa using hlive) hvalue
    · rw [if_pos hvoid]
      exact hr.returns_none hvoid
    · split
      · next hvoid => exact hr.returns_none hvoid
      · exact hr.returns_some hv
  exact Closes.bind (hs1.emitReturn hr hvalue) fun _ W2 hrun2 hs2 _ _ =>
    hs2.closeDead (Dies.emitReturn _ _ _ _ hrun2 hs1.inside)

theorem emitBody (hr : Ready cx sig) (htyped : functionTyped cx.program cx.function)
    {body : Checked.Block} (hbody : cx.function.body = some body) (hs : Stage cx sig base pending W)
    {ids : List ValueId} (hids : List.Forall₂ (W.Has cx) ids cx.function.paramTypes) :
    Closes cx sig base pending (Simulation.emitBody cx body ids) W := by
  simp only [functionTyped, hbody, Option.any_some, Bool.and_eq_true] at htyped
  obtain ⟨⟨⟨-, hparams⟩, hinit⟩, hblock, hresult⟩ := htyped
  have hn : body.nodes ⊆ cx.function.nodes := by
    rw [FuncInst.nodes, hbody]
    exact List.subset_append_left _ _
  refine Closes.bind (hs.emitParams _ (localType_of_paramsTyped hparams) hids)
    fun _ W1 _ hs1 _ _ => ?_
  refine .ite (fun hkind => ?_) fun _ => hs1.emitTail hr hblock hn hresult
  exact Closes.bind (hs1.emitFieldInits hr hinit hkind) fun _ W2 _ hs2 _ _ =>
    hs2.emitTail hr hblock hn hresult

end Stage

/-! ### Whole functions -/

theorem emitFunction_run {body : Checked.Block} (hbody : cx.function.body = some body)
    {literals : Array String} {s : Emitter}
    (hlocals : emitLocals cx cx.function.locals
      (entry ((List.range sig.params.length).zip sig.params) literals) = .ok ((), s)) :
    emitFunction cx sig { literals } = Simulation.emitBody cx body
      (passedIds cx.function sig.params.length) { s with scopes := [] :: s.scopes } := by
  have hparams := addParams_entry sig.params [] literals
  rw [List.length_nil, List.nil_append, ← List.range_eq_range'] at hparams
  unfold emitFunction
  simp only [hbody]
  change (sig.params.mapM (addParam 0) (entry [] literals) >>= fun r => _) = _
  rw [except_ok_bind hparams]
  change (emitLocals cx cx.function.locals
    (entry ((List.range sig.params.length).zip sig.params) literals) >>= fun r => _) = _
  rw [except_ok_bind hlocals]
  rfl

/-- The values of the parameters are of their types. -/
theorem passed_params {s : Emitter} (h : Opening cx sig base cx.function.locals s)
    (hr : Ready cx sig) :
    List.Forall₂ ((Opening.world s).Has cx) (passedIds cx.function sig.params.length)
      cx.function.paramTypes := by
  have hpassed := h.passed hr
  rw [passedIds]
  cases hf : cx.function.receiver with
  | none =>
    rw [passedTypes, hf] at hpassed
    exact hpassed
  | some ty =>
    rw [passedTypes, hf, Option.toList_some, List.singleton_append] at hpassed
    obtain ⟨v, vs, -, hvs, heq⟩ := List.forall₂_cons_right_iff.mp hpassed
    rw [heq]
    exact hvs

theorem emitFunction_builds (hr : Ready cx sig) (htyped : functionTyped cx.program cx.function)
    (literals : Array String) :
    (∃ e, emitFunction cx sig { literals } = .ok ((), e) ∧ e.scopes.length = 1 ∧
        (e.code sig).WellFormed cx.program cx.ptr) ∨
      ∃ e, emitFunction cx sig { literals } = .error e ∧ Clash cx literals e := by
  have htyped' := htyped
  simp only [functionTyped, Bool.and_eq_true, Option.any_eq_true, List.all_eq_true] at htyped'
  obtain ⟨⟨⟨⟨⟨hlocals, -⟩, -⟩, -⟩, -⟩, body, hbody, -⟩ := htyped'
  obtain ⟨s, hrun, hopen⟩ := emitLocals_opening hr hlocals (opening_entry cx sig literals)
  rw [List.nil_append] at hopen
  have heq := emitFunction_run hbody hrun
  rw [hopen.scopes] at heq
  have hs := hopen.stage hr
  obtain ⟨e, hfail, hclash⟩ | ⟨_, e, Γ, hok, hd, hl, hactive⟩ :=
    (hs.emitBody hr htyped hbody (passed_params hopen hr)).cases
  · exact .inr ⟨e, heq.trans hfail, hclash⟩
  · have hemitted := Emits.emitBody body _ _ _ _ hok hs.inside
    have hsize : 0 < e.blocks.size := Nat.lt_of_lt_of_le (hopen.size ▸ Nat.zero_lt_one) hl.size
    have hentry : Γ 0 = ∅ := hl.chart 0 (hopen.size ▸ Nat.zero_lt_one)
    have hparams : (e.blockAt 0).params.map (·.2) = sig.params := by
      rw [params_of_grows hemitted.grows (hopen.size ▸ Nat.zero_lt_one)]
      change (s.blockAt 0).params.map (·.2) = sig.params
      rw [hopen.params, List.map_snd_zip (by simp)]
    refine .inl ⟨e, heq.trans hok, ?_, hd.charted.wellFormed hsize hentry hparams⟩
    obtain ⟨scope, outer, hscopes⟩ := List.exists_cons_of_ne_nil hactive
    have htail : outer = [] := by simpa [hscopes, Opening.world] using hemitted.scopes
    rw [hscopes, htail]
    rfl

theorem exists_place (ptr : MachineType) {fields : List FieldInst}
    (h : ∀ f ∈ fields, f.ty.isValue = true) (cursor : Nat) :
    ∃ placed, Layout.place ptr cursor fields = .ok placed := by
  induction fields generalizing cursor with
  | nil => exact ⟨_, rfl⟩
  | cons f fields ih =>
    rw [List.forall_mem_cons] at h
    obtain ⟨t, ht⟩ := exists_machineType ptr h.1
    obtain ⟨placed, hplaced⟩ := ih h.2 (alignUp cursor t.bytes + t.bytes)
    rw [Layout.place, valueType_eq_ok.mpr ht]
    exact ⟨_, except_ok_bind hplaced _⟩

theorem exists_layouts (ptr : MachineType) {p : Program} (h : p.isLaidOut = true) :
    ∃ ls, layouts ptr p = .ok ls := by
  refine exists_mapM_ok fun c hc => ?_
  rw [Program.isLaidOut, Array.all_eq_true_iff_forall_mem] at h
  have hclass := h c (Array.mem_def.mpr hc)
  simp only [Bool.and_eq_true, Bool.not_eq_true', List.all_eq_true] at hclass
  obtain ⟨placed, hplaced⟩ := exists_place ptr hclass.2 Layout.headerSize
  rw [Layout.ofClass, hclass.1]
  exact ⟨_, except_ok_bind hplaced _⟩

theorem signature_of_functionTyped (ptr : MachineType) {p : Program} {f : FuncInst}
    (h : functionTyped p f = true) : ∃ sig, signature ptr f = .ok sig := by
  simp only [functionTyped, Bool.and_eq_true, List.all_eq_true, Bool.not_eq_true'] at h
  obtain ⟨⟨⟨⟨⟨hlocals, hself⟩, hreturn⟩, hparams⟩, -⟩, -⟩ := h
  refine exists_signature ptr (fun ty hty => ?_) (by simpa [Ty.isUnknown] using hreturn)
  rw [passedTypes, List.mem_append, Option.mem_toList] at hty
  obtain hty | hty := hty
  · rw [hty] at hself
    exact hself
  · obtain ⟨q, hq, rfl⟩ := List.mem_map.mp hty
    have hlocal := localType_of_paramsTyped hparams q hq
    rw [FuncInst.localType, Option.map_eq_some_iff] at hlocal
    obtain ⟨l, hl, hty⟩ := hlocal
    exact hty ▸ hlocals l (List.mem_of_getElem? hl)

/-- The code of a typed function can be emitted and is well formed; one scope is left open.  The
only failure is that a new literal would get a name that a function of the module has. -/
theorem emitFunction_wellFormed {p : Program} {f : FuncInst} {ptr : MachineType}
    (hptr : ptr = .i32 ∨ ptr = .i64) (htyped : functionTyped p f = true)
    (hnodes : f.nodes.all (·.isGrounded p) = true) (hclasses : p.isLaidOut = true)
    (names : Std.TreeSet String) (literals : Array String) :
    ∃ ls sig, layouts ptr p = .ok ls ∧ signature ptr f = .ok sig ∧
      ((∃ e, emitFunction ⟨p, ptr, ls, names, f⟩ sig { literals } = .ok ((), e) ∧
      e.scopes.length = 1 ∧
          (e.code sig).WellFormed p ptr) ∨
        (emitFunction ⟨p, ptr, ls, names, f⟩ sig { literals } = .error .clash ∧
          ∃ k, literals.size ≤ k ∧ k < literals.size + f.texts.length ∧
            names.contains (literalName k) = true)) := by
  obtain ⟨ls, hls⟩ := exists_layouts ptr hclasses
  obtain ⟨sig, hsig⟩ := signature_of_functionTyped ptr htyped
  have hr : Ready ⟨p, ptr, ls, names, f⟩ sig := ⟨hptr, hls, hsig, List.all_eq_true.mp hnodes⟩
  refine ⟨ls, sig, hls, hsig, (emitFunction_builds hr htyped literals).imp_right ?_⟩
  rintro ⟨e, he, rfl, hname⟩
  exact ⟨he, hname⟩

/-- Appends to a string in a loop that a return inside an operand may leave. -/
def weave : FuncInst where
  symbol := none
  name := "weave"
  kind := .free
  params := [⟨"n", .i64, 0⟩, ⟨"stop", .bool, 1⟩]
  locals := [⟨"n", .i64, default⟩, ⟨"stop", .bool, default⟩, ⟨"s", .string, default⟩]
  body := some (.mk
    [.bind 2 (some (.str ⟨.string, default⟩ "a")),
      .loop (.binary ⟨.bool, default⟩ .or (.var ⟨.bool, default⟩ 1)
          (.binary ⟨.bool, default⟩ .lt (.int ⟨.i64, default⟩ 0) (.var ⟨.i64, default⟩ 0)))
        (.mk [.setVar 2 (.binary ⟨.string, default⟩ .add (.var ⟨.string, default⟩ 2)
            (.str ⟨.string, default⟩ "b")),
          .setVar 0 (.binary ⟨.i64, default⟩ .sub (.var ⟨.i64, default⟩ 0)
            (.cond ⟨.i64, default⟩ (.var ⟨.bool, default⟩ 1)
              (.mk [.ret (some (.var ⟨.string, default⟩ 2))] none .void true default)
              (some (.mk [] (some (.int ⟨.i64, default⟩ 1)) .i64 false default))))]
          none .void false default)]
    (some (.var ⟨.string, default⟩ 2)) .string false default)
  returnType := .string
  span := default

theorem weave_wellFormed :
    ∃ e, emitFunction ⟨{ functions := #[weave] }, .i64, [], {"weave"}, weave⟩
        ⟨[.i64, .i8], some .i64⟩ {} = .ok ((), e) ∧ e.scopes.length = 1 ∧
      (e.code ⟨[.i64, .i8], some .i64⟩).WellFormed { functions := #[weave] } .i64 := by
  obtain ⟨ls, sig, hls, hsig, h⟩ := emitFunction_wellFormed (p := { functions := #[weave] })
    (f := weave)
    (.inr rfl) (by decide +kernel) (by decide +kernel) (by decide +kernel) {"weave"} #[]
  cases hls
  cases hsig
  refine h.resolve_right ?_
  rintro ⟨-, k, -, hk, hname⟩
  have htwo : k < 2 := hk
  have hno : ∀ k < 2, ({"weave"} : Std.TreeSet String).contains (literalName k) = false := by
    decide +kernel
  rw [hno k htwo] at hname
  cases hname

/-- A function that has the name of the first literal. -/
def named : Program where
  functions := #[
    { symbol := none, name := "str$0", linkName := "str$0", kind := .free, returnType := .i64
      body := some (.mk [] (some (.int ⟨.i64, default⟩ 1)) .i64 false default), span := default },
    { symbol := none, name := "main", linkName := "main", kind := .free, returnType := .string
      body := some (.mk [] (some (.str ⟨.string, default⟩ "a")) .string false default),
      span := default }]

theorem generate_named :
    (named.functions.all fun f => functionTyped named f && f.nodes.all (·.isGrounded named)) =
    true ∧
      named.isLaidOut = true ∧ generate .i64 named = .error (Error.clash.within default) := by
  refine ⟨by decide +kernel, by decide +kernel, ?_⟩
  have hfails : (match generate .i64 named with
      | .ok _ => false
      | .error e => decide (e = Error.clash.within default)) = true := by decide +kernel
  cases h : generate .i64 named with
  | ok m =>
    rw [h] at hfails
    cases hfails
  | error e =>
    rw [h] at hfails
    rw [of_decide_eq_true hfails]

end ObjectLang.Code
