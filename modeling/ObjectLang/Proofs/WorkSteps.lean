import ObjectLang.Proofs.Work

/-! # Single changes to a state in order

For each change that a check makes to its state: the state stays in order, and the change is one
that the work begun further out may meet with.
-/

namespace ObjectLang.Check

open Source Syntax Scope Names Diagnostic Checked

variable {src : Sources} {closed : Trust} {w w' : Work} {s t : State} {cls : ClassId}

/-! ### Outside the program -/

section

variable (hs : Orderly src closed w s)

include hs

/-- The program is the same, and nothing was added to the lists of work. -/
theorem Orderly.of_program (hprogram : t.program = s.program)
    (hwaiting : t.waiting = s.waiting)
    (hresolving : closed → ∀ x ∈ s.waiting, x.ancestor ∉ t.resolving)
    (hbodies : ∀ task ∈ t.bodies, TaskFits closed s.program task) (hclean : t.Clean → s.Clean)
    (hproper : ∀ e ∈ t.errors ++ t.withdrawn, ¬e.cause.IsInternal) : Orderly src closed w t := by
  constructor
  · exact hprogram ▸ hs.table
  · exact fun ht => hprogram ▸ hs.exact (hclean ht)
  · exact hprogram ▸ hs.catalogue
  · rw [hprogram]
    exact fun ht => hs.initialized (hclean ht)
  · exact hprogram ▸ hs.typed
  · constructor <;> simp only [hwaiting, hprogram]
    · exact hs.agenda.nodup
    · exact hs.agenda.lt
    · exact hs.agenda.progress
    · exact hs.agenda.blank
    · exact hs.agenda.ordered
    · exact hresolving
  · exact hprogram ▸ hs.reserve
  · exact fun f hf => (hs.signing f hf).of_program hprogram
  · exact fun ht => hprogram ▸ hs.uniform (ht.of_clean hclean)
  · exact hprogram ▸ hs.labels
  · rw [hprogram]
    exact hbodies
  · exact hproper

omit hs in
theorem Advances.of_program (hprogram : t.program = s.program)
    (hresolving : t.resolving = s.resolving)
    (himplementors : ∀ p x, x ∈ s.implementorsOf p → x ∈ t.implementorsOf p)
    (hclean : t.Clean → s.Clean) : Advances w s t where
  classes := Nat.le_of_eq (by rw [hprogram])
  functions := Nat.le_of_eq (by rw [hprogram])
  kept _ := hprogram ▸ .refl _
  alike _ := hprogram ▸ .refl _
  signed _ _ := hprogram ▸ .refl _
  slots _ _ := by rw [hprogram]
  fresh h1 h2 := absurd (hprogram ▸ h2) (Nat.not_lt.mpr h1)
  resolving := hresolving
  implementors := himplementors _ _
  clean := hclean

theorem Orderly.report (errors : List Error) (warnings : List Warning)
    (he : ∀ e ∈ errors, ¬e.cause.IsInternal) :
    Orderly src closed w { s with errors := s.errors ++ errors, warnings } ∧
      Advances w s { s with errors := s.errors ++ errors, warnings } := by
  have hclean (h : State.Clean { s with errors := s.errors ++ errors, warnings }) : s.Clean :=
    ⟨(List.append_eq_nil_iff.mp h.1).1, h.2⟩
  refine ⟨hs.of_program rfl rfl hs.agenda.unresolved hs.tasks hclean ?_,
    .of_program rfl rfl (fun _ _ h => h) hclean⟩
  intro e hmem
  simp only [List.mem_append] at hmem
  rcases hmem with (hmem | hmem) | hmem
  · exact hs.proper e (List.mem_append_left _ hmem)
  · exact he e hmem
  · exact hs.proper e (List.mem_append_right _ hmem)

omit hs in
theorem Reports.orderly (h : Reports s t) (hs : Orderly src closed w s) :
    Orderly src closed w t ∧ Advances w s t := by
  rcases h with ⟨errors, warnings, rfl, he⟩
  exact hs.report errors _ fun e hmem => (he e hmem).not_isInternal

omit hs in
theorem Quiet.orderly {α : Type} {x : Checking α} {a : α} (hx : Quiet x)
    (hs : Orderly src closed w s) (h : x s = some (a, t)) :
    Orderly src closed w t ∧ Advances w s t :=
  (hx.reports h).orderly hs

theorem Orderly.setDepth (depth : Nat) :
    Orderly src closed w { s with depth, deepest := max s.deepest depth } ∧
      Advances w s { s with depth, deepest := max s.deepest depth } :=
  ⟨hs.of_program rfl rfl hs.agenda.unresolved hs.tasks (fun h => h) hs.proper,
    .of_program rfl rfl (fun _ _ h => h) fun h => h⟩

theorem Orderly.setResolving {resolving : List ClassId}
    (h : closed → ∀ x ∈ s.waiting, x.ancestor ∉ resolving) :
    Orderly src closed w { s with resolving } :=
  hs.of_program rfl rfl h hs.tasks (fun h => h) hs.proper

theorem Orderly.queueBody {task : BodyTask}
    (htask : TaskFits closed s.program task) :
    Orderly src closed w { s with bodies := s.bodies ++ [task] } ∧
      Advances w s { s with bodies := s.bodies ++ [task] } := by
  refine ⟨hs.of_program rfl rfl hs.agenda.unresolved ?_ (fun h => h) hs.proper,
    .of_program rfl rfl (fun _ _ h => h) fun h => h⟩
  intro x hx
  rcases List.mem_append.mp hx with hx | hx
  · exact hs.tasks x hx
  · rw [List.mem_singleton.mp hx]
    exact htask

theorem Orderly.withdraw (n : Nat) (warnings : List Warning) :
    Orderly src closed w { s with
        errors := s.errors.take n, withdrawn := s.withdrawn ++ s.errors.drop n, warnings } ∧
      Advances w s { s with
        errors := s.errors.take n, withdrawn := s.withdrawn ++ s.errors.drop n, warnings } := by
  have hclean (h : State.Clean { s with
      errors := s.errors.take n, withdrawn := s.withdrawn ++ s.errors.drop n, warnings }) :
      s.Clean := by
    rcases List.append_eq_nil_iff.mp h.2 with ⟨hw, hdrop⟩
    have htake : s.errors.take n = [] := h.1
    exact ⟨by rw [← List.take_append_drop n s.errors, htake, hdrop, List.append_nil], hw⟩
  refine ⟨hs.of_program rfl rfl hs.agenda.unresolved hs.tasks hclean ?_,
    .of_program rfl rfl (fun _ _ h => h) hclean⟩
  intro e he
  apply hs.proper e
  simp only [List.mem_append] at he ⊢
  rcases he with he | he | he
  · exact .inl (List.mem_of_mem_take he)
  · exact .inr he
  · exact .inl (List.mem_of_mem_drop he)

theorem Orderly.addImplementor {protocol struct : StructureId}
    (h : addImplementor protocol struct s = some ((), t)) :
    Orderly src closed w t ∧ Advances w s t := by
  have himplementors (p x : StructureId) (hx : x ∈ s.implementorsOf p) : x ∈ t.implementorsOf p :=
    (mem_implementorsOf_addImplementor h).mpr (.inl hx)
  cases h
  dsimp only at himplementors ⊢
  split at himplementors
  · next hc =>
    rw [if_pos hc]
    exact ⟨hs, .refl w s⟩
  · next hc =>
    rw [if_neg hc]
    exact ⟨hs.of_program rfl rfl hs.agenda.unresolved hs.tasks (fun h => h) hs.proper,
      .of_program rfl rfl himplementors fun h => h⟩

/-! ### The caches -/

theorem Orderly.caches (classCache : InstanceCache ClassKey)
    (functionCache : InstanceCache FunctionKey)
    (hclass : ∀ {key e}, classCache.get? key = some e → e.id < s.program.classes.size ∧
      (s.program.classAt e.id).struct = key.struct ∧
      (s.program.classAt e.id).typeArgs = key.typeArgs)
    (hfunction : ∀ {key e}, functionCache.get? key = some e →
      e.id < s.program.functions.size ∧ Answers src key (s.program.functionAt e.id)) :
    Orderly src closed w { s with program := { s.program with classCache, functionCache } } ∧
      Advances w s { s with program := { s.program with classCache, functionCache } } := by
  have hst : Advances w s { s with program := { s.program with classCache, functionCache } } := by
    constructor
    · exact Nat.le_refl _
    · exact Nat.le_refl _
    · exact fun _ => .refl _
    · exact fun _ => .refl _
    · exact fun _ _ => .refl _
    · exact fun _ _ => rfl
    · exact fun h1 h2 => absurd h2 (Nat.not_lt.mpr h1)
    · rfl
    · exact fun h => h
    · exact fun h => h
  refine ⟨⟨?_, ?_, ?_, hs.initialized, fun hc => ?_, ?_, ?_,
    fun f hf => (hs.signing f hf).advance hst,
    fun ht => ?_, ?_, fun task htask => ?_, hs.proper⟩, hst⟩
  · exact hs.table.congr rfl (fun c => .refl _) (.of_eq rfl)
  · exact fun hclean => (hs.exact hclean).congr hs.table
      (fun c => (ClassInst.SameTable.refl _).toSameSlots) (.of_eq rfl)
  · exact ⟨hs.catalogue.declared, hclass, hfunction, hs.catalogue.owned, hs.catalogue.inits,
      hs.catalogue.generics⟩
  · exact ⟨fun c => ((hs.typed hc).classes c).mono (Nat.le_refl _) (Nat.le_refl _),
      fun f => ((hs.typed hc).functions f).mono (Nat.le_refl _), (hs.typed hc).founded⟩
  · exact ⟨hs.agenda.nodup, hs.agenda.lt, hs.agenda.progress, hs.agenda.blank, hs.agenda.ordered,
      hs.agenda.unresolved⟩
  · exact ⟨hs.reserve.nodup, hs.reserve.built, hs.reserve.lt, hs.reserve.free⟩
  · exact (hs.uniform (ht.of_clean fun h => h)).kept rfl (fun _ => .refl _) rfl
  · exact ⟨hs.labels.displays, hs.labels.functions, hs.labels.free⟩
  · have htask := hs.tasks task htask
    exact ⟨htask.lt, htask.cls, htask.selfType, fun hc name ty hty =>
      (htask.subst hc name ty hty).mono (Nat.le_refl _)⟩

theorem Orderly.findClass {key : ClassKey} {r : Option ClassId}
    (h : findClass key s = some (r, t)) :
    Orderly src closed w t ∧ Advances w s t ∧ t.program.classes = s.program.classes ∧
      ∀ c, r = some c → c < t.program.classes.size := by
  cases h
  rcases hs.caches (s.program.classCache.lookup key).2 s.program.functionCache
    (fun he => hs.catalogue.classKeys (by simpa using he)) hs.catalogue.functionKeys with ⟨ht, hst⟩
  refine ⟨ht, hst, rfl, fun c hc => ?_⟩
  rcases Option.map_eq_some_iff.mp hc with ⟨e, he, rfl⟩
  change (s.program.classCache.lookup key).1 = some e at he
  rw [InstanceCache.lookup_fst] at he
  exact (hs.catalogue.classKeys he).1

theorem Orderly.findFunction {key : FunctionKey} {r : Option FuncId}
    (h : findFunction key s = some (r, t)) :
    Orderly src closed w t ∧ Advances w s t ∧
      ∀ f, r = some f → f < t.program.functions.size ∧
      Answers src key (t.program.functionAt f) := by
  cases h
  rcases hs.caches s.program.classCache (s.program.functionCache.lookup key).2
    hs.catalogue.classKeys (fun he => hs.catalogue.functionKeys (by simpa using he)) with ⟨ht, hst⟩
  refine ⟨ht, hst, fun f hf => ?_⟩
  rcases Option.map_eq_some_iff.mp hf with ⟨e, he, rfl⟩
  change (s.program.functionCache.lookup key).1 = some e at he
  rw [InstanceCache.lookup_fst] at he
  exact hs.catalogue.functionKeys he

theorem Orderly.closeFunction {key : FunctionKey} {id : FuncId}
    (hid : id < s.program.functions.size) (hkey : Answers src key (s.program.functionAt id))
    (h : closeFunction key id s = some ((), t)) :
    Orderly src closed w t ∧ Advances w s t := by
  cases h
  refine hs.caches s.program.classCache _ hs.catalogue.classKeys fun {key' e} he => ?_
  rw [InstanceCache.get?_finish] at he
  split at he
  · next hk =>
    cases he
    exact ⟨hid, hk ▸ hkey⟩
  · exact hs.catalogue.functionKeys he

theorem Orderly.closeClass {key : ClassKey} {id : ClassId}
    (hid : id < s.program.classes.size) (hstruct : (s.program.classAt id).struct = key.struct)
    (htypeArgs : (s.program.classAt id).typeArgs = key.typeArgs)
    (h : closeClass key id s = some ((), t)) : Orderly src closed w t ∧ Advances w s t := by
  cases h
  refine hs.caches _ s.program.functionCache (fun {key' e} he => ?_)
    hs.catalogue.functionKeys
  rw [InstanceCache.get?_finish] at he
  split at he
  · next hk =>
    cases he
    exact ⟨hid, hk ▸ hstruct, hk ▸ htypeArgs⟩
  · exact hs.catalogue.classKeys he

end

/-! ### New classes -/

/-- The work with one more class to be built. -/
def Work.begin (w : Work) (cls : ClassId) : Work := { w with active := cls :: w.active }

theorem Advances.of_begin (h : Advances (w.begin cls) s t) : Advances w s t :=
  h.weaken (List.subset_cons_self _ _) fun _ h => h

/-- The state after a class was appended under a key. -/
def State.pushClass (s : State) (key : ClassKey) (new : ClassInst) : State :=
  { s with program := { s.program with
      classes := s.program.classes.push new
      classCache := s.program.classCache.begin key s.program.classes.size } }

section

variable {key : ClassKey} {new : ClassInst} (hs : Orderly src closed w s)
  (hblank : new.Blank s.program.classes.size)

include hs

theorem Agenda.pushClass :
    Agenda closed (w.begin s.program.classes.size) (s.pushClass key new) := by
  have hclasses : (s.pushClass key new).program.classes = s.program.classes.push new := rfl
  have hsize := Program.size_push hclasses
  have hwaiting {c} (hc : c ∈ s.waiting.map (·.pending.cls)) : c < s.program.classes.size := by
    rcases List.mem_map.mp hc with ⟨x, hx, rfl⟩
    exact (hs.agenda.blank x hx).1
  constructor
  · refine List.nodup_cons.mpr ⟨fun hmem => ?_, hs.agenda.nodup⟩
    rcases List.mem_append.mp hmem with hmem | hmem
    · exact Nat.lt_irrefl _ (hs.agenda.lt _ hmem)
    · exact Nat.lt_irrefl _ (hwaiting hmem)
  · intro c hc
    rw [hsize]
    rcases List.mem_cons.mp hc with rfl | hc
    · exact Nat.lt_succ_self _
    · exact Nat.lt_succ_of_lt (hs.agenda.lt c hc)
  · intro c hc hprogress
    rw [hsize] at hc
    rcases Nat.lt_succ_iff_lt_or_eq.mp hc with hc | rfl
    · rw [Program.classAt_push_of_lt hclasses hc] at hprogress
      exact (hs.agenda.progress c hc hprogress).imp_left (List.mem_cons_of_mem _)
    · exact .inl List.mem_cons_self
  · intro x hx
    rcases hs.agenda.blank x hx with ⟨hlt, hb⟩
    rw [hsize, Program.classAt_push_of_lt hclasses hlt]
    exact ⟨Nat.lt_succ_of_lt hlt, hb⟩
  · exact fun hc => (hs.agenda.ordered hc).mono (List.subset_cons_self _ _)
  · exact hs.agenda.unresolved

include hblank

theorem Reserve.pushClass : Reserve w.reserved (s.pushClass key new).program := by
  have hclasses : (s.pushClass key new).program.classes = s.program.classes.push new := rfl
  refine ⟨hs.reserve.nodup, fun x hx => Program.built_push hclasses (hs.reserve.built x hx),
    fun x hx => ?_, fun x hx c hc hroot => ?_⟩
  · rw [Program.classAt_push_of_lt hclasses (hs.reserve.built x hx).1]
    exact hs.reserve.lt x hx
  · rw [Program.size_push hclasses] at hc
    rcases Nat.lt_succ_iff_lt_or_eq.mp hc with hc | rfl
    · rw [Program.classAt_push_of_lt hclasses hc] at hroot ⊢
      exact hs.reserve.free x hx c hc hroot
    · rw [Program.classAt_push_self hclasses, hblank.root] at hroot
      exact absurd (hs.reserve.built x hx).1 (hroot ▸ Nat.lt_irrefl _)

theorem Catalogue.pushClass (hstruct : new.struct = key.struct)
    (htypeArgs : new.typeArgs = key.typeArgs)
    (hdecl : ∃ decl, (src.tree.structureAt key.struct).decl.cls? = some decl) :
    Catalogue src (s.pushClass key new).program := by
  have hclasses : (s.pushClass key new).program.classes = s.program.classes.push new := rfl
  constructor
  · intro c hc
    rw [Program.size_push hclasses] at hc
    rcases Nat.lt_succ_iff_lt_or_eq.mp hc with hc | rfl
    · rw [Program.classAt_push_of_lt hclasses hc]
      exact hs.catalogue.declared hc
    · rw [Program.classAt_push_self hclasses, hstruct]
      exact hdecl
  · intro key' e he
    have he : (s.program.classCache.begin key s.program.classes.size).get? key' = some e := he
    rw [InstanceCache.get?_begin] at he
    rw [Program.size_push hclasses]
    split at he
    · next hk =>
      cases he
      refine ⟨Nat.lt_succ_self _, ?_⟩
      rw [CacheEntry.id, Program.classAt_push_self hclasses, ← hk]
      exact ⟨hstruct, htypeArgs⟩
    · rcases hs.catalogue.classKeys he with ⟨hlt, hrest⟩
      rw [Program.classAt_push_of_lt hclasses hlt]
      exact ⟨Nat.lt_succ_of_lt hlt, hrest⟩
  · exact hs.catalogue.functionKeys
  · exact hs.catalogue.owned
  · intro c f hf
    refine hs.catalogue.inits (c := c) ?_
    rw [Program.classAt_push hclasses] at hf
    split at hf
    · rw [hblank.init] at hf
      cases hf
    · exact hf
  · intro c f n hf
    rw [Program.classAt_push hclasses] at hf
    split at hf
    · rw [hblank.methods] at hf
      cases hf
    · exact hs.catalogue.generics hf

/-- A class that is new has a known type for each of its type parameters, and no slots. -/
theorem Uniform.pushClass (happlied : Applied src new)
    (h : Flawless src closed (s.pushClass key new)) :
    Uniform src w.signing (s.pushClass key new).program := by
  have hclasses : (s.pushClass key new).program.classes = s.program.classes.push new := rfl
  have hu := hs.uniform (h.of_clean fun h => h)
  refine ⟨fun {c} hc => ?_, fun {f c m} hf hm => ?_, fun c => ?_⟩
  · rw [Program.classAt_push hclasses]
    split
    · exact happlied
    · next hne =>
      rw [Program.size_push hclasses] at hc
      exact hu.applied (Nat.lt_of_le_of_ne (Nat.le_of_lt_succ hc) hne)
  · have hlt : c < s.program.classes.size :=
      ((hs.typed h.within).functions f).receiver _ (hs.catalogue.owned hm.owner) c rfl
    have hdeclared := hm.declared
    rw [Program.classAt_push_of_lt hclasses hlt] at hdeclared
    exact hu.methods hf ⟨hm.symbol, hm.owner, hdeclared, hm.typeArgs⟩
  · intro f k howner hslot
    refine (hu.slots c howner hslot).imp_right fun hopener o ho => ?_
    rw [Program.classAt_push hclasses] at ho
    split at ho
    · rw [hblank.slotOwners] at ho
      cases ho
    · exact hopener o ho

theorem Orderly.pushClass (hstruct : new.struct = key.struct)
    (htypeArgs : new.typeArgs = key.typeArgs)
    (hdecl : ∃ decl, (src.tree.structureAt key.struct).decl.cls? = some decl)
    (hwithin : closed → ∀ ty ∈ key.typeArgs, ty.Within s.program)
    (happlied : closed.known → Applied src new)
    (hdisplay : src.tree.Unmarked → Unmarked new.display) :
    Orderly src closed (w.begin s.program.classes.size) (s.pushClass key new) ∧
      Advances w s (s.pushClass key new) := by
  have hclasses : (s.pushClass key new).program.classes = s.program.classes.push new := rfl
  have hle : s.program.classes.size ≤ (s.pushClass key new).program.classes.size := by
    rw [Program.size_push hclasses]
    exact Nat.le_succ _
  have hst : Advances w s (s.pushClass key new) := by
    refine ⟨hle, Nat.le_refl _, fun {c} hc => ?_, fun _ => .refl _, fun _ _ => .refl _,
      fun _ _ => rfl, fun h1 h2 => absurd h2 (Nat.not_lt.mpr h1), rfl, fun h => h, fun h => h⟩
    have hlt : c < s.program.classes.size := by
      rcases hc with hc | hc
      · exact hc.1
      · exact hs.agenda.lt c hc
    rw [Program.classAt_push_of_lt hclasses hlt]
    exact .refl _
  refine ⟨⟨hs.table.push hclasses hblank rfl, fun hc => (hs.exact hc).push hclasses hblank rfl,
    Catalogue.pushClass hs hblank hstruct htypeArgs hdecl, ?_,
    fun hc => ⟨fun c => ?_, fun f => ?_, fun c d hd => ?_⟩, Agenda.pushClass hs,
    Reserve.pushClass (w := w) hs hblank, fun f hf =>
      ((hs.signing f hf).advance hst).mono (List.subset_cons_self _ _),
    fun h => Uniform.pushClass (w := w) hs hblank (happlied h.known) h, ?_, ?_, hs.proper⟩, hst⟩
  · intro hclean c hc
    have hlt : c < s.program.classes.size := by
      rcases Nat.lt_succ_iff_lt_or_eq.mp (Program.size_push hclasses ▸ hc.1) with h | rfl
      · exact h
      · have := hc.2
        rw [Program.classAt_push_self hclasses, hblank.inProgress] at this
        cases this
    rw [Program.Built, Program.classAt_push_of_lt hclasses hlt] at hc
    rw [Program.classAt_push_of_lt hclasses hlt]
    exact hs.initialized hclean c ⟨hlt, hc.2⟩
  · rw [Program.classAt_push hclasses]
    split
    · refine ⟨fun ty hty => (hwithin hc ty (htypeArgs ▸ hty)).mono hle, ?_, ?_⟩
      · rw [hblank.fields]
        exact fun _ h => by cases h
      · rw [hblank.virtualMethods]
        exact fun _ h => by cases h
    · exact ((hs.typed hc).classes c).mono hle (Nat.le_refl _)
  · exact ((hs.typed hc).functions f).mono hle
  · rw [Program.classAt_push hclasses] at hd
    split at hd
    · next hnew =>
      rw [hnew]
      exact hwithin hc _ (htypeArgs ▸ hd) d rfl
    · exact (hs.typed hc).founded c d hd
  · refine ⟨fun ht c => ?_, hs.labels.functions, hs.labels.free⟩
    rw [Program.classAt_push hclasses]
    split
    · exact hdisplay ht
    · exact hs.labels.displays ht c
  · intro task htask
    have htask := hs.tasks task htask
    exact ⟨htask.lt, htask.cls, htask.selfType, fun hc name ty hty =>
      (htask.subst hc name ty hty).mono hle⟩

end

/-! ### Waiting -/

/-- A class about which nothing is recorded is put on hold until its ancestor has been built. -/
theorem Orderly.wait {base : ClassId} {depth : Nat} (hs : Orderly src closed (w.begin cls) s)
    (hblank : (s.program.classAt cls).Blank cls) (hno : closed → ∀ x ∈ s.waiting, x.ancestor ≠ cls)
    (hbase : closed → base ∈ w.active ∨ base ∈ s.waiting.map (·.pending.cls))
    (hresolving : base ∉ s.resolving)
    (hsigning : closed → Spares w s cls) :
    Orderly src closed w { s with waiting := s.waiting ++ [⟨base, ⟨cls, depth⟩⟩] } ∧
      Advances w s { s with waiting := s.waiting ++ [⟨base, ⟨cls, depth⟩⟩] } := by
  have hagenda := hs.agenda
  have hsigned (f) (hf : f ∈ w.signing) : BeingSigned closed w s f := by
    refine (hs.signing f hf).imp fun hc c howner hknown => hknown.imp_right fun hmem => ?_
    exact (List.mem_cons.mp hmem).resolve_left fun heq => hsigning hc f hf (heq ▸ howner)
  refine ⟨⟨hs.table, hs.exact, hs.catalogue, hs.initialized, hs.typed, ?_, hs.reserve,
    fun f hf => (hsigned f hf).of_program rfl, fun h => hs.uniform (h.of_clean fun h => h),
    hs.labels, hs.tasks, hs.proper⟩, .of_program rfl rfl (fun _ _ h => h) fun h => h⟩
  constructor
  · have hperm : (cls :: (w.active ++ s.waiting.map (·.pending.cls))).Perm
        (w.active ++ (s.waiting ++ [(⟨base, ⟨cls, depth⟩⟩ : Waiting)]).map (·.pending.cls)) := by
      rw [List.map_append, ← List.append_assoc]
      exact (List.perm_append_singleton cls _).symm
    exact hperm.nodup_iff.mp hagenda.nodup
  · exact fun c hc => hagenda.lt c (List.mem_cons_of_mem cls hc)
  · intro c hc hprogress
    rcases hagenda.progress c hc hprogress with hmem | hmem
    · rcases List.mem_cons.mp hmem with rfl | hmem
      · exact .inr (by simp)
      · exact .inl hmem
    · refine .inr ?_
      rw [List.map_append]
      exact List.mem_append_left _ hmem
  · intro x hx
    rcases List.mem_append.mp hx with hx | hx
    · exact hagenda.blank x hx
    · rw [List.mem_singleton.mp hx]
      exact ⟨hagenda.lt cls List.mem_cons_self, hblank⟩
  · exact fun hc => ((hagenda.ordered hc).remove (hno hc)).append (hbase hc)
  · intro hc x hx
    rcases List.mem_append.mp hx with hx | hx
    · exact hagenda.unresolved hc x hx
    · rw [List.mem_singleton.mp hx]
      exact hresolving

theorem Orderly.takeWaiting {ds : List Pending} (hs : Orderly src closed (w.begin cls) s)
    (hbuilt : s.program.Built cls) (h : takeWaiting cls s = some (ds, t)) :
    Orderly src closed { w with active := ds.map (·.cls) ++ w.active } t ∧ Advances w s t ∧
      t.program = s.program ∧ (∀ d ∈ ds, (t.program.classAt d.cls).Blank d.cls) ∧
      (closed → ∀ d ∈ ds, Spares w t d.cls) := by
  have hagenda := hs.agenda
  cases h
  have hsigned (f) (hf : f ∈ w.signing) : BeingSigned closed w s f := by
    refine (hs.signing f hf).imp fun hc c howner hknown => ?_
    rcases hknown with hknown | hmem
    · exact .inl hknown
    · rcases List.mem_cons.mp hmem with rfl | hmem
      · exact .inl hbuilt
      · exact .inr hmem
  refine ⟨⟨hs.table, hs.exact, hs.catalogue, hs.initialized, hs.typed, ?_, hs.reserve,
    fun f hf => ((hsigned f hf).mono (List.subset_append_right _ _)).of_program rfl,
    fun h => hs.uniform (h.of_clean fun h => h), hs.labels, hs.tasks, hs.proper⟩,
    .of_program rfl rfl (fun _ _ h => h) fun h => h, rfl, ?_, ?_⟩
  · have hperm :
        (((s.waiting.filter (·.ancestor == cls)).map (·.pending)).map (·.cls) ++ w.active ++
        (s.waiting.filter (·.ancestor != cls)).map (·.pending.cls)).Perm
        (w.active ++ s.waiting.map (·.pending.cls)) := by
      rw [List.map_map, List.append_assoc]
      refine (List.perm_append_comm_assoc _ _ _).trans (List.Perm.append_left _ ?_)
      change (((s.waiting.filter (·.ancestor == cls)).map (·.pending.cls)) ++
        (s.waiting.filter (·.ancestor != cls)).map (·.pending.cls)).Perm _
      rw [← List.map_append]
      exact (List.filter_append_perm _ _).map _
    constructor
    · exact hperm.nodup_iff.mpr (List.nodup_cons.mp hagenda.nodup).2
    · intro c hc
      rcases List.mem_append.mp hc with hc | hc
      · rw [List.map_map] at hc
        rcases List.mem_map.mp hc with ⟨x, hx, rfl⟩
        exact (hagenda.blank x (List.mem_of_mem_filter hx)).1
      · exact hagenda.lt c (List.mem_cons_of_mem cls hc)
    · intro c hc hprogress
      rcases hagenda.progress c hc hprogress with hmem | hmem
      · rcases List.mem_cons.mp hmem with rfl | hmem
        · exact absurd hprogress (by rw [hbuilt.2]; simp)
        · exact .inl (List.mem_append_right _ hmem)
      · exact List.mem_append.mp (hperm.mem_iff.mpr (List.mem_append_right _ hmem))
    · exact fun x hx => hagenda.blank x (List.mem_of_mem_filter hx)
    · intro hc
      have hordered := (hagenda.ordered hc).take
      rw [List.map_map]
      exact hordered
    · exact fun hc x hx => hagenda.unresolved hc x (List.mem_of_mem_filter hx)
  · intro d hd
    rcases List.mem_map.mp hd with ⟨x, hx, rfl⟩
    exact (hagenda.blank x (List.mem_of_mem_filter hx)).2
  · -- What waits is neither built nor active, so its methods have not been asked for.
    intro hc d hd f hf howner
    rcases List.mem_map.mp hd with ⟨x, hx, rfl⟩
    have hx := List.mem_of_mem_filter hx
    rcases (hsigned f hf).owner hc _ howner with hknown | hmem
    · have hprogress := (hagenda.blank x hx).2.inProgress
      rw [hknown.2] at hprogress
      cases hprogress
    · refine (List.nodup_append.mp (List.nodup_cons.mp hagenda.nodup).2).2.2 _ hmem _ ?_ rfl
      exact List.mem_map_of_mem hx

/-! ### The class that is being built -/

/-- Only the record of one class is changed, and its methods among the functions. -/
structure Rebuilds (p q : Program) (cls : ClassId) : Prop extends p.SameButClass q cls where
  struct : (q.classAt cls).struct = (p.classAt cls).struct
  typeArgs : (q.classAt cls).typeArgs = (p.classAt cls).typeArgs
  display : (q.classAt cls).display = (p.classAt cls).display
  functions : q.functions.size = p.functions.size
  alike : ∀ f, (p.functionAt f).Alike (q.functionAt f)
  signature : ∀ f, (p.functionAt f).SameSignature (q.functionAt f)
  slots : ∀ f, (p.functionAt f).owner ≠ some cls → (q.functionAt f).slot = (p.functionAt f).slot
  classCache : q.classCache = p.classCache
  functionCache : q.functionCache = p.functionCache

variable {q p : Program}

theorem rebuilds_updateClass (hcls : cls < p.classes.size) {u : ClassInst → ClassInst}
    (hstruct : (u (p.classAt cls)).struct = (p.classAt cls).struct)
    (htypeArgs : (u (p.classAt cls)).typeArgs = (p.classAt cls).typeArgs)
    (hdisplay : (u (p.classAt cls)).display = (p.classAt cls).display) :
    Rebuilds p (p.updateClass cls u) cls where
  toSameButClass := Program.sameButClass_updateClass p hcls u
  struct := by
    rw [Program.classAt_updateClass p cls hcls, if_pos rfl]
    exact hstruct
  typeArgs := by
    rw [Program.classAt_updateClass p cls hcls, if_pos rfl]
    exact htypeArgs
  display := by
    rw [Program.classAt_updateClass p cls hcls, if_pos rfl]
    exact hdisplay
  functions := rfl
  alike _ := .refl _
  signature _ := .refl _
  slots _ _ := rfl
  classCache := rfl
  functionCache := rfl

theorem Rebuilds.key (h : Rebuilds p q cls) (c : ClassId) :
    (q.classAt c).struct = (p.classAt c).struct ∧
    (q.classAt c).typeArgs = (p.classAt c).typeArgs := by
  by_cases hc : c = cls
  · rw [hc]
    exact ⟨h.struct, h.typeArgs⟩
  · rw [h.other c hc]
    exact ⟨rfl, rfl⟩

theorem Rebuilds.sameTypes (h : Rebuilds p q cls) (f : FuncId) :
    (p.functionAt f).SameTypes (q.functionAt f) := by
  refine ⟨?_, (h.signature f).returnType⟩
  rw [FuncInst.paramTypes, (h.signature f).params, FuncInst.paramTypes]

theorem Catalogue.rebuild (hp : Catalogue src p) (h : Rebuilds p q cls)
    (hinit : ∀ f, (q.classAt cls).init = some f →
      f < p.functions.size ∧ (p.functionAt f).owner = some cls)
    (hgeneric : ∀ (n : String) f, (q.classAt cls).methods[n]? = some (.generic f) →
      MemberNamed src n f) :
    Catalogue src q := by
  constructor
  · intro c hc
    rw [(h.key c).1]
    exact hp.declared (h.size ▸ hc)
  · intro key e he
    rw [h.classCache] at he
    rw [h.size, (h.key _).1, (h.key _).2]
    exact hp.classKeys he
  · intro key e he
    rw [h.functionCache] at he
    rcases hp.functionKeys he with ⟨hlt, hkey⟩
    have hf := h.alike e.id
    rw [h.functions]
    exact ⟨hlt, hf.symbol.trans hkey.symbol, hf.name.trans hkey.name, hf.kind.trans hkey.kind,
      hf.typeArgs.trans hkey.typeArgs, hf.receiver.trans hkey.receiver, hf.owner.trans hkey.owner⟩
  · intro f c hf
    rw [(h.alike f).owner] at hf
    rw [(h.alike f).receiver]
    exact hp.owned hf
  · intro c f hf
    rw [h.functions, (h.alike f).owner]
    by_cases hc : c = cls
    · subst hc
      exact hinit f hf
    · rw [h.other c hc] at hf
      exact hp.inits hf
  · intro c f n hf
    by_cases hc : c = cls
    · subst hc
      exact hgeneric n f hf
    · rw [h.other c hc] at hf
      exact hp.generics hf

theorem Agenda.rebuild (hs : Agenda closed w s) (hcls : cls ∈ w.active)
    (h : s.program.SameButClass q cls) :
    Agenda closed w { s with program := q } where
  nodup := hs.nodup
  lt c hc := h.size ▸ hs.lt c hc
  progress c hc hprogress := by
    by_cases hne : c = cls
    · exact .inl (hne ▸ hcls)
    · exact hs.progress c (h.size ▸ hc) (h.other c hne ▸ hprogress)
  blank x hx := by
    have hne : x.pending.cls ≠ cls := fun he =>
      (List.nodup_append.mp hs.nodup).2.2 cls hcls _ (List.mem_map_of_mem hx) he.symm
    rw [h.other _ hne, h.size]
    exact hs.blank x hx
  ordered := hs.ordered
  unresolved := hs.unresolved

theorem Reserve.congr {reserved : List (ClassId × Nat)} (hp : Reserve reserved p)
    (hsize : q.classes.size = p.classes.size) (hplace : ∀ c, (p.classAt c).SamePlace (q.classAt c))
    (hbuilt : ∀ c, p.Built c → q.Built c) : Reserve reserved q := by
  refine ⟨hp.nodup, fun x hx => hbuilt x.1 (hp.built x hx), fun x hx => ?_,
    fun x hx c hc hroot => ?_⟩
  · exact Nat.lt_of_lt_of_le (hp.lt x hx) (hplace x.1).nextChainId
  · rw [(hplace c).root] at hroot
    rw [(hplace c).chainId]
    exact hp.free x hx c (hsize ▸ hc) hroot

theorem Rebuilds.built {c : ClassId} (h : Rebuilds p q cls) (hc : c ≠ cls) :
    q.Built c ↔ p.Built c :=
  Program.built_congr h.size (by rw [h.other c hc])

theorem Labels.rebuild {known : Prop} {signing : List FuncId} (hp : Labels src known signing p)
    (h : Rebuilds p q cls) : Labels src known signing q := by
  refine hp.congr (fun c => ?_) h.functions
    (fun f => ⟨(h.alike f).symbol, (h.alike f).typeArgs, (h.alike f).receiver⟩)
    fun f _ => ⟨(h.signature f).linkName, (h.signature f).exported⟩
  by_cases hc : c = cls
  · rw [hc]
    exact h.display
  · rw [h.other c hc]

/-- The slots of other classes are as they were. -/
theorem Uniform.rebuild {signing : List FuncId} (hu : Uniform src signing p) (h : Rebuilds p q cls)
    (hslots : q.SlotsAgree cls) : Uniform src signing q := by
  have htypes := h.sameTypes
  refine ⟨fun {c} hc => ?_, fun {f c m} hf hm => ?_, fun c => ?_⟩
  · have happlied := hu.applied (h.size ▸ hc)
    refine ⟨?_, ?_⟩
    · rw [(h.key c).1, (h.key c).2]
      exact happlied.length
    · rw [(h.key c).2]
      exact happlied.known
  · have hm : IsMethod src p (p.functionAt f) c m := by
      refine ⟨?_, ?_, ?_, (h.alike f).typeArgs ▸ hm.typeArgs⟩
      · rw [← (h.alike f).symbol]
        exact hm.symbol
      · rw [← (h.alike f).owner]
        exact hm.owner
      · rw [← (h.key c).1]
        exact hm.declared
    exact (hu.methods hf hm).same (htypes f)
  · by_cases hc : c = cls
    · exact hc ▸ hslots
    · intro f k howner hslot
      rw [(h.alike f).owner] at howner
      rw [h.slots f fun heq => hc (Option.some.inj (howner.symm.trans heq))] at hslot
      rcases hu.slots c howner hslot with ⟨hknown, hopener⟩
      refine ⟨hknown.same (htypes f), fun o ho => ?_⟩
      rw [h.other c hc] at ho
      exact (htypes o).symm.trans ((hopener o ho).trans (htypes f))

theorem Orderly.rebuild (hs : Orderly src closed w s) (hcls : cls ∈ w.active)
    (h : Rebuilds s.program q cls) (htable : q.ClassTable) (hexact : s.Clean → q.Exact)
    (hagree : Flawless src closed s → q.SlotsAgree cls)
    (hsigning : closed → ∀ f ∈ w.signing, (q.functionAt f).slot = (s.program.functionAt f).slot)
    (hinit : ∀ f, (q.classAt cls).init = some f →
      f < s.program.functions.size ∧ (s.program.functionAt f).owner = some cls)
    (hgeneric : ∀ (n : String) f, (q.classAt cls).methods[n]? = some (.generic f) →
      MemberNamed src n f)
    (hinitialized : s.Clean → (q.classAt cls).inProgress = false → (q.classAt cls).init ≠ none)
    (hfields : closed → ∀ field ∈ (q.classAt cls).fields, field.ty.Within s.program)
    (hvirtual : closed → ∀ f ∈ (q.classAt cls).virtualMethods, f < s.program.functions.size)
    (hreserve : Reserve w.reserved q) : Orderly src closed w { s with program := q } := by
  have hle : s.program.classes.size ≤ q.classes.size := Nat.le_of_eq h.size.symm
  refine ⟨htable, hexact, hs.catalogue.rebuild h hinit hgeneric, ?_,
    fun hc => ⟨fun c => ?_, fun f => ?_, fun c d hd => ?_⟩, hs.agenda.rebuild hcls h.toSameButClass,
    hreserve, fun f hf => ?_,
    fun hflawless => (hs.uniform (hflawless.of_clean fun h => h)).rebuild h
      (hagree (hflawless.of_clean fun h => h)), hs.labels.rebuild h, ?_, hs.proper⟩
  · intro hclean c hc
    by_cases hne : c = cls
    · subst hne
      exact hinitialized hclean hc.2
    · rw [Program.Built, h.other c hne, h.size] at hc
      dsimp only
      rw [h.other c hne]
      exact hs.initialized hclean c hc
  · by_cases hne : c = cls
    · subst hne
      refine ⟨fun ty hty => ?_, fun field hfield => (hfields hc field hfield).mono hle,
        fun f hf => h.functions ▸ hvirtual hc f hf⟩
      rw [h.typeArgs] at hty
      exact (((hs.typed hc).classes c).typeArgs ty hty).mono hle
    · dsimp only
      rw [h.other c hne]
      exact ((hs.typed hc).classes c).mono hle (Nat.le_of_eq h.functions.symm)
  · have hf := ((hs.typed hc).functions f).mono hle
    refine ⟨?_, ?_, ?_, ?_, ?_⟩
    · rw [(h.alike f).typeArgs]
      exact hf.typeArgs
    · rw [(h.alike f).receiver]
      exact hf.receiver
    · rw [(h.signature f).params, (h.signature f).locals]
      exact hf.params
    · rw [(h.signature f).locals]
      exact hf.locals
    · rw [(h.signature f).returnType]
      exact hf.returnType
  · dsimp only at hd
    by_cases hne : c = cls
    · rw [hne, h.typeArgs] at hd
      exact hne ▸ (hs.typed hc).founded cls d hd
    · rw [h.other c hne] at hd
      exact (hs.typed hc).founded c d hd
  · have hsigned := hs.signing f hf
    refine ⟨h.functions ▸ hsigned.lt, fun hc => (hsigning hc f hf).trans (hsigned.slot hc),
      fun hc c howner => ?_⟩
    rw [(h.alike f).owner] at howner
    by_cases hne : c = cls
    · exact .inr (hne ▸ hcls)
    · exact (hsigned.owner hc c howner).imp_left (h.built hne).mpr
  · intro task htask
    have htask := hs.tasks task htask
    refine ⟨h.functions ▸ htask.lt, ?_, ?_, fun hc name ty hty =>
      (htask.subst hc name ty hty).mono hle⟩
    · rw [(h.alike _).owner]
      exact htask.cls
    · rw [(h.alike _).owner, (h.alike _).kind, (h.alike _).receiver]
      exact htask.selfType

theorem Advances.rebuild (hcls : ¬Known w s cls) (h : Rebuilds s.program q cls) :
    Advances w s { s with program := q } where
  classes := Nat.le_of_eq h.size.symm
  functions := Nat.le_of_eq h.functions.symm
  kept {c} hc := by
    dsimp only
    rw [h.other c fun he => hcls (he ▸ hc)]
    exact .refl _
  alike _ := h.alike _
  signed _ _ := h.signature _
  slots {f} _ hf := h.slots f fun he => hcls (hf cls he)
  fresh h1 h2 := absurd (h.functions ▸ h2) (Nat.not_lt.mpr h1)
  resolving := rfl
  implementors h := h
  clean h := h

/-! ### The counter of a root -/

/-- The state after the next number was taken from the counter of a root. -/
def State.takeNumber (s : State) (root : ClassId) : State :=
  { s with program := s.program.updateClass root fun c =>
      { c with nextChainId := (s.program.classAt root).nextChainId + 1 } }

section

variable {root : ClassId}

theorem classAt_takeNumber (hroot : root < s.program.classes.size) (c : ClassId) :
    (s.takeNumber root).program.classAt c = if c = root then
      { s.program.classAt root with nextChainId := (s.program.classAt root).nextChainId + 1 }
      else s.program.classAt c :=
  Program.classAt_updateClass _ c hroot _

theorem kept_takeNumber (hroot : root < s.program.classes.size) (c : ClassId) :
    (s.program.classAt c).Kept ((s.takeNumber root).program.classAt c) := by
  rw [classAt_takeNumber hroot]
  split
  · next hc =>
    rw [hc]
    exact ⟨rfl, Nat.le_succ _⟩
  · exact .refl _

theorem sameTable_of_kept {c d : ClassInst} (h : c.Kept d) : c.SameTable d := by
  constructor
  · constructor
    · constructor
      · rw [h.1]
      · rw [h.1]
      · rw [h.1]
      · exact h.2
    · rw [h.1]
    · rw [h.1]
  · rw [h.1]
  · rw [h.1]
  · rw [h.1]

theorem Reserve.takeNumber (hs : Orderly src closed w s) (hroot : s.program.Built root) :
    Reserve ((root, (s.program.classAt root).nextChainId) :: w.reserved)
      (s.takeNumber root).program := by
  have hkept (c : ClassId) := sameTable_of_kept (kept_takeNumber hroot.1 c)
  have hsize : (s.takeNumber root).program.classes.size = s.program.classes.size :=
    Program.size_updateClass _ _ _
  constructor
  · refine List.nodup_cons.mpr ⟨fun hmem => ?_, hs.reserve.nodup⟩
    exact Nat.lt_irrefl _ (hs.reserve.lt _ hmem)
  · intro x hx
    rw [Program.built_congr hsize (hkept x.1).inProgress]
    rcases List.mem_cons.mp hx with rfl | hx
    · exact hroot
    · exact hs.reserve.built x hx
  · intro x hx
    rcases List.mem_cons.mp hx with rfl | hx
    · rw [classAt_takeNumber hroot.1, if_pos rfl]
      exact Nat.lt_succ_self _
    · exact Nat.lt_of_lt_of_le (hs.reserve.lt x hx) (hkept x.1).nextChainId
  · intro x hx c hc hcx
    rw [hsize] at hc
    rw [(hkept c).root] at hcx
    rw [(hkept c).chainId]
    rcases List.mem_cons.mp hx with rfl | hx
    · have hcounted := hs.table.placed.counted hc
      rw [hcx] at hcounted
      exact Nat.ne_of_lt hcounted
    · exact hs.reserve.free x hx c hc hcx

theorem Orderly.takeNumber (hs : Orderly src closed w s) (hroot : s.program.Built root) :
    Orderly src closed
        { w with reserved := (root, (s.program.classAt root).nextChainId) :: w.reserved }
        (s.takeNumber root) ∧ Advances w s (s.takeNumber root) := by
  have hkept (c : ClassId) := kept_takeNumber hroot.1 c
  have htable (c : ClassId) := sameTable_of_kept (hkept c)
  have hsize : (s.takeNumber root).program.classes.size = s.program.classes.size :=
    Program.size_updateClass _ _ _
  have hle : s.program.classes.size ≤ (s.takeNumber root).program.classes.size :=
    Nat.le_of_eq hsize.symm
  have hbuilt (c : ClassId) : (s.takeNumber root).program.Built c ↔ s.program.Built c :=
    Program.built_congr hsize (htable c).inProgress
  have hst : Advances w s (s.takeNumber root) :=
    ⟨hle, Nat.le_refl _, fun _ => hkept _, fun _ => .refl _, fun _ _ => .refl _,
      fun _ _ => rfl, fun h1 h2 => absurd h2 (Nat.not_lt.mpr h1), rfl, fun h => h, fun h => h⟩
  refine ⟨⟨hs.table.congr hsize htable (.of_eq rfl), fun hc => (hs.exact hc).congr hs.table
    (fun c => (htable c).toSameSlots) (.of_eq rfl), ?_, ?_,
    fun hc => ⟨fun c => ?_, fun f => ?_, fun c d hd => ?_⟩, ?_,
    Reserve.takeNumber hs hroot, fun f hf => ((hs.signing f hf).advance hst).mono fun _ h => h,
    fun h => (hs.uniform (h.of_clean fun h => h)).kept hsize hkept rfl, ?_, ?_, hs.proper⟩, hst⟩
  · constructor
    · intro c hc
      rw [(hkept c).1]
      exact hs.catalogue.declared (hsize ▸ hc)
    · intro key e he
      rw [hsize, (hkept e.id).1]
      exact hs.catalogue.classKeys he
    · exact hs.catalogue.functionKeys
    · exact hs.catalogue.owned
    · intro c f hf
      rw [(hkept c).1] at hf
      exact hs.catalogue.inits hf
    · intro c f n hf
      rw [(hkept c).1] at hf
      exact hs.catalogue.generics hf
  · intro hclean c hc
    rw [(hkept c).1]
    exact hs.initialized hclean c ((hbuilt c).mp hc)
  · have hc := ((hs.typed hc).classes c).mono hle (Nat.le_refl _)
    rw [(hkept c).1]
    exact ⟨hc.typeArgs, hc.fields, hc.virtualMethods⟩
  · exact ((hs.typed hc).functions f).mono hle
  · rw [(hkept c).1] at hd
    exact (hs.typed hc).founded c d hd
  · refine ⟨hs.agenda.nodup, fun c hc => hsize ▸ hs.agenda.lt c hc, fun c hc hprogress => ?_,
      fun x hx => ?_, hs.agenda.ordered, hs.agenda.unresolved⟩
    · rw [(htable c).inProgress] at hprogress
      exact hs.agenda.progress c (hsize ▸ hc) hprogress
    · rcases hs.agenda.blank x hx with ⟨hlt, hblank⟩
      rw [hsize, classAt_takeNumber hroot.1, if_neg]
      · exact ⟨hlt, hblank⟩
      · intro he
        have := hblank.inProgress
        rw [he, hroot.2] at this
        cases this
  · refine ⟨fun ht c => ?_, hs.labels.functions, hs.labels.free⟩
    rw [(hkept c).1]
    exact hs.labels.displays ht c
  · intro task htask
    have htask := hs.tasks task htask
    exact ⟨htask.lt, htask.cls, htask.selfType, fun hc name ty hty =>
      (htask.subst hc name ty hty).mono hle⟩

end

/-! ### Functions -/

/-- The work with one more signature to be resolved. -/
def Work.sign (w : Work) (f : FuncId) : Work := { w with signing := f :: w.signing }

theorem Orderly.unsign {f : FuncId} (hs : Orderly src closed (w.sign f) s)
    (hlabel : Label src f (s.program.functionAt f))
    (hknown : Flawless src closed s → ∀ c m, IsMethod src s.program (s.program.functionAt f) c m →
      (s.program.functionAt f).Known) : Orderly src closed w s := by
  refine { hs with
    agenda := ⟨hs.agenda.nodup, hs.agenda.lt, hs.agenda.progress, hs.agenda.blank,
      hs.agenda.ordered, hs.agenda.unresolved⟩
    signing := fun g hg => (hs.signing g (List.mem_cons_of_mem f hg)).mono fun _ h => h
    uniform := fun h => ⟨(hs.uniform h).applied, fun {g c m} hg hm => ?_, (hs.uniform h).slots⟩
    labels := ⟨hs.labels.displays, fun g hlt hg => ?_, hs.labels.free⟩ }
  · by_cases heq : g = f
    · rw [heq] at hm ⊢
      exact hknown h c m hm
    · refine (hs.uniform h).methods (fun hmem => ?_) hm
      exact (List.mem_cons.mp hmem).elim heq hg
  · by_cases heq : g = f
    · rw [heq]
      exact hlabel
    · refine hs.labels.functions g hlt fun hmem => ?_
      exact (List.mem_cons.mp hmem).elim heq hg

/-- A function that is new does not matter to those who began before it. -/
theorem Advances.trans_sign {u : State} {f : FuncId} (h : Advances w s t)
    (hf : s.program.functions.size ≤ f) (h' : Advances (w.sign f) t u) : Advances w s u := by
  refine h.trans_of h' (fun _ hc => hc) fun g hg hlt => ?_
  rcases List.mem_cons.mp hg with rfl | hg
  · exact absurd hlt (Nat.not_lt.mpr hf)
  · exact hg

/-- The state after a function was appended. -/
def State.pushFunction (s : State) (new : FuncInst) (functionCache : InstanceCache FunctionKey) :
    State :=
  { s with program := { s.program with functions := s.program.functions.push new, functionCache } }

section

variable {new : FuncInst} {cache : InstanceCache FunctionKey}

theorem functionAt_pushFunction (f : FuncId) :
    (s.pushFunction new cache).program.functionAt f =
      if f = s.program.functions.size then new else s.program.functionAt f :=
  getD_push _ _ _ _

theorem size_pushFunction :
    (s.pushFunction new cache).program.functions.size = s.program.functions.size + 1 :=
  Array.size_push _

theorem functionAt_pushFunction_of_lt {f : FuncId} (hf : f < s.program.functions.size) :
    (s.pushFunction new cache).program.functionAt f = s.program.functionAt f := by
  rw [functionAt_pushFunction, if_neg (Nat.ne_of_lt hf)]

theorem functionAt_pushFunction_self :
    (s.pushFunction new cache).program.functionAt s.program.functions.size = new := by
  rw [functionAt_pushFunction, if_pos rfl]

theorem sameFunctions_pushFunction (hplain : new.Plain) :
    s.program.SameFunctions (s.pushFunction new cache).program := by
  refine ⟨?_, fun f hf => ?_, fun f hf => ?_⟩
  · rw [size_pushFunction]
    exact Nat.le_succ _
  · rw [functionAt_pushFunction_of_lt hf]
    exact .refl _
  · rw [functionAt_pushFunction]
    split
    · exact hplain
    · rw [Program.functionAt_of_size_le hf]
      exact FuncInst.plain_default

theorem Advances.pushFunction (hplain : new.Plain) (hbare : new.Bodiless) :
    Advances w s (s.pushFunction new cache) := by
  have hsame : s.program.SameFunctions (s.pushFunction new cache).program :=
    sameFunctions_pushFunction hplain
  refine ⟨Nat.le_refl _, hsame.size, fun _ => .refl _, fun hf => ?_, fun hf _ => ?_, fun hf _ => ?_,
    fun {f} h1 h2 => ?_, rfl, fun h => h, fun h => h⟩
  · rw [functionAt_pushFunction_of_lt hf]
    exact .refl _
  · rw [functionAt_pushFunction_of_lt hf]
    exact .refl _
  · rw [functionAt_pushFunction_of_lt hf]
  · rw [size_pushFunction] at h2
    obtain rfl : f = s.program.functions.size := Nat.le_antisymm (Nat.le_of_lt_succ h2) h1
    rw [functionAt_pushFunction_self]
    exact hbare

/-- A function that is new and whose signature is to be resolved stands in no slot. -/
theorem Uniform.pushFunction {signing : List FuncId} (hp : s.program.ClassTable)
    (hu : Uniform src signing s.program) (hplain : new.Plain) :
    Uniform src (s.program.functions.size :: signing) (s.pushFunction new cache).program := by
  refine ⟨hu.applied, fun {f c m} hf hm => ?_, fun c f k howner hslot => ?_⟩
  · have hne : f ≠ s.program.functions.size := fun h => hf (h ▸ List.mem_cons_self)
    rw [functionAt_pushFunction, if_neg hne] at hm ⊢
    exact hu.methods (fun h => hf (List.mem_cons_of_mem _ h))
      ⟨hm.symbol, hm.owner, hm.declared, hm.typeArgs⟩
  · rw [functionAt_pushFunction] at howner hslot ⊢
    split at hslot
    · cases hplain.slot.symm.trans hslot
    · next hne =>
      rw [if_neg hne] at howner ⊢
      refine (hu.slots c howner hslot).imp_right fun hopener o ho => ?_
      rw [functionAt_pushFunction_of_lt (Program.lt_size_of_slot (hp.dispatching.opened ho).2.1)]
      exact hopener o ho

/-- A function that is new is to be linked when its signature is known. -/
theorem Labels.pushFunction {known : Prop} {signing : List FuncId}
    (hp : Labels src known signing s.program)
    (hfree : known → ∀ {m ns}, new.symbol = some m → (src.tree.functionAt m).kind = .free →
      (src.tree.functionAt m).owner = .ns ns → new.receiver = none ∧ m < src.tree.functions.size) :
    Labels src known (s.program.functions.size :: signing) (s.pushFunction new cache).program := by
  refine ⟨hp.displays, fun f hf hmem => ?_, fun hknown f m ns hsymbol hkind howner => ?_⟩
  · rw [List.mem_cons, not_or] at hmem
    obtain ⟨hne, hmem⟩ := hmem
    rw [size_pushFunction] at hf
    rw [functionAt_pushFunction, if_neg hne]
    exact hp.functions f (Nat.lt_of_le_of_ne (Nat.le_of_lt_succ hf) hne) hmem
  · rw [functionAt_pushFunction] at hsymbol ⊢
    split at hsymbol
    · next h =>
      rw [if_pos h]
      exact hfree hknown hsymbol hkind howner
    · next h =>
      rw [if_neg h]
      exact hp.free hknown hsymbol hkind howner

theorem Orderly.pushFunction (hs : Orderly src closed w s) (cache : InstanceCache FunctionKey)
    (hplain : new.Plain)
    (hfree : closed.known → ∀ {m ns}, new.symbol = some m → (src.tree.functionAt m).kind = .free →
      (src.tree.functionAt m).owner = .ns ns → new.receiver = none ∧ m < src.tree.functions.size)
    (howned : ∀ c, new.owner = some c → new.receiver = some (.object c))
    (hknown : closed → ∀ c, new.owner = some c → Known w s c)
    (hwithin : closed → new.Within s.program) (hbare : new.Bodiless)
    (hcache : ∀ {key e}, cache.get? key = some e → s.program.functionCache.get? key = some e ∨
      e.id = s.program.functions.size ∧ Answers src key new) :
    Orderly src closed (w.sign s.program.functions.size) (s.pushFunction new cache) := by
  have hsame : s.program.SameFunctions (s.pushFunction new cache).program :=
    sameFunctions_pushFunction hplain
  have hst : Advances w s (s.pushFunction new cache) := .pushFunction hplain hbare
  have hsize : (s.pushFunction new cache).program.classes.size = s.program.classes.size := rfl
  have hle : (s.pushFunction new cache).program.functions.size = s.program.functions.size + 1 :=
    size_pushFunction
  refine ⟨hs.table.congr hsize (fun c => .refl _) hsame, fun hc => (hs.exact hc).congr hs.table
    (fun c => (ClassInst.SameTable.refl _).toSameSlots) hsame, ?_, hs.initialized,
    fun hc => ⟨fun c => ?_, fun f => ?_, (hs.typed hc).founded⟩, ?_, ?_, fun f hf => ?_,
    fun h => (hs.uniform (h.of_clean fun h => h)).pushFunction hs.table hplain,
    hs.labels.pushFunction hfree, fun task htask => ?_, hs.proper⟩
  · constructor
    · exact hs.catalogue.declared
    · exact hs.catalogue.classKeys
    · intro key e he
      rw [hle]
      rcases hcache he with he | ⟨hid, hkey⟩
      · rcases hs.catalogue.functionKeys he with ⟨hlt, hkey⟩
        rw [functionAt_pushFunction_of_lt hlt]
        exact ⟨Nat.lt_succ_of_lt hlt, hkey⟩
      · rw [hid, functionAt_pushFunction_self]
        exact ⟨Nat.lt_succ_self _, hkey⟩
    · intro f c hf
      rw [functionAt_pushFunction] at hf ⊢
      split at hf
      · next h =>
        rw [if_pos h]
        exact howned c hf
      · next h =>
        rw [if_neg h]
        exact hs.catalogue.owned hf
    · intro c f hf
      rcases hs.catalogue.inits hf with ⟨hlt, howner⟩
      rw [hle, functionAt_pushFunction_of_lt hlt]
      exact ⟨Nat.lt_succ_of_lt hlt, howner⟩
    · exact hs.catalogue.generics
  · exact ((hs.typed hc).classes c).mono (Nat.le_refl _) (hle ▸ Nat.le_succ _)
  · rw [functionAt_pushFunction]
    split
    · exact (hwithin hc).mono (Nat.le_refl _)
    · exact ((hs.typed hc).functions f).mono (Nat.le_refl _)
  · exact ⟨hs.agenda.nodup, hs.agenda.lt, hs.agenda.progress, hs.agenda.blank, hs.agenda.ordered,
      hs.agenda.unresolved⟩
  · exact ⟨hs.reserve.nodup, hs.reserve.built, hs.reserve.lt, hs.reserve.free⟩
  · rcases List.mem_cons.mp hf with rfl | hf
    · refine ⟨hle ▸ Nat.lt_succ_self _, fun _ => ?_, fun hc c howner => ?_⟩
      · rw [functionAt_pushFunction_self]
        exact hplain.slot
      · rw [functionAt_pushFunction_self] at howner
        exact hknown hc c howner
    · exact ((hs.signing f hf).advance hst).mono fun _ h => h
  · have htask := hs.tasks task htask
    refine ⟨hle ▸ Nat.lt_succ_of_lt htask.lt, ?_, ?_, fun hc name ty hty =>
      (htask.subst hc name ty hty).mono (Nat.le_refl _)⟩
    · rw [functionAt_pushFunction_of_lt htask.lt]
      exact htask.cls
    · rw [functionAt_pushFunction_of_lt htask.lt]
      exact htask.selfType

theorem Orderly.openFunction {key : FunctionKey} {id : FuncId} (hs : Orderly src closed w s)
    (hplain : new.Plain) (hkey : Answers src key new)
    (hbare : closed.known → Bare src key)
    (howned : ∀ c, new.owner = some c → new.receiver = some (.object c))
    (hknown : closed → ∀ c, new.owner = some c → Known w s c)
    (hwithin : closed → new.Within s.program) (hbodiless : new.Bodiless)
    (h : openFunction key new s = some (id, t)) :
    Orderly src closed (w.sign id) t ∧ Advances w s t ∧ id = s.program.functions.size ∧
      id < t.program.functions.size ∧ t.program.functionAt id = new := by
  cases h
  have hcache {key' e} (he : (s.program.functionCache.begin key s.program.functions.size).get?
      key' = some e) : s.program.functionCache.get? key' = some e ∨
        e.id = s.program.functions.size ∧ Answers src key' new := by
    rw [InstanceCache.get?_begin] at he
    split at he
    · next hk =>
      cases he
      exact .inr ⟨rfl, hk ▸ hkey⟩
    · exact .inl he
  have hfree (hc : closed.known) {m ns} (hsymbol : new.symbol = some m)
      (hkind : (src.tree.functionAt m).kind = .free)
      (howner : (src.tree.functionAt m).owner = .ns ns) :
      new.receiver = none ∧ m < src.tree.functions.size := by
    cases hkey.symbol.symm.trans hsymbol
    rw [hkey.receiver]
    exact hbare hc ns howner hkind
  refine ⟨hs.pushFunction _ hplain hfree howned hknown hwithin hbodiless hcache,
    .pushFunction hplain hbodiless, rfl, ?_, functionAt_pushFunction_self⟩
  exact size_pushFunction ▸ Nat.lt_succ_self _

/-- A function that nobody wrote is no method. -/
theorem Orderly.addFunction {inst : FuncId → FuncInst} {id : FuncId} (hs : Orderly src closed w s)
    (h : Check.pushFunction inst s = some (id, t)) (hplain : ∀ id, (inst id).Plain)
    (hsymbol : ∀ id, (inst id).symbol = none) (hlabel : ∀ id, Label src id (inst id))
    (howned : ∀ id c, (inst id).owner = some c → (inst id).receiver = some (.object c))
    (hknown : closed → ∀ id c, (inst id).owner = some c → Known w s c)
    (hwithin : closed → ∀ id, (inst id).Within s.program) (hbare : ∀ id, (inst id).Bodiless) :
    Orderly src closed w t ∧ Advances w s t ∧ id < t.program.functions.size ∧
      t.program.functionAt id = inst id := by
  cases h
  have hself :
      (s.pushFunction (inst s.program.functions.size) s.program.functionCache).program.functionAt
      s.program.functions.size = inst s.program.functions.size :=
    functionAt_pushFunction_self
  have ht := hs.pushFunction s.program.functionCache (hplain s.program.functions.size)
    (fun _ {m ns} hm => by cases (hsymbol _).symm.trans hm) (howned _) (fun hc => hknown hc _)
    (fun hc => hwithin hc _) (hbare _) .inl
  refine ⟨ht.unsign (hself.symm ▸ hlabel _) fun _ c m hm => ?_, .pushFunction (hplain _) (hbare _),
    size_pushFunction ▸ Nat.lt_succ_self _, hself⟩
  rw [hself] at hm
  cases (hsymbol _).symm.trans hm.symbol

end

/-- The function is the instance that it was and stands where it stood. -/
structure SameRole (f g : FuncInst) : Prop extends f.SameDispatch g where
  symbol : g.symbol = f.symbol
  kind : g.kind = f.kind
  typeArgs : g.typeArgs = f.typeArgs
  receiver : g.receiver = f.receiver

section

variable {id : FuncId} {u : FuncInst → FuncInst}

/-- A function of which only the signature is filled in, or anything else but the signature, stands
where it stood. -/
theorem Uniform.updateFunction {p : Program} {signing : List FuncId} (hp : p.ClassTable)
    (hu : Uniform src signing p) (hid : id < p.functions.size)
    (hrole : SameRole (p.functionAt id) (u (p.functionAt id)))
    (htypes : id ∈ signing ∧ (p.functionAt id).slot = none ∨
      (p.functionAt id).SameTypes (u (p.functionAt id))) :
    Uniform src signing (p.updateFunction id u) := by
  have hat (f : FuncId) := p.functionAt_updateFunction f hid u
  have hsame {f : FuncId} (hf : f ∉ signing ∨ (p.functionAt f).slot ≠ none) :
      (p.functionAt f).SameTypes ((p.updateFunction id u).functionAt f) := by
    rw [hat]
    split
    · next h =>
      subst h
      rcases htypes with ⟨hmem, hslot⟩ | htypes
      · exact hf.elim (absurd hmem) (absurd hslot)
      · exact htypes
    · exact .refl _
  have hrole (f : FuncId) : SameRole (p.functionAt f) ((p.updateFunction id u).functionAt f) := by
    rw [hat]
    split
    · next h => exact h ▸ hrole
    · exact ⟨.refl _, rfl, rfl, rfl, rfl⟩
  refine ⟨hu.applied, fun {f c m} hf hm => ?_, fun c f k howner hslot => ?_⟩
  · refine (hu.methods hf ⟨?_, ?_, hm.declared, ?_⟩).same (hsame (.inl hf))
    · exact (hrole f).symbol ▸ hm.symbol
    · exact (hrole f).owner ▸ hm.owner
    · exact (hrole f).typeArgs ▸ hm.typeArgs
  · rw [(hrole f).owner] at howner
    rw [(hrole f).slot] at hslot
    rcases hu.slots c howner hslot with ⟨hknown, hopener⟩
    have hf := hsame (f := f) (.inr (by simp [hslot]))
    refine ⟨hknown.same hf, fun o ho => ?_⟩
    have ho' := hsame (f := o) (.inr (by simp [(hp.dispatching.opened ho).2.1]))
    exact ho'.symm.trans ((hopener o ho).trans hf)

theorem Orderly.updateFunction (hs : Orderly src closed w s) (hid : id < s.program.functions.size)
    (hrole : SameRole (s.program.functionAt id) (u (s.program.functionAt id)))
    (htypes : id ∈ w.signing ∨ (s.program.functionAt id).SameTypes (u (s.program.functionAt id)) ∧
      (u (s.program.functionAt id)).linkName = (s.program.functionAt id).linkName ∧
      (u (s.program.functionAt id)).exported = (s.program.functionAt id).exported)
    (hwithin : closed → (u (s.program.functionAt id)).Within s.program) :
    Orderly src closed w { s with program := s.program.updateFunction id u } := by
  have hat (f : FuncId) := s.program.functionAt_updateFunction f hid u
  have hsize := s.program.size_updateFunction id u
  have hsame (f : FuncId) :
      SameRole (s.program.functionAt f) ((s.program.updateFunction id u).functionAt f) := by
    rw [hat]
    split
    · next h =>
      rw [h]
      exact hrole
    · exact ⟨.refl _, rfl, rfl, rfl, rfl⟩
  have hfun : s.program.SameFunctions (s.program.updateFunction id u) := by
    refine ⟨Nat.le_of_eq hsize.symm, fun f _ => (hsame f).toSameDispatch, fun f hf => ?_⟩
    have hne : f ≠ id := fun h => Nat.not_lt.mpr hf (h ▸ hid)
    rw [hat, if_neg hne, Program.functionAt_of_size_le hf]
    exact FuncInst.plain_default
  refine ⟨hs.table.congr rfl (fun c => .refl _) hfun, fun hc => (hs.exact hc).congr hs.table
    (fun c => (ClassInst.SameTable.refl _).toSameSlots) hfun, ?_, hs.initialized,
    fun hc => ⟨fun c => ?_, fun f => ?_, (hs.typed hc).founded⟩, ?_, ?_, fun f hf => ?_,
    fun h => ?_, ?_, fun task htask => ?_, hs.proper⟩
  · constructor
    · exact hs.catalogue.declared
    · exact hs.catalogue.classKeys
    · intro key e he
      rcases hs.catalogue.functionKeys he with ⟨hlt, hkey⟩
      have hf := hsame e.id
      dsimp only
      rw [hsize]
      exact ⟨hlt, hf.symbol.trans hkey.symbol, hf.name.trans hkey.name, hf.kind.trans hkey.kind,
        hf.typeArgs.trans hkey.typeArgs, hf.receiver.trans hkey.receiver,
        hf.owner.trans hkey.owner⟩
    · intro f c hf
      dsimp only at hf ⊢
      rw [(hsame f).owner] at hf
      rw [(hsame f).receiver]
      exact hs.catalogue.owned hf
    · intro c f hf
      dsimp only
      rw [hsize, (hsame f).owner]
      exact hs.catalogue.inits hf
    · exact hs.catalogue.generics
  · exact ((hs.typed hc).classes c).mono (Nat.le_refl _) (Nat.le_of_eq hsize.symm)
  · dsimp only
    rw [hat]
    split
    · exact (hwithin hc).mono (Nat.le_refl _)
    · exact ((hs.typed hc).functions f).mono (Nat.le_refl _)
  · exact ⟨hs.agenda.nodup, hs.agenda.lt, hs.agenda.progress, hs.agenda.blank, hs.agenda.ordered,
      hs.agenda.unresolved⟩
  · exact ⟨hs.reserve.nodup, hs.reserve.built, hs.reserve.lt, hs.reserve.free⟩
  · have hsigned := hs.signing f hf
    refine ⟨hsize ▸ hsigned.lt, fun hc => (hsame f).slot.trans (hsigned.slot hc),
      fun hc c howner => ?_⟩
    exact hsigned.owner hc c ((hsame f).owner ▸ howner)
  · exact (hs.uniform (h.of_clean fun h => h)).updateFunction hs.table hid hrole
      (htypes.imp (fun hmem => ⟨hmem, (hs.signing id hmem).slot h.within⟩) (·.1))
  · refine hs.labels.congr (fun _ => rfl) hsize
      (fun f => ⟨(hsame f).symbol, (hsame f).typeArgs, (hsame f).receiver⟩) fun f hf => ?_
    dsimp only
    rw [hat]
    split
    · next h =>
      subst h
      exact (htypes.resolve_left hf).2
    · exact ⟨rfl, rfl⟩
  · have htask := hs.tasks task htask
    have hf := hsame task.function
    refine ⟨hsize ▸ htask.lt, htask.cls.trans hf.owner.symm, ?_, fun hc name ty hty =>
      (htask.subst hc name ty hty).mono (Nat.le_refl _)⟩
    rw [hf.kind, hf.owner, hf.receiver]
    exact htask.selfType

/-- The signature of a function may be filled in while it is being resolved. -/
theorem Advances.updateFunction (hid : id < s.program.functions.size) (hsign : id ∈ w.signing)
    (halike : (s.program.functionAt id).Alike (u (s.program.functionAt id)))
    (hslot : (u (s.program.functionAt id)).slot = (s.program.functionAt id).slot) :
    Advances w s { s with program := s.program.updateFunction id u } where
  classes := Nat.le_refl _
  functions := Nat.le_of_eq (s.program.size_updateFunction id u).symm
  kept _ := .refl _
  alike {f} _ := by
    dsimp only
    rw [s.program.functionAt_updateFunction f hid u]
    split
    · next h =>
      rw [h]
      exact halike
    · exact .refl _
  signed {f} _ hf := by
    have hne : f ≠ id := fun h => hf (h ▸ hsign)
    dsimp only
    rw [s.program.functionAt_updateFunction f hid u, if_neg hne]
    exact .refl _
  slots {f} _ _ := by
    dsimp only
    rw [s.program.functionAt_updateFunction f hid u]
    split
    · next h =>
      rw [h]
      exact hslot
    · rfl
  fresh h1 h2 := absurd ((s.program.size_updateFunction id u) ▸ h2) (Nat.not_lt.mpr h1)
  resolving := rfl
  implementors h := h
  clean h := h

end

end ObjectLang.Check
