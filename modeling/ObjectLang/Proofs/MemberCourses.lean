import ObjectLang.Proofs.Courses

/-! # Functions and the members of classes along a course

Function instances, and the parts of a class between its layout and its completion, follow every
course that leaves room for the bodies that they put into the queue.
-/

namespace ObjectLang.Check

open Source Syntax Scope Names Diagnostic Checked

variable {src : Sources} {k : Course src} {s : State}

/-! ### Look-up -/

theorem findFunction_eq (key : FunctionKey) (s : State) :
    findFunction key s = some (s.program.functionFor key, { s with program :=
      { s.program with functionCache := (s.program.functionCache.lookup key).2 } }) := by
  simp only [Program.functionFor, ← InstanceCache.lookup_fst]
  rfl

theorem findClass_eq (key : ClassKey) (s : State) :
    findClass key s = some (s.program.classFor key, { s with program :=
      { s.program with classCache := (s.program.classCache.lookup key).2 } }) := by
  simp only [Program.classFor, ← InstanceCache.lookup_fst]
  rfl

theorem sameRecords_findFunction (src : Sources) (key : FunctionKey) (s : State) :
    SameRecords src s { s with program :=
      { s.program with functionCache := (s.program.functionCache.lookup key).2 } } :=
  ⟨rfl, rfl, fun _ => rfl, fun _ => rfl, fun _ => rfl, fun _ => rfl, fun h => h, fun h => h,
    fun _ => rfl, fun _ => by simp [Program.functionFor], ⟨[], by simp, nofun⟩, rfl⟩

theorem sameRecords_findClass (src : Sources) (key : ClassKey) (s : State) :
    SameRecords src s { s with program :=
      { s.program with classCache := (s.program.classCache.lookup key).2 } } :=
  ⟨rfl, rfl, fun _ => rfl, fun _ => rfl, fun _ => rfl, fun _ => rfl, fun h => h, fun h => h,
    fun _ => by simp, fun _ => rfl, ⟨[], by simp, nofun⟩, rfl⟩

theorem findClass_spec (src : Sources) (key : ClassKey) (s : State) :
    ∃ t, findClass key s = some (s.program.classFor key, t) ∧ SameWork s t ∧ SameRecords src s t ∧
      t.errors = s.errors :=
  ⟨_, findClass_eq key s, ⟨rfl, rfl, rfl, rfl⟩, sameRecords_findClass src key s, rfl⟩

/-- A look-up that leaves the records alone finds what is found afterwards. -/
theorem works_find {α : Type} {x : Checking α} {found : State → α}
    (hx : ∀ s, ∃ t, x s = some (found s, t) ∧ SameWork s t ∧ SameRecords src s t)
    (hfound : ∀ {s t}, SameRecords src s t → found t = found s) :
    Works k (fun _ => True) (fun _ => x) fun r s => found s = r :=
  .step fun {s} hs _ => by
    obtain ⟨t, hrun, hwork, hrecords⟩ := hx s
    obtain ⟨ht, hst⟩ := k.stay hs hrecords hwork
    exact ⟨_, t, hrun, ht, hst, hfound hrecords⟩

theorem works_findFunction (key : FunctionKey) :
    Works k (fun _ => True) (fun _ => findFunction key) fun r s => s.program.functionFor key = r :=
  works_find (fun s => ⟨_, findFunction_eq key s, ⟨rfl, rfl, rfl, rfl⟩,
    sameRecords_findFunction src key s⟩) (·.functionFor key)

theorem works_findClass (key : ClassKey) :
    Works k (fun _ => True) (fun _ => findClass key) fun r s => s.program.classFor key = r :=
  works_find (fun s => ⟨_, findClass_eq key s, ⟨rfl, rfl, rfl, rfl⟩,
    sameRecords_findClass src key s⟩) (·.classFor key)

/-! ### Function instances -/

/-- There is room in the queue for bodies that lie `grow` deeper than the current place. -/
def Course.Queues (k : Course src) (grow : Nat) : Prop :=
  ∀ ⦃s⦄ (task : BodyTask), k.holds s → task.env.depth = s.depth + grow →
    (0 < grow → s.depth < maxDepth) → k.holds (s.withBody task) ∧ k.goes s (s.withBody task)

theorem works_openFunction {key : FunctionKey} (inst : FuncInst) (hkey : inst.key? = some key)
    (hbelongs : Belongs src key) (depth : Nat) :
    Works k (fun s => s.depth = depth ∧ (k.strict → s.program.functionFor key = none))
      (fun _ => openFunction key inst)
      fun id s => s.depth = depth ∧ (k.strict → s.program.functionFor key = some id) :=
  .step fun {s} hs hp => by
    obtain ⟨ht, hst⟩ := k.opens inst hs fun hk => ⟨hp.2 hk, hkey, hbelongs⟩
    refine ⟨_, _, rfl, ht, hst, (k.level hst).trans hp.1, fun _ => ?_⟩
    simp [Program.functionFor, InstanceCache.get?_begin, CacheEntry.id]

theorem works_closeFunction (key : FunctionKey) (id : FuncId) :
    Works k (fun s => k.strict → s.program.functionFor key = some id)
      (fun _ => closeFunction key id) fun _ _ => True :=
  .step fun {s} hs hp => by
    refine ⟨(), _, rfl, ?_⟩
    rw [← and_assoc]
    refine ⟨k.still hs ⟨rfl, rfl, rfl, rfl⟩ fun hk => ?_, trivial⟩
    refine ⟨rfl, rfl, fun _ => rfl, fun _ => rfl, fun _ => rfl, fun _ => rfl, fun h => h,
      fun h => h, fun _ => rfl, fun key' => ?_, ⟨[], by simp, nofun⟩, rfl⟩
    by_cases hkey : key = key'
    · subst hkey
      rw [hp hk]
      simp [Program.functionFor, InstanceCache.get?_finish, CacheEntry.id]
    · simp [Program.functionFor, InstanceCache.get?_finish, hkey]

/-- What was found under its key while the depth stays the same. -/
theorem Course.stable_function (key : FunctionKey) (id : FuncId) (depth : Nat) {s t : State}
    (hst : k.goes s t)
    (h : s.depth = depth ∧ (k.strict → s.program.functionFor key = some id)) :
    t.depth = depth ∧ (k.strict → t.program.functionFor key = some id) :=
  ⟨(k.level hst).trans h.1, fun hk => (k.retains hk hst).functions (h.2 hk)⟩

section

variable {request : Nat → ClassRequest} (hr : k.Serves request)

include hr

theorem works_instantiateFunction (key : FunctionKey) (owner : Option ClassId)
    (hbelongs : Belongs src key) (hq : k.Queues (if key.typeArgs.isEmpty then 0 else 1)) :
    Works k (fun s => (k.strict → s.program.functionFor key = none) ∧
        (key.typeArgs ≠ [] → s.depth < maxDepth))
      (fun i => instantiateFunction src (request i) key owner)
      fun id s => k.strict → s.program.functionFor key = some id := by
  have hdepth (depth : Nat) : (if key.typeArgs.isEmpty then depth else depth + 1) =
      depth + if key.typeArgs.isEmpty then 0 else 1 := by
    split <;> rfl
  simp only [instantiateFunction]
  refine Works.get.bind fun outer => ?_
  by_cases hroom : key.typeArgs ≠ [] → outer.depth < maxDepth
  swap
  · exact ⟨fun _ hp => absurd (hp.1 ▸ hp.2.2) hroom, fun _ _ _ hp => absurd (hp.1 ▸ hp.2.2) hroom⟩
  -- Once the instance is begun it is found under its key, whatever its signature asks for.
  have hstable {id : FuncId} {s t : State} (hst : k.goes s t) :=
    k.stable_function key id outer.depth hst
  refine .bind (.imp (works_openFunction (unsigned src key owner) rfl hbelongs outer.depth)
    (fun _ h => ⟨h.1 ▸ rfl, h.2.1⟩) fun _ h => h) fun id => ?_
  have hmap : Safe k fun i => (src.tree.functionAt key.symbol).decl.params.mapM fun p =>
      resolveType src (request i) (functionSubst src outer.program key owner) p.type :=
    .mapM fun p _ => safe_resolveType hr p.type
  refine .bind (hmap.frame hstable fun _ _ => trivial) fun types => ?_
  refine .bind (.imp ((safe_resolveReturn hr _ _).frame hstable fun _ _ => trivial) (fun _ h => h.2)
    fun _ h => h.2) fun returnType => ?_
  refine .bind (.imp Works.getProgram (fun _ h => h) fun _ h => h.2) fun p => ?_
  refine .bind (.imp (.frame (P := fun _ => True) (.still (.updateFunction fun _ => rfl)) hstable
    fun _ _ => trivial) (fun _ h => h) fun _ h => h.2) fun _ => ?_
  refine .bind (.imp ((works_closeFunction key id).frame hstable fun _ h => h.2) (fun _ h => h)
    fun _ h => h.2) fun _ => ?_
  refine .optional (R := fun s => s.depth = outer.depth ∧
    (k.strict → s.program.functionFor key = some id))
    (.step fun {s} hs hp => ?_) (fun h => h) (.pure fun _ h => h.2)
  obtain ⟨ht, hst⟩ := hq (bodyTask src key owner (functionSubst src outer.program key owner)
    outer.depth id) hs (by rw [hp.1]; exact hdepth _) fun hgrow => by
      rw [hp.1]
      refine hroom fun hempty => ?_
      simp [hempty] at hgrow
  exact ⟨(), _, rfl, ht, hst, hstable hst hp⟩

theorem works_instantiateWithin (key : FunctionKey) (owner : Option ClassId)
    (hbelongs : Belongs src key)
    (span : Span) (hq : k.Queues (if key.typeArgs.isEmpty then 0 else 1)) :
    Works k (fun s => k.strict → s.program.functionFor key = none)
      (fun i => instantiateWithin src (request i) key owner span)
      fun r s => (r = none → key.typeArgs ≠ []) ∧
        (k.strict → ∀ id, r = some id → s.program.functionFor key = some id) := by
  simp only [instantiateWithin]
  refine Works.get.bind fun outer => .ite (fun hdeep => ?_) fun hdeep => ?_
  · refine (Works.quiet (.report span)).bind fun _ => .pure fun _ _ => ⟨fun _ => ?_, nofun⟩
    rintro hempty
    simp [hempty] at hdeep
  · refine ((works_instantiateFunction hr key owner hbelongs hq).imp
      (fun {s} _ h => ⟨h.2, fun hgeneric => ?_⟩) fun _ h => h).bind fun id => .pure fun _ h =>
        ⟨nofun, fun hk _ hid => Option.some.inj hid ▸ h hk⟩
    rw [← h.1]
    simpa [hgeneric] using hdeep

omit hr

/-- Where the instance that was asked for is found: under its key, or, for a member that was asked
for without an object, under the only instance of its class. -/
inductive Found (src : Sources) (s : State) (key : FunctionKey) (f : FuncId) : Prop where
  | direct (h : s.program.functionFor key = some f) : Found src s key f
  | member {struct : StructureId} {c : ClassId}
      (hkind : (src.tree.functionAt key.symbol).kind ≠ .requirement)
      (hcount : key.typeArgs.length = (src.tree.functionAt key.symbol).decl.typeParams.length)
      (howner : (src.tree.functionAt key.symbol).owner = .struct struct)
      (hreceiver : ∀ c, key.receiver ≠ some (.object c))
      (hplain : (src.tree.structureAt struct).decl.typeParams = [])
      (hclass : s.program.classFor ⟨struct, []⟩ = some c)
      (h : s.program.functionFor { key with receiver := some (.object c) } = some f) : Found
      src s key f

/-- What a request for a function has come to. -/
structure FunctionAnswered (src : Sources) (s : State) (key : FunctionKey) (r : Option FuncId) :
    Prop where
  found : ∀ f, r = some f → Found src s key f
  refused : r = none → (∃ struct, (src.tree.functionAt key.symbol).owner = .struct struct) ∨
    (src.tree.functionAt key.symbol).kind = .requirement ∨
    key.typeArgs.length ≠ (src.tree.functionAt key.symbol).decl.typeParams.length ∨
    key.typeArgs ≠ []

/-- The queue has room for the bodies of instances of a key. -/
def Course.Admits (k : Course src) (typeArgs : List Ty) : Prop :=
  k.Queues (if typeArgs.isEmpty then 0 else 1)

include hr

variable {struct : StructureId}

theorem works_requestMember {key : FunctionKey} (span : Span) (hq : k.Admits key.typeArgs)
    (hstruct : k.strict → struct < k.bound) :
    Works k (fun _ => True) (fun i => requestMember src (request i) key struct span) fun r s =>
      k.strict → ∀ f, r = some f → (src.tree.structureAt struct).decl.typeParams = [] ∧
        ∃ c, s.program.classFor ⟨struct, []⟩ = some c ∧
          s.program.functionFor { key with receiver := some (.object c) } = some f := by
  simp only [requestMember]
  refine .ite (fun _ => .pure fun _ _ _ => nofun) fun hplain => ?_
  have hplain : (src.tree.structureAt struct).decl.typeParams = [] := by simpa using hplain
  refine ((hr struct [] span).imp (fun _ _ => hstruct) fun _ h => h).bind fun r => ?_
  cases r with
  | none => exact .pure fun _ _ _ => nofun
  | some c =>
    have hclass {s t : State} (hst : k.goes s t)
        (h : k.strict → s.program.classFor ⟨struct, []⟩ = some c) (hk : k.strict) :
        t.program.classFor ⟨struct, []⟩ = some c :=
      (k.retains hk hst).classes (h hk)
    refine .imp (P := fun s => k.strict → s.program.classFor ⟨struct, []⟩ = some c) ?_
      (fun _ h hk => (h hk).found c rfl) fun _ h => h
    refine ((works_findFunction _).frame hclass fun _ _ => trivial).bind fun found => ?_
    cases found with
    | some id =>
      refine .pure fun _ h hk f hf => ⟨hplain, c, h.2 hk, ?_⟩
      exact h.1.trans hf
    | none =>
      have hmake := works_instantiateWithin hr { key with receiver := some (.object c) } (some c)
        (fun _ _ => ⟨c, rfl⟩) span hq
      exact .imp (hmake.beside hclass) (fun _ h => ⟨fun _ => h.1, h.2⟩) fun _ h hk f hf =>
        ⟨hplain, c, h.2 hk, h.1.2 hk f hf⟩

theorem works_requestFunction (key : FunctionKey) (span : Span) (hq : k.Admits key.typeArgs)
    (howner : k.strict → ∀ struct, (src.tree.functionAt key.symbol).owner = .struct struct →
      (∃ c, key.receiver = some (.object c)) ∨ struct < k.bound) :
    Works k (fun _ => True) (fun i => requestFunction src (request i) key span) fun r s =>
      k.strict → FunctionAnswered src s key r := by
  simp only [requestFunction]
  refine (works_findFunction key).bind fun found => ?_
  cases found with
  | some id => exact .pure fun _ h _ => ⟨fun f hf => .direct (h.trans hf), nofun⟩
  | none =>
    have hwithin (owner : Option ClassId) (hbelongs : Belongs src key) :
        Works k (fun s => s.program.functionFor key = none)
          (fun i => instantiateWithin src (request i) key owner span)
          fun r s => k.strict → FunctionAnswered src s key r :=
      (works_instantiateWithin hr key owner hbelongs span hq).imp (fun _ h _ => h) fun _ h hk =>
        ⟨fun f hf => .direct (h.2 hk f hf), fun hr => .inr (.inr (.inr (h.1 hr)))⟩
    refine .ite (fun hkind => .pure fun _ _ _ => ⟨nofun, fun _ => .inr (.inl hkind)⟩) fun hkind =>
      .ite (fun hcount => ?_) fun hcount => ?_
    · exact (Works.quiet (.report span)).bind fun _ => .pure fun _ _ _ =>
        ⟨nofun, fun _ => .inr (.inr (.inl hcount))⟩
    cases hcase : (src.tree.functionAt key.symbol).owner with
    | ns ns => exact hwithin none fun struct h => nomatch hcase.symm.trans h
    | struct struct =>
      have hmember (hreceiver : ∀ c, key.receiver ≠ some (.object c)) :
          Works k (fun s => s.program.functionFor key = none)
            (fun i => requestMember src (request i) key struct span)
            fun r s => k.strict → FunctionAnswered src s key r := by
        refine (works_requestMember hr span hq fun hk => (howner hk struct hcase).resolve_left
          fun ⟨c, hc⟩ => hreceiver c hc).imp (fun _ _ => trivial) fun _ h hk =>
            ⟨fun f hf => ?_, fun _ => .inl ⟨struct, hcase⟩⟩
        obtain ⟨hplain, c, hclass, hf⟩ := h hk f hf
        exact .member hkind (not_not.mp hcount) hcase hreceiver hplain hclass hf
      cases hreceiver : key.receiver with
      | none => exact hmember (by simp [hreceiver])
      | some ty =>
        cases ty with
        | object c => exact hwithin (some c) fun _ _ => ⟨c, hreceiver⟩
        | primitive _ | protocol _ | enum _ | unknown => exact hmember (by simp [hreceiver])

theorem safe_requestFunction {key : FunctionKey} (span : Span) (hq : k.Admits key.typeArgs)
    (howner : k.strict → ∀ struct, (src.tree.functionAt key.symbol).owner = .struct struct →
      (∃ c, key.receiver = some (.object c)) ∨ struct < k.bound) :
    Safe k fun i => requestFunction src (request i) key span :=
  (works_requestFunction hr key span hq howner).safe

/-! ### Members -/

theorem safe_layoutFields (cls : ClassId) (subst : Subst) (fields : List FieldInst)
    (decls : List (Syntax.Field Mark)) :
    Safe k fun i => layoutFields src (request i) cls subst fields decls := by
  induction decls generalizing fields with
  | nil => exact .pure fun _ _ => trivial
  | cons f fs ih =>
    simp only [layoutFields]
    refine (safe_resolveType hr f.type).bind fun ty => .ite (fun _ => ?_) fun _ => ih _
    exact (Works.quiet (.report _)).bind fun _ => ih fields

theorem safe_buildMethod (hq : k.Queues 0) (cls : ClassId) {decl : Class Mark}
    (hdecl : (src.tree.structureAt struct).decl.cls? = some decl) {method : Function Mark}
    (hmethod : method ∈ decl.methods) :
    Safe k fun i => buildMethod src (request i) cls struct method := by
  have henter (entry : MethodEntry) (hentry : k.strict → ∀ g, entry = .generic g →
      (src.tree.functionAt g).decl.typeParams ≠ []) : Safe k fun _ => updateClass cls fun c =>
        { c with methods := c.methods.insert method.name entry } := by
    refine .step fun {s} hs _ => ⟨(), _, rfl, ?_⟩
    rw [← and_assoc]
    refine ⟨k.still hs ⟨rfl, rfl, rfl, rfl⟩ fun hk => .updateClass s rfl rfl rfl rfl fun n g hg =>
      ?_, trivial⟩
    rw [Std.TreeMap.getElem?_insert] at hg
    split at hg
    · exact .inr (hentry hk g (Option.some.inj hg))
    · exact .inl hg
  simp only [buildMethod]
  cases hsymbol : (src.tree.structureAt struct).methods[method.name]? with
  | none => exact .pure fun _ _ => trivial
  | some symbol =>
    refine .ite (fun _ => .pure fun _ _ => trivial) fun hnode =>
      .ite (fun _ => ?_) fun hparams => ?_
    · refine (safe_requestFunction hr _ (by exact hq) fun _ _ _ => .inl ⟨cls, rfl⟩).bind fun r => ?_
      cases r with
      | none => exact .pure fun _ _ => trivial
      | some function =>
        exact (Works.still (.applyDispatchRules cls function method)).bind fun _ =>
          henter (.inst function) fun _ _ => nofun
    · refine henter (.generic symbol) ?_
      rintro hk _ ⟨⟩
      -- The symbol with that name is the method itself.
      rw [(k.proper hk).methods hdecl hmethod hsymbol (not_not.mp hnode)]
      simpa using hparams

omit hr in
theorem safe_synthesizeInit (hq : k.Queues 0) (cls : ClassId) :
    Safe k fun _ => synthesizeInit src cls := by
  refine .step fun {s} hs _ => ?_
  obtain ⟨hs1, hst1⟩ := k.pushes {
    symbol := none, name := (s.program.classAt cls).name
    linkName := (s.program.classAt cls).display ++ ".init$" ++ toString s.program.functions.size
    kind := .init, receiver := some (.object cls)
    body := some (.empty (s.program.classAt cls).span), returnType := .void, owner := some cls
    span := (s.program.classAt cls).span } hs rfl
  obtain ⟨ht, hst2⟩ := hq {
    function := s.program.functions.size
    env := {
      subst := classSubst src s.program cls
      ns := (src.tree.structureAt (s.program.classAt cls).struct).ns
      file := (src.tree.structureAt (s.program.classAt cls).struct).file, cls := some cls
      selfType := some (.object cls), depth := s.depth } } hs1 rfl nofun
  exact ⟨_, _, rfl, ht, k.trans hst1 hst2, trivial⟩

theorem safe_buildInit (hq : k.Queues 0) (cls : ClassId) (struct : StructureId) :
    Safe k fun i => buildInit src (request i) cls struct := by
  have hinit :
      Safe k fun i => requestInit src (request i) cls (src.tree.structureAt struct).init := by
    cases (src.tree.structureAt struct).init with
    | some symbol => exact safe_requestFunction hr _ (by exact hq) fun _ _ _ => .inl ⟨cls, rfl⟩
    | none => exact (safe_synthesizeInit hq cls).map
  exact hinit.bind fun init => .still (.updateClass fun _ => ⟨rfl, rfl, rfl, rfl, rfl⟩)

omit hr in
theorem safe_conform {cls : ClassId} (hcls : ∀ {s}, k.holds s → k.strict →
      cls < s.program.classes.size ∧ (s.program.classAt cls).struct = struct)
      (protocol : StructureId) :
    Safe k (fun _ => do
      updateClass cls fun c => { c with protocols := c.protocols ++ [protocol] }
      addImplementor protocol struct) := by
  refine .step fun {s} hs _ => ⟨(), _, rfl, ?_⟩
  rw [← and_assoc]
  refine ⟨k.still hs ?_ fun hk => .conform (hcls hs hk).1 (hcls hs hk).2 rfl, trivial⟩
  dsimp only
  split <;> exact ⟨rfl, rfl, rfl, rfl⟩

theorem safe_checkConformance {cls : ClassId} (hcls : ∀ {s}, k.holds s → k.strict →
      cls < s.program.classes.size ∧ (s.program.classAt cls).struct = struct) (subst : Subst)
    (clause : TypeExpr Mark) :
    Safe k fun i => checkConformance src (request i) cls struct subst clause := by
  simp only [checkConformance]
  refine .bind (safe_resolveType hr clause) fun ty => ?_
  cases ty with
  | unknown => exact .pure fun _ _ => trivial
  | primitive _ | object _ | enum _ => exact .quiet (.reportFound ..)
  | protocol struct' =>
    dsimp only
    cases (src.tree.structureAt struct').decl.protocol? with
    | none => exact .pure fun _ _ => trivial
    | some protocol =>
      refine .bind (.quiet .getProgram) fun p => ?_
      refine .bind (.quiet (.forM fun _ => .report _)) fun _ => ?_
      exact .ite (fun _ => safe_conform hcls _) fun _ => .pure fun _ _ => trivial

end

end ObjectLang.Check
