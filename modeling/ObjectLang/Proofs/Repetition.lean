import ObjectLang.Proofs.PublicRequests

/-! # The same request once more

There is one instance for each key.  A request that is made once more finds what it made before,
whatever was asked for in between: it has the same result, makes nothing, and says nothing that was
not said before.
-/

namespace ObjectLang.Check

open Source Syntax Scope Names Diagnostic Checked

/-! ### States that differ in nothing that counts -/

/-- The instances and the keys that lead to them are the same. -/
structure Unmoved (s t : State) : Prop where
  classes : t.program.classes = s.program.classes
  functions : t.program.functions = s.program.functions
  classEntries : t.program.classCache.entries = s.program.classCache.entries
  functionEntries : t.program.functionCache.entries = s.program.functionCache.entries

/-- At most something was said once more. -/
structure Echo (s t : State) : Prop extends Unmoved s t where
  errors : ∃ again, t.errors = s.errors ++ again ∧ ∀ e ∈ again, e ∈ s.errors
  rest : t = { s with program := t.program, errors := t.errors }

/-- What was found or reported in the one state is so in the other. -/
structure Remembers (s t : State) : Prop where
  classes : ∀ {key c}, s.program.classFor key = some c → t.program.classFor key = some c
  functions : ∀ {key f}, s.program.functionFor key = some f → t.program.functionFor key = some f
  errors : s.errors ⊆ t.errors

variable {s t u : State}

theorem Unmoved.refl (s : State) : Unmoved s s := ⟨rfl, rfl, rfl, rfl⟩

theorem Unmoved.trans (h : Unmoved s t) (h' : Unmoved t u) : Unmoved s u :=
  ⟨h'.classes.trans h.classes, h'.functions.trans h.functions, h'.classEntries.trans h.classEntries,
    h'.functionEntries.trans h.functionEntries⟩

theorem Unmoved.classFor (h : Unmoved s t) (key : ClassKey) :
    t.program.classFor key = s.program.classFor key := by
  simp only [Program.classFor, InstanceCache.get?, h.classEntries]

theorem Unmoved.functionFor (h : Unmoved s t) (key : FunctionKey) :
    t.program.functionFor key = s.program.functionFor key := by
  simp only [Program.functionFor, InstanceCache.get?, h.functionEntries]

theorem Echo.refl (s : State) : Echo s s := ⟨.refl s, ⟨[], by simp, nofun⟩, rfl⟩

theorem Echo.trans (h : Echo s t) (h' : Echo t u) : Echo s u := by
  obtain ⟨again, htimes, hagain⟩ := h.errors
  obtain ⟨again', htimes', hagain'⟩ := h'.errors
  refine ⟨h.toUnmoved.trans h'.toUnmoved, ⟨again ++ again', ?_, fun e he => ?_⟩, ?_⟩
  · rw [htimes', htimes, List.append_assoc]
  · rcases List.mem_append.mp he with he | he
    · exact hagain e he
    · have he := hagain' e he
      rw [htimes] at he
      exact (List.mem_append.mp he).elim id (hagain e)
  · rw [h'.rest, h.rest]

theorem Remembers.trans (h : Remembers s t) (h' : Remembers t u) : Remembers s u :=
  ⟨fun hc => h'.classes (h.classes hc), fun hf => h'.functions (h.functions hf),
    fun _ he => h'.errors (h.errors he)⟩

theorem Echo.remembers (h : Echo s t) : Remembers s t := by
  refine ⟨fun hc => (h.classFor _).trans hc, fun hf => (h.functionFor _).trans hf, fun e he => ?_⟩
  obtain ⟨again, htimes, -⟩ := h.errors
  exact htimes ▸ List.mem_append_left again he

theorem Follows.remembers {x : Option ClassId} (h : Follows x s t) : Remembers s t :=
  ⟨h.foundClass, h.foundFunction, h.errors.subset⟩

theorem echo_findClass (key : ClassKey) (s : State) :
    ∃ t, findClass key s = some (s.program.classFor key, t) ∧ Echo s t := by
  refine ⟨_, findClass_eq key s, ⟨rfl, rfl, ?_, rfl⟩, ⟨[], by simp, nofun⟩, rfl⟩
  simp only [InstanceCache.lookup]
  split <;> rfl

theorem echo_findFunction (key : FunctionKey) (s : State) :
    ∃ t, findFunction key s = some (s.program.functionFor key, t) ∧ Echo s t := by
  refine ⟨_, findFunction_eq key s, ⟨rfl, rfl, rfl, ?_⟩, ⟨[], by simp, nofun⟩, rfl⟩
  simp only [InstanceCache.lookup]
  split <;> rfl

/-! ### What is found again -/

variable {src : Sources} {n j : Nat}

theorem requestClass_of_classFor (src : Sources) {struct : StructureId} {typeArgs : List Ty}
    {c : ClassId} (h : s.program.classFor ⟨struct, typeArgs⟩ = some c) (hj : 0 < j) (span : Span) :
    ∃ t, requestClass src j struct typeArgs span s = some (some c, t) ∧ Echo s t := by
  obtain ⟨t, hfind, hecho⟩ := echo_findClass ⟨struct, typeArgs⟩ s
  refine ⟨t, ?_, hecho⟩
  obtain ⟨j, rfl⟩ := Nat.exists_eq_succ_of_ne_zero hj.ne'
  rw [requestClass]
  dsimp only
  rw [bind_of_eq_some hfind, h]
  rfl

variable {key : FunctionKey} {f : FuncId}

theorem requestFunction_of_functionFor {request : ClassRequest}
    (h : s.program.functionFor key = some f)
    (span : Span) : ∃ t, requestFunction src request key span s = some (some f, t) ∧ Echo s t := by
  obtain ⟨t, hfind, hecho⟩ := echo_findFunction key s
  refine ⟨t, ?_, hecho⟩
  rw [requestFunction, bind_of_eq_some hfind, h]
  rfl

/-- What was found once is found again, also for a member that was asked for without an object. -/
theorem requestFunction_of_found (hs : Recorded src s) (h : Found src s key f) (hj : 0 < j)
    (span : Span) :
    ∃ t, requestFunction src (requestClass src j) key span s = some (some f, t) ∧ Echo s t := by
  cases h with
  | direct h => exact requestFunction_of_functionFor h span
  | @member struct c hkind hcount howner hreceiver hplain hclass h =>
    -- Members are on record with their object, so the search for the key itself fails once more.
    have hnone : s.program.functionFor key = none := by
      cases hkey : s.program.functionFor key with
      | none => rfl
      | some g =>
        obtain ⟨d, hd⟩ := hs.belongs hkey struct howner
        exact absurd hd (hreceiver d)
    obtain ⟨s1, hfind, hecho1⟩ := echo_findFunction key s
    obtain ⟨s2, hrequest, hecho2⟩ := requestClass_of_classFor src
      (hecho1.remembers.classes hclass) hj span
    obtain ⟨s3, hfind', hecho3⟩ := echo_findFunction { key with receiver := some (.object c) } s2
    rw [hecho2.functionFor, hecho1.functionFor, h] at hfind'
    refine ⟨s3, ?_, hecho1.trans (hecho2.trans hecho3)⟩
    have hmember :
        requestMember src (requestClass src j) key struct span s1 = some (some f, s3) := by
      rw [requestMember, if_neg (by simp [hplain]), bind_of_eq_some hrequest]
      dsimp only
      rw [bind_of_eq_some hfind']
      rfl
    rw [requestFunction, bind_of_eq_some hfind, hnone]
    simp only [if_neg hkind, hcount, ne_eq, not_true_eq_false, if_false, howner]
    cases hcase : key.receiver with
    | none => exact hmember
    | some ty =>
      cases ty with
      | object d => exact absurd hcase (hreceiver d)
      | primitive _ | protocol _ | enum _ | unknown => exact hmember

/-! ### Steps that are taken once more -/

/-- Taken at first at depth zero and then again in any later state, the steps have the same result
and say nothing new. -/
structure Recurs (hproper : src.Proper n) {α : Type} (x : Nat → Checking α) : Prop where
  safe : Safe (requestCourse hproper 1) x
  again : ∀ {i s a t}, Recorded src s → s.depth = 0 → x i s = some (a, t) →
    ∀ {j u}, 0 < j → Remembers t u → ∃ v, x j u = some (a, v) ∧ Echo u v

namespace Recurs

variable {hproper : src.Proper n} {α β : Type} {x : Nat → Checking α}

theorem pure (a : α) : Recurs hproper fun _ => (Pure.pure a : Checking α) where
  safe := .pure fun _ _ => trivial
  again _ _ h _ u _ _ := by
    cases h
    exact ⟨u, rfl, .refl u⟩

theorem report {cause : ErrorCause} (span : Span) (hcause : cause.IsUsual := by trivial) :
    Recurs hproper fun _ => report cause span where
  safe := .quiet (.report span hcause)
  again {i s a t} _ _ h j u _ htu := by
    cases h
    refine ⟨_, rfl, ⟨rfl, rfl, rfl, rfl⟩, ⟨[⟨cause, span⟩], rfl, fun e he => ?_⟩, rfl⟩
    rw [List.mem_singleton.mp he]
    exact htu.errors (List.mem_append_right _ List.mem_cons_self)

theorem bind {f : Nat → α → Checking β} (hx : Recurs hproper x)
    (hf : ∀ a, Recurs hproper fun i => f i a) :
    Recurs hproper fun i => x i >>= f i where
  safe := hx.safe.bind fun a => (hf a).safe
  again {i s b t} hs hdepth h j u hj htu := by
    obtain ⟨a, s1, h1, h2⟩ := bind_some h
    obtain ⟨⟨hs1, -⟩, ⟨hdepth1, hst1⟩, -⟩ := hx.safe.keeps ⟨hs, trivial⟩ trivial h1
    obtain ⟨-, ⟨-, hst2⟩, -⟩ := (hf a).safe.keeps ⟨hs1, trivial⟩ trivial h2
    -- What the first step found is still remembered after the second.
    obtain ⟨v, hv, huv⟩ := hx.again hs hdepth h1 hj (hst2.follows.remembers.trans htu)
    obtain ⟨v', hv', hvv'⟩ :=
      (hf a).again hs1 (hdepth1.trans hdepth) h2 hj (htu.trans huv.remembers)
    exact ⟨v', (bind_of_eq_some hv).trans hv', huv.trans hvv'⟩

theorem ite {c : Prop} [Decidable c] {y : Nat → Checking α} (hx : c → Recurs hproper x)
    (hy : ¬c → Recurs hproper y) : Recurs hproper fun i => if c then x i else y i := by
  by_cases h : c
  · simpa only [if_pos h] using hx h
  · simpa only [if_neg h] using hy h

theorem forM {xs : List α} {f : Nat → α → Checking PUnit}
    (hf : ∀ a ∈ xs, Recurs hproper fun i => f i a) :
    Recurs hproper fun i => xs.forM (f i) := by
  induction xs with
  | nil => exact .pure _
  | cons a as ih =>
    exact (hf a List.mem_cons_self).bind fun _ => ih fun b hb => hf b (List.mem_cons_of_mem a hb)

theorem requestClass {struct : StructureId} (hstruct : struct < n) {decl : Class Mark}
    (hdecl : (src.tree.structureAt struct).decl.cls? = some decl) {typeArgs : List Ty}
    (hcount : typeArgs.length = (src.tree.structureAt struct).decl.typeParams.length)
    (span : Span) :
    Recurs hproper fun i => requestClass src i struct typeArgs span := by
  have hworks := requestCourse_serves hproper 1 struct typeArgs span
  refine ⟨hworks.imp (fun _ _ _ => hstruct) fun _ _ => trivial,
    fun {i s r t} hs hdepth h j u hj htu => ?_⟩
  obtain ⟨-, ⟨hdepth', -⟩, hanswered⟩ := hworks.keeps ⟨hs, trivial⟩ (fun _ => hstruct) h
  cases r with
  | some c =>
    exact requestClass_of_classFor src (htu.classes ((hanswered trivial).found c rfl)) hj span
  | none =>
    -- At depth zero nothing nests too deeply.
    rcases (hanswered trivial).refused rfl with hcls | hne | ⟨hdeep, -⟩
    · cases hcls.symm.trans hdecl
    · exact absurd hcount hne
    · rw [hdepth', hdepth] at hdeep
      exact absurd hdeep (by decide)

theorem applyStructure {struct : StructureId} (hstruct : struct < n) (tys : List Ty) (span : Span) :
    Recurs hproper fun i => applyStructure src (Check.requestClass src i) struct tys span := by
  simp only [Check.applyStructure]
  refine .ite (fun _ => .bind (.report span) fun _ => .pure _) fun hcount =>
    .ite (fun _ => .pure _) fun _ => ?_
  cases hdecl : (src.tree.structureAt struct).decl with
  | cls decl =>
    refine .bind (.requestClass hstruct (by rw [hdecl]; rfl) (not_not.mp hcount) span) fun r => ?_
    cases r with
    | some c => exact .pure _
    | none => exact .pure _
  | protocol p => exact .pure _
  | enum e => exact .pure _

mutual

theorem resolveType {subst : Subst} (e : TypeExpr Mark) :
    Recurs hproper fun i => resolveType src (Check.requestClass src i) subst e := by
  match e with
  | .primitive _ p =>
    simp only [Check.resolveType]
    exact .pure _
  | .named m path args =>
    simp only [Check.resolveType]
    cases htarget : src.names.target m.node with
    | unknown => exact .pure _
    | typeParam name =>
      refine .ite (fun _ => .bind (.report m.span) fun _ => .pure _) fun _ => .pure _
    | struct id =>
      exact .bind (resolveTypes args) fun tys => .applyStructure (hproper.targets htarget)
        tys m.span

theorem resolveTypes {subst : Subst} (es : List (TypeExpr Mark)) :
    Recurs hproper fun i => resolveTypes src (Check.requestClass src i) subst es := by
  match es with
  | [] =>
    simp only [Check.resolveTypes]
    exact .pure _
  | e :: es =>
    simp only [Check.resolveTypes]
    exact .bind (resolveType e) fun _ => .bind (resolveTypes es) fun _ => .pure _

end

theorem requestSymbol {symbol : SymbolId} {ns : NamespaceId}
    (howner : (src.tree.functionAt symbol).owner = .ns ns)
    (hkind : (src.tree.functionAt symbol).kind ≠ .requirement)
    (hplain : (src.tree.functionAt symbol).decl.typeParams = []) (receiver : Option Ty) :
    Recurs hproper fun i => requestSymbol src i symbol receiver := by
  have hworks := works_requestFunction (requestCourse_serves hproper 1) ⟨symbol, [], receiver⟩
    (src.tree.functionAt symbol).decl.mark.span (requestCourse_admits hproper [])
    fun _ struct h => nomatch howner.symm.trans h
  refine .bind ⟨hworks.safe, fun {i s r t} hs hdepth h j u hj htu => ?_⟩ fun _ => .pure _
  obtain ⟨-, -, hanswered⟩ := hworks.keeps ⟨hs, trivial⟩ trivial h
  cases r with
  | some f =>
    cases (hanswered trivial).found f rfl with
    | direct hf => exact requestFunction_of_functionFor (htu.functions hf) _
    | member _ _ howner' => cases howner.symm.trans howner'
  | none =>
    rcases (hanswered trivial).refused rfl with ⟨struct, h⟩ | h | h | h
    · cases howner.symm.trans h
    · exact absurd h hkind
    · simp [hplain] at h
    · exact absurd rfl h

theorem checkModifiers (f : FunctionSymbol) : Recurs hproper fun _ => checkModifiers f := by
  have hoverride : Recurs hproper fun _ => (if f.decl.isOverride then
      Check.report .misplacedOverride f.decl.mark.span else Pure.pure ()) :=
    .ite (fun _ => .report _) fun _ => .pure _
  simp only [Check.checkModifiers]
  exact .ite (fun _ => .ite (fun _ => .bind (.report _) fun _ => hoverride) fun _ =>
    hoverride) fun _ => .pure _

theorem checkStructure {id : StructureId} (hid : id < n) :
    Recurs hproper fun i => checkStructure src i id := by
  have hresolve (e : TypeExpr Mark) : Recurs hproper fun i => do
      let _ ← Check.resolveType src (Check.requestClass src i) ∅ e
      return () :=
    .bind (.resolveType e) fun _ => .pure _
  simp only [Check.checkStructure]
  cases hdecl : (src.tree.structureAt id).decl with
  | cls c =>
    refine .ite (fun hplain => ?_) fun _ => .pure _
    refine .bind (.requestClass hid (by rw [hdecl]; rfl) ?_ _) fun _ => .pure _
    rw [hdecl, StructureDecl.typeParams, List.isEmpty_iff.mp hplain]
    rfl
  | protocol p =>
    refine .ite (fun _ => .forM fun method _ => .bind (.forM fun p _ => hresolve p.type)
      fun _ => ?_) fun _ => .pure _
    cases method.returnType with
    | some t => exact hresolve t
    | none => exact .pure _
  | enum e => exact .pure _

theorem checkSymbol {symbol : SymbolId}
    (hplaced : (src.tree.functionAt symbol).kind = .free ∨
      (src.tree.functionAt symbol).kind = .extension →
      ∃ ns, (src.tree.functionAt symbol).owner = .ns ns) :
    Recurs hproper fun i => checkSymbol src i symbol := by
  simp only [Check.checkSymbol]
  refine .ite (fun hplain => ?_) fun _ => .pure _
  have hplain : (src.tree.functionAt symbol).decl.typeParams = [] := by simpa using hplain
  split
  · next hkind =>
    obtain ⟨ns, howner⟩ := hplaced (.inl hkind)
    exact .requestSymbol howner (by simp [hkind]) hplain none
  · next hkind _ =>
    obtain ⟨ns, howner⟩ := hplaced (.inr hkind)
    exact .bind (.resolveType _) fun ty => .ite (fun _ =>
      .requestSymbol howner (by simp [hkind]) hplain _) fun _ => .pure _
  · exact .pure _

end Recurs

/-! ### Requests from outside -/

/-- What has the key of something earlier is not listed. -/
theorem firsts_append {α κ : Type} [BEq κ] [LawfulBEq κ] (key : α → κ) (seen : List κ)
    (xs ys : List α) (h : ∀ y ∈ ys, key y ∈ seen ∨ ∃ x ∈ xs, key x = key y) :
    firsts key seen (xs ++ ys) = firsts key seen xs := by
  induction xs generalizing seen with
  | nil =>
    have hseen (y : α) (hy : y ∈ ys) : key y ∈ seen := by simpa using h y hy
    clear h
    induction ys with
    | nil => rfl
    | cons y ys ih =>
      have hy : seen.contains (key y) = true := by simpa using hseen y List.mem_cons_self
      simp only [List.nil_append, firsts, hy, if_true]
      exact ih fun y' hy' => hseen y' (List.mem_cons_of_mem y hy')
  | cons x xs ih =>
    rw [List.cons_append, firsts, firsts]
    split
    · next hx =>
      refine ih seen fun y hy => ?_
      rcases h y hy with hseen | ⟨x', hx', hkey⟩
      · exact .inl hseen
      · rcases List.mem_cons.mp hx' with rfl | hx'
        · exact .inl (hkey ▸ by simpa using hx)
        · exact .inr ⟨x', hx', hkey⟩
    · refine congrArg (x :: ·) (ih _ fun y hy => ?_)
      rcases h y hy with hseen | ⟨x', hx', hkey⟩
      · exact .inl (List.mem_cons_of_mem _ hseen)
      · rcases List.mem_cons.mp hx' with rfl | hx'
        · exact .inl (hkey ▸ List.mem_cons_self)
        · exact .inr ⟨x', hx', hkey⟩

theorem Echo.distinctErrors (h : Echo s t) : distinctErrors t.errors = distinctErrors s.errors := by
  obtain ⟨again, htimes, hagain⟩ := h.errors
  rw [htimes]
  exact firsts_append _ [] _ _ fun e he => .inr ⟨e, hagain e he, rfl⟩

theorem Found.later (h : Found src s key f) (hst : Remembers s t) : Found src t key f := by
  cases h with
  | direct h => exact .direct (hst.functions h)
  | member hkind hcount howner hreceiver hplain hclass h =>
    exact .member hkind hcount howner hreceiver hplain (hst.classes hclass) (hst.functions h)

/-- Where an action leaves nothing to be done, serving it is the action. -/
theorem serve_of_action {α : Type} {action : Checking α} {a : α} (h : action s = some (a, t))
    (hwaiting : t.waiting = []) (hbodies : t.bodies = []) (hj : 0 < j) :
    serve src j action s = some (a, t) := by
  obtain ⟨j, rfl⟩ := Nat.exists_eq_succ_of_ne_zero hj.ne'
  have horphans : completeOrphans src (requestClass src (j + 1)) (j + 1) t = some ((), t) := by
    rw [completeOrphans, bind_of_eq_some (rfl : (get : Checking State) t = some (t, t)), hwaiting]
    rfl
  have hdrain : drain src (requestClass src (j + 1)) (j + 1) t = some ((), t) := by
    rw [drain, bind_of_eq_some (rfl : (get : Checking State) t = some (t, t)), hbodies]
    rfl
  rw [serve, bind_of_eq_some h, bind_of_eq_some horphans, bind_of_eq_some hdrain]
  rfl

theorem recurs_all (hproper : src.Proper n) (hsize : src.tree.structures.size ≤ n)
    (hplaced : ∀ f < src.tree.functions.size, (src.tree.functionAt f).kind = .free ∨
      (src.tree.functionAt f).kind = .extension → ∃ ns, (src.tree.functionAt f).owner = .ns ns) :
    Recurs hproper fun i => Request.all.action src i := by
  refine .bind (.forM fun f _ => .checkModifiers f) fun _ => .bind (.forM fun id hid => ?_) fun _ =>
    .bind (.forM fun symbol hsymbol => ?_) fun _ => .pure none
  · exact .checkStructure (Nat.lt_of_lt_of_le (List.mem_range.mp hid) hsize)
  · exact .checkSymbol (hplaced symbol (List.mem_range.mp hsymbol))

/-- What a request asked for first is found again in a later state. -/
theorem action_again (hproper : ∃ n, src.Proper n)
    (hplaced : ∀ f < src.tree.functions.size, (src.tree.functionAt f).kind = .free ∨
      (src.tree.functionAt f).kind = .extension → ∃ ns, (src.tree.functionAt f).owner = .ns ns)
    {request : Request} {i : Nat} {r : Option Nat} (hs : Settled src s)
    (h : request.action src i s = some (r, t)) (hr : r ≠ none ∨ request = .all)
    (hu : Recorded src u)
    (htu : Remembers t u) (hj : 0 < j) : ∃ v, request.action src j u = some (r, v) ∧ Echo u v := by
  obtain ⟨n, hproper, hsize, howner, hstruct⟩ := exists_room hproper request
  have hserves := requestCourse_serves hproper 1
  cases request with
  | cls struct typeArgs =>
    obtain ⟨c, rfl⟩ := Option.ne_none_iff_exists'.mp (hr.resolve_right nofun)
    obtain ⟨-, -, hanswered⟩ := (hserves struct typeArgs _).keeps ⟨hs.recorded, trivial⟩
      (fun _ => hstruct struct typeArgs rfl) h
    exact requestClass_of_classFor src (htu.classes ((hanswered trivial).found c rfl)) hj _
  | function key =>
    obtain ⟨f, rfl⟩ := Option.ne_none_iff_exists'.mp (hr.resolve_right nofun)
    obtain ⟨-, -, hanswered⟩ :=
      (works_requestFunction hserves _ _ (requestCourse_admits hproper key.typeArgs)
      fun _ struct h => .inr (howner key.symbol struct h)).keeps ⟨hs.recorded, trivial⟩ trivial h
    exact requestFunction_of_found hu (((hanswered trivial).found f rfl).later htu) hj _
  | all => exact (recurs_all hproper hsize hplaced).again hs.recorded hs.depth h hj htu

theorem run_again (hreg : src.Regular) (hproper : ∃ n, src.Proper n)
    (hplaced : ∀ f < src.tree.functions.size, (src.tree.functionAt f).kind = .free ∨
      (src.tree.functionAt f).kind = .extension → ∃ ns, (src.tree.functionAt f).owner = .ns ns)
    {request : Request} {i : Nat} {r : Option Nat} (hs : Settled src s)
    (hrequest : request.Within s.program) (h : request.run src i s = some (r, t))
    (hr : r ≠ none ∨ request = .all) (hu : Settled src u) (htu : Remembers t u) (hj : 0 < j) :
    ∃ v, request.run src j u = some (r, v) ∧ Echo u v := by
  obtain ⟨-, -, t0, ⟨i0, hfirst⟩, hfollows⟩ := (leads_run hreg hproper _ hs hrequest).keeps h
  obtain ⟨v, hv, hecho⟩ := action_again hproper hplaced hs hfirst hr hu.recorded
    (hfollows.remembers.trans htu) hj
  refine ⟨v, ?_, hecho⟩
  rw [Request.run_eq_serve]
  refine serve_of_action hv ?_ ?_ hj
  · rw [hecho.rest]
    exact hu.waiting
  · rw [hecho.rest]
    exact hu.bodies

/-- Later states between requests remember what was found in the earlier ones. -/
theorem remembers_of_served (hreg : src.Regular) (hproper : ∃ n, src.Proper n) (hs : Settled src s)
    (h : Relation.ReflTransGen (Served src) s t) : Settled src t ∧ Remembers s t := by
  induction h with
  | refl => exact ⟨hs, (Echo.refl s).remembers⟩
  | tail _ hstep ih =>
    obtain ⟨request, fuel, r, hrequest, h⟩ := hstep
    obtain ⟨ht, hfollows, -⟩ := (leads_run hreg hproper _ ih.1 hrequest).keeps h
    exact ⟨ht, ih.2.trans hfollows.remembers⟩

end ObjectLang.Check

namespace ObjectLang

open Syntax Scope Checked Diagnostic Check

variable (name : String) (dependencies : List String) (files : List (File Hint))

/-- In every state between requests, each key leads to the one instance that has it and each
instance is found under its key; and a request that had an instance as its result, or the request
for all, made once more after any others, has the same result, changes no instance, makes none and
says nothing new. -/
theorem one_instance_per_key {s : State}
    (h : Reached (sourcesOf name dependencies files) s) :
    (∀ key c, s.program.classFor key = some c ↔
      c < s.program.classes.size ∧ (s.program.classAt c).key = key) ∧
    (∀ key f, s.program.functionFor key = some f ↔
      f < s.program.functions.size ∧ (s.program.functionAt f).key? = some key) ∧
    ∀ (request : Request) (fuel : Nat) (r : Option Nat) (t u : State), request.Within s.program →
      request.run (sourcesOf name dependencies files) fuel s = some (r, t) →
      r ≠ none ∨ request = .all →
      Relation.ReflTransGen (Served (sourcesOf name dependencies files)) t u →
      ∀ fuel' > 0, ∃ v,
        request.run (sourcesOf name dependencies files) fuel' u = some (r, v) ∧
        v.program.classes = u.program.classes ∧ v.program.functions = u.program.functions ∧
        distinctErrors v.errors = distinctErrors u.errors ∧
        distinctWarnings v.warnings = distinctWarnings u.warnings := by
  have hreg := regular_sources name dependencies files
  have hproper := proper_sources name dependencies files
  have hs := h.settled hreg hproper
  refine ⟨fun _ _ => hs.recorded.classes, fun _ _ => hs.recorded.functions, ?_⟩
  intro request fuel r t u hrequest hrun hr htu fuel' hfuel'
  obtain ⟨ht, -⟩ := (leads_run hreg hproper _ hs hrequest).keeps hrun
  obtain ⟨hu, hremembers⟩ := remembers_of_served hreg hproper ht htu
  obtain ⟨v, hv, hecho⟩ := run_again hreg hproper (placed_sources name dependencies files) hs
    hrequest hrun hr hu hremembers hfuel'
  refine ⟨v, hv, hecho.classes, hecho.functions, hecho.distinctErrors, ?_⟩
  rw [hecho.rest]

/-- All is asked for twice in a project with errors. -/
theorem one_instance_per_key_knots :
    ∃ t v, Request.all.run (sourcesOf "app" [] knots) 200 {} = some (none, t) ∧
      t.program.classes.size = 69 ∧ t.errors.length = 2 ∧
      Request.all.run (sourcesOf "app" [] knots) 200 t = some (none, v) ∧
      v.program.classes = t.program.classes ∧ v.program.functions = t.program.functions ∧
      distinctErrors v.errors = distinctErrors t.errors := by
  obtain ⟨t, h, hsize, herrors, -⟩ := checkAll_knots
  have hrun : Request.all.run (sourcesOf "app" [] knots) 200 {} = some (none, t) := by
    rw [Request.run, bind_of_eq_some h]
    rfl
  obtain ⟨-, -, hagain⟩ := one_instance_per_key "app" [] knots .refl
  obtain ⟨v, hv, hclasses, hfunctions, hdistinct, -⟩ :=
    hagain .all 200 none t t trivial hrun (.inr rfl) .refl 200 (by decide)
  exact ⟨t, v, hrun, hsize, herrors, hv, hclasses, hfunctions, hdistinct⟩

end ObjectLang
