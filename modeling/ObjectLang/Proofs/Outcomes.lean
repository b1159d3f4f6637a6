import ObjectLang.Proofs.Repetition

/-! # What a check comes to

Checking ends, and whatever was asked for, all classes are complete in the end and have the ancestor
that their declaration names, unless that was refused.
-/

namespace ObjectLang.Check

open Source Syntax Scope Names Diagnostic Checked

variable {src : Sources} {subst : Subst} {j : Nat}

/-! ### Types that have been made -/

theorem typeOf_ne_unknown {p : Program} {e : TypeExpr Mark} {ty : Ty}
    (h : typeOf src p subst e = some ty) :
    ty ≠ .unknown := by
  rintro rfl
  cases e with
  | primitive _ p =>
    rw [typeOf] at h
    cases h
  | named m path args =>
    cases typeOf_named.mp h with
    | param _ _ hknown => cases hknown

theorem unknown_notMem_of_typesOf {p : Program} {es : List (TypeExpr Mark)} {tys : List Ty}
    (h : typesOf src p subst es = some tys) : .unknown ∉ tys := by
  induction es generalizing tys with
  | nil =>
    rw [typesOf] at h
    cases h
    exact List.not_mem_nil
  | cons e es ih =>
    obtain ⟨ty, tys', hty, htys, rfl⟩ := typesOf_cons.mp h
    intro hmem
    rcases List.mem_cons.mp hmem with hmem | hmem
    · exact typeOf_ne_unknown hty hmem.symm
    · exact ih htys hmem

mutual

/-- Resolving an expression whose type has been made finds that type and makes nothing. -/
theorem resolveType_of_typeOf {s : State} (e : TypeExpr Mark) {ty : Ty}
    (h : typeOf src s.program subst e = some ty) (hj : 0 < j) :
    ∃ t, resolveType src (requestClass src j) subst e s = some (ty, t) ∧ Unmoved s t := by
  match e with
  | .primitive _ p =>
    rw [typeOf] at h
    cases h
    exact ⟨s, rfl, .refl s⟩
  | .named m path args =>
    have hknown {tys : List Ty} (htys : typesOf src s.program subst args = some tys) :
        ¬tys.any (·.isUnknown) = true := fun h =>
      unknown_notMem_of_typesOf htys (any_isUnknown.mp h)
    rw [resolveType]
    cases typeOf_named.mp h with
    | param htarget hty =>
      simp only [htarget, hty]
      split
      · exact ⟨_, rfl, rfl, rfl, rfl, rfl⟩
      · exact ⟨s, rfl, .refl s⟩
    | cls htarget htys hcount hkind hc =>
      obtain ⟨s1, h1, hs1⟩ := resolveTypes_of_typesOf args htys hj
      obtain ⟨s2, h2, hs2⟩ := requestClass_of_classFor src (j := j)
        ((hs1.classFor _).trans hc) hj m.span
      refine ⟨s2, ?_, hs1.trans hs2.toUnmoved⟩
      simp only [htarget, bind_of_eq_some h1, applyStructure, if_neg hcount, if_neg (hknown htys),
        hkind, bind_of_eq_some h2]
      rfl
    | protocol htarget htys hcount hkind | enum htarget htys hcount hkind =>
      obtain ⟨s1, h1, hs1⟩ := resolveTypes_of_typesOf args htys hj
      refine ⟨s1, ?_, hs1⟩
      simp only [htarget, bind_of_eq_some h1, applyStructure, if_neg hcount, if_neg (hknown htys),
        hkind]
      rfl

theorem resolveTypes_of_typesOf {s : State} (es : List (TypeExpr Mark)) {tys : List Ty}
    (h : typesOf src s.program subst es = some tys) (hj : 0 < j) :
    ∃ t, resolveTypes src (requestClass src j) subst es s = some (tys, t) ∧ Unmoved s t := by
  match es with
  | [] =>
    rw [typesOf] at h
    cases h
    exact ⟨s, rfl, .refl s⟩
  | e :: es =>
    obtain ⟨ty, tys', hty, htys, rfl⟩ := typesOf_cons.mp h
    obtain ⟨s1, h1, hs1⟩ := resolveType_of_typeOf e hty hj
    -- The rest still stands for the same types, for nothing was made.
    have hrest := typesOf_later (fun h => (hs1.classFor _).trans h) es htys
    obtain ⟨s2, h2, hs2⟩ := resolveTypes_of_typesOf (s := s1) es hrest hj
    refine ⟨s2, ?_, hs1.trans hs2⟩
    rw [resolveTypes, bind_of_eq_some h1, bind_of_eq_some h2]
    rfl

end

end ObjectLang.Check

namespace ObjectLang

open Source Syntax Scope Checked Diagnostic Check

variable (name : String) (dependencies : List String) (files : List (File Hint))

/-! ### Termination -/

/-- From every state between requests the check of all declarations ends, with the same result for
all fuel that is enough.  The depth of instantiation is zero in these states, and it never was above
the limit, nor is a greater one stored.  Requests for classes and for functions, and the check of a
body, end at the depth at which they began and keep to the limit. -/
theorem checkAll_terminates :
    (∀ s, Reached (sourcesOf name dependencies files) s → ∃ t,
      (∃ n, ∀ fuel ≥ n,
        checkAll (sourcesOf name dependencies files) fuel s = some ((), t)) ∧
      ∀ fuel u,
        checkAll (sourcesOf name dependencies files) fuel s = some ((), u) →
        u = t) ∧
    (∀ s, Reached (sourcesOf name dependencies files) s →
      s.depth = 0 ∧ s.deepest ≤ 64 ∧ s.Shallow) ∧
    (∀ fuel struct typeArgs span s r t,
      requestClass (sourcesOf name dependencies files) fuel struct typeArgs span s =
        some (r, t) → t.depth = s.depth ∧ (s.Shallow → t.Shallow)) ∧
    (∀ fuel key span s r t,
      requestFunction (sourcesOf name dependencies files)
        (requestClass (sourcesOf name dependencies files) fuel) key span s =
        some (r, t) → t.depth = s.depth ∧ (s.Shallow → t.Shallow)) ∧
    ∀ fuel task s t,
      checkBody (sourcesOf name dependencies files)
        (requestClass (sourcesOf name dependencies files) fuel) task s =
        some ((), t) → t.depth = s.depth ∧ (s.Shallow → task.env.depth ≤ 64 → t.Shallow) := by
  have hreg := regular_sources name dependencies files
  have hproper := proper_sources name dependencies files
  refine ⟨fun s hs => ?_, fun s hs => ?_, fun _ _ _ _ _ _ _ h => ?_, fun _ _ _ _ _ _ h => ?_,
    fun _ _ _ _ h => level_checkBody h⟩
  · obtain ⟨⟨r, t⟩, hends, hunique⟩ :=
      (leads_run hreg hproper .all (hs.settled hreg hproper) trivial).ends
    obtain ⟨n, hn⟩ := Filter.eventually_atTop.mp hends
    refine ⟨t, ⟨n, fun fuel hfuel => ?_⟩, fun fuel u h => ?_⟩
    · obtain ⟨_, u, hcheck, hlast⟩ := bind_some (hn fuel hfuel)
      cases hlast
      exact hcheck
    · have hrun : Request.all.run (sourcesOf name dependencies files) fuel s =
          some (none, u) := bind_of_eq_some h
      exact congrArg Prod.snd (hunique hrun)
  · obtain ⟨hdepth, hshallow⟩ := hs.reachable.shallow
    exact ⟨hdepth, hshallow.deepest, hshallow⟩
  · exact ⟨(level_requestClass h).depth, (level_requestClass h).shallow⟩
  · exact ⟨(level_requestFunction h).depth, (level_requestFunction h).shallow⟩

/-- The instances of one of the classes lead to ever larger ones, down to the limit. -/
theorem checkAll_terminates_knots :
    ∃ n t, (∀ fuel ≥ n, checkAll (sourcesOf "app" [] knots) fuel {} = some ((), t)) ∧
      t.depth = 0 ∧ t.deepest = 64 ∧ t.Shallow := by
  obtain ⟨hends, hshallow, -⟩ := checkAll_terminates "app" [] knots
  obtain ⟨t, ⟨n, hn⟩, hunique⟩ := hends {} .refl
  obtain ⟨s, h, -, -, hdeepest, -⟩ := checkAll_knots
  obtain rfl := hunique 200 s h
  have hreached : Reached (sourcesOf "app" [] knots) s :=
    .single ⟨.all, 200, none, trivial, bind_of_eq_some h⟩
  obtain ⟨hdepth, -, hshallow⟩ := hshallow s hreached
  exact ⟨n, s, hn, hdepth, hdeepest, hshallow⟩

/-! ### Ancestors -/

/-- Whatever was asked for, in the end no class waits and no body is in the queue, every class is
built and found as such under its key, and no class was ever given up.  A class without a clause has
no ancestor. Otherwise it has the class for which its clause stands, unless that clause stands for
no type or was refused. -/
theorem nothing_left_behind {s : State}
    (h : Reached (sourcesOf name dependencies files) s) :
    s.waiting = [] ∧ s.bodies = [] ∧
    (∀ c < s.program.classes.size, (s.program.classAt c).inProgress = false ∧
      s.program.classCache.get? (s.program.classAt c).key = some (.done c)) ∧
    (∀ e ∈ s.errors ++ s.withdrawn, ∀ text, e.cause ≠ .cannotInherit text .neverCompleted) ∧
    ∀ c < s.program.classes.size,
      (clauseOf (sourcesOf name dependencies files) s.program c = none →
        (s.program.classAt c).ancestor = none) ∧
      ∀ clause, clauseOf (sourcesOf name dependencies files) s.program c =
          some clause →
        (∃ a, (s.program.classAt c).ancestor = some a ∧ ∀ fuel > 0, ∃ t,
          resolveType (sourcesOf name dependencies files)
            (requestClass (sourcesOf name dependencies files) fuel)
            (classSubst (sourcesOf name dependencies files) s.program c) clause s =
            some (.object a, t) ∧ t.program.classes = s.program.classes) ∨
        (s.program.classAt c).ancestor = none ∧
          (Faulty (sourcesOf name dependencies files) s
            (classSubst (sourcesOf name dependencies files) s.program c) clause ∨
          ∃ text fault, Reported s (.cannotInherit text fault) clause.mark.span) := by
  have hs := h.settled (regular_sources name dependencies files)
    (proper_sources name dependencies files)
  have hbuilt {c : ClassId} (hc : c < s.program.classes.size) : s.program.Built c :=
    hs.orderly.built trivial hc
  refine ⟨hs.waiting, hs.bodies, fun c hc => ⟨(hbuilt hc).2, hs.recorded.done (hbuilt hc)⟩, ?_,
    fun c hc => ?_⟩
  · intro e he text hcause
    exact hs.recorded.ordinary e he (by rw [hcause]; trivial)
  · have hinherits := hs.recorded.inherits (hbuilt hc)
    generalize (s.program.classAt c).ancestor = ancestor at hinherits
    cases hinherits with
    | root hnone => exact ⟨fun _ => rfl, fun clause hclause => nomatch hnone.symm.trans hclause⟩
    | below hsome htype =>
      refine ⟨fun hnone => (nomatch hnone.symm.trans hsome),
        fun clause hclause => .inl ⟨_, rfl, ?_⟩⟩
      cases hsome.symm.trans hclause
      intro fuel hfuel
      obtain ⟨t, ht, hst⟩ := resolveType_of_typeOf _ htype hfuel
      exact ⟨t, ht, hst.classes⟩
    | faulty hsome hfaulty =>
      refine ⟨fun _ => rfl, fun clause hclause => .inr ⟨rfl, .inl ?_⟩⟩
      cases hsome.symm.trans hclause
      exact hfaulty
    | refused hsome hreported =>
      refine ⟨fun _ => rfl, fun clause hclause => .inr ⟨rfl, .inr ?_⟩⟩
      cases hsome.symm.trans hclause
      exact ⟨_, _, hreported⟩

/-- The second class waits for the first one, whose field it is. -/
theorem nothing_left_behind_knots :
    ∃ s, Reached (sourcesOf "app" [] knots) s ∧ s.program.classes.size = 69 ∧
      s.waiting = [] ∧ s.bodies = [] ∧ (s.program.classAt 1).ancestor = some 0 ∧
      (s.program.classAt 1).inProgress = false ∧
      s.program.classCache.get? (s.program.classAt 1).key = some (.done 1) := by
  obtain ⟨s, h, hsize, -, -, hancestor, -⟩ := checkAll_knots
  have hreached : Reached (sourcesOf "app" [] knots) s :=
    .single ⟨.all, 200, none, trivial, bind_of_eq_some h⟩
  obtain ⟨hwaiting, hbodies, hclasses, -⟩ := nothing_left_behind "app" [] knots hreached
  obtain ⟨hprogress, hdone⟩ := hclasses 1 (by rw [hsize]; decide)
  exact ⟨s, hreached, hsize, hwaiting, hbodies, hancestor, hprogress, hdone⟩

end ObjectLang
