import ObjectLang.Proofs.BodyWalk

/-! # Calls

The arguments of a call that was accepted fit the parameters of its callee, and its receiver fits
the one that the callee has.
-/

namespace ObjectLang.Check

open Source Syntax Scope Names Diagnostic Checked

/-! ### Inferred type arguments -/

section

variable {src : Sources} {p : Program}

mutual

theorem within_unify (hp : Typed p) {params : List String} {bindings : Subst}
    (hb : bindings.Within p) (e : TypeExpr Mark) {ty : Ty} (hty : ty.Within p) :
    (unify src p params bindings e ty).Within p := by
  match e with
  | .primitive _ _ => exact hb
  | .named m _ args =>
    rw [unify]
    split
    · exact hb
    split
    · split
      · intro name ty' h
        rw [Std.TreeMap.getElem?_insertIfNew] at h
        split at h
        · cases h
          exact hty
        · exact hb name ty' h
      · exact hb
    · split
      · split
        · exact within_unifyList hp hb args (hp.classes _).typeArgs
        · exact hb
      · exact hb
    · exact hb

theorem within_unifyList (hp : Typed p) {params : List String} {bindings : Subst}
    (hb : bindings.Within p) (es : List (TypeExpr Mark)) {tys : List Ty}
    (htys : ∀ ty ∈ tys, ty.Within p) :
    (unifyList src p params bindings es tys).Within p := by
  match es, tys with
  | [], _ => exact hb
  | _ :: _, [] => exact hb
  | e :: es, ty :: tys =>
    exact within_unifyList hp (within_unify hp hb e (htys ty List.mem_cons_self)) es fun ty' h =>
      htys ty' (List.mem_cons_of_mem ty h)

end

theorem within_inferTypeArgs (hp : Typed p) {params : List String}
    {pairs : List (TypeExpr Mark × Ty)} (hpairs : ∀ pair ∈ pairs, pair.2.Within p) {ty : Ty}
    (h : some ty ∈ inferTypeArgs src p params pairs) : ty.Within p := by
  have hfold : ∀ (pairs : List (TypeExpr Mark × Ty)) (b : Subst), b.Within p →
      (∀ pair ∈ pairs, pair.2.Within p) →
      (pairs.foldl (fun b pair => unify src p params b pair.1 pair.2) b).Within p := by
    intro pairs
    induction pairs with
    | nil => exact fun b hb _ => hb
    | cons pair pairs ih =>
      exact fun b hb hpairs => ih _ (within_unify hp hb _ (hpairs pair List.mem_cons_self))
          fun x hx =>
        hpairs x (List.mem_cons_of_mem pair hx)
  rcases List.mem_map.mp h with ⟨name, -, hname⟩
  exact hfold pairs ∅ .empty hpairs name ty hname

end

theorem mem_of_collectTypeArgs {params : List String} {found : List (Option Ty)} {chosen : List Ty}
    (h : collectTypeArgs params found = .ok chosen) {ty : Ty} (hty : ty ∈ chosen) :
    some ty ∈ found := by
  induction params generalizing found chosen with
  | nil =>
    cases h
    cases hty
  | cons param params ih =>
    cases found with
    | nil =>
      cases h
      cases hty
    | cons x rest =>
      cases x with
      | none => cases h
      | some ty' =>
        rw [collectTypeArgs] at h
        cases hrest : collectTypeArgs params rest with
        | error e =>
          rw [hrest] at h
          cases h
        | ok tys =>
          rw [hrest] at h
          cases h
          rcases List.mem_cons.mp hty with rfl | hty
          · exact List.mem_cons_self
          · exact List.mem_cons_of_mem _ (ih hrest hty)

/-! ### Arguments -/

variable {src : Sources} {request : Nat → ClassRequest} {h : Host src request} {env : BodyEnv}
  {returnType : Ty} {w w' : Point h env returnType}

/-- The arguments fit the parameters, as far as nothing was reported. -/
def Fitting (params : List Ty) (args : List Expr) (w : Point h env returnType) : Prop :=
  h.closed → w.state.Clean → List.Forall₂ (fun ty arg => w.judge.Accepts ty (Expr.ty arg))
    params args

/-- Checking the arguments of a call keeps to the rules. -/
structure WalksArguments (h : Host src request) (env : BodyEnv) (returnType : Ty)
    (A : Bindings → List Expr → Prop) (n : Nat) (args : Nat → Arguments) : Prop where
  count : ∀ i, (args i).count = n
  plain : ∀ w : Point h env returnType, Walks w (fun i => (args i).plain) (GoodAll A)
  against : ∀ (w : Point h env returnType) params, n = params.length →
    Walks w (fun i => (args i).against params) fun es w' => GoodAll A es w' ∧ Fitting params es w'

theorem Quiet.expectArguments (ctx : BodyContext) (checked : List Expr) (params : List Ty)
    (span : Span) : Quiet (expectArguments ctx checked params span) :=
  .ite (.report span) (.forM fun _ => .expectAssignable ctx.src _ _ _)

variable {s : State}

theorem not_clean_of_report {cause : ErrorCause} {span : Span} {t : State}
    (hrun : report cause span s = some ((), t)) : ¬t.Clean := by
  cases hrun
  exact Reports.not_clean (.refl _)

theorem expectAssignables_clean {ctx : BodyContext} {t : State} {pairs : List (Expr × Ty)}
    (h : (pairs.forM fun (arg, param) => expectAssignable ctx.src arg.ty param arg.span) s =
      some ((), t)) (ht : t.Clean) : ∀ pair ∈ pairs, t.isAssignable pair.1.ty pair.2 = true := by
  induction pairs generalizing s with
  | nil => nofun
  | cons pair pairs ih =>
    have h : (expectAssignable ctx.src pair.1.ty pair.2 pair.1.span >>= fun _ =>
      pairs.forM fun (arg, param) => expectAssignable ctx.src arg.ty param arg.span) s =
        some ((), t) := h
    rcases bind_some h with ⟨_, s1, h1, h2⟩
    have hreports : Reports s1 t := (Quiet.forM fun _ => .expectAssignable ctx.src _ _ _).reports h2
    intro x hx
    rcases List.mem_cons.mp hx with rfl | hx
    · rw [hreports.isAssignable, ((Quiet.expectAssignable ctx.src _ _ _).reports h1).isAssignable]
      exact expectAssignable_clean h1 (hreports.clean ht)
    · exact ih h2 x hx

theorem forall₂_of_zip {α β : Type} {R : β → α → Prop} {xs : List α} {ys : List β}
    (hlength : xs.length = ys.length) (h : ∀ pair ∈ xs.zip ys, R pair.2 pair.1) :
    List.Forall₂ R ys xs := by
  induction xs generalizing ys with
  | nil =>
    cases ys with
    | nil => exact .nil
    | cons y ys => cases hlength
  | cons x xs ih =>
    cases ys with
    | nil => cases hlength
    | cons y ys =>
      refine .cons (h (x, y) List.mem_cons_self) (ih (Nat.succ.inj hlength) fun pair hpair => ?_)
      exact h pair (List.mem_cons_of_mem _ hpair)

theorem fitting_expectArguments {ctx : BodyContext} {checked : List Expr} {params : List Ty}
    {span : Span} {A : Bindings → List Expr → Prop} (hg : GoodAll A checked w)
    (hrun : expectArguments ctx checked params span s = some ((), w.state)) :
    Fitting params checked w := by
  intro hc hclean
  rw [expectArguments] at hrun
  split at hrun
  · exact absurd hclean (not_clean_of_report hrun)
  · next hlength =>
    refine forall₂_of_zip (not_not.mp hlength) fun pair hpair => ⟨?_, ?_⟩
    · exact hg.within hc _ (List.mem_map_of_mem (List.of_mem_zip hpair).1)
    · exact expectAssignables_clean hrun hclean pair hpair

section

variable {A : Bindings → List Expr → Prop} {R : Bindings → Expr → Prop}
  {C : Bindings → Option Expr → Prop}
  {n : Nat} {args : Nat → Arguments} (hargs : WalksArguments h env returnType A n args)

include hargs

theorem walks_checkArguments (w : Point h env returnType) (params : List Ty) (span : Span) :
    Walks w (fun i => checkArguments (args i) params span) fun es w' =>
      GoodAll A es w' ∧ Fitting params es w' := by
  simp only [checkArguments, hargs.count]
  refine .ite (fun _ => ?_) fun hcount => hargs.against w params (not_not.mp hcount)
  refine .bind (.quiet (.report span)) fun _ w1 _ hrun =>
    (hargs.plain w1).imp fun es w2 hw2 hg => ?_
  exact ⟨hg, fun hc hclean => absurd (hw2.clean hc hclean) (not_clean_of_report hrun)⟩

variable {f : FuncId} {c owner : ClassId} {entry : MethodEntry} {receiver : Expr} {name : String}
  {j : Judge}

/-- The callee has as many parameters as there are arguments, and each takes its argument. -/
theorem walks_finishArguments (w : Point h env returnType) {checked : Option (List Expr)}
    (hf : h.closed → f < w.state.program.functions.size) (hchecked : ∀ es ∈ checked, GoodAll A es w)
    (span : Span) :
    Walks w (fun i => finishArguments (w.ctx i) f (args i) checked span) fun es w' =>
      GoodAll A es w' ∧ (h.closed → w'.state.Clean → w'.judge.Takes f es) := by
  have htakes {es : List Expr} {w' : Point h env returnType} (hw : w.Stays w')
      (hfit : Fitting (w.state.program.functionAt f).paramTypes es w') (hc : h.closed)
      (hclean : w'.state.Clean) : w'.judge.Takes f es := by
    refine ⟨Nat.lt_of_lt_of_le (hf hc) (hw.advances hc).functions, ?_⟩
    rw [FuncInst.paramTypes, Point.judge, ((hw.advances hc).signed (hf hc) List.not_mem_nil).params]
    exact hfit hc hclean
  refine .program ?_
  cases checked with
  | none =>
    exact (walks_checkArguments hargs w _ span).imp fun es w1 hw1 hes => ⟨hes.1, htakes hw1 hes.2⟩
  | some es =>
    refine .bind (.quiet (.expectArguments (w.ctx 0) es _ span)) fun _ w1 hw1 hrun => .pure ?_
    have hg := (hchecked es rfl).later hw1
    exact ⟨hg, htakes hw1 (fitting_expectArguments hg hrun)⟩

/-- The arguments are checked, and nothing is known of the result. -/
theorem walks_plain_error (w : Point h env returnType) (span : Span)
    (hR : ∀ Γ, R Γ (errorExpr span)) :
    Walks w (fun i => do let _ ← (args i).plain; return errorExpr span) (GoodBy R) :=
  .bind (hargs.plain w) fun _ w1 _ _ => .pure (good_errorExpr w1 span hR)

theorem walks_reported (w : Point h env returnType) {y : Checking Unit} (hy : Quiet y) (span : Span)
    (hR : ∀ Γ, R Γ (errorExpr span)) :
    Walks w (fun i => do y; let _ ← (args i).plain; return errorExpr span) (GoodBy R) :=
  .bind (.quiet hy) fun _ w1 _ _ => walks_plain_error hargs w1 span hR

/-! ### Type arguments -/

theorem walks_chooseTypeArgs (w : Point h env returnType) (decl : Function Mark)
    (explicit : List (TypeExpr Mark)) (span : Span) :
    Walks w (fun i => chooseTypeArgs (w.ctx i) decl explicit (args i) span) fun r w' => ∀ c ∈ r,
      (h.closed → ∀ ty ∈ c.1, ty.Within w'.state.program) ∧ ∀ es ∈ c.2, GoodAll A es w' := by
  refine .ite (fun _ => .ite (fun _ => ?_) fun _ => ?_) fun _ => ?_
  · exact .bind (.quiet (.report span)) fun _ w1 _ _ => .bind (hargs.plain w1) fun _ _ _ _ =>
      .pure (by simp)
  · refine .bind (.lift (h.typeLists _ explicit w.holds fun hc => (w.around hc).subst))
      fun chosen w1 _ hchosen => .ite (fun _ => ?_) fun _ => .pure (by simpa using hchosen)
    exact .bind (hargs.plain w1) fun _ _ _ _ => .pure (by simp)
  · refine .bind (hargs.plain w) fun checked w1 _ hg => .program ?_
    cases hcollect : collectTypeArgs decl.typeParams
        (inferTypeArgs src w1.state.program decl.typeParams
        ((decl.params.map (·.type)).zip (checked.map (·.ty)))) with
    | error param =>
      simp only [hcollect]
      exact .bind (.quiet (.report span)) fun _ _ _ _ => .pure (by simp)
    | ok chosen =>
      simp only [hcollect]
      refine .pure ?_
      rintro _ ⟨⟩
      refine ⟨fun hc ty hty => ?_, ?_⟩
      · refine within_inferTypeArgs (w1.typed hc) (fun pair hpair => ?_)
          (mem_of_collectTypeArgs hcollect hty)
        exact hg.within hc _ (List.of_mem_zip hpair).2
      · rintro _ ⟨⟩
        exact hg

/-! ### Calls of functions -/

omit hargs

abbrev GoodReceiver (C : Bindings → Option Expr → Prop) (receiver : Option Expr)
    (w : Point h env returnType) : Prop :=
  Good w (receiver.map Expr.ty).toList (nodesOfOption receiver) (C · receiver)

/-- The receiver of a call is one that the callee has. -/
def Receives (f : FuncId) (receiver : Option Expr) (w : Point h env returnType) : Prop :=
  h.closed → w.state.Clean → Option.Rel (fun ty e => w.judge.Accepts ty (Expr.ty e))
    (w.state.program.functionAt f).receiver receiver

theorem walks_callExpr {receiver : Option Expr} {es : List Expr} {dispatch : Dispatch}
    (hes : GoodAll A es w ∧ (h.closed → w.state.Clean → w.judge.Takes f es))
    (hreceiver : GoodReceiver C receiver w)
    (hrange : h.closed → ∀ i, w.judge.ExprRange src.tree (.call i f receiver es dispatch))
    (hreceives : Receives f receiver w)
    (hdispatch : h.closed → w.state.Clean →
      ∀ i, w.judge.DispatchRule (.call i f receiver es dispatch))
    (span : Span) : Walks w (fun _ => callExpr f receiver es dispatch span)
      (GoodBy fun Γ => CallOf (C Γ) (A Γ)) :=
  .program (.pure (good_expr (by rw [Expr.nodes]) (hreceiver.append hes.1)
    (fun hc => ((w.typed hc).functions f).returnType) (fun hc => hrange hc _) rfl
    (fun hc hclean => ⟨hes.2 hc hclean, rfl, hreceives hc hclean⟩)
    (fun hc hclean => hdispatch hc hclean _) fun hknown => hknown))

include hargs

theorem walks_callFunction (w : Point h env returnType) {symbol : SymbolId} {ns : NamespaceId}
    (hsymbol : src.tree.functionIn ns name = some symbol) (hreceives : ∀ Γ, C Γ none)
    (explicit : List (TypeExpr Mark)) (span : Span) :
    Walks w (fun i => callFunction (w.ctx i) symbol explicit (args i) span)
      (GoodBy fun Γ => CallOf (C Γ) (A Γ)) := by
  refine .bind (walks_chooseTypeArgs hargs w (src.tree.functionAt symbol).decl explicit span)
    fun chosen w1 _ hchosen => ?_
  cases chosen with
  | none => exact .pure (good_errorExpr w1 span fun _ => trivial)
  | some chosen =>
    obtain ⟨hwithin, hchecked⟩ := hchosen chosen rfl
    refine .bind (.lift (h.functions _ span w1.holds (fun hc => ⟨hwithin hc, by simp⟩)
      (fun hk _ _ _ => ⟨rfl, ((h.regular (.inr hk)).functions hsymbol).1⟩)
      fun hs => .inl ⟨((h.proper hs).functions hsymbol).1, ((h.proper hs).functions hsymbol).2, by
      simp⟩))
      fun r w2 hw2 hfound => ?_
    cases r with
    | none => exact .pure (good_errorExpr w2 span fun _ => trivial)
    | some f =>
      refine .bind (walks_finishArguments hargs w2 (fun hc => (hfound hc f rfl).1)
        (fun es hes => (hchecked es hes).later hw2) span) fun es w3 hw3 hes => ?_
      have hnone (hc : h.closed) : (w3.state.program.functionAt f).receiver = none := by
        obtain ⟨hlt, hsat⟩ := hfound hc f rfl
        obtain ⟨ns', hns⟩ := ((h.regular (.inl hc)).functions hsymbol).2
        rw [((hw3.advances hc).alike hlt).receiver]
        exact hsat.receiver (by simp [hns])
      refine walks_callExpr hes (good_nil (hreceives _)) (fun hc _ => Judge.exprRange_static ?_ ?_)
        (fun hc _ => hnone hc ▸ .none) (fun _ _ _ => by trivial) span
      · exact Nat.lt_of_lt_of_le (hfound hc f rfl).1 (hw3.advances hc).functions
      · simp [Point.judge, hnone hc]

/-! ### Calls of methods -/

omit hargs

/-- The method is the one that was found under a name in an ancestor of the receiver's class, or an
instance of that one. -/
structure Chosen (s : State) (n : String) (owner : ClassId) (entry : MethodEntry) (f : FuncId) :
    Prop where
  lt : f < s.program.functions.size
  name : (s.program.functionAt f).name = n
  receiver : (s.program.functionAt f).receiver = some (.object owner)
  found : ∀ g, entry = .inst g → g = f
  slot : ∀ k, (s.program.functionAt f).slot = some k → entry = .inst f

theorem Chosen.later {n : String} (hf : Chosen w.state n owner entry f) (hw : w.Goes w')
    (hc : h.closed) :
    Chosen w'.state n owner entry f := by
  have hsame := (hw.extends hc).function hf.lt
  exact ⟨Nat.lt_of_lt_of_le hf.lt (hw.advances hc).functions, hsame.name.trans hf.name,
    hsame.receiver.trans hf.receiver, hf.found, fun k hk => hf.slot k (hsame.slot.symm.trans hk)⟩

/-- A method of a class that is to be instantiated by its calls has type parameters. -/
theorem generic_of_findMethod {p : Program} (hp : GenericMethods src p) {g : SymbolId}
    (hfind : p.findMethod c name = some (owner, .generic g)) :
    (src.tree.functionAt g).decl.typeParams ≠ [] := by
  rw [Program.findMethod] at hfind
  obtain ⟨d, -, hd⟩ := List.exists_of_findSome?_eq_some hfind
  obtain ⟨found, hfound, heq⟩ := Option.map_eq_some_iff.mp hd
  cases heq
  exact hp owner g name hfound

include hargs

theorem walks_chooseMethod (w : Point h env returnType) {n : String}
    (hc : h.closed → c < w.state.program.classes.size)
    (hfind : w.state.program.findMethod c n = some (owner, entry)) (explicit : List (TypeExpr Mark))
    (span : Span) :
    Walks w (fun i => chooseMethod (w.ctx i) owner entry explicit (args i) span)
    fun r w' => ∀ m ∈ r,
      (h.closed → Chosen w'.state n owner entry m.1) ∧ ∀ es ∈ m.2, GoodAll A es w' := by
  have hentry (hsome : h.closed.Some) : owner ∈ w.state.program.chain c ∧
      (w.state.program.classAt owner).methods[n]? = some entry := by
    have hranked := (h.orderly hsome w.holds).table.placed.ranked
    exact ⟨(Program.findMethod_some hranked hfind).1, (Program.findMethod_some hranked hfind).2.1⟩
  have howner (hclosed : h.closed) : owner < w.state.program.classes.size :=
    (w.orderly hclosed).table.placed.mem_chain_lt (hc hclosed) (hentry (.inl hclosed)).1
  cases entry with
  | inst f =>
    have hchosen (hclosed : h.closed) : Chosen w.state n owner (.inst f) f := by
      obtain ⟨hlt, hclass, hname⟩ :=
        (w.orderly hclosed).table.dispatching.entered (hentry (.inl hclosed)).2
      exact ⟨hlt, hname, (w.orderly hclosed).catalogue.owned hclass,
        fun g hg => (MethodEntry.inst.inj hg).symm, fun _ _ => rfl⟩
    simp only [chooseMethod]
    refine .when (.report span) fun w1 hw1 _ => .pure ?_
    rintro _ ⟨⟩
    exact ⟨fun hclosed => (hchosen hclosed).later hw1.toGoes hclosed, by simp⟩
  | generic symbol =>
    refine .bind (walks_chooseTypeArgs hargs w (src.tree.functionAt symbol).decl explicit span)
      fun chosen w1 hw1 hchosen => ?_
    cases chosen with
    | none => exact .pure (by simp)
    | some chosen =>
      obtain ⟨hwithin, hchecked⟩ := hchosen chosen rfl
      have hkey (hclosed : h.closed) : KeyWithin w1.state.program
          { symbol, typeArgs := chosen.1, receiver := some (.object owner) } := by
        refine ⟨hwithin hclosed, fun ty hty d hd => ?_⟩
        cases hty
        cases hd
        exact Nat.lt_of_lt_of_le (howner hclosed) (hw1.classes hclosed)
      have hmember (hsome : h.closed.Some) :=
        (h.orderly hsome w.holds).catalogue.generics (hentry hsome).2
      refine .bind (.lift (h.functions _ span w1.holds hkey
        (fun hk => bare_of_struct (hmember (.inr hk)).2.choose_spec)
        fun hs => .inr ⟨generic_of_findMethod (h.generics hs w.holds) hfind, owner, rfl⟩))
        fun r w2 hw2 hfound => ?_
      cases r with
      | none => exact .pure (by simp)
      | some f =>
        refine .pure ?_
        rintro _ ⟨⟩
        refine ⟨fun hclosed => ?_, fun es hes => (hchecked es hes).later hw2⟩
        obtain ⟨hlt, hsat⟩ := hfound hclosed f rfl
        have hreceiver := hsat.receiver fun _ _ => ⟨owner, rfl⟩
        have hname := hsat.answers.name.trans (hmember (.inl hclosed)).1
        refine ⟨hlt, hname, hreceiver, by simp, fun k hk => ?_⟩
        -- The class has a generic method of this name, so the instance cannot stand in a slot.
        obtain ⟨d, hd, hinst⟩ := (w2.orderly hclosed).table.dispatching.slotted hk
        rw [hsat.answers.owner] at hd
        have hd := ownerOf_eq_some hd
        rw [hreceiver] at hd
        cases hd
        have hbuilt := (w.orderly hclosed).built hclosed (howner hclosed)
        rw [((hw1.trans hw2).advances hclosed |>.kept (.inl hbuilt)).1, hname] at hinst
        cases hinst.symm.trans (hentry (.inl hclosed)).2

omit hargs

theorem dispatchRule_virtual {k : Nat} (h : (j.state.program.functionAt f).slot = some k) (i : Info)
    (receiver : Option Expr) (es : List Expr) :
    j.DispatchRule (.call i f receiver es (.virtual k)) := by
  rw [Judge.DispatchRule.eq_def]
  split
  · next heq => cases heq
  · next heq =>
    cases heq
    exact h
  · trivial

theorem freshClass_eq_some {e : Expr} (h : freshClass e = some c) :
    ∃ i init es, e = .new i c init es := by
  cases e with
  | new i c' init es =>
    cases h
    exact ⟨i, init, es, rfl⟩
  | _ => cases h

theorem exprRule_new {i : Info} {cls : ClassId} {init : Option FuncId} {es : List Expr}
    (h : j.Passes (Expr.new i cls init es).nodes) : j.ExprRule (.new i cls init es) :=
  (h (.expr (.new i cls init es)) (by rw [Expr.nodes]; exact List.mem_cons_self)).1

/-- The class of an object that has just been made is its type. -/
theorem dispatchRule_call (hpasses : j.Passes receiver.nodes)
    (h : ∀ c b g, receiver.ty = .object c →
      j.state.program.findMethod c (j.state.program.functionAt f).name = some (b, .inst g) →
      g = f ∧ ∀ k, (j.state.program.functionAt f).slot = some k →
        (j.state.program.classAt c).vtable[k]? = some f) (i : Info) (es : List Expr) :
    j.DispatchRule (.call i f (some receiver) es .static) := by
  rw [Judge.DispatchRule.eq_def]
  split
  · next cls _ _ _ heq =>
    cases heq
    have hrule := exprRule_new hpasses
    exact ⟨hrule.2.1, fun b g => h cls b g hrule.1⟩
  · next heq => cases heq
  · trivial

/-- On an object that has just been made the method that was found is the one that its table has. -/
theorem exact_of_fresh {cls b : ClassId} {n : String} {g : FuncId} {k : Nat} (hc : h.closed)
    (hclean : w.state.Clean) (hty : receiver.ty = .object c)
    (hpasses : w.judge.Passes receiver.nodes) (hfresh : freshClass receiver = some cls)
    (hfind : w.state.program.findMethod c n = some (b, .inst f))
    (hslot : (w.state.program.functionAt f).slot = some k)
    (hentry : (w.state.program.classAt cls).vtable[k]? = some g) : g = f := by
  rcases freshClass_eq_some hfresh with ⟨info, init, es, rfl⟩
  have hrule := exprRule_new hpasses
  obtain rfl : cls = c := Ty.object.inj (hrule.1.symm.trans hty)
  have hvtable := Program.vtable_of_findMethod (w.orderly hc).table ((w.orderly hc).exact hclean)
    ((w.orderly hc).built hc hrule.2.1) hfind hslot
  exact Option.some.inj (hentry.symm.trans hvtable)

include hargs

theorem walks_callMethod (w : Point h env returnType) {n : String}
    (hreceiver : Good w [receiver.ty] receiver.nodes (C · (some receiver)))
    (hty : h.closed → receiver.ty = .object c)
    (hfind : w.state.program.findMethod c n = some (owner, entry))
    (explicit : List (TypeExpr Mark)) (span : Span) :
    Walks w (fun i => callMethod (w.ctx i) receiver owner entry explicit (args i) span)
      (GoodBy fun Γ => CallOf (C Γ) (A Γ)) := by
  have hlt (hc : h.closed) : c < w.state.program.classes.size := hreceiver.ty_within hc c (hty hc)
  refine .bind (walks_chooseMethod hargs w hlt hfind explicit span) fun r w1 hw1 hchosen => ?_
  cases r with
  | none => exact .pure (good_errorExpr w1 span fun _ => trivial)
  | some r =>
    obtain ⟨f, checked⟩ := r
    obtain ⟨hf1, hchecked⟩ := hchosen (f, checked) rfl
    refine .bind (walks_finishArguments hargs w1 (fun hc => (hf1 hc).lt) hchecked span)
      fun es w2 hw2 hes => .program ?_
    have hw := hw1.trans hw2
    have hf (hc : h.closed) := (hf1 hc).later hw2.toGoes hc
    have hreceiver2 := hreceiver.later hw
    have hself : GoodReceiver C (some receiver) w2 := hreceiver2
    have hfind2 (hc : h.closed) : w2.state.program.findMethod c n = some (owner, entry) := by
      rw [(hw.extends hc).findMethod (hlt hc)]
      exact hfind
    -- The class of the receiver has the one in which the method was found among its ancestors.
    have hreceives : Receives f (some receiver) w2 := by
      intro hc _
      rw [(hf hc).receiver]
      refine .some ⟨hreceiver2.ty_within hc, ?_⟩
      have hmem := (Program.findMethod_some (w2.orderly hc).table.placed.ranked (hfind2 hc)).1
      rw [hty hc]
      simp [State.isAssignable, Program.isSubclass, hmem, Point.judge]
    have hslots (hc : h.closed) (k : Nat) (hk : (w2.state.program.functionAt f).slot = some k) :
        w2.state.program.findMethod c n = some (owner, .inst f) := by
      rw [hfind2 hc, (hf hc).slot k hk]
    have hbuilt (hc : h.closed) : w2.state.program.Built c :=
      (w2.orderly hc).built hc (Nat.lt_of_lt_of_le (hlt hc) (hw.classes hc))
    have hdispatch (hc : h.closed) (hclean : w2.state.Clean) (i : Info) :
        w2.judge.DispatchRule (.call i f (some receiver) es .static) := by
      refine dispatchRule_call (hreceiver2.passes hc hclean) (fun d b g hd hg => ?_) i es
      obtain rfl : c = d := Ty.object.inj ((hty hc).symm.trans hd)
      rw [Point.judge, (hf hc).name, hfind2 hc] at hg
      refine ⟨(hf hc).found g (Prod.mk.inj (Option.some.inj hg)).2, fun k hk => ?_⟩
      exact Program.vtable_of_findMethod (w2.orderly hc).table ((w2.orderly hc).exact hclean)
        (hbuilt hc) (hslots hc k hk) hk
    cases hslot : (w2.state.program.functionAt f).slot with
    | none =>
      exact walks_callExpr hes hself (fun hc _ => Judge.exprRange_static (hf hc).lt fun _ => rfl)
        hreceives hdispatch span
    | some k =>
      dsimp only
      cases hfresh : (freshClass receiver).bind fun c =>
        (w2.state.program.classAt c).vtable[k]? with
      | none =>
        have hslotted (hc : h.closed) : w2.judge.HasSlot (some receiver) k :=
          ⟨receiver, c, rfl, hty hc,
            Program.slot_lt_vtable (w2.orderly hc).table (hbuilt hc) (hslots hc k hslot) hslot⟩
        exact walks_callExpr hes hself
          (fun hc _ => ⟨(hf hc).lt, fun _ => rfl, fun _ hk => Dispatch.virtual.inj hk ▸
          hslotted hc⟩) hreceives (fun _ _ i => dispatchRule_virtual hslot i _ _) span
      | some exact =>
        obtain ⟨cls, hcls, hentry⟩ := Option.bind_eq_some_iff.mp hfresh
        have hexact (hc : h.closed) (hclean : w2.state.Clean) : exact = f :=
          exact_of_fresh hc hclean (hty hc) (hreceiver2.passes hc hclean) hcls (hslots hc k hslot)
            hslot hentry
        have hlt_exact (hc : h.closed) : exact < w2.state.program.functions.size := by
          refine Program.vtable_lt_functions (w2.orderly hc).table hentry
            ((w2.orderly hc).built hc (Nat.lt_of_not_le fun hle => ?_))
          rw [Program.classAt_of_size_le hle] at hentry
          cases hentry
        exact walks_callExpr ⟨hes.1, fun hc hclean => hexact hc hclean ▸ hes.2 hc hclean⟩ hself
          (fun hc _ => Judge.exprRange_static (hlt_exact hc) fun _ => rfl)
          (fun hc hclean => hexact hc hclean ▸ hreceives hc hclean)
          (fun hc hclean i => hexact hc hclean ▸ hdispatch hc hclean i) span

/-! ### Calls of extension functions -/

omit hargs

theorem mem_of_mapM_id {found : List (Option Ty)} {tys : List Ty} (h : found.mapM id = some tys)
    {ty : Ty} (hty : ty ∈ tys) : some ty ∈ found := by
  induction found generalizing tys with
  | nil =>
    cases h
    cases hty
  | cons x rest ih =>
    rw [List.mapM_cons] at h
    rcases Option.bind_eq_some_iff.mp h with ⟨a, ha, h⟩
    rcases Option.bind_eq_some_iff.mp h with ⟨as, has, h⟩
    cases h
    cases ha
    rcases List.mem_cons.mp hty with rfl | hty
    · exact List.mem_cons_self
    · exact List.mem_cons_of_mem _ (ih has hty)

theorem walks_matchExtension (w : Point h env returnType) (decl : Function Mark) {receiver : Ty}
    (hreceiver : h.closed → receiver.Within w.state.program) :
    Walks w (fun i => matchExtension (w.ctx i) decl receiver) fun r w' => ∀ m ∈ r,
      (h.closed → (∀ a ∈ m.1, a.Within w'.state.program) ∧ m.2.Within w'.state.program) ∧
        w'.state.isAssignable receiver m.2 = true ∧
        (h.strict → ∃ clause, decl.receiver = some clause ∧
          typeOf src w'.state.program (Subst.bind ∅ decl.typeParams m.1) clause = some m.2) := by
  simp only [matchExtension]
  cases decl.receiver with
  | none => exact .pure (by simp)
  | some clause =>
    refine .program ?_
    cases hinfer : (inferTypeArgs src w.state.program decl.typeParams [(clause, receiver)]).mapM
      id with
    | none => exact .pure (by simp)
    | some typeArgs =>
      have hwithin (hc : h.closed) (a) (ha : a ∈ typeArgs) : a.Within w.state.program := by
        refine within_inferTypeArgs (w.typed hc) (fun pair hpair => ?_) (mem_of_mapM_id hinfer ha)
        rw [List.mem_singleton.mp hpair]
        exact hreceiver hc
      refine .bind (.lift (h.types (Subst.bind ∅ decl.typeParams typeArgs) clause w.holds
        fun hc => Subst.Within.empty.bind (hwithin hc))) fun ty w1 hw1 hty => .state ?_
      refine .ite (fun _ => .pure (by simp)) fun hfit => .pure ?_
      simp only [Bool.or_eq_true, not_or, Bool.not_eq_true', Bool.not_eq_false] at hfit
      rintro _ ⟨⟩
      refine ⟨fun hc => ⟨fun a ha => (hwithin hc a ha).mono (hw1.classes hc), hty.1 hc⟩, hfit.2,
        fun hs => ⟨clause, rfl, (hty.2 hs).known fun hunknown => hfit.1 ?_⟩⟩
      simp [hunknown, Ty.isUnknown]

theorem walks_findExtension (w : Point h env returnType) {receiver : Ty} {symbols : List SymbolId}
    (hreceiver : h.closed → receiver.Within w.state.program) {method : String}
    (hsymbols : ∀ f ∈ symbols, ∃ ns, f ∈ src.tree.extensionsIn ns method) :
    Walks w (fun i => findExtension (w.ctx i) receiver symbols) fun r w' => ∀ key ∈ r,
      (∃ ns, key.symbol ∈ src.tree.extensionsIn ns method) ∧
      (h.closed → KeyWithin w'.state.program key) ∧
        (∃ ty, key.receiver = some ty ∧ w'.state.isAssignable receiver ty = true) ∧
        (h.strict → Callable src h.bound w'.state.program key) := by
  induction symbols generalizing w with
  | nil => exact .pure (by simp)
  | cons symbol rest ih =>
    refine .bind (walks_matchExtension w (src.tree.functionAt symbol).decl hreceiver)
      fun found w1 hw1 hfound => ?_
    cases found with
    | none =>
      exact ih w1 (fun hc => (hreceiver hc).mono (hw1.classes hc)) fun f hf =>
        hsymbols f (List.mem_cons_of_mem symbol hf)
    | some found =>
      obtain ⟨typeArgs, ty⟩ := found
      obtain ⟨hwithin, hfit, hclause⟩ := hfound (typeArgs, ty) rfl
      obtain ⟨ns, hmem⟩ := hsymbols symbol List.mem_cons_self
      refine .pure ?_
      rintro _ ⟨⟩
      refine ⟨⟨ns, hmem⟩, fun hc => ⟨(hwithin hc).1, ?_⟩, ⟨ty, rfl, hfit⟩, fun hs => .inl ?_⟩
      · rintro _ ⟨⟩
        exact (hwithin hc).2
      · obtain ⟨hlt, howner⟩ := (h.proper hs).extensions hmem
        refine ⟨hlt, howner, ?_⟩
        rintro _ ⟨⟩
        exact hclause hs

include hargs

theorem walks_callExtension (w : Point h env returnType) {method : String}
    (hreceiver : Good w [receiver.ty] receiver.nodes (C · (some receiver)))
    (hnone : ∀ c, receiver.ty = .object c → w.state.program.findMethod c method = none)
    (explicit : List (TypeExpr Mark)) (span : Span) :
    Walks w (fun i => callExtension (w.ctx i) receiver method explicit (args i) span)
      (GoodBy fun Γ => CallOf (C Γ) (A Γ)) := by
  have hsymbols (f) (hf : f ∈ (visibleNamespaces (w.ctx 0)).flatMap
      (src.tree.extensionsIn · method)) :
      ∃ ns, f ∈ src.tree.extensionsIn ns method := by
    obtain ⟨ns, -, hf⟩ := List.mem_flatMap.mp hf
    exact ⟨ns, hf⟩
  refine .bind (walks_findExtension w (fun hc => hreceiver.ty_within hc) hsymbols)
    fun found w1 hw1 hfound => ?_
  cases found with
  | none =>
    exact .bind (.quiet (.display src receiver.ty)) fun _ w2 _ _ =>
      walks_reported hargs w2 (.report span) span fun _ => trivial
  | some key =>
    obtain ⟨⟨ns, hmem⟩, hkey, ⟨ty, hty, hfit⟩, hcallable⟩ := hfound key rfl
    have hname : (src.tree.functionAt key.symbol).name = method := by
      simpa using (List.mem_filter.mp hmem).2
    refine .when (.report span) fun w2 hw2 _ => ?_
    refine .bind (.lift (h.functions key span w2.holds (fun hc => (hkey hc).mono (hw2.classes hc))
      (fun hk ns' _ hfree => ?_) fun hs => (h.retains hs hw2.goes).callable (hcallable hs)))
      fun r w3 hw3 hfound => ?_
    · cases ((h.regular (.inr hk)).extensions hmem).2.symm.trans hfree
    cases r with
    | none => exact .pure (good_errorExpr w3 span fun _ => trivial)
    | some f =>
      refine .bind (walks_finishArguments hargs w3 (fun hc => (hfound hc f rfl).1) (by simp) span)
        fun es w4 hw4 hes => ?_
      have hw14 := hw2.trans (hw3.trans hw4)
      have hw := hw1.trans hw14
      have hreceiver4 := hreceiver.later hw
      have hself : GoodReceiver C (some receiver) w4 := hreceiver4
      have hreceives : Receives f (some receiver) w4 := by
        intro hc _
        obtain ⟨hlt, hsat⟩ := hfound hc f rfl
        obtain ⟨ns', hns⟩ := ((h.regular (.inl hc)).extensions hmem).1
        have haccepts : w1.judge.Accepts ty receiver.ty :=
          ⟨(hreceiver.later hw1).ty_within hc, hfit⟩
        rw [((hw4.advances hc).alike hlt).receiver, hsat.receiver (by simp [hns]), hty]
        exact .some ((hw14.grows hc).accepts haccepts)
      -- The class of the receiver has no method of this name.
      have hdispatch (hc : h.closed) (hclean : w4.state.Clean) (i : Info) :
          w4.judge.DispatchRule (.call i f (some receiver) es .static) := by
        obtain ⟨hlt, hsat⟩ := hfound hc f rfl
        refine dispatchRule_call (hreceiver4.passes hc hclean) (fun c b g hty hg => ?_) i es
        rw [Point.judge, ((hw4.advances hc).alike hlt).name, hsat.answers.name, hname,
          (hw.extends hc).findMethod (hreceiver.ty_within hc c hty), hnone c hty] at hg
        cases hg
      refine walks_callExpr hes hself (fun hc _ => Judge.exprRange_static ?_ fun _ => rfl) hreceives
        hdispatch span
      exact Nat.lt_of_lt_of_le (hfound hc f rfl).1 (hw4.advances hc).functions

/-! ### What a call stands for -/

omit hargs

theorem functionIn_of_lookupFunction {ctx : BodyContext} {outer : List String} {symbol : SymbolId}
    (hfound : lookupFunction ctx outer name = some symbol) :
    ∃ ns, ctx.src.tree.functionIn ns name = some symbol := by
  rw [lookupFunction] at hfound
  split at hfound
  · obtain ⟨ns, -, hns⟩ := List.exists_of_findSome?_eq_some hfound
    exact ⟨ns, hns⟩
  · obtain ⟨ns, -, hns⟩ := Option.bind_eq_some_iff.mp hfound
    exact ⟨ns, hns⟩

theorem good_selfExpr (w : Point h env returnType) {node : Nat} {span : Span} {e : Expr}
    (hself : selfExpr (w.ctx 0) node span = some e) :
    (∃ i, e = .self i) ∧ GoodBy (fun _ e => Implicit (some e)) e w ∧ env.selfType = some e.ty := by
  rw [selfExpr] at hself
  split at hself
  · obtain ⟨ty, hty, rfl⟩ := Option.map_eq_some_iff.mp hself
    exact ⟨⟨_, rfl⟩, good_leaf rfl (fun hc => (w.around hc).selfType ty hty) (fun _ => trivial)
      trivial (fun _ => hty) trivial trivial, hty⟩
  · cases hself

include hargs

theorem walks_checkCall (w : Point h env returnType) (mark : Mark) (callee : List String)
    (explicit : List (TypeExpr Mark)) :
    Walks w (fun i => checkCall (w.ctx i) mark callee explicit (args i))
      (GoodBy fun Γ => CallOf Implicit (A Γ)) := by
  simp only [checkCall]
  cases callee.reverse with
  | nil => exact .pure (good_errorExpr w _ fun _ => trivial)
  | cons name outer =>
    refine .program ?_
    cases hmethod :
      (if outer.isEmpty then env.cls.bind (w.state.program.findMethod · name) else none) with
    | some found =>
      obtain ⟨owner, entry⟩ := found
      obtain ⟨c, hcls, hfind⟩ : ∃ c, env.cls = some c ∧
          w.state.program.findMethod c name = some (owner, entry) := by
        split at hmethod
        · exact Option.bind_eq_some_iff.mp hmethod
        · cases hmethod
      simp only [w.selfExpr_ctx]
      cases hself : selfExpr (w.ctx 0) mark.node mark.span with
      | none => exact walks_reported hargs w (.report _) _ fun _ => trivial
      | some receiver =>
        obtain ⟨-, hgood, hselfType⟩ := good_selfExpr w hself
        exact walks_callMethod hargs w hgood (fun hc => ((w.around hc).cls c hcls).2 _ hselfType)
          hfind explicit _
    | none =>
      have hconst (i : Nat) : lookupFunction (w.ctx i) outer.reverse name =
          lookupFunction (w.ctx 0) outer.reverse name := rfl
      simp only [hconst]
      cases hsymbol : lookupFunction (w.ctx 0) outer.reverse name with
      | none => exact walks_reported hargs w (.report _) _ fun _ => trivial
      | some symbol =>
        obtain ⟨ns, hns⟩ := functionIn_of_lookupFunction hsymbol
        exact walks_callFunction hargs w hns (fun _ => trivial) explicit _

theorem walks_checkMethodCall (w : Point h env returnType) (mark : Mark)
    (hreceiver : Good w [receiver.ty] receiver.nodes (C · (some receiver))) (method : String)
    (explicit : List (TypeExpr Mark)) :
    Walks w (fun i => checkMethodCall (w.ctx i) mark receiver method explicit (args i))
      (GoodBy fun Γ => CallOf (C Γ) (A Γ)) := by
  simp only [checkMethodCall]
  cases hty : receiver.ty with
  | unknown => exact walks_plain_error hargs w _ fun _ => trivial
  | protocol id => exact walks_reported hargs w (.reportFound src _ _ _) _ fun _ => trivial
  | object c =>
    refine .program ?_
    cases hfind : w.state.program.findMethod c method with
    | none =>
      refine walks_callExtension hargs w hreceiver (fun d hd => ?_) explicit _
      rw [← Ty.object.inj (hty.symm.trans hd)]
      exact hfind
    | some found => exact walks_callMethod hargs w hreceiver (fun _ => hty) hfind explicit _
  | primitive p | enum id => exact walks_callExtension hargs w hreceiver (by simp [hty]) explicit _

end

end ObjectLang.Check
