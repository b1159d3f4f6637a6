import ObjectLang.Proofs.BodyTrees

/-! # Functions

A function whose body has been checked names what is there and obeys the rules as a whole, and what
is checked after it does not change that.
-/

namespace ObjectLang.Check

open Source Syntax Scope Names Diagnostic Checked

/-! ### Rules for functions -/

namespace Judge

variable (j : Judge)

/-- A function that returns something has a value on every way through it. -/
def ResultRule (b : Block) : Prop :=
  j.returnType ≠ .void → j.returnType ≠ .unknown → b.diverges = false →
    ∃ e, b.tail = some e ∧ j.Accepts j.returnType e.ty

/-- The value is one for the field of the class that it is stored in. -/
def InitRule (cls : ClassId) (init : FieldInit) : Prop :=
  ∃ ty, j.HasField cls init.index ty ∧ j.Accepts ty init.value.ty

variable {j} {j' : Judge}

theorem Grows.resultRule (h : j.Grows j') {b : Block} (hb : j.ResultRule b) : j'.ResultRule b := by
  rw [ResultRule, h.returnType]
  intro hvoid hknown hdiverges
  rcases hb hvoid hknown hdiverges with ⟨e, he, ha⟩
  exact ⟨e, he, h.accepts ha⟩

theorem Grows.initRule (h : j.Grows j') {cls : ClassId} {init : FieldInit}
    (hi : j.InitRule cls init) : j'.InitRule cls init := by
  rcases hi with ⟨ty, hfield, ha⟩
  exact ⟨ty, h.hasField hfield, h.accepts ha⟩

end Judge

/-- What the parts of a function are judged by. -/
def judgeOf (s : State) (f : FuncInst) : Judge :=
  ⟨s, f.locals, selfTypeOf f.kind f.owner f.receiver, f.returnType⟩

/-- The body of the function and the defaults that it stores obey the rules.  What a function
returns is only asked of one that is written with a body. -/
structure FunctionRule (src : Sources) (s : State) (f : FuncInst) : Prop where
  body : ∀ b, f.body = some b → (judgeOf s f).Passes b.nodes
  result : ∀ b symbol, f.body = some b → f.symbol = some symbol →
    (src.tree.functionAt symbol).decl.body ≠ none → (judgeOf s f).ResultRule b
  inits : ∀ init ∈ f.fieldInits, (judgeOf s f).Passes init.value.nodes ∧
    ∃ c, f.owner = some c ∧ (judgeOf s f).InitRule c init

/-- All functions of the program obey the rules if nothing was reported. -/
def Sound (src : Sources) (closed : Trust) (s : State) : Prop :=
  closed → s.Clean → ∀ f, f < s.program.functions.size →
    FunctionRule src s (s.program.functionAt f)

/-- The body of the function and the defaults that it stores name what is there. -/
structure FunctionRange (src : Sources) (s : State) (f : FuncInst) : Prop where
  body : ∀ b, f.body = some b → (judgeOf s f).Ranged src.tree b.nodes
  inits : ∀ init ∈ f.fieldInits, (judgeOf s f).Ranged src.tree init.value.nodes ∧
    ∃ c, f.owner = some c ∧ (judgeOf s f).HasIndex c init.index

/-- What is known of the functions that have been checked. -/
structure Judged (src : Sources) (closed : Trust) (s : State) : Prop where
  sound : Sound src closed s
  ranges : closed → ∀ f, f < s.program.functions.size → FunctionRange src s (s.program.functionAt f)
  forms : closed → ∀ f, f < s.program.functions.size →
    Formed s.program (s.program.functionAt f).nodes

section

variable {src : Sources} {closed : Trust} {s t : State} {f g : FuncInst}

theorem grows_judgeOf (hst : Extends s t) (hfg : f.Alike g) (hsign : f.SameSignature g) :
    (judgeOf s f).Grows (judgeOf t g) := by
  refine ⟨hst, ?_, ?_, hsign.returnType⟩
  · simp only [judgeOf, hsign.locals, List.prefix_rfl]
  · simp only [judgeOf, hfg.kind, hfg.owner, hfg.receiver]

theorem FunctionRule.later (h : FunctionRule src s f) (hst : Extends s t) (hfg : f.Alike g)
    (hsign : f.SameSignature g) : FunctionRule src t g := by
  have hgrows := grows_judgeOf hst hfg hsign
  refine ⟨fun b hb => ?_, fun b symbol hb hsymbol hdecl => ?_, fun init hinit => ?_⟩
  · exact hgrows.passes (h.body b (hfg.body.symm.trans hb))
  · exact hgrows.resultRule
      (h.result b symbol (hfg.body.symm.trans hb) (hfg.symbol.symm.trans hsymbol) hdecl)
  · rw [hfg.fieldInits] at hinit
    rcases h.inits init hinit with ⟨hpasses, c, hc, hrule⟩
    exact ⟨hgrows.passes hpasses, c, hfg.owner.trans hc, hgrows.initRule hrule⟩

theorem FunctionRange.later (h : FunctionRange src s f) (hst : Extends s t) (hfg : f.Alike g)
    (hsign : f.SameSignature g) : FunctionRange src t g := by
  have hgrows := grows_judgeOf hst hfg hsign
  refine ⟨fun b hb => hgrows.ranged (h.body b (hfg.body.symm.trans hb)), fun init hinit => ?_⟩
  rw [hfg.fieldInits] at hinit
  rcases h.inits init hinit with ⟨hranged, c, hc, hindex⟩
  exact ⟨hgrows.ranged hranged, c, hfg.owner.trans hc, hgrows.hasIndex hindex⟩

theorem FunctionRange.ranged (h : FunctionRange src s f) : (judgeOf s f).Ranged src.tree f.nodes :=
  FuncInst.forall_mem_nodes.mpr ⟨h.body, fun init hinit => (h.inits init hinit).1⟩

theorem formed_later (h : FunctionRange src s f) (hform : Formed s.program f.nodes)
    (hst : Extends s t)
    (hfg : f.Alike g) (hsign : f.SameSignature g) : Formed t.program g.nodes := by
  have hnodes : g.nodes = f.nodes := by
    rw [FuncInst.nodes, FuncInst.nodes, hfg.body, hfg.fieldInits]
  rw [hnodes]
  exact (grows_judgeOf hst hfg hsign).formed h.ranged hform

theorem functionRule_of_bodiless (h : f.Bodiless) : FunctionRule src s f := by
  refine ⟨fun b hb => ?_, fun b symbol hb hsymbol => ?_, fun init hinit => ?_⟩
  · rcases h.body b hb with ⟨-, span, rfl⟩
    exact .cons rfl trivial Judge.passes_nil
  · rw [(h.body b hb).1] at hsymbol
    cases hsymbol
  · rw [h.fieldInits] at hinit
    cases hinit

theorem ranged_empty {j : Judge} (tree : Tree) (span : Span) :
    j.Ranged tree (Block.empty span).nodes :=
  .cons (Ty.within_primitive _) Judge.ranged_nil

theorem functionRange_of_bodiless (h : f.Bodiless) : FunctionRange src s f := by
  refine ⟨fun b hb => ?_, fun init hinit => ?_⟩
  · rcases h.body b hb with ⟨-, span, rfl⟩
    exact ranged_empty src.tree span
  · rw [h.fieldInits] at hinit
    cases hinit

theorem formed_empty {p : Program} (span : Span) : Formed p (Block.empty span).nodes := by
  apply formed_cons.mpr
  exact ⟨⟨rfl, rfl⟩, formed_nil⟩

theorem formed_of_bodiless {p : Program} (h : f.Bodiless) : Formed p f.nodes := by
  refine FuncInst.forall_mem_nodes.mpr ⟨fun b hb => ?_, by simp [h.fieldInits]⟩
  rcases h.body b hb with ⟨-, span, rfl⟩
  exact formed_empty span

theorem Judged.advance (h : Judged src closed s) (hs : Orderly src closed {} s)
    (ht : Orderly src closed {} t) (hst : Advances {} s t) : Judged src closed t := by
  refine ⟨fun hc hclean f hf => ?_, fun hc f hf => ?_, fun hc f hf => ?_⟩ <;>
    rcases Nat.lt_or_ge f s.program.functions.size with hlt | hge
  · exact (h.sound hc (hst.clean hclean) f hlt).later (hs.extends ht hc hst) (hst.alike hlt)
      (hst.signed hlt List.not_mem_nil)
  · exact functionRule_of_bodiless (hst.fresh hge hf)
  · exact (h.ranges hc f hlt).later (hs.extends ht hc hst) (hst.alike hlt)
      (hst.signed hlt List.not_mem_nil)
  · exact functionRange_of_bodiless (hst.fresh hge hf)
  · exact formed_later (h.ranges hc f hlt) (h.forms hc f hlt) (hs.extends ht hc hst) (hst.alike hlt)
      (hst.signed hlt List.not_mem_nil)
  · exact formed_of_bodiless (hst.fresh hge hf)

end

/-! ### Defaults of fields -/

section

variable {src : Sources} {request : Nat → ClassRequest} {h : Host src request} {env : BodyEnv}
  {returnType : Ty} {w w' : Point h env returnType} {α β : Type}

/-- A default for a field of the class, which may be one for it only if nothing was reported. -/
structure GoodInit (cls : ClassId) (init : FieldInit) (w : Point h env returnType) : Prop where
  value : Good w [init.value.ty] init.value.nodes fun _ => True
  index : h.closed → w.judge.HasIndex cls init.index
  rule : h.closed → w.state.Clean → w.judge.InitRule cls init

variable {cls : ClassId}

theorem GoodInit.later {init : FieldInit} (hg : GoodInit cls init w) (hw : w.Goes w') :
    GoodInit cls init w' :=
  ⟨hg.value.fixed fun _ => hw, fun hc => (hw.grows hc).hasIndex (hg.index hc),
    fun hc ht => (hw.grows hc).initRule (hg.rule hc (hw.clean hc ht))⟩

/-- In a block of its own, under the type arguments of some class. -/
def Point.under (w : Point h env returnType) (subst : Subst)
    (hsubst : h.closed → subst.Within w.state.program) : Point h { env with subst } returnType where
  state := w.state
  frame := w.frame.openBlock
  holds := w.holds
  around hc := ⟨hsubst hc, (w.around hc).selfType, (w.around hc).cls⟩
  fits := w.openBlock.fits

/-- Back in the surroundings of the function. -/
def Point.back (w : Point h env returnType) {subst : Subst}
    (w1 : Point h { env with subst } returnType)
    (hgoes : h.goes w.state w1.state) : Point h env returnType where
  state := w1.state
  frame := w1.frame.closeBlock
  holds := w1.holds
  around hc := (w.around hc).mono (h.advances hc hgoes).classes
  fits := w1.closeBlock.fits

/-- A default is checked under the type arguments of the class that declares its field. -/
theorem Steps.under {subst : Subst} (hsubst : h.closed → subst.Within w.state.program)
    {x : Nat → BodyCheck α} {f : Nat → α → BodyCheck β}
    {P : α → Point h { env with subst } returnType → Prop}
    {Q : β → Point h env returnType → Prop} (hx : Walks (w.under subst hsubst) x P)
    (hf : ∀ a w1 (hw : (w.under subst hsubst).Stays w1), P a w1 →
      Steps (w.back w1 hw.goes) (fun i => f i a) Q) :
    Steps w (fun i => (do modify (·.openBlock); let a ← x i; modify (·.closeBlock); f i a)) Q where
  keeps {i _ _ _} hrun := by
    have hrun : (x i >>= fun a => (modify (·.closeBlock) : BodyCheck PUnit) >>= fun _ => f i a)
      w.frame.openBlock w.state = _ := hrun
    obtain ⟨a, frame1, s1, h1, h2⟩ := body_bind_some hrun
    obtain ⟨w1, rfl, rfl, hw, hp⟩ := hx.keeps h1
    exact (hf a w1 hw hp).keeps h2
  ends hl := (hx.ends hl).bind fun {_ r} hrun => by
    obtain ⟨w1, hs, hframe, hw, hp⟩ := hx.keeps hrun
    have hrest : Ends fun i => f i r.1.1 w1.frame.closeBlock w1.state := (hf r.1.1 w1 hw hp).ends hl
    rw [hs, hframe] at hrest
    exact hrest

/-- What was reported since a point is taken back. -/
theorem steps_withdraw (hw : w.Stays w') :
    Steps w' (fun _ => (liftM (withdraw w.state) : BodyCheck PUnit)) fun _ w'' =>
      w.Stays w'' ∧ (h.closed → w'.Goes w'') where
  keeps hrun := by
    obtain ⟨hrun, rfl⟩ := lift_some hrun
    cases hrun
    obtain ⟨ht, hst, hback⟩ := h.takesBack w.holds w'.holds hw.goes
    exact ⟨⟨_, w'.frame, ht, fun hc => (w.around hc).mono (h.advances hc hst).classes,
      fun hc => (w'.fits hc).mono (h.advances hc (hback hc)).classes⟩, rfl, rfl,
      ⟨⟨hst, hw.locals⟩, hw.blocks⟩, fun hc => ⟨hback hc, List.prefix_rfl⟩⟩
  ends _ := .step rfl

theorem walks_checkFieldDefault (w : Point h env returnType) {field : FieldInst}
    (hfield : h.closed → w.judge.HasField cls field.index field.ty) :
    Walks w (fun i => checkFieldDefault (w.ctx i) cls field) fun r w' =>
    ∀ init ∈ r, GoodInit cls init w' := by
  have hconst (i : Nat) (p : Program) :
    fieldDefault (w.ctx i) p field = fieldDefault (w.ctx 0) p field := rfl
  simp only [checkFieldDefault, hconst]
  refine .state ?_
  cases fieldDefault (w.ctx 0) w.state.program field with
  | none => exact .pure (by simp)
  | some default =>
    have hsubst (hc : h.closed) :
        (classSubst src w.state.program field.declaredIn).Within w.state.program :=
      within_classSubst (w.orderly hc) hc field.declaredIn
    refine Steps.under hsubst (walks_checkExpr _ default (some field.ty))
      fun value w1 hw hvalue => ?_
    have hw1 : w.Stays (w.back w1 hw.goes) := ⟨⟨hw.goes, hw.locals⟩, congrArg List.tail hw.blocks⟩
    have hvalue1 : Good (w.back w1 hw.goes) [value.ty] value.nodes fun _ => True :=
      ⟨hvalue.within, hvalue.ranged, hvalue.formed, hvalue.passes, trivial⟩
    refine .bind (Walks.quiet (.expectAssignable src value.ty field.ty value.span))
      fun _ w2 hw2 => ?_
    obtain ⟨hw2, hrun⟩ := hw2
    -- Whether or not the reports are taken back, the value is one for the field if there are none.
    have hgood {w3 : Point h env returnType} (hw03 : w.Stays w3) (hw23 : h.closed → w2.Goes w3) :
        GoodInit cls { index := field.index, value } w3 := by
      have hfield3 (hc : h.closed) := (hw03.grows hc).hasField (hfield hc)
      refine ⟨(hvalue1.later hw2).fixed hw23, fun hc => (hfield3 hc).hasIndex, fun hc hclean =>
        ⟨field.ty, hfield3 hc, ((hw23 hc).grows hc).accepts ?_⟩⟩
      exact accepts_of_expected hrun ((hvalue1.later hw2).ty_within hc) ((hw23 hc).clean hc hclean)
    have hw02 := hw1.trans hw2
    have hlast {w3 : Point h env returnType} (hw03 : w.Stays w3) (hw23 : h.closed → w2.Goes w3) :
        Steps w3 (fun _ => pure (some { index := field.index, value })) fun r w' =>
          w.Stays w' ∧ ∀ init ∈ r, GoodInit cls init w' := by
      refine .pure ⟨hw03, ?_⟩
      rintro _ ⟨⟩
      exact hgood hw03 hw23
    by_cases hown : field.declaredIn = cls
    · simp only [hown, ne_eq, not_true_eq_false, if_false]
      exact hlast hw02 fun _ => (Point.Stays.refl w2).toGoes
    · simp only [hown, ne_eq, not_false_eq_true, if_true]
      exact .bind (steps_withdraw hw02) fun _ _ hw3 => hlast hw3.1 hw3.2

theorem walks_checkFieldDefaults (w : Point h env returnType) {fields : List FieldInst}
    (hfields : h.closed → ∀ field ∈ fields, w.judge.HasField cls field.index field.ty) :
    Walks w (fun i => checkFieldDefaults (w.ctx i) cls fields) fun inits w' =>
      ∀ init ∈ inits, GoodInit cls init w' := by
  induction fields generalizing w with
  | nil => exact .pure (by simp)
  | cons field fields ih =>
    refine .bind (walks_checkFieldDefault w fun hc => hfields hc field List.mem_cons_self)
        fun init w1 hw1 hinit =>
      .bind (ih w1 fun hc f hf => (hw1.grows hc).hasField
        (hfields hc f (List.mem_cons_of_mem _ hf)))
      fun inits w2 hw2 hinits => .pure fun i hi => ?_
    rcases List.mem_append.mp hi with hi | hi
    · exact (hinit i (Option.mem_toList.mp hi)).later hw2.toGoes
    · exact hinits i hi

/-! ### Bodies of functions -/

theorem walks_checkDefaults (w : Point h env returnType) {kind : FunctionKind}
    {owner : Option ClassId} (howner : h.closed → env.cls = owner) :
    Walks w (fun i => checkDefaults (w.ctx i) kind owner) fun inits w' =>
      ∀ init ∈ inits, ∃ c, owner = some c ∧ GoodInit c init w' := by
  simp only [checkDefaults.eq_def]
  split
  · next c =>
    refine .program ((walks_checkFieldDefaults w fun hc field hmem => ?_).imp
        fun _ _ _ hinits init hinit =>
      ⟨c, rfl, hinits init hinit⟩)
    have hlt := ((w.around hc).cls c (howner hc)).1
    obtain ⟨i, hi⟩ := List.getElem?_of_mem hmem
    rw [((w.orderly hc).table.laid hlt).indexed hi]
    exact ⟨hlt, field, hi, rfl⟩
  · exact .pure (by simp)

theorem Quiet.checkResult (ctx : BodyContext) (b : Block) : Quiet (checkResult ctx b) := by
  refine .ite ?_ (.pure _)
  cases b.tail with
  | some e => exact .expectAssignable _ _ _ _
  | none => exact .reportMismatch _ _ _ _

theorem checkResult_clean {t : State} {b : Block}
    (hwithin : ∀ e, b.tail = some e → e.ty.Within w.state.program)
    (hrun : checkResult (w.ctx 0) b w.state = some ((), t)) (ht : t.Clean) :
    w.judge.ResultRule b := by
  intro hvoid hknown hdiverges
  change ¬returnType = .void at hvoid
  change ¬returnType = .unknown at hknown
  rw [checkResult, if_pos (by simp [Ty.isVoid, Ty.isUnknown, hvoid, hknown, hdiverges])] at hrun
  cases htail : b.tail with
  | some e =>
    rw [htail] at hrun
    exact ⟨e, rfl, hwithin e htail, expectAssignable_clean hrun ht⟩
  | none =>
    rw [htail] at hrun
    rcases reportMismatch_clean hrun ht with hunknown | hunknown
    · exact absurd hunknown hknown
    · cases hunknown

theorem GoodElse.eq_none {body : Option (Syntax.Block Mark)} {w : Point h env returnType}
    (hgood : GoodElse body none w) : body = none := by
  cases body with
  | none => rfl
  | some b => exact hgood.known.elim

theorem walks_checkFunctionBody (w : Point h env returnType) (body : Option (Syntax.Block Mark)) :
    Walks w (fun i => checkFunctionBody (w.ctx i) body) fun r w' =>
      GoodElse body r w' ∧ ∀ b ∈ r, h.closed → w'.state.Clean → w'.judge.ResultRule b := by
  cases body with
  | none => exact .pure ⟨good_nil trivial, by simp⟩
  | some b =>
    refine .bind (walks_checkBlock w b (expectedReturn (w.ctx 0))) fun b' w1 _ hbody =>
      .bind (.quiet (.checkResult (w1.ctx 0) b')) fun _ w2 hw2 hrun => .pure ⟨hbody.later hw2, ?_⟩
    rintro _ ⟨⟩ hc hclean
    refine (hw2.grows hc).resultRule (checkResult_clean (fun e he => ?_) hrun hclean)
    have hrule := (hbody.passes hc (hw2.clean hc hclean) (.block b')
      (by cases b'; rw [Block.nodes]; exact List.mem_cons_self)).1
    refine hbody.within hc _ ?_
    cases b' with
    | mk stmts tail ty diverges span =>
      cases he
      exact List.mem_singleton.mpr hrule.symm

theorem walks_checkFunction (w : Point h env returnType) (inst : FuncInst)
    (howner : h.closed → env.cls = inst.owner) (body : Option (Syntax.Block Mark)) :
    Walks w (fun i => checkFunction (w.ctx i) inst body) fun r w' =>
      (∀ init ∈ r.1, ∃ c, inst.owner = some c ∧ GoodInit c init w') ∧ GoodElse body r.2 w' ∧
        ∀ b ∈ r.2, h.closed → w'.state.Clean → w'.judge.ResultRule b := by
  refine .bind (walks_checkDefaults w howner) fun inits w1 _ hinits =>
    .bind (walks_checkFunctionBody w1 body) fun checked w2 hw2 hbody =>
      .pure ⟨fun init hinit => ?_, hbody⟩
  obtain ⟨c, howner, hgood⟩ := hinits init hinit
  exact ⟨c, howner, hgood.later hw2.toGoes⟩

end

/-! ### Bodies from the queue -/

section

variable {src : Sources} {closed : Trust} {s t : State} {task : BodyTask}

theorem TaskFits.envFits (htask : TaskFits closed s.program task) (hs : Orderly src closed {} s)
    (hc : closed) : EnvFits s.program task.env := by
  have hwithin := ((hs.typed hc).functions task.function).receiver
  have howned {c} (howner : (s.program.functionAt task.function).owner = some c) :=
    hs.catalogue.owned howner
  refine ⟨htask.subst hc, fun ty hty => hwithin ty ?_, fun c howner => ?_⟩
  · rw [htask.selfType] at hty
    cases hkind : (s.program.functionAt task.function).kind with
    | method | init =>
      rw [hkind] at hty
      rcases Option.map_eq_some_iff.mp hty with ⟨c, howner, rfl⟩
      exact howned howner
    | extension =>
      rw [hkind] at hty
      exact hty
    | free | requirement =>
      rw [hkind] at hty
      cases hty
  · rw [htask.cls] at howner
    refine ⟨hwithin _ (howned howner) c rfl, fun ty hty => ?_⟩
    rw [htask.selfType, howned howner, howner] at hty
    cases hkind : (s.program.functionAt task.function).kind with
    | method | init | extension =>
      rw [hkind] at hty
      exact (Option.some.inj hty).symm
    | free | requirement =>
      rw [hkind] at hty
      cases hty

theorem Frame.fits_ofParams {p : Program} {params : List LocalInst}
    (h : ∀ l ∈ params, l.ty.Within p) : (Frame.ofParams params).Fits p := by
  refine ⟨h, fun names hnames name id hid => ?_⟩
  rw [Frame.bindings_ofParams, Bindings.ofParams, List.mem_singleton] at hnames
  subst hnames
  obtain ⟨x, hx, rfl⟩ := Option.map_eq_some_iff.mp hid
  exact (List.mem_zipIdx' (List.mem_reverse.mp (List.mem_of_find?_eq_some hx))).1

/-- What is stored with a function is nothing that its callers see. -/
theorem extends_updateFunction {id : FuncId} {u : FuncInst → FuncInst}
    (hs : Orderly src closed {} s) (hid : id < s.program.functions.size)
    (hsame : FuncInst.SameForCallers (s.program.functionAt id) (u (s.program.functionAt id)))
    (hprogram : t.program = s.program.updateFunction id u)
    (himpl : t.implementors = s.implementors) :
    Extends s t := by
  have hclass (c : ClassId) : t.program.classAt c = s.program.classAt c := by
    rw [hprogram]
    rfl
  refine ⟨?_, ?_, fun _ => hclass _ ▸ .refl _, fun _ => ?_,
    fun hlt hd => hs.table.placed.mem_chain_lt hlt hd, fun {f} _ => ?_, fun {p x} hx => ?_⟩
  · rw [hprogram]
    exact Nat.le_refl _
  · rw [hprogram]
    exact Nat.le_of_eq (s.program.size_updateFunction id u).symm
  · rw [hprogram]
    exact Program.chain_congr hs.table.placed.ranked hs.table.placed.ranked fun _ _ => rfl
  · rw [hprogram, s.program.functionAt_updateFunction f hid u]
    split
    · next h =>
      rw [h]
      exact hsame
    · exact ⟨rfl, rfl, rfl, rfl, rfl⟩
  · rw [State.implementorsOf, himpl]
    exact hx

variable {inits : List FieldInit} {locals : List LocalInst} {checked : Option Block} {f : FuncInst}
  {span : Span}

theorem functionRule_withBody {j : Judge} (hold : FunctionRule src s f)
    (hf : (judgeOf s f).Grows (judgeOf t (withBody span inits checked locals f)))
    (hj : j.Grows (judgeOf t (withBody span inits checked locals f)))
    (hinits : ∀ init ∈ inits, j.Passes init.value.nodes ∧ ∃ c, f.owner = some c ∧ j.InitRule c init)
    (hbody : ∀ b, checked = some b → j.Passes b.nodes ∧ j.ResultRule b)
    (hnone : checked = none → ∀ symbol, f.symbol = some symbol →
      (src.tree.functionAt symbol).decl.body = none) :
    FunctionRule src t (withBody span inits checked locals f) := by
  refine ⟨fun b hb => ?_, fun b symbol hb hsymbol hdecl => ?_, fun init hinit => ?_⟩
  · rw [← Option.some.inj hb]
    cases checked with
    | some b => exact hj.passes (hbody b rfl).1
    | none =>
      cases hf0 : f.body with
      | some b => exact hf.passes (hold.body b hf0)
      | none => exact .cons rfl trivial Judge.passes_nil
  · cases checked with
    | some b =>
      cases hb
      exact hj.resultRule (hbody b rfl).2
    | none => exact absurd (hnone rfl symbol hsymbol) hdecl
  · rcases hinits init hinit with ⟨hpasses, c, hc, hrule⟩
    exact ⟨hj.passes hpasses, c, hc, hj.initRule hrule⟩

theorem functionRange_withBody {j : Judge} (hold : FunctionRange src s f)
    (hf : (judgeOf s f).Grows (judgeOf t (withBody span inits checked locals f)))
    (hj : j.Grows (judgeOf t (withBody span inits checked locals f)))
    (hinits : ∀ init ∈ inits, j.Ranged src.tree init.value.nodes ∧
      ∃ c, f.owner = some c ∧ j.HasIndex c init.index)
    (hbody : ∀ b, checked = some b → j.Ranged src.tree b.nodes) :
    FunctionRange src t (withBody span inits checked locals f) := by
  refine ⟨fun b hb => ?_, fun init hinit => ?_⟩
  · rw [← Option.some.inj hb]
    cases checked with
    | some b => exact hj.ranged (hbody b rfl)
    | none =>
      cases hf0 : f.body with
      | some b => exact hf.ranged (hold.body b hf0)
      | none => exact ranged_empty src.tree span
  · rcases hinits init hinit with ⟨hranged, c, hc, hindex⟩
    exact ⟨hj.ranged hranged, c, hc, hj.hasIndex hindex⟩

theorem formed_withBody (hold : Formed t.program f.nodes)
    (hinits : ∀ init ∈ inits, Formed t.program init.value.nodes)
    (hbody : ∀ b, checked = some b → Formed t.program b.nodes) :
    Formed t.program (withBody span inits checked locals f).nodes := by
  refine FuncInst.forall_mem_nodes.mpr ⟨fun b hb => ?_, hinits⟩
  rw [← Option.some.inj hb]
  cases checked with
  | some b => exact hbody b rfl
  | none =>
    cases hf0 : f.body with
    | some b => exact (FuncInst.forall_mem_nodes.mp hold).1 b hf0
    | none => exact formed_empty span

theorem grows_withBody (hst : Extends s t) (hlocals : f.locals <+: locals) :
    (judgeOf s f).Grows (judgeOf t (withBody span inits checked locals f)) :=
  ⟨hst, hlocals, rfl, rfl⟩

/-- What is stored with a function may have more locals, if their types are in order. -/
theorem Orderly.withBody {id : FuncId} (hs : Orderly src closed {} s)
    (hid : id < s.program.functions.size) (hmore : (s.program.functionAt id).locals <+: locals)
    (hlocals : closed → ∀ l ∈ locals, l.ty.Within s.program) :
    Orderly src closed {}
      { s with program := s.program.updateFunction id (withBody span inits checked locals) } := by
  refine hs.updateFunction hid ⟨⟨rfl, rfl, rfl, rfl, rfl⟩, rfl, rfl, rfl, rfl⟩
    (.inr ⟨⟨rfl, rfl⟩, rfl, rfl⟩) fun hc => ?_
  have hwithin := (hs.typed hc).functions id
  refine ⟨hwithin.typeArgs, hwithin.receiver, fun param hparam => ?_, hlocals hc,
    hwithin.returnType⟩
  rcases hwithin.params param hparam with ⟨hty, hid⟩
  exact ⟨hty, Nat.lt_of_lt_of_le hid hmore.length_le⟩

/-- The functions stay judged where one of them is replaced by one that is. -/
theorem Judged.updateFunction {id : FuncId} {u : FuncInst → FuncInst} (h : Judged src closed s)
    (hid : id < s.program.functions.size) (hprogram : t.program = s.program.updateFunction id u)
    (hst : Extends s t) (hclean : t.Clean → s.Clean)
    (hrule : closed → t.Clean → FunctionRule src t (u (s.program.functionAt id)))
    (hrange : closed → FunctionRange src t (u (s.program.functionAt id)))
    (hform : closed → Formed t.program (u (s.program.functionAt id)).nodes) :
    Judged src closed t := by
  have hat (f : FuncId) : t.program.functionAt f =
      if f = id then u (s.program.functionAt id) else s.program.functionAt f := by
    rw [hprogram, Program.functionAt_updateFunction _ f hid]
  have hlt {f : FuncId} (hf : f < t.program.functions.size) : f < s.program.functions.size := by
    rwa [hprogram, Program.size_updateFunction] at hf
  refine ⟨fun hc ht f hf => ?_, fun hc f hf => ?_, fun hc f hf => ?_⟩ <;> rw [hat] <;> split
  · exact hrule hc ht
  · exact (h.sound hc (hclean ht) f (hlt hf)).later hst (.refl _) (.refl _)
  · exact hrange hc
  · exact (h.ranges hc f (hlt hf)).later hst (.refl _) (.refl _)
  · exact hform hc
  · exact formed_later (h.ranges hc f (hlt hf)) (h.forms hc f (hlt hf)) hst (.refl _) (.refl _)

/-- Bodies are checked where the state is in order. -/
def soundHost {request : ClassRequest} (hr : Serves src closed request) (hreg : src.Regular) :
    Host src fun _ => request where
  holds := Orderly src closed {}
  goes := Advances {}
  closed := closed
  strict := False
  live := False
  bound := src.tree.structures.size
  trans := .trans
  reports hs hst := hst.orderly hs
  takesBack {s t} _ ht hst := by
    obtain ⟨hback, hgoes⟩ := ht.withdraw s.errors.length (t.warnings.take s.warnings.length)
    exact ⟨hback, hst.trans hgoes, fun _ => hgoes⟩
  retains := False.elim
  proper := False.elim
  generics := False.elim
  regular _ := hreg
  orderly _ _ hs := hs
  advances _ _ _ hst := hst
  types subst e hs hsubst := ⟨fun hrun => by
    obtain ⟨ht, hst, hty, -⟩ := orderly_resolveType hr hs hsubst hrun
    exact ⟨ht, hst, hty, False.elim⟩, False.elim⟩
  typeLists subst es hs hsubst := ⟨fun hrun => by
    obtain ⟨ht, hst, htys, -⟩ := orderly_resolveTypes hr hs hsubst hrun
    exact ⟨ht, hst, htys⟩, False.elim⟩
  functions key span hs hkey hbare _ := ⟨fun hrun => by
    obtain ⟨ht, hst, hfound⟩ := orderly_requestFunction hr hs hkey (fun _ => .inl rfl) hbare hrun
    exact ⟨ht, hst, fun _ => hfound⟩, False.elim⟩

theorem orderly_checkBody {request : ClassRequest} (hr : Serves src closed request)
    (hreg : src.Regular) (hs : Orderly src closed {} s) (hjudged : Judged src closed s)
    (htask : TaskFits closed s.program task) (h : checkBody src request task s = some ((), t)) :
    Orderly src closed {} t ∧ s.Grows t ∧ Judged src closed t := by
  rw [checkBody] at h
  rcases bind_some h with ⟨_, _, hget, h⟩
  cases hget
  dsimp only at h
  rcases bind_some h with ⟨_, _, hdepth, h⟩
  cases hdepth
  rcases hs.setDepth task.env.depth with ⟨hs1, hst1⟩
  rcases bind_some h with ⟨⟨⟨inits, checked⟩, frame⟩, s2, h2, h⟩
  let w : Point (soundHost hr hreg) task.env (s.program.functionAt task.function).returnType :=
    { state := { s with depth := task.env.depth, deepest := max s.deepest task.env.depth }
      frame := Frame.ofParams (s.program.functionAt task.function).locals
      holds := hs1
      around := fun hc => htask.envFits hs hc
      fits := fun hc => Frame.fits_ofParams ((hs.typed hc).functions task.function).locals }
  obtain ⟨w2, rfl, rfl, hw, hinits, hbody, hresult⟩ :=
    (walks_checkFunction w _ (fun _ => htask.cls) _).keeps (i := 0) h2
  have hgood (b : Block) (hb : checked = some b) : Good w2 [b.ty] b.nodes fun _ => True := by
    subst hb
    exact Good.imp hbody fun _ => trivial
  have hadvances : Advances {} s w2.state := hst1.trans hw.goes
  have hs2 : Orderly src closed {} w2.state := w2.holds
  have hjudged2 := hjudged.advance hs hs2 hadvances
  rcases bind_some h with ⟨_, s3, hdepth, h⟩
  cases hdepth
  -- The function is the one that the body was taken for.
  have hid := Nat.lt_of_lt_of_le htask.lt hadvances.functions
  have halike := hadvances.alike htask.lt
  have hsigned := hadvances.signed htask.lt List.not_mem_nil
  have hmore : (w2.state.program.functionAt task.function).locals <+: w2.frame.locals :=
    hsigned.locals ▸ hw.locals
  have hprogram : t.program = w2.state.program.updateFunction task.function
      (withBody (s.program.functionAt task.function).span inits checked w2.frame.locals) := by
    cases h
    rfl
  have hclean (ht : t.Clean) : w2.state.Clean := by
    cases h
    exact ht
  have hextends : Extends w2.state t := by
    refine extends_updateFunction hs2 hid ⟨rfl, rfl, rfl, rfl, rfl⟩ hprogram ?_
    cases h
    rfl
  have hnew : w2.judge.Grows
      (judgeOf t (withBody (s.program.functionAt task.function).span inits checked w2.frame.locals
        (w2.state.program.functionAt task.function))) := by
    refine ⟨hextends, List.prefix_rfl, ?_, hsigned.returnType⟩
    rw [Point.judge, htask.selfType]
    simp only [judgeOf, withBody, halike.kind, halike.owner, halike.receiver]
  have hold : (judgeOf w2.state (w2.state.program.functionAt task.function)).Grows
      (judgeOf t (withBody (s.program.functionAt task.function).span inits checked w2.frame.locals
        (w2.state.program.functionAt task.function))) := grows_withBody hextends hmore
  rw [← halike.owner] at hinits
  refine ⟨?_, ?_, hjudged2.updateFunction hid hprogram hextends hclean (fun hc ht => ?_)
    (fun hc => ?_) fun hc => ?_⟩
  · cases h
    exact (hs2.setDepth s.depth).1.withBody hid hmore fun hc => (w2.fits hc).locals
  · cases h
    exact hadvances.grows.trans (.of_classes rfl rfl)
  · refine functionRule_withBody (hjudged2.sound hc (hclean ht) _ hid) hold hnew
      (fun init hinit => ?_)
      (fun b hb => ⟨(hgood b hb).passes hc (hclean ht), hresult b hb hc (hclean ht)⟩)
      fun hchecked symbol hsymbol => ?_
    · rcases hinits init hinit with ⟨c, howner, hinit⟩
      exact ⟨hinit.value.passes hc (hclean ht), c, howner, hinit.rule hc (hclean ht)⟩
    · subst hchecked
      have hwritten := hbody.eq_none
      rwa [← halike.symbol, hsymbol] at hwritten
  · refine functionRange_withBody (hjudged2.ranges hc _ hid) hold hnew (fun init hinit => ?_)
      fun b hb => (hgood b hb).ranged hc
    rcases hinits init hinit with ⟨c, howner, hinit⟩
    exact ⟨hinit.value.ranged hc, c, howner, hinit.index hc⟩
  · refine formed_withBody (formed_later (hjudged2.ranges hc _ hid) (hjudged2.forms hc _ hid)
      hextends (.refl _) (.refl _)) (fun init hinit => ?_) fun b hb => ?_
    · rcases hinits init hinit with ⟨c, -, hinit⟩
      exact hnew.formed (hinit.value.ranged hc) (hinit.value.formed hc)
    · exact hnew.formed ((hgood b hb).ranged hc) ((hgood b hb).formed hc)

end

end ObjectLang.Check
