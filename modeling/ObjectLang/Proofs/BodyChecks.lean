import ObjectLang.Proofs.CallWalk

/-! # Expressions and statements

Each construct of a body, given that its parts obey the rules.
-/

namespace ObjectLang.Check

open Source Syntax Scope Names Diagnostic Checked

variable {src : Sources} {request : Nat → ClassRequest} {h : Host src request} {env : BodyEnv}
  {returnType : Ty} {w : Point h env returnType}

/-! ### Expressions without parts -/

theorem isNumeric_literalType (expected : Option Ty) : (literalType expected).isNumeric = true := by
  rw [literalType]
  cases h : expected.filter (·.isNumeric) with
  | none => rfl
  | some ty => exact (Option.filter_eq_some_iff.mp h).2

theorem Ty.within_of_isNumeric {p : Program} {ty : Ty} (h : ty.isNumeric = true) : ty.Within p := by
  rintro c rfl
  cases h

/-- Reading a field is good if its object is and the class of the object has the field. -/
theorem good_field {c : ClassId} {name : String} {field : FieldInst} {object : Expr} {span : Span}
    {R S : Bindings → Expr → Prop} (hobject : GoodBy R object w)
    (hty : h.closed → object.ty = .object c) (hc : h.closed → c < w.state.program.classes.size)
    (hfind : w.state.program.findField c name = some field)
    (hR : ∀ {Γ i}, R Γ object → S Γ (.field i object c field.index)) :
    GoodBy S (.field ⟨field.ty, span⟩ object c field.index) w := by
  have hmem := List.mem_of_find?_eq_some hfind
  have hfield (hclosed : h.closed) : w.judge.HasField c field.index field.ty := by
    obtain ⟨i, hi⟩ := List.getElem?_of_mem hmem
    have hindex := ((w.orderly hclosed).table.laid (hc hclosed)).indexed hi
    exact ⟨hc hclosed, field, hindex ▸ hi, rfl⟩
  exact good_expr (by rw [Expr.nodes]) hobject
    (fun hclosed => ((w.typed hclosed).classes c).fields field hmem)
    (fun hclosed => (hfield hclosed).hasIndex) trivial
    (fun hclosed _ => ⟨hty hclosed, hfield hclosed⟩) (fun _ _ => trivial) hR

/-- A name that is bound stands for a local of the frame. -/
theorem lookup_local (w : Point h env returnType) (hc : h.closed) {name : String} {id : LocalId}
    (hlookup : w.frame.lookup name = some id) :
    ∃ l, w.frame.locals[id]? = some l ∧ w.frame.typeOf id = l.ty ∧ l ∈ w.frame.locals := by
  rw [← Frame.lookup_bindings] at hlookup
  obtain ⟨names, hnames, hid⟩ := List.exists_of_findSome?_eq_some hlookup
  have hlt := (w.fits hc).bound names hnames name id hid
  have hl := List.getElem?_eq_getElem hlt
  refine ⟨w.frame.locals[id], hl, ?_, List.getElem_mem hlt⟩
  rw [Frame.typeOf, hl]

/-- A name is a local or a field of the receiver, or it is reported. -/
theorem walks_checkIdentifier (w : Point h env returnType) (mark : Mark) (name : String) :
    Walks w (fun i => checkIdentifier (w.ctx i) mark name) (GoodExpr (.ident mark name)) := by
  simp only [checkIdentifier, w.selfExpr_ctx]
  refine .frame ?_
  have hknown := w.frame.lookup_bindings name
  cases hlookup : w.frame.lookup name with
  | some id =>
    refine .pure (good_leaf rfl (fun hc => ?_) (fun hc => ?_) trivial (fun hc => ?_) trivial ?_)
    · obtain ⟨l, -, hty, hmem⟩ := lookup_local w hc hlookup
      exact hty ▸ (w.fits hc).locals l hmem
    · obtain ⟨l, hl, -⟩ := lookup_local w hc hlookup
      exact (List.getElem?_eq_some_iff.mp hl).1
    · obtain ⟨l, hl, hty, -⟩ := lookup_local w hc hlookup
      exact ⟨l, hl, hty.symm⟩
    · dsimp only
      rw [Agrees, hknown, hlookup]
      exact ⟨_, rfl⟩
  | none =>
    have houter {e : Expr} (he : Outer e) (w' : Point h env returnType) (hw : w.Stays w') :
        Agrees w'.frame.bindings (.ident mark name) e := by
      rw [Agrees, hw.bindings, hknown, hlookup]
      exact he
    refine .program ?_
    split
    · next c field object hfield hself =>
      obtain ⟨c', hcls, hfound⟩ := Option.bind_eq_some_iff.mp hfield
      obtain ⟨field', hfind, heq⟩ := Option.map_eq_some_iff.mp hfound
      cases heq
      obtain ⟨⟨i, rfl⟩, hobject, hty⟩ := good_selfExpr w hself
      exact .pure ((good_field (S := fun _ => Outer) hobject
        (fun hc => ((w.around hc).cls c hcls).2 _ hty)
        (fun hc => ((w.around hc).cls c hcls).1) hfind fun _ => trivial).imp fun he =>
        houter he w (.refl w))
    · exact (Walks.refused (R := fun _ => Outer) (.report _) fun _ => trivial).imp
          fun _ w1 hw1 hg =>
        hg.imp fun he => houter he w1 hw1

theorem walks_checkSelf (w : Point h env returnType) (mark : Mark) :
    Walks w (fun i => checkSelf (w.ctx i) mark) (GoodExpr (.self mark)) := by
  simp only [checkSelf, w.selfExpr_ctx]
  cases hself : selfExpr (w.ctx 0) mark.node mark.span with
  | none => exact .refused (.report _) fun _ => trivial
  | some object =>
    obtain ⟨⟨i, rfl⟩, hobject, -⟩ := good_selfExpr w hself
    exact .pure (hobject.imp fun _ => trivial)

theorem walks_checkVariant (w : Point h env returnType) (mark : Mark) (type : TypeExpr Mark)
    (name : String) :
    Walks w (fun i => checkVariant (w.ctx i) mark type name)
    (GoodExpr (.variant mark type name)) := by
  refine .bind (.type type) fun ty w1 _ _ => ?_
  cases ty with
  | enum named =>
    dsimp only
    cases hk : (src.tree.structureAt named).decl.enum?.bind fun e => e.variants.idxOf? name with
    | none => exact .refused (.report _) fun _ => trivial
    | some k =>
      obtain ⟨decl, hdecl, hindex⟩ := Option.bind_eq_some_iff.mp hk
      obtain ⟨hlt, -⟩ := List.idxOf?_eq_some_iff.mp hindex
      exact .pure (good_leaf rfl (fun _ _ hc => by cases hc) (fun _ => ⟨decl, hdecl, hlt⟩) trivial
        (fun _ => rfl) trivial trivial)
  | unknown | primitive _ | object _ | protocol _ =>
    exact .refused (.reportFound src _ _ _) fun _ => trivial

/-! ### Operators -/

theorem Quiet.expectOperands (ctx : BodyContext) (op : BinaryOp) (left right : Expr) (span : Span) :
    Quiet (expectOperands ctx op left right span) :=
  Quiet.get.bind fun _ => .ite ((Quiet.display _ _).bind fun _ => (Quiet.display _ _).bind fun _ =>
    .report span) (.pure _)

/-- The check of operands allows no more than the rule does. -/
theorem takesOperands_of_operandsFit {j : Judge} {op : BinaryOp} {left right : Ty}
    (hleft : left.Within j.state.program) (hright : right.Within j.state.program)
    (h : operandsFit j.state op left right = true) : j.TakesOperands op left right := by
  rw [operandsFit] at h
  rw [Judge.TakesOperands]
  split at h
  · next hop =>
    rw [if_pos hop]
    simp only [Bool.or_eq_true, Bool.and_eq_true, beq_iff_eq] at h
    rcases h with ⟨⟨hadd, hl⟩, hr⟩ | ⟨hnum, heq⟩
    · exact .inr ⟨hadd, hl, hr⟩
    · exact .inl ⟨heq, hnum⟩
  · next hop =>
    rw [if_neg hop]
    split at h
    · next hop =>
      rw [if_pos hop]
      simp only [Bool.and_eq_true, beq_iff_eq] at h
      exact ⟨h.2, h.1⟩
    · next hop =>
      rw [if_neg hop]
      split at h
      · next hop =>
        rw [if_pos hop]
        simp only [Bool.and_eq_true, Bool.or_eq_true, beq_iff_eq] at h
        rcases h.1 with (heq | hfit) | hfit
        · subst heq
          exact .inl ⟨hright, by simp [State.isAssignable]⟩
        · exact .inr ⟨hleft, hfit⟩
        · exact .inl ⟨hright, hfit⟩
      · next hop =>
        rw [if_neg hop]
        simpa using h

/-- If nothing is reported about known operands, they fit. -/
theorem expectOperands_clean {ctx : BodyContext} {s t : State} {op : BinaryOp} {left right : Expr}
    {span : Span} (h : expectOperands ctx op left right span s = some ((), t)) (ht : t.Clean)
    (hknown : isKnown left right = true) : operandsFit s op left.ty right.ty = true := by
  by_contra hfit
  rw [expectOperands] at h
  rcases bind_some h with ⟨_, _, hget, h⟩
  cases hget
  rw [if_pos (by simp [hknown, hfit])] at h
  rcases bind_some h with ⟨_, _, hget, h⟩
  cases hget
  rcases bind_some h with ⟨_, _, hget, h⟩
  cases hget
  cases h
  exact Reports.not_clean (.refl _) ht

theorem walks_finishBinary (mark : Mark) (op : BinaryOp) {x y : Syntax.Expr Mark}
    {left right : Expr} (hleft : GoodExpr x left w) (hright : GoodExpr y right w) :
    Walks w (fun i => finishBinary (w.ctx i) op left right mark.span)
    (GoodExpr (.binary mark op x y)) := by
  have hquiet := Quiet.expectOperands (w.ctx 0) op left right mark.span
  refine .bind (.quiet hquiet) fun _ w1 hw1 hrun => .pure ?_
  have hleft1 := hleft.later hw1
  have hright1 := hright.later hw1
  refine good_expr (by rw [Expr.nodes]) (hleft1.append hright1) (fun hc => ?_) (fun _ => trivial)
    trivial (fun hc hclean hl hr => ?_) (fun _ _ => trivial) fun hknown => hknown
  · change Ty.Within _ (if op.isArithmetic then (if isKnown left right then left.ty else .unknown)
      else .bool)
    split
    · split
      · exact hleft1.ty_within hc
      · exact Ty.within_unknown
    · exact Ty.within_primitive _
  · have hknown : isKnown left right = true := by
      simp [isKnown, Ty.isUnknown, hl, hr]
    refine ⟨takesOperands_of_operandsFit (hleft1.ty_within hc) (hright1.ty_within hc) ?_, by
      simp [hknown]⟩
    have hfit := expectOperands_clean hrun hclean hknown
    obtain ⟨_, _, hstate, -⟩ := hquiet.reports hrun
    rw [Point.judge, hstate]
    exact hfit

theorem isCondition_of_isAssignable {s : State} {e : Expr} (h : s.isAssignable e.ty .bool = true) :
    Judge.IsCondition e := by
  intro hknown
  simp only [State.isAssignable, Bool.or_eq_true, beq_iff_eq, Ty.isUnknown] at h
  rcases h with ((h | h) | h) | h
  · exact h
  · exact absurd h hknown
  · cases h
  · split at h
    · next heq => cases heq
    · next heq => cases heq
    · cases h

theorem walks_condition (e : Expr) : Walks w (fun _ =>
    (liftM (expectAssignable src e.ty .bool e.span) : BodyCheck PUnit)) fun _ w' =>
      w'.state.Clean → Judge.IsCondition e :=
  (Walks.quiet (.expectAssignable src e.ty .bool e.span)).imp fun _ _ _ hrun hclean =>
    isCondition_of_isAssignable (expectAssignable_clean hrun hclean)

theorem walks_finishUnary (mark : Mark) (op : UnaryOp) {x : Syntax.Expr Mark} {operand : Expr}
    (hoperand : GoodExpr x operand w) :
    Walks w (fun i => finishUnary (w.ctx i) op operand mark.span)
    (GoodExpr (.unary mark op x)) := by
  cases op with
  | neg =>
    dsimp only [finishUnary]
    refine .when (.reportFound src _ operand.ty operand.span) fun w1 hw1 hrun => .pure ?_
    have hoperand1 := hoperand.later hw1
    refine good_expr (by rw [Expr.nodes]) hoperand1 (fun hc => hoperand1.ty_within hc)
      (fun _ => trivial)
      trivial (fun _ hclean hknown => ⟨?_, rfl⟩) (fun _ _ => trivial) fun hknown => hknown
    by_contra hnum
    rw [if_pos (by simpa using hnum)] at hrun
    exact hknown (reportFound_clean hrun hclean)
  | not =>
    refine .bind (walks_condition operand) fun _ w1 hw1 hbool => .pure ?_
    exact good_expr (by rw [Expr.nodes]) (hoperand.later hw1) (fun _ => Ty.within_primitive _)
      (fun _ => trivial)
      trivial (fun _ hclean => ⟨hbool hclean, rfl⟩) (fun _ _ => trivial) fun hknown => hknown

/-! ### Objects -/

theorem walks_finishField (mark : Mark) {x : Syntax.Expr Mark} {object : Expr}
    (hobject : GoodExpr x object w) (name : String) :
    Walks w (fun i => finishField (w.ctx i) object name mark.span)
    (GoodExpr (.field mark x name)) := by
  simp only [finishField]
  cases hty : object.ty with
  | object c =>
    refine .program ?_
    cases hfind : w.state.program.findField c name with
    | none => exact .refused (.report _) fun _ => trivial
    | some field =>
      exact .pure (good_field hobject (fun _ => hty) (fun hc => hobject.ty_within hc c hty) hfind
        fun h => h)
  | unknown => exact .pure (good_errorExpr w _ fun _ => trivial)
  | primitive _ | protocol _ | enum _ => exact .refused (.reportFound src _ _ _) fun _ => trivial

/-- A class that has been built has an initializer unless something was reported. -/
theorem walks_checkNew (w : Point h env returnType) (mark : Mark) (type : TypeExpr Mark) {n : Nat}
    {xs : List (Syntax.Expr Mark)} {args : Nat → Arguments}
    (hargs : WalksArguments h env returnType (agreesAll · xs) n args) :
    Walks w (fun i => checkNew (w.ctx i) mark type (args i)) (GoodExpr (.new mark type xs)) := by
  refine .bind (.type type) fun ty w1 _ hty => ?_
  cases ty with
  | object c =>
    refine .program (.bind (walks_checkArguments hargs w1 _ _) fun es w2 hw2 hes => .pure ?_)
    refine good_expr (by rw [Expr.nodes]) hes.1 (fun hc => (hty hc).mono (hw2.classes hc))
      (fun hc => ⟨?_, fun f hf => ?_⟩) trivial (fun hc hclean => ?_) (fun _ _ => trivial)
      fun hknown => hknown
    · exact Nat.lt_of_lt_of_le (hty hc c rfl) (hw2.classes hc)
    · exact Nat.lt_of_lt_of_le ((w1.orderly hc).catalogue.inits hf).1 (hw2.advances hc).functions
    · have hlt := hty hc c rfl
      have hbuilt := (w1.orderly hc).built hc hlt
      obtain ⟨f, hf⟩ := Option.ne_none_iff_exists'.mp
        ((w1.orderly hc).initialized (hw2.clean hc hclean) c hbuilt)
      have hflt := ((w1.orderly hc).catalogue.inits hf).1
      have hfits := hes.2 hc hclean
      rw [hf] at hfits
      refine ⟨rfl, Nat.lt_of_lt_of_le hlt (hw2.classes hc), f, hf, ?_,
        Nat.lt_of_lt_of_le hflt (hw2.advances hc).functions, ?_⟩
      · dsimp only [Point.judge]
        rw [((hw2.advances hc).kept (.inl hbuilt)).1]
        exact hf
      · dsimp only [Point.judge]
        rw [FuncInst.paramTypes, ((hw2.advances hc).signed hflt List.not_mem_nil).params]
        exact hfits
  | unknown | primitive _ | protocol _ | enum _ =>
    exact walks_reported hargs w1 (.reportFound src _ _ _) _ fun _ => trivial

/-! ### Conditionals -/

theorem State.isAssignable_self (s : State) (ty : Ty) : s.isAssignable ty ty = true := by
  simp [State.isAssignable]

/-- The type of a conditional is one that both of its arms fit. -/
theorem walks_condType {thenBranch : Block} {elseBranch : Option Block}
    (hthen : h.closed → thenBranch.ty.Within w.state.program)
    (helse : h.closed → ∀ b ∈ elseBranch, b.ty.Within w.state.program) :
    Walks w (fun i => condType (w.ctx i) thenBranch elseBranch) fun ty w' =>
      (h.closed → ty.Within w'.state.program) ∧ (elseBranch = none → ty = .void) ∧
      (h.closed → w'.state.Clean → ∀ b ∈ elseBranch,
        (thenBranch.diverges = false → w'.judge.Accepts ty thenBranch.ty) ∧
          (b.diverges = false → w'.judge.Accepts ty b.ty)) := by
  cases elseBranch with
  | none => exact .pure ⟨fun _ => Ty.within_primitive _, fun _ => rfl, by simp⟩
  | some elseBranch =>
    simp only [Option.mem_some_iff, forall_eq', reduceCtorEq, false_imp_iff, true_and] at helse ⊢
    refine .state (.ite (fun hd => .pure ?_) fun _ => .ite (fun hd => .pure ?_) fun _ =>
      .ite (fun hfit => .pure ?_) fun _ => .ite (fun hfit => .pure ?_) fun _ =>
      .bind (.quiet (.reportMismatch src _ _ _)) fun _ w1 hw1 hrun => .pure ?_)
    · exact ⟨helse, fun hc _ => ⟨fun hd' => by simp [hd] at hd',
        fun _ => ⟨helse hc, w.state.isAssignable_self _⟩⟩⟩
    · exact ⟨hthen, fun hc _ => ⟨fun _ => ⟨hthen hc, w.state.isAssignable_self _⟩, fun hd' => by
        simp [hd] at hd'⟩⟩
    · exact ⟨hthen, fun hc _ => ⟨fun _ => ⟨hthen hc, w.state.isAssignable_self _⟩,
        fun _ => ⟨helse hc, hfit⟩⟩⟩
    · exact ⟨helse, fun hc _ => ⟨fun _ => ⟨hthen hc, hfit⟩,
        fun _ => ⟨helse hc, w.state.isAssignable_self _⟩⟩⟩
    · have hthen1 (hc : h.closed) := (hthen hc).mono (hw1.classes hc)
      refine ⟨hthen1, fun hc hclean => ⟨fun _ => ⟨hthen1 hc, State.isAssignable_self _ _⟩, fun _ =>
        ⟨(helse hc).mono (hw1.classes hc),
          isAssignable_of_unknown (reportMismatch_clean hrun hclean).symm⟩⟩⟩

/-! ### Statements -/

/-- A local has its declared type, which takes the initial value, or the type of that value. -/
theorem walks_bindingType (mark : Mark) (name : String) {declared : Option Ty} {init : Option Expr}
    (hdeclared : h.closed → ∀ ty ∈ declared, ty.Within w.state.program)
    (hinit : h.closed → ∀ e ∈ init, e.ty.Within w.state.program) :
    Walks w (fun i => bindingType (w.ctx i) mark name declared init) fun ty w' =>
      (h.closed → ty.Within w'.state.program) ∧
      (h.closed → w'.state.Clean → ∀ e ∈ init, w'.judge.Accepts ty e.ty) := by
  cases declared with
  | some ty =>
    cases init with
    | none => exact .pure ⟨fun hc => hdeclared hc ty rfl, by simp⟩
    | some e =>
      refine .bind (.quiet (.expectAssignable src e.ty ty e.span)) fun _ w1 hw1 hrun => .pure ?_
      refine ⟨fun hc => (hdeclared hc ty rfl).mono (hw1.classes hc), fun hc hclean => ?_⟩
      rintro _ ⟨⟩
      exact accepts_of_expected hrun ((hinit hc e rfl).mono (hw1.classes hc)) hclean
  | none =>
    cases init with
    | none =>
      refine .bind (.quiet (.report _)) fun _ w1 _ _ => .pure ⟨fun _ => Ty.within_unknown, by simp⟩
    | some e =>
      refine .ite (fun _ => .bind (.quiet (.reportFound src _ _ _)) fun _ w1 hw1 _ => .pure ?_)
        fun _ => .pure ?_
      · refine ⟨fun _ => Ty.within_unknown, fun hc _ => ?_⟩
        rintro _ ⟨⟩
        exact ⟨(hinit hc e rfl).mono (hw1.classes hc), isAssignable_of_unknown (.inr rfl)⟩
      · refine ⟨fun hc => hinit hc e rfl, fun hc _ => ?_⟩
        rintro _ ⟨⟩
        exact ⟨hinit hc e rfl, State.isAssignable_self _ _⟩

theorem Frame.Fits.declare {p : Program} {frame : Frame} {l : LocalInst} (hframe : frame.Fits p)
    (hl : l.ty.Within p) : (frame.declare l).2.Fits p := by
  have hlength : (frame.declare l).2.locals.length = frame.locals.length + 1 := by
    simp [Frame.declare]
  refine ⟨fun l' hl' => ?_, fun names hnames name id hid => ?_⟩
  · rcases List.mem_append.mp hl' with hl' | hl'
    · exact hframe.locals l' hl'
    · rw [List.mem_singleton.mp hl']
      exact hl
  · rw [Frame.bindings_declare] at hnames
    rw [hlength]
    cases hbindings : frame.bindings with
    | nil =>
      rw [hbindings] at hnames
      cases hnames
    | cons inner outer =>
      have hbound (names) (hnames : names ∈ inner :: outer) :=
        hframe.bound names (hbindings ▸ hnames) name id
      rw [hbindings, Bindings.bind, List.modifyHead_cons] at hnames
      rcases List.mem_cons.mp hnames with rfl | hnames
      · rw [Function.update_apply] at hid
        split at hid
        · exact Option.some.inj hid ▸ Nat.lt_succ_self _
        · exact Nat.lt_succ_of_lt (hbound inner List.mem_cons_self hid)
      · exact Nat.lt_succ_of_lt (hbound names (List.mem_cons_of_mem inner hnames) hid)

theorem Quiet.reportClash (name : String) (span : Span) (clash : Frame.Clash) :
    Quiet (reportClash name span clash) := by
  cases clash with
  | none => exact .pure _
  | shadows => exact .warn _ span
  | «repeats» => exact .report span

/-- The name of the new local is bound in the innermost block. -/
theorem steps_declareLocal (w : Point h env returnType) (mark : Mark) (name : String) {ty : Ty}
    (hty : h.closed → ty.Within w.state.program) :
    Steps w (fun _ => declareLocal mark name ty) fun id w' =>
      w.Declares w' (w.frame.bindings.bind name id) ∧
          w'.frame.locals[id]? = some ⟨name, ty, mark.span⟩ := by
  let w1 : Point h env returnType :=
    { state := w.state
      frame := (w.frame.declare ⟨name, ty, mark.span⟩).2
      holds := w.holds
      around := w.around
      fits := fun hc => (w.fits hc).declare (hty hc) }
  have hclash : Walks w1 (fun _ => do
      reportClash name mark.span (w.frame.clash name)
      return (w.frame.declare ⟨name, ty, mark.span⟩).1) fun id _ => id = w.frame.locals.length :=
    .bind (.quiet (.reportClash name mark.span _)) fun _ _ _ _ => .pure rfl
  refine ⟨fun hrun => ?_, fun hl => hclash.ends hl⟩
  obtain ⟨w2, hs, hframe, hw2, rfl⟩ := hclash.keeps (i := 0) hrun
  have htail : w1.frame.blocks.tail = w.frame.blocks.tail := by
    dsimp only [w1, Frame.declare]
    cases w.frame.blocks <;> rfl
  refine ⟨w2, hs, hframe, ⟨⟨hw2.goes, (List.prefix_append _ _).trans hw2.locals⟩, ?_, ?_⟩, ?_⟩
  · rw [hw2.blocks, htail]
  · rw [hw2.bindings]
    exact w.frame.bindings_declare _
  · obtain ⟨rest, hrest⟩ := hw2.locals
    rw [← hrest]
    simp [w1, Frame.declare]

/-- What is assigned to is the local or the field that the target turned out to be. -/
theorem walks_assignTo (w : Point h env returnType) (place : Bool) (span : Span)
    (value target : Expr) :
    Walks w (fun _ => assignTo place span value target) fun stmt _ =>
      stmt = .expr value ∨ (∃ i id, target = .var i id ∧ stmt = .setVar id value) ∨
        ∃ i object c index, target = .field i object c index ∧
        stmt = .setField object c index value := by
  have hrefuse : Walks w (fun _ => refuseAssign span value) fun stmt _ =>
      stmt = .expr value ∨ (∃ i id, target = .var i id ∧ stmt = .setVar id value) ∨
        ∃ i object c index, target = .field i object c index ∧
        stmt = .setField object c index value :=
    .bind (.quiet (.report span)) fun _ _ _ _ => .pure (.inl rfl)
  cases target with
  | var i id => exact .ite (fun _ => .pure (.inr (.inl ⟨i, id, rfl, rfl⟩))) fun _ => hrefuse
  | field i object c index =>
    exact .ite (fun _ => .pure (.inr (.inr ⟨i, object, c, index, rfl, rfl⟩))) fun _ => hrefuse
  | error i => exact .pure (.inl rfl)
  | _ => exact hrefuse

theorem walks_finishAssign (mark : Mark) (place : Bool) (span : Span) {x y : Syntax.Expr Mark}
    {target value : Expr} (htarget : GoodExpr x target w) (hvalue : GoodExpr y value w) :
    Walks w (fun i => finishAssign (w.ctx i) place span target value)
    (GoodStmt (.assign mark x y)) := by
  refine .bind (walks_assignTo w place span value target) fun stmt w1 hw1 hshape =>
    .bind (.quiet (.expectAssignable src value.ty target.ty value.span)) fun _ w2 hw2 hrun =>
      .pure ?_
  have hw := hw1.trans hw2
  have htarget2 := htarget.later hw
  have hvalue2 := hvalue.later hw
  have haccepts (hc : h.closed) (hclean : w2.state.Clean) : w2.judge.Accepts target.ty value.ty :=
    accepts_of_expected hrun (hvalue2.ty_within hc) hclean
  rcases hshape with rfl | ⟨i, id, rfl, rfl⟩ | ⟨i, object, c, index, rfl, rfl⟩
  · exact good_stmt (by rw [Stmt.nodes]) hvalue2 (fun _ => trivial) (fun _ _ => trivial)
      fun hknown => hknown
  · refine good_stmt (by rw [Stmt.nodes]) hvalue2
      (fun hc => (htarget2.ranged hc _ List.mem_cons_self).2) (fun hc hclean => ?_)
      fun hknown => ⟨⟨i, htarget2.known⟩, hknown⟩
    obtain ⟨l, hl, hty⟩ := (htarget2.passes hc hclean _ List.mem_cons_self).1
    exact ⟨l, hl, hty ▸ haccepts hc hclean⟩
  · simp only [Expr.nodes] at htarget2
    refine good_stmt (by rw [Stmt.nodes]) (htarget2.tail.append hvalue2)
      (fun hc => (htarget2.ranged hc _ List.mem_cons_self).2) (fun hc hclean => ?_)
      fun hknown => ⟨⟨i, hknown.1⟩, hknown.2⟩
    obtain ⟨hobject, hfield⟩ := (htarget2.passes hc hclean _ List.mem_cons_self).1
    exact ⟨hobject, i.ty, hfield, haccepts hc hclean⟩

/-- A returned value is one for the type that the function returns. -/
theorem walks_finishReturn (mark : Mark) {x : Option (Syntax.Expr Mark)} {value : Option Expr}
    (hvalue : GoodOption x value w) :
    Walks w (fun i => finishReturn (w.ctx i) mark value) (GoodStmt (.ret mark x)) := by
  cases value with
  | none =>
    simp only [finishReturn]
    refine .when (.reportMismatch src returnType .void mark.span) fun w1 hw1 hrun => .pure ?_
    refine good_stmt (by rw [Stmt.nodes]) (hvalue.later hw1) (fun _ => trivial)
      (fun _ hclean hknown => ?_) fun hknown => hknown
    by_contra hvoid
    change ¬returnType = .void at hvoid
    rw [if_pos (by simpa [Ty.isVoid] using hvoid)] at hrun
    rcases reportMismatch_clean hrun hclean with hunknown | hunknown
    · exact hknown hunknown
    · cases hunknown
  | some value =>
    simp only [finishReturn]
    refine .ite (fun _ => .bind (.quiet (.reportMismatch src _ _ _)) fun _ w1 hw1 hrun => .pure ?_)
        fun _ =>
      .bind (.quiet (.expectAssignable src _ _ _)) fun _ w1 hw1 hrun => .pure ?_
    · refine good_stmt (by rw [Stmt.nodes]) (hvalue.later hw1) (fun _ => trivial) (fun hc hclean =>
        ⟨(hvalue.later hw1).ty_within hc, ?_⟩) fun hknown => hknown
      rcases reportMismatch_clean hrun hclean with hunknown | hunknown
      · cases hunknown
      · exact isAssignable_of_unknown (.inl hunknown)
    · exact good_stmt (by rw [Stmt.nodes]) (hvalue.later hw1) (fun _ => trivial) (fun hc hclean =>
        accepts_of_expected hrun ((hvalue.later hw1).ty_within hc) hclean) fun hknown => hknown

theorem walks_warnUnreachable (w : Point h env returnType) (diverges warned : Bool) (span : Span) :
    Walks w (fun _ => warnUnreachable diverges warned span) fun _ _ => True :=
  .ite (fun _ => .bind (.quiet (.warn _ span)) fun _ _ _ _ => .pure trivial) fun _ => .pure trivial

theorem walks_warnTail (w : Point h env returnType) (diverges warned : Bool)
    (tail : Option (Syntax.Expr Mark)) :
    Walks w (fun _ => warnTail diverges warned tail) fun _ _ => True := by
  cases tail with
  | none => exact .pure trivial
  | some e => exact .bind (walks_warnUnreachable w diverges warned _) fun _ _ _ _ => .pure trivial

theorem walks_resolveClause (w : Point h env returnType) (clause : Option (TypeExpr Mark)) :
    Walks w (fun i => resolveClause (w.ctx i) clause) fun r w' =>
      h.closed → ∀ ty ∈ r, ty.Within w'.state.program := by
  cases clause with
  | none => exact .pure (by simp)
  | some t => exact .bind (.type t) fun _ _ _ hty => .pure (by simpa using hty)

end ObjectLang.Check
