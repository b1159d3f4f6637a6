import ObjectLang.Proofs.BodyChecks

/-! # Bodies

By induction on what was written: every expression, statement and block that a check yields names
what is there, its names stand for what they should, and it obeys the rules as long as nothing was
reported.
-/

namespace ObjectLang.Check

open Source Syntax Scope Names Diagnostic Checked

variable {src : Sources} {request : Nat → ClassRequest} {h : Host src request} {env : BodyEnv}
  {returnType : Ty} {w w' : Point h env returnType}

/-! ### Blocks -/

namespace Point

def openBlock (w : Point h env returnType) : Point h env returnType where
  state := w.state
  frame := w.frame.openBlock
  holds := w.holds
  around := w.around
  fits hc := by
    refine ⟨(w.fits hc).locals, fun names hnames name id hid => ?_⟩
    rw [Frame.bindings_openBlock] at hnames
    rcases List.mem_cons.mp hnames with rfl | hnames
    · cases hid
    · exact (w.fits hc).bound names hnames name id hid

def closeBlock (w : Point h env returnType) : Point h env returnType where
  state := w.state
  frame := w.frame.closeBlock
  holds := w.holds
  around := w.around
  fits hc := by
    refine ⟨(w.fits hc).locals, fun names hnames => (w.fits hc).bound names ?_⟩
    rw [Frame.bindings, Frame.closeBlock, List.map_tail] at hnames
    exact List.mem_of_mem_tail hnames

theorem Stays.declares (hw : w.Stays w') : w.Declares w' w.frame.bindings :=
  ⟨hw.toGoes, by rw [hw.blocks], hw.bindings⟩

/-- After a block the names stand for what they stood for before it. -/
theorem Declares.stays {Γ : Bindings} (hw : w.openBlock.Declares w' Γ) : w.Stays w'.closeBlock :=
  ⟨⟨hw.goes, hw.locals⟩, hw.tail⟩

theorem Declares.trans {w'' : Point h env returnType} {Γ Γ' : Bindings} (hw : w.Declares w' Γ)
    (hw' : w'.Declares w'' Γ') : w.Declares w'' Γ' :=
  ⟨hw.toGoes.trans hw'.toGoes, hw'.tail.trans hw.tail, hw'.bindings⟩

end Point

theorem good_block {b : Block} {nodes : List Node} {tys : List Ty} {φ ψ : Bindings → Prop}
    (hnodes : b.nodes = .block b :: nodes) (hparts : Good w tys nodes φ)
    (hwithin : h.closed → b.ty.Within w.state.program) (hform : b.Formed)
    (hψ : φ w.frame.bindings → ψ w.frame.bindings) : Good w [b.ty] b.nodes ψ := by
  rw [hnodes]
  refine ⟨fun hc ty hty => ?_, fun hc => .cons (hwithin hc) (hparts.ranged hc),
    fun hc => formed_cons.mpr ⟨hform, hparts.formed hc⟩,
    fun hc hs => .cons (Judge.blockRule_of_formed hform) trivial (hparts.passes hc hs),
    hψ hparts.known⟩
  rw [List.mem_singleton.mp hty]
  exact hwithin hc

/-- A statement as it is found after what stands before it. -/
abbrev FoundStmt (w : Point h env returnType) (x : Syntax.Stmt Mark) (stmt : Stmt)
    (w' : Point h env returnType) : Prop :=
  w.Declares w' (w.frame.bindings.next x stmt) ∧
    Good w' [] stmt.nodes fun _ => agreesStmt w.frame.bindings x stmt

/-- A statement that binds no name. -/
theorem Walks.found {x : Syntax.Stmt Mark} {y : Nat → BodyCheck Stmt} (hy : Walks w y (GoodStmt x))
    (hnext : ∀ stmt, w.frame.bindings.next x stmt = w.frame.bindings) : Steps w y (FoundStmt w x) :=
  Steps.imp hy fun stmt _ hfound =>
    ⟨(hnext stmt).symm ▸ hfound.1.declares, hfound.2.imp fun hknown => hfound.1.bindings ▸ hknown⟩

theorem walks_arguments {xs : List (Syntax.Expr Mark)}
    (hplain : ∀ w : Point h env returnType, Walks w (fun i => checkExprs (w.ctx i) xs)
      (GoodAll (agreesAll · xs)))
    (hagainst : ∀ (w : Point h env returnType) tys, xs.length = tys.length →
      Walks w (fun i => checkExprsAgainst (w.ctx i) xs tys) fun es w' =>
        GoodAll (agreesAll · xs) es w' ∧ Fitting tys es w') :
    WalksArguments h env returnType (agreesAll · xs) xs.length fun i =>
      { count := xs.length
        plain := checkExprs (contextAt src request env returnType i) xs
        against := checkExprsAgainst (contextAt src request env returnType i) xs } :=
  ⟨fun _ => rfl, hplain, hagainst⟩

/-! ### The walk -/

mutual

theorem walks_checkExpr (w : Point h env returnType) (x : Syntax.Expr Mark) (expected : Option Ty) :
    Walks w (fun i => checkExpr (w.ctx i) x expected) (GoodExpr x) := by
  match x with
  | .int m n =>
    have hnumeric := isNumeric_literalType expected
    simp only [checkExpr]
    exact .pure (good_leaf rfl (fun _ => Ty.within_of_isNumeric hnumeric) (fun _ => trivial)
      hnumeric (fun _ => hnumeric) trivial trivial)
  | .float m b | .bool m b | .str m text =>
    simp only [checkExpr]
    exact .pure (good_leaf rfl (fun _ => Ty.within_primitive _) (fun _ => trivial) trivial
      (fun _ => rfl) trivial trivial)
  | .ident m name =>
    simp only [checkExpr]
    exact walks_checkIdentifier w m name
  | .self m =>
    simp only [checkExpr]
    exact walks_checkSelf w m
  | .binary m op left right =>
    simp only [checkExpr]
    refine .ite (fun _ => ?_) fun _ => ?_
    · exact .bind (walks_checkExpr w right none) fun _ w1 _ hright =>
        .bind (walks_checkExpr w1 left _)
        fun _ _ hw2 hleft => walks_finishBinary m op hleft (hright.later hw2)
    · exact .bind (walks_checkExpr w left none) fun _ w1 _ hleft =>
        .bind (walks_checkExpr w1 right _)
        fun _ _ hw2 hright => walks_finishBinary m op (hleft.later hw2) hright
  | .unary m op operand =>
    simp only [checkExpr]
    exact .bind (walks_checkExpr w operand none) fun _ _ _ hoperand =>
      walks_finishUnary m op hoperand
  | .call m callee typeArgs args =>
    simp only [checkExpr]
    have hargs :=
      walks_arguments (fun w => walks_checkExprs w args) fun w => walks_checkExprsAgainst w args
    exact (walks_checkCall hargs w m callee typeArgs).imp fun _ _ _ hg => hg.imp agrees_call.mpr
  | .methodCall m receiver method typeArgs args =>
    simp only [checkExpr]
    have hargs :=
      walks_arguments (fun w => walks_checkExprs w args) fun w => walks_checkExprsAgainst w args
    refine .bind (walks_checkExpr w receiver none) fun receiver' w1 _ hreceiver => ?_
    exact (walks_checkMethodCall (C := fun Γ => ReceivedBy (Agrees Γ receiver)) hargs w1 m
      hreceiver method typeArgs).imp fun _ _ _ hg => hg.imp agrees_methodCall.mpr
  | .field m object name =>
    simp only [checkExpr]
    exact .bind (walks_checkExpr w object none) fun _ _ _ hobject =>
      walks_finishField m hobject name
  | .new m type args =>
    simp only [checkExpr]
    have hargs :=
      walks_arguments (fun w => walks_checkExprs w args) fun w => walks_checkExprsAgainst w args
    exact walks_checkNew w m type hargs
  | .cond m condition thenBranch elseBranch =>
    simp only [checkExpr]
    refine .bind (walks_checkExpr w condition _) fun condition' w1 _ hcondition =>
      .bind (walks_condition condition') fun _ w2 hw2 hbool =>
      .bind (walks_checkBlock w2 thenBranch expected) fun then' w3 hw3 hthen =>
      .bind (walks_checkBlockOption w3 elseBranch _) fun else' w4 hw4 helse =>
      .bind (walks_condType (fun hc => (hthen.later hw4).ty_within hc)
        fun hc b hb => helse.within hc _ (by simp [Option.mem_def.mp hb]))
        fun ty w5 hw5 hty => .pure ?_
    obtain ⟨hwithin, hvoid, harms⟩ := hty
    have hw35 := hw3.trans (hw4.trans hw5)
    refine good_expr (by rw [Expr.nodes]) ((hcondition.later (hw2.trans hw35)).append
      ((hthen.later (hw4.trans hw5)).append (helse.later hw5))) hwithin (fun _ => trivial) ?_
      (fun hc hclean => ?_) (fun _ _ => trivial) fun hknown => hknown
    · cases else' with
      | none => exact hvoid rfl
      | some b => trivial
    · have hcond := hbool (hw35.clean hc hclean)
      cases else' with
      | none => exact ⟨hcond, hvoid rfl⟩
      | some b => exact ⟨hcond, harms hc hclean b rfl⟩
  | .block m body =>
    simp only [checkExpr]
    exact .bind (walks_checkBlock w body expected) fun _ _ _ hbody =>
      .pure (good_expr (by rw [Expr.nodes]) hbody
      (fun hc => hbody.ty_within hc) (fun _ => trivial) rfl (fun _ _ => rfl) (fun _ _ => trivial)
      fun hknown => hknown)
  | .variant m type name =>
    simp only [checkExpr]
    exact walks_checkVariant w m type name

theorem walks_checkExprs (w : Point h env returnType) (xs : List (Syntax.Expr Mark)) :
    Walks w (fun i => checkExprs (w.ctx i) xs) (GoodAll (agreesAll · xs)) := by
  match xs with
  | [] =>
    simp only [checkExprs]
    exact .pure (good_nil trivial)
  | x :: xs =>
    simp only [checkExprs]
    exact .bind (walks_checkExpr w x none) fun _ w1 _ he =>
        .bind (walks_checkExprs w1 xs) fun _ _ hw2 hes =>
      .pure ((he.later hw2).append hes)

theorem walks_checkExprsAgainst (w : Point h env returnType) (xs : List (Syntax.Expr Mark))
    (tys : List Ty) (hlength : xs.length = tys.length) :
    Walks w (fun i => checkExprsAgainst (w.ctx i) xs tys) fun es w' =>
      GoodAll (agreesAll · xs) es w' ∧ Fitting tys es w' := by
  match xs, tys with
  | [], [] =>
    simp only [checkExprsAgainst]
    exact .pure ⟨good_nil trivial, fun _ _ => .nil⟩
  | x :: xs, ty :: tys =>
    simp only [checkExprsAgainst]
    refine .bind (walks_checkExpr w x _) fun e w1 _ he =>
      .bind (.quiet (.expectAssignable src e.ty ty e.span)) fun _ w2 hw2 hrun =>
      .bind (walks_checkExprsAgainst w2 xs tys (Nat.succ.inj hlength)) fun es w3 hw3 hes => .pure ?_
    have he2 := he.later hw2
    refine ⟨(he2.later hw3).append hes.1, fun hc hclean => .cons ?_ (hes.2 hc hclean)⟩
    exact (hw3.grows hc).accepts (accepts_of_expected hrun (he2.ty_within hc) (hw3.clean hc hclean))

theorem walks_checkExprOption (w : Point h env returnType) (x : Option (Syntax.Expr Mark))
    (expected : Option Ty) :
    Walks w (fun i => checkExprOption (w.ctx i) x expected) (GoodOption x) := by
  match x with
  | none =>
    simp only [checkExprOption]
    exact .pure (good_nil trivial)
  | some x =>
    simp only [checkExprOption]
    exact .bind (walks_checkExpr w x expected) fun _ _ _ he => .pure he

theorem steps_checkStmt (w : Point h env returnType) (x : Syntax.Stmt Mark) :
    Steps w (fun i => checkStmt (w.ctx i) x) (FoundStmt w x) := by
  match x with
  | .bind m name type init =>
    simp only [checkStmt]
    refine .bind (walks_resolveClause w type) fun declared w1 hw1 =>
      .bind (walks_checkExprOption w1 init _)
      fun init' w2 hw2 => .bind (walks_bindingType m name
        (fun hc ty hty => (hw1.2 hc ty hty).mono (hw2.1.classes hc))
        fun hc e he => hw2.2.within hc _ (by simp [Option.mem_def.mp he])) fun ty w3 hw3 =>
      .bind (steps_declareLocal w3 m name hw3.2.1) fun id w4 hw4 => .pure ?_
    have hw := hw1.1.trans (hw2.1.trans hw3.1)
    have hinit := (hw2.2.later hw3.1).fixed fun _ => hw4.1.toGoes
    refine ⟨hw.declares.trans (hw.bindings ▸ hw4.1), good_stmt (by rw [Stmt.nodes]) hinit
      (fun _ => (List.getElem?_eq_some_iff.mp hw4.2).1)
      (fun hc hclean => ⟨_, hw4.2, fun e he => ?_⟩)
      fun _ => hw1.1.bindings ▸ hw2.1.bindings ▸ hw2.2.known⟩
    exact (hw4.1.grows hc).accepts (hw3.2.2 hc (hw4.1.clean hc hclean) e he)
  | .assign m target value =>
    simp only [checkStmt]
    refine Walks.found (.bind (walks_checkExpr w target none) fun _ w1 _ htarget =>
      .bind (walks_checkExpr w1 value _) fun _ _ hw2 hvalue =>
        walks_finishAssign m _ _ (htarget.later hw2) hvalue) fun _ => rfl
  | .expr m value =>
    simp only [checkStmt]
    exact Walks.found (.bind (walks_checkExpr w value none) fun _ _ _ hvalue =>
      .pure (good_stmt (by rw [Stmt.nodes]) hvalue (fun _ => trivial) (fun _ _ => trivial)
        fun hknown => hknown)) fun _ => rfl
  | .ret m value =>
    simp only [checkStmt]
    exact Walks.found (.bind (walks_checkExprOption w value (expectedReturn (w.ctx 0)))
      fun _ _ _ hvalue => walks_finishReturn m hvalue) fun _ => rfl
  | .loop m condition body =>
    simp only [checkStmt]
    refine Walks.found (.bind (walks_checkExpr w condition _) fun condition' w1 _ hcondition =>
      .bind (walks_condition condition') fun _ w2 hw2 hbool =>
      .bind (walks_checkBlock w2 body none) fun _ _ hw3 hbody => .pure ?_) fun _ => rfl
    exact good_stmt (by rw [Stmt.nodes]) ((hcondition.later (hw2.trans hw3)).append hbody)
      (fun _ => trivial) (fun hc hclean => hbool (hw3.clean hc hclean)) fun hknown => hknown

/-- Some statements are marked as what one of them is. -/
theorem steps_checkStmts (w : Point h env returnType) (diverges warned : Bool)
    (xs : List (Syntax.Stmt Mark)) :
    Steps w (fun i => checkStmts (w.ctx i) diverges warned xs) fun r w' =>
      w.Declares w' (w.frame.bindings.after xs r.1) ∧ r.2.1 = (diverges || r.1.any Stmt.diverges) ∧
        Good w' [] (nodesOfStmts r.1) fun _ => agreesStmts w.frame.bindings xs r.1 := by
  match xs with
  | [] =>
    simp only [checkStmts]
    exact .pure ⟨(Point.Stays.refl w).declares, by simp, good_nil trivial⟩
  | x :: xs =>
    simp only [checkStmts]
    refine .bind (walks_warnUnreachable w diverges warned x.mark.span) fun _ w1 hw1 =>
      .bind (steps_checkStmt w1 x) fun stmt w2 hstmt =>
      .bind (steps_checkStmts w2 _ _ xs) fun r w3 hr => .pure ?_
    rw [FoundStmt, hw1.1.bindings] at hstmt
    obtain ⟨hw2, hstmt⟩ := hstmt
    rw [hw2.bindings] at hr
    obtain ⟨hw3, hdiverges, hstmts⟩ := hr
    refine ⟨hw1.1.declares.trans (hw2.trans hw3), by simp [hdiverges, Bool.or_assoc], ?_⟩
    exact (hstmt.fixed fun _ => hw3.toGoes).append hstmts

theorem walks_checkBlock (w : Point h env returnType) (x : Syntax.Block Mark)
    (expected : Option Ty) :
    Walks w (fun i => checkBlock (w.ctx i) x expected) (GoodBlock x) := by
  match x with
  | .mk m stmts tail =>
    simp only [checkBlock]
    refine .modifyFrame w.openBlock rfl rfl (.bind (steps_checkStmts w.openBlock false false stmts)
      fun r w2 hr => .bind (walks_warnTail w2 r.2.1 r.2.2 tail) fun _ w3 hw3 =>
      .bind (walks_checkExprOption w3 tail expected) fun tail' w4 hw4 =>
      .modifyFrame w4.closeBlock rfl rfl (.pure ?_))
    obtain ⟨hw2, hdiverges, hstmts⟩ := hr
    obtain ⟨hw4, htail⟩ := hw4
    have hw24 := hw3.1.trans hw4
    have hw : w.Stays w4.closeBlock := (hw2.trans hw24.declares).stays
    have hparts := (hstmts.fixed fun _ => hw24.toGoes).append htail
    have hparts :
        Good w4.closeBlock (tail'.map Expr.ty).toList (nodesOfStmts r.1 ++ nodesOfOption tail')
        fun Γ =>
        agreesStmts ((fun _ => none) :: Γ) stmts r.1 ∧
          agreesOption (Bindings.after ((fun _ => none) :: Γ) stmts r.1) tail tail' := by
      refine ⟨hparts.within, hparts.ranged, hparts.formed, hparts.passes, ?_⟩
      rw [hw.bindings, ← Frame.bindings_openBlock]
      refine ⟨hparts.known.1, ?_⟩
      have hknown := hparts.known.2
      rw [hw24.bindings, hw2.bindings] at hknown
      exact hknown
    rw [Bool.false_or] at hdiverges
    refine ⟨hw, ?_⟩
    cases tail' with
    | none =>
      refine good_block (by rw [Block.nodes]) hparts (fun _ => Ty.within_primitive _) ⟨rfl, ?_⟩
        fun hknown => hknown
      simp [hdiverges]
    | some e =>
      refine good_block (by rw [Block.nodes]) hparts
        (fun hc => htail.within hc _ List.mem_cons_self) ⟨rfl, ?_⟩ fun hknown => hknown
      simp [hdiverges]

theorem walks_checkBlockOption (w : Point h env returnType) (x : Option (Syntax.Block Mark))
    (expected : Option Ty) :
    Walks w (fun i => checkBlockOption (w.ctx i) x expected) (GoodElse x) := by
  match x with
  | none =>
    simp only [checkBlockOption]
    exact .pure (good_nil trivial)
  | some x =>
    simp only [checkBlockOption]
    exact .bind (walks_checkBlock w x expected) fun _ _ _ hb => .pure hb

end

end ObjectLang.Check
