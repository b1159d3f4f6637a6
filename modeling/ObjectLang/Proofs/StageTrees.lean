import ObjectLang.Proofs.StageBranches

/-! # Trees at a stage

A typed tree whose parts refer to what is there is emitted from every good stage on, and its result
is of its type.
-/

namespace ObjectLang.Code

open Syntax Checked Simulation

variable {cx : Context} {sig : Signature} {base : Array String} {pending : Set BlockId} {W : World}

/-! ### Types of operands -/

variable {ty : Ty} {p : Program} {g : FuncId} {e : Expr}

theorem isValue_of_machineType {ptr t : MachineType} (h : machineType ptr ty = .ok (some t)) :
    ty.isValue = true := by
  cases ty with
  | primitive q => cases q <;> first | rfl | cases h
  | unknown => cases h
  | _ => rfl

theorem isValue_of_isNumeric (h : ty.isNumeric = true) : ty.isValue = true := by
  cases ty with
  | primitive q => cases q <;> first | rfl | cases h
  | _ => cases h

theorem isValue_of_takes {op : BinaryOp} {left right : Ty} (h : p.takes op left right = true) :
    left.isValue = true ∧ right.isValue = true := by
  rw [Program.takes] at h
  split at h
  · simp only [Bool.or_eq_true, Bool.and_eq_true, beq_iff_eq] at h
    obtain ⟨⟨-, rfl⟩, rfl⟩ | ⟨hnum, rfl⟩ := h
    · exact ⟨rfl, rfl⟩
    · exact ⟨isValue_of_isNumeric hnum, isValue_of_isNumeric hnum⟩
  · split at h
    · simp only [Bool.and_eq_true, beq_iff_eq] at h
      obtain ⟨hnum, rfl⟩ := h
      exact ⟨isValue_of_isNumeric hnum, isValue_of_isNumeric hnum⟩
    · split at h
      · simp only [Bool.and_eq_true] at h
        exact ⟨h.1.2, h.2⟩
      · simp only [Bool.and_eq_true, beq_iff_eq] at h
        obtain ⟨rfl, rfl⟩ := h
        exact ⟨rfl, rfl⟩

theorem isVoid_of_isValue (h : ty.isValue = true) : ty.isVoid = false := by
  simp only [Ty.isValue, Bool.and_eq_true, Bool.not_eq_true'] at h
  exact h.1

/-- Logical operators are for truth values only. -/
theorem takes_logical {op : BinaryOp} {left right : Ty} (hop : op.isLogical = true)
    (h : p.takes op left right = true) :
    left = .bool ∧ right = .bool ∧ operatorType op left = .bool := by
  cases op with
  | and | or =>
    change (left == .bool && right == .bool) = true at h
    simp only [Bool.and_eq_true, beq_iff_eq] at h
    exact ⟨h.1, h.2, rfl⟩
  | _ => cases hop

theorem Ready.isSigned (hr : Ready cx sig) {i : Info} {receiver : Option Expr} {args : List Expr}
    {dispatch : Dispatch} (hn : .expr (.call i g receiver args dispatch) ∈ cx.function.nodes) :
    cx.program.isSigned g = true := by
  have h := hr.grounded _ hn
  simp only [Node.isGrounded, Bool.and_eq_true] at h
  exact h.2

theorem Ready.returns_none (hr : Ready cx sig) (h : cx.function.returnType.isVoid = true) :
    Option.Rel (fun v t => (v, t) ∈ W.here cx) none sig.result := by
  have hvoid : cx.function.returnType = .void := by simpa [Ty.isVoid] using h
  have hresult := (signature_ok hr.signature).2
  rw [hvoid] at hresult
  rw [← Except.ok.inj hresult]
  exact .none

theorem Ready.returns_some (hr : Ready cx sig) {v : ValueId}
    (h : W.Has cx v cx.function.returnType) :
    Option.Rel (fun v t => (v, t) ∈ W.here cx) (some v) sig.result := by
  obtain ⟨t, ht, hv⟩ := h
  rw [← Except.ok.inj (ht.symm.trans (signature_ok hr.signature).2)]
  exact .some hv

theorem isValue_of_isSigned (hg : p.isSigned g = true) :
    ∀ ty ∈ passedTypes (p.functionAt g), ty.isValue = true := by
  simp only [Program.isSigned, Bool.and_eq_true, List.all_eq_true] at hg
  exact hg.1.2

/-! ### Trees -/

/-- What is needed of a typed tree has its type. -/
theorem Stage.neededExpr (hs : Stage cx sig base pending W) (h : exprTyped cx.program cx.function e)
    (hty : e.ty.isValue = true) (hbuilds : Builds cx sig base pending (lowerExpr cx e) W
      fun r W' => ∀ v, r = some v → W'.Has cx v e.ty) :
    Builds cx sig base pending (Code.needed cx e (lowerExpr cx e)) W fun v W' => W'.Has cx v e.ty :=
  Stage.needed hty (lowerExpr_yields rfl e (formed_of_exprTyped e h) (isVoid_of_isValue hty))
    hs hbuilds

theorem Stage.neededFor (hs : Stage cx sig base pending W) (h : exprTyped cx.program cx.function e)
    (hfits : cx.program.fits e.ty ty) (hty : ty.isValue = true)
    (hbuilds : Builds cx sig base pending (lowerExpr cx e) W
      fun r W' => ∀ v, r = some v → W'.Has cx v e.ty) :
    Builds cx sig base pending (Code.needed cx e (lowerExpr cx e)) W fun v W' => W'.Has cx v ty :=
  (hs.neededExpr h (isValue_of_fits hfits hty) hbuilds).mono fun _ _ _ hv => hv.fits hfits

theorem Stage.neededBool (hs : Stage cx sig base pending W) (h : exprTyped cx.program cx.function e)
    (hty : e.ty = .bool) (hbuilds : Builds cx sig base pending (lowerExpr cx e) W
      fun r W' => ∀ v, r = some v → W'.Has cx v e.ty) :
    Builds cx sig base pending (Code.needed cx e (lowerExpr cx e)) W fun v W' =>
    (v, .i8) ∈ W'.here cx :=
  (hs.neededExpr h (by rw [hty]; rfl) hbuilds).mono fun _ _ _ hv => hv.mem (by rw [hty]; rfl)

theorem Stage.isValue_local (hs : Stage cx sig base pending W) {id : LocalId}
    (hid : cx.function.localType id = some ty) : ty.isValue = true := by
  obtain ⟨-, -, t, ht, -⟩ := hs.slot hid
  exact isValue_of_machineType ht

theorem blockBuilds {b : Checked.Block} {stored : Bool}
    (h : ∀ {pending : Set BlockId} {W : World}, Stage cx sig base pending W →
      Builds cx sig base pending (lowerBlock cx b) W fun r W' => ∀ v, r = some v → W'.Has cx v b.ty)
    (hfits : stored = true → Dies (Code.scopedResult cx b.ty (lowerBlock cx b)) ∨
      machineType cx.ptr b.ty = machineType cx.ptr ty) :
    ArmBuilds cx sig base W ty stored (b.ty, Code.scopedResult cx b.ty (lowerBlock cx b)) where
  emits := .scopedResult _ (lowerBlock_emits b)
  kept := .scopedResult _ (lowerBlock_emits b)
  builds _ _ hs _ := hs.scopedResult (lowerBlock_emits b) fun _ hs' _ => h hs'
  fits := hfits

theorem dies_or_machineType {b : Checked.Block} (h : blockTyped cx.program cx.function b)
    (hb : b.diverges = true ∨ cx.program.fits b.ty ty) :
    Dies (Code.scopedResult cx b.ty (lowerBlock cx b)) ∨
      machineType cx.ptr b.ty = machineType cx.ptr ty :=
  hb.imp (fun hd => .scopedResult _ (lowerBlock_emits b)
    (lowerBlock_dies b (formed_of_blockTyped b h) hd)) machineType_of_fits

theorem isReference_of_dispatches {dispatch : Dispatch} (hd : dispatch ≠ .static)
    (h : p.dispatches g ty dispatch = true) : ty.isReference = true := by
  cases dispatch with
  | static => exact absurd rfl hd
  | virtual slot =>
    cases ty with
    | object c => rfl
    | _ => cases h

theorem Builds.map_some {x : Emit ValueId}
    (h : Builds cx sig base pending x W fun v W' => W'.Has cx v ty) :
    Builds cx sig base pending (some <$> x) W fun r W' => ∀ v, r = some v → W'.Has cx v ty := by
  refine .map (h.mono fun v W' _ hv => ?_)
  rintro _ ⟨⟩
  exact hv

theorem Stage.emitInt (hs : Stage cx sig base pending W) (hty : ty.isNumeric = true) (n : Int) :
    Builds cx sig base pending (do
        let type ← valueType cx.ptr ty
        if type.isFloat then some <$> Code.define (.floatConst · (Float.ofInt n).toBits)
        else some <$> Code.define (.intConst · type (type.wrap n))) W
      fun r W' => ∀ v, r = some v → W'.Has cx v ty := by
  obtain ⟨t, ht⟩ := exists_machineType cx.ptr (isValue_of_isNumeric hty)
  refine .lift (valueType_eq_ok.mpr ht) (.ite (fun hf => .map_some ?_) fun hf => .map_some ?_)
  · obtain rfl : t = .f64 := by simpa [MachineType.isFloat] using hf
    exact (hs.floatConst _).mono fun v W' _ hv => ⟨_, ht, hv⟩
  · exact (hs.intConst (by simpa using hf) (t.holds_wrap n)).mono fun v W' _ hv => ⟨_, ht, hv⟩

mutual

theorem lowerExpr_builds (hr : Ready cx sig) (e : Expr) (h : exprTyped cx.program cx.function e)
    (hn : e.nodes ⊆ cx.function.nodes) {pending : Set BlockId} {W : World}
    (hs : Stage cx sig base pending W) :
    Builds cx sig base pending (lowerExpr cx e) W fun r W' => ∀ v, r = some v →
    W'.Has cx v e.ty := by
  match e with
  | .int i n => exact hs.emitInt h n
  | .float i bits =>
    have hty : i.ty = .f64 := by simpa [exprTyped] using h
    exact .map_some ((hs.floatConst _).mono fun v W' _ hv =>
      ⟨_, congrArg (machineType cx.ptr) hty, hv⟩)
  | .bool i b =>
    have hty : i.ty = .bool := by simpa [exprTyped] using h
    have hholds : MachineType.i8.holds (if b then 1 else 0) = true := by cases b <;> rfl
    exact .map_some ((hs.intConst rfl hholds).mono fun v W' _ hv =>
      ⟨_, congrArg (machineType cx.ptr) hty, hv⟩)
  | .variant i enum d =>
    have hty : i.ty = .enum enum := by simpa [exprTyped] using h
    exact .map_some ((hs.intConst rfl (MachineType.i32.holds_wrap d)).mono fun v W' _ hv =>
      ⟨_, congrArg (machineType cx.ptr) hty, hv⟩)
  | .str i text =>
    have hty : i.ty = .string := by simpa [exprTyped] using h
    have htext : text ∈ cx.function.texts :=
      List.mem_filterMap.mpr ⟨_, hn List.mem_cons_self, rfl⟩
    exact .map_some ((hs.emitText hr htext).mono fun v W' _ hv =>
      show W'.Has cx v i.ty from hty ▸ hv)
  | .var i id =>
    have hid : cx.function.localType id = some i.ty := by simpa [exprTyped] using h
    obtain ⟨hslot, hlocal, t, ht, hk⟩ := hs.slot hid
    refine .lift hslot (.lift hlocal (.lift (valueType_eq_ok.mpr ht) (.map_some ?_)))
    exact (hs.slotLoad hk).mono fun v W' _ hv => ⟨t, ht, hv⟩
  | .self i =>
    have hself : cx.function.receiver = some i.ty := by simpa [exprTyped] using h
    have hreceiver : cx.receiver? = some 0 := by
      rw [Context.receiver?, hself]
      rfl
    rw [lowerExpr, hreceiver]
    refine .pure hs ?_
    rintro _ ⟨⟩
    exact hs.self 0 i.ty hreceiver hself
  | .field i object c index =>
    simp only [exprTyped, Bool.and_eq_true, beq_iff_eq] at h
    obtain ⟨⟨hobject, hty⟩, hfield⟩ := h
    simp only [Expr.nodes, List.cons_subset] at hn
    refine (hs.neededExpr hobject (by rw [hty]; rfl)
      (lowerExpr_builds hr object hobject hn.2 hs)).bind fun v W1 _ hs1 _ hv => ?_
    exact hs1.loadField hr hfield (hv.mem_ptr (by rw [hty]; rfl))
  | .binary i op left right =>
    simp only [exprTyped, Bool.and_eq_true, beq_iff_eq] at h
    obtain ⟨⟨⟨hleft, hright⟩, htakes⟩, hty⟩ := h
    simp only [Expr.nodes, List.cons_subset, List.append_subset] at hn
    obtain ⟨hvl, hvr⟩ := isValue_of_takes htakes
    have ha := hs.neededExpr hleft hvl (lowerExpr_builds hr left hleft hn.2.1 hs)
    have hb {pending' : Set BlockId} {W' : World} (hs' : Stage cx sig base pending' W') :=
      hs'.neededExpr hright hvr (lowerExpr_builds hr right hright hn.2.2 hs')
    rw [lowerExpr]
    refine .ite (fun hop => .map_some ?_) fun hop => ?_
    · obtain ⟨hlt, hrt, hot⟩ := takes_logical hop htakes
      rw [hlt] at ha
      rw [hrt] at hb
      refine (Stage.emitLogical op (.needed _ (lowerExpr_emits right))
        (ha.mono fun v W' _ hv => hv.mem rfl) fun pending' W' hs' _ =>
          (hb hs').mono fun v W' _ hv => hv.mem rfl).mono fun v W' _ hv => ?_
      exact ⟨.i8, by rw [Expr.ty, Expr.info, hty, hot]; rfl, hv⟩
    · refine ha.bind fun a W1 _ hs1 _ ha => (hb hs1).bind fun b W2 _ hs2 hl2 hb => .map_some ?_
      refine (hs2.emitBinary (by simpa using hop) htakes (hl2.has ha) hb).mono fun v W' _ hv => ?_
      exact show W'.Has cx v i.ty from hty ▸ hv
  | .unary i .neg operand =>
    simp only [exprTyped, Bool.and_eq_true, beq_iff_eq] at h
    obtain ⟨⟨hoperand, hnum⟩, hty⟩ := h
    simp only [Expr.nodes, List.cons_subset] at hn
    refine (hs.neededExpr hoperand (isValue_of_isNumeric hnum)
      (lowerExpr_builds hr operand hoperand hn.2 hs)).bind fun a W1 _ hs1 _ ha => .map_some ?_
    exact (hs1.emitUnary ha (by simp)).mono fun v W' _ hv => show W'.Has cx v i.ty from hty ▸ hv
  | .unary i .not operand =>
    simp only [exprTyped, Bool.and_eq_true, beq_iff_eq] at h
    obtain ⟨⟨hoperand, hbool⟩, hty⟩ := h
    simp only [Expr.nodes, List.cons_subset] at hn
    refine (hs.neededExpr hoperand (by rw [hbool]; rfl)
      (lowerExpr_builds hr operand hoperand hn.2 hs)).bind fun a W1 _ hs1 _ ha => .map_some ?_
    refine (hs1.emitUnary ha fun _ => hbool).mono fun v W' _ hv => show W'.Has cx v i.ty from ?_
    rwa [hty, ← hbool]
  | .call i g none args dispatch =>
    simp only [exprTyped, Bool.and_eq_true, beq_iff_eq, Option.isNone_iff_eq_none] at h
    obtain ⟨⟨⟨hnone, hstatic⟩, hargs⟩, hty⟩ := h
    simp only [Expr.nodes, nodesOfOption, List.nil_append, List.cons_subset] at hn
    have hg := hr.isSigned hn.1
    have hvalues : ∀ ty ∈ (cx.program.functionAt g).paramTypes, ty.isValue = true := fun ty hty =>
      isValue_of_isSigned hg ty (List.mem_append_right _ hty)
    refine (lowerValues_builds hr args hargs hn.2 hvalues hs).bind fun vs W1 _ hs1 _ hvs => ?_
    refine (hs1.emitCall hg ?_ (by simp [hstatic])).mono fun r W' _ hr v hv =>
      show W'.Has cx v i.ty from hty ▸ hr v hv
    rwa [passedTypes, hnone]
  | .call i g (some receiver) args dispatch =>
    simp only [exprTyped, Bool.and_eq_true, beq_iff_eq, Option.any_eq_true] at h
    obtain ⟨⟨⟨hreceiver, ⟨self, hself, hfits⟩, hdispatch⟩, hargs⟩, hty⟩ := h
    simp only [Expr.nodes, nodesOfOption, List.cons_subset, List.append_subset] at hn
    have hg := hr.isSigned hn.1
    have hvalues := isValue_of_isSigned hg
    rw [passedTypes, hself, Option.toList_some, List.singleton_append, List.forall_mem_cons]
      at hvalues
    refine (hs.neededExpr hreceiver (isValue_of_fits hfits hvalues.1)
      (lowerExpr_builds hr receiver hreceiver hn.2.1 hs)).bind fun v W1 _ hs1 _ hv => ?_
    refine (lowerValues_builds hr args hargs hn.2.2 hvalues.2 hs1).bind
      fun vs W2 _ hs2 hl2 hvs => ?_
    refine (hs2.emitCall hg ?_ fun hvirtual => ?_).mono fun r W' _ hr v hv =>
      show W'.Has cx v i.ty from hty ▸ hr v hv
    · rw [passedTypes, hself]
      exact .cons ((hl2.has hv).fits hfits) hvs
    · exact ⟨v, vs, rfl, (hl2.has hv).mem_ptr (isReference_of_dispatches hvirtual hdispatch)⟩
  | .new i c init args =>
    simp only [exprTyped, Bool.and_eq_true, beq_iff_eq] at h
    obtain ⟨⟨⟨-, hinit⟩, hargs⟩, hty⟩ := h
    simp only [Expr.nodes, List.cons_subset] at hn
    have hground := hr.grounded _ hn.1
    simp only [Node.isGrounded, Bool.and_eq_true, decide_eq_true_eq] at hground
    obtain ⟨-, hc, hsigned⟩ := hground
    refine .map_some ((hs.emitNew hr hc ?_ ?_).mono fun v W' _ hv =>
      show W'.Has cx v i.ty from hty ▸ hv)
    · rintro g rfl
      simp only [Program.initializes, Option.all_some, Bool.and_eq_true, beq_iff_eq] at hinit
      exact ⟨hsigned, hinit⟩
    · rintro g rfl W' hs' -
      exact lowerValues_builds hr args hargs hn.2
        (fun ty hty => isValue_of_isSigned hsigned ty (List.mem_append_right _ hty)) hs'
  | .cond i condition thenBranch none =>
    simp only [exprTyped, Bool.and_eq_true, beq_iff_eq] at h
    obtain ⟨⟨⟨hcondition, hbool⟩, hthen⟩, -⟩ := h
    simp only [Expr.nodes, List.cons_subset, List.append_subset] at hn
    refine hs.emitConditional (.needed _ (lowerExpr_emits condition)) (fun W' hs' _ => ?_) (by simp)
      (blockBuilds (fun hs' => lowerBlock_builds hr thenBranch hthen hn.2.2.1 hs') (by simp))
      (by simp)
    exact hs'.neededBool hcondition hbool (lowerExpr_builds hr condition hcondition hn.2.1 hs')
  | .cond i condition thenBranch (some elseBranch) =>
    simp only [exprTyped, Bool.and_eq_true, beq_iff_eq, Bool.or_eq_true] at h
    obtain ⟨⟨⟨⟨⟨hcondition, hbool⟩, hthen⟩, helse⟩, hthenFits⟩, helseFits⟩ := h
    simp only [Expr.nodes, nodesOfElse, List.cons_subset, List.append_subset] at hn
    have hground := hr.grounded _ hn.1
    simp only [Node.isGrounded, Bool.and_eq_true] at hground
    refine hs.emitConditional (.needed _ (lowerExpr_emits condition)) (fun W' hs' _ => ?_)
      (fun _ => ?_)
      (blockBuilds (fun hs' => lowerBlock_builds hr thenBranch hthen hn.2.2.1 hs') fun _ =>
        dies_or_machineType hthen hthenFits) ?_
    · exact hs'.neededBool hcondition hbool (lowerExpr_builds hr condition hcondition hn.2.1 hs')
    · rintro hunknown
      simp [Expr.ty, Expr.info, hunknown, Ty.isUnknown] at hground
    · rintro _ ⟨⟩
      exact blockBuilds (fun hs' => lowerBlock_builds hr elseBranch helse hn.2.2.2 hs') fun _ =>
        dies_or_machineType helse helseFits
  | .block i body =>
    simp only [exprTyped, Bool.and_eq_true, beq_iff_eq] at h
    simp only [Expr.nodes, List.cons_subset] at hn
    have hbody := hs.scopedResult (lowerBlock_emits body) fun W' hs' _ =>
      lowerBlock_builds hr body h.1 hn.2 hs'
    refine hbody.bind fun r W1 _ hs1 _ hr => ?_
    exact (hs1.withResult hr fun v hv => hs1.own (q := .value v) hv).mono fun r W' _ hr v hv =>
      show W'.Has cx v i.ty from h.2 ▸ hr v hv
  | .error _ => cases h

theorem lowerValues_builds (hr : Ready cx sig) (es : List Expr) {tys : List Ty}
    (h : argsTyped cx.program cx.function tys es) (hn : nodesOfExprs es ⊆ cx.function.nodes)
    (htys : ∀ ty ∈ tys, ty.isValue = true) {pending : Set BlockId} {W : World}
    (hs : Stage cx sig base pending W) :
    Builds cx sig base pending (lowerValues cx es) W fun vs W' =>
    List.Forall₂ (W'.Has cx) vs tys := by
  match tys, es with
  | [], [] => exact .pure hs .nil
  | ty :: tys, e :: es =>
    simp only [argsTyped, Bool.and_eq_true] at h
    obtain ⟨⟨he, hfits⟩, hes⟩ := h
    simp only [nodesOfExprs, List.append_subset] at hn
    rw [List.forall_mem_cons] at htys
    refine (hs.neededExpr he (isValue_of_fits hfits htys.1) (lowerExpr_builds hr e he hn.1 hs)).bind
      fun v W1 _ hs1 _ hv => ?_
    refine (lowerValues_builds hr es hes hn.2 htys.2 hs1).bind fun vs W2 _ hs2 hl2 hvs => ?_
    exact .pure hs2 (.cons ((hl2.has hv).fits hfits) hvs)

theorem lowerStmt_builds (hr : Ready cx sig) (st : Stmt) (h : stmtTyped cx.program cx.function st)
    (hn : st.nodes ⊆ cx.function.nodes) {pending : Set BlockId} {W : World}
    (hs : Stage cx sig base pending W) :
    Builds cx sig base pending (lowerStmt cx st) W fun _ _ => True := by
  match st with
  | .bind id none =>
    obtain ⟨ty, hid⟩ := Option.isSome_iff_exists.mp h
    rw [lowerStmt]
    exact hs.emitBind hr hid (by simp)
  | .bind id (some init) =>
    simp only [stmtTyped, Bool.and_eq_true, Option.any_eq_true] at h
    obtain ⟨hinit, ty, hid, hfits⟩ := h
    simp only [Stmt.nodes, nodesOfOption, List.cons_subset] at hn
    rw [lowerStmt]
    refine hs.emitBind hr hid ?_
    rintro _ ⟨⟩
    exact hs.neededFor hinit hfits (hs.isValue_local hid) (lowerExpr_builds hr init hinit hn.2 hs)
  | .setVar id value =>
    simp only [stmtTyped, Bool.and_eq_true, Option.any_eq_true] at h
    obtain ⟨hvalue, ty, hid, hfits⟩ := h
    simp only [Stmt.nodes, List.cons_subset] at hn
    exact hs.emitSetVar hid (hs.neededFor hvalue hfits (hs.isValue_local hid)
      (lowerExpr_builds hr value hvalue hn.2 hs))
  | .setField object c index value =>
    simp only [stmtTyped, Bool.and_eq_true, beq_iff_eq, Option.any_eq_true] at h
    obtain ⟨⟨⟨hobject, hty⟩, hvalue⟩, ty, hfield, hfits⟩ := h
    simp only [Stmt.nodes, List.cons_subset, List.append_subset] at hn
    obtain ⟨field, -, htype, -⟩ := hr.field hfield
    refine (hs.neededExpr hobject (by rw [hty]; rfl)
      (lowerExpr_builds hr object hobject hn.2.1 hs)).bind fun o W1 _ hs1 _ ho => ?_
    refine (hs1.neededFor hvalue hfits (isValue_of_machineType htype)
      (lowerExpr_builds hr value hvalue hn.2.2 hs1)).bind fun v W2 _ hs2 hl2 hv => ?_
    exact hs2.storeField hr hfield (hl2.here (ho.mem_ptr (by rw [hty]; rfl))) hv
  | .expr value =>
    simp only [Stmt.nodes, List.cons_subset] at hn
    exact (lowerExpr_builds hr value h hn.2 hs).bind fun _ W1 _ hs1 _ _ => .pure hs1 trivial
  | .ret none =>
    rw [lowerStmt]
    exact hs.emitReturn hr (hr.returns_none h)
  | .ret (some value) =>
    simp only [stmtTyped, Bool.and_eq_true] at h
    obtain ⟨⟨hvalue, hfits⟩, hreturn⟩ := h
    simp only [Stmt.nodes, nodesOfOption, List.cons_subset] at hn
    refine (hs.neededFor hvalue hfits hreturn (lowerExpr_builds hr value hvalue hn.2 hs)).bind
      fun v W1 _ hs1 _ hv => hs1.emitReturn hr (hr.returns_some hv)
  | .loop condition body =>
    simp only [stmtTyped, Bool.and_eq_true, beq_iff_eq] at h
    obtain ⟨⟨hcondition, hbool⟩, hbody⟩ := h
    simp only [Stmt.nodes, List.cons_subset, List.append_subset] at hn
    refine hs.emitLoop (.needed _ (lowerExpr_emits condition)) (fun pending' W' hs' _ => ?_)
      (blockBuilds (fun hs' => lowerBlock_builds hr body hbody hn.2.2 hs') (by simp))
    exact hs'.neededBool hcondition hbool (lowerExpr_builds hr condition hcondition hn.2.1 hs')

theorem lowerStmts_builds (hr : Ready cx sig) (ss : List Stmt)
    (h : stmtsTyped cx.program cx.function ss)
    (hn : nodesOfStmts ss ⊆ cx.function.nodes) {pending : Set BlockId} {W : World}
    (hs : Stage cx sig base pending W) :
    Builds cx sig base pending (lowerStmts cx ss) W fun _ _ => True := by
  match ss with
  | [] => exact .pure hs trivial
  | st :: ss =>
    simp only [stmtsTyped, Bool.and_eq_true] at h
    simp only [nodesOfStmts, List.append_subset] at hn
    refine .isDead (.ite (fun _ => .pure hs trivial) fun _ => ?_)
    exact (lowerStmt_builds hr st h.1 hn.1 hs).bind fun _ W1 _ hs1 _ _ =>
      lowerStmts_builds hr ss h.2 hn.2 hs1

theorem lowerBlock_builds (hr : Ready cx sig) (b : Checked.Block)
    (h : blockTyped cx.program cx.function b) (hn : b.nodes ⊆ cx.function.nodes)
    {pending : Set BlockId} {W : World} (hs : Stage cx sig base pending W) :
    Builds cx sig base pending (lowerBlock cx b) W fun r W' => ∀ v, r = some v →
    W'.Has cx v b.ty := by
  match b with
  | .mk stmts none ty d span =>
    simp only [blockTyped, Bool.and_eq_true] at h
    simp only [Checked.Block.nodes, List.cons_subset, List.append_subset] at hn
    exact (lowerStmts_builds hr stmts h.1.1 hn.2.1 hs).bind fun _ W1 _ hs1 _ _ =>
      .pure hs1 (by simp)
  | .mk stmts (some tail) ty d span =>
    simp only [blockTyped, Bool.and_eq_true, beq_iff_eq] at h
    obtain ⟨⟨⟨hstmts, htail⟩, hty⟩, -⟩ := h
    simp only [Checked.Block.nodes, nodesOfOption, List.cons_subset, List.append_subset] at hn
    refine (lowerStmts_builds hr stmts hstmts hn.2.1 hs).bind fun _ W1 _ hs1 _ _ => ?_
    refine .isDead (.ite (fun _ => .pure hs1 (by simp)) fun _ => ?_)
    exact (lowerExpr_builds hr tail htail hn.2.2 hs1).mono fun r W' _ hr v hv =>
      show W'.Has cx v ty from hty ▸ hr v hv

end

end ObjectLang.Code
