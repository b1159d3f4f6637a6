import ObjectLang.Proofs.FunctionBodies

/-! # What local names stand for

Whatever a body asks for and from whatever state: its names stand for the locals that the source
says, every binding has a number of its own, and it is reported exactly if its name is bound
already.
-/

namespace ObjectLang.Check

open Source Syntax Scope Names Diagnostic Checked

section

variable {ctx : BodyContext} {frame frame' : Frame} {s t : State} {α : Type}

/-- A body may be checked anywhere, if nothing but its names is of interest. -/
theorem exists_point (ctx : BodyContext) (frame : Frame) (s : State) :
    ∃ (h : Host ctx.src fun _ => ctx.request) (w : Point h ctx.env ctx.returnType),
      ¬h.closed ∧ w.frame = frame ∧ w.state = s := by
  refine ⟨{
      holds := fun _ => True
      goes := fun _ _ => True
      closed := ⟨False, False⟩
      strict := False
      live := False
      bound := 0
      trans := fun _ _ => trivial
      reports := fun _ _ => ⟨trivial, trivial⟩
      takesBack := fun _ _ _ => ⟨trivial, trivial, fun _ => trivial⟩
      retains := False.elim
      proper := False.elim
      generics := False.elim
      regular := fun h => (or_self_iff.mp h).elim
      orderly := fun h => (or_self_iff.mp h).elim
      advances := False.elim
      types := fun _ _ _ _ => ⟨fun _ => ⟨trivial, trivial, False.elim, False.elim⟩, False.elim⟩
      typeLists := fun _ _ _ _ => ⟨fun _ => ⟨trivial, trivial, False.elim⟩, False.elim⟩
      functions := fun _ _ _ _ _ _ => ⟨fun _ => ⟨trivial, trivial, False.elim⟩, False.elim⟩ },
    ⟨s, frame, trivial, False.elim, False.elim⟩, False.elim, rfl, rfl⟩

theorem Walks.names {h : Host ctx.src fun _ => ctx.request} {w : Point h ctx.env ctx.returnType}
    {x : BodyCheck α} {a : α} {Q : α → Point h ctx.env ctx.returnType → Prop}
    (hx : Walks w (fun _ => x) Q) (hrun : x w.frame w.state = some ((a, frame'), t)) :
    frame'.bindings = w.frame.bindings ∧ w.frame.locals <+: frame'.locals ∧
    ∃ w', w'.frame = frame' ∧ Q a w' := by
  obtain ⟨w', -, rfl, hw, hq⟩ := hx.keeps (i := 0) hrun
  exact ⟨hw.bindings, hw.locals, w', rfl, hq⟩

theorem names_checkExpr {x : Syntax.Expr Mark} {expected : Option Ty} {e : Expr}
    (hrun : checkExpr ctx x expected frame s = some ((e, frame'), t)) :
    Agrees frame.bindings x e ∧ frame'.bindings = frame.bindings ∧
    frame.locals <+: frame'.locals := by
  obtain ⟨h, w, -, rfl, rfl⟩ := exists_point ctx frame s
  obtain ⟨hbindings, hlocals, w', rfl, hgood⟩ := (walks_checkExpr w x expected).names hrun
  exact ⟨hbindings ▸ hgood.known, hbindings, hlocals⟩

theorem names_checkStmt {x : Syntax.Stmt Mark} {stmt : Stmt}
    (hrun : checkStmt ctx x frame s = some ((stmt, frame'), t)) :
    agreesStmt frame.bindings x stmt ∧ frame'.bindings = frame.bindings.next x stmt ∧
      frame.locals <+: frame'.locals := by
  obtain ⟨h, w, -, rfl, rfl⟩ := exists_point ctx frame s
  obtain ⟨w', -, rfl, hw, hgood⟩ := (steps_checkStmt w x).keeps (i := 0) hrun
  exact ⟨hgood.known, hw.bindings, hw.locals⟩

theorem names_checkFunction {inst : FuncInst} {body : Option (Syntax.Block Mark)}
    {r : List FieldInit × Option Block}
    (hrun : checkFunction ctx inst body frame s = some ((r, frame'), t)) :
    agreesElse frame.bindings body r.2 ∧ frame.locals <+: frame'.locals := by
  obtain ⟨h, w, hclosed, rfl, rfl⟩ := exists_point ctx frame s
  obtain ⟨hbindings, hlocals, w', rfl, -, hgood, -⟩ :=
    (walks_checkFunction w inst (fun hc => (hclosed hc).elim) body).names hrun
  exact ⟨hbindings ▸ hgood.known, hlocals⟩

/-! ### Bindings -/

/-- All that is done about a binding before its name is bound: its initial value and its type. -/
def checkInitial (ctx : BodyContext) (m : Mark) (name : String) (type : Option (TypeExpr Mark))
    (init : Option (Syntax.Expr Mark)) : BodyCheck (Option Expr × Ty) := do
  let declared ← resolveClause ctx type
  let init ← checkExprOption ctx init declared
  let ty ← bindingType ctx m name declared init
  return (init, ty)

theorem names_checkInitial {m : Mark} {name : String} {type : Option (TypeExpr Mark)}
    {init : Option (Syntax.Expr Mark)} {r : Option Expr × Ty}
    (hrun : checkInitial ctx m name type init frame s = some ((r, frame'), t)) :
    frame'.bindings = frame.bindings ∧ frame.locals <+: frame'.locals := by
  obtain ⟨h, w, hclosed, rfl, rfl⟩ := exists_point ctx frame s
  have hwalks : Walks w (fun _ => checkInitial ctx m name type init) fun _ _ => True :=
    .bind (walks_resolveClause _ type) fun _ w1 _ _ => .bind (walks_checkExprOption w1 init _)
        fun _ _ _ _ =>
      .bind (walks_bindingType m name (fun hc => (hclosed hc).elim) fun hc => (hclosed hc).elim)
          fun _ _ _ _ =>
        .pure trivial
  obtain ⟨hbindings, hlocals, -⟩ := hwalks.names hrun
  exact ⟨hbindings, hlocals⟩

/-- What is reported about a binding. -/
def State.afterBinding (s : State) (Γ : Bindings) (name : String) (span : Span) : State :=
  if Γ.boundHere name then { s with errors := s.errors ++ [⟨.alreadyDeclared name, span⟩] }
  else if Γ.boundAround name then { s with warnings := s.warnings ++ [⟨.shadowed name, span⟩] }
  else s

theorem body_bind_run {β : Type} {x : BodyCheck α} {f : α → BodyCheck β} {a : α}
    (hx : x frame s = some ((a, frame'), t)) : (x >>= f) frame s = f a frame' t := by
  change (x frame s).bind (fun r => f r.1.1 r.1.2 r.2) = _
  rw [hx, Option.bind_some]

theorem declareLocal_run (m : Mark) (name : String) (ty : Ty) (frame : Frame) (s : State) :
    declareLocal m name ty frame s = some
      ((frame.locals.length, (frame.declare ⟨name, ty, m.span⟩).2),
      s.afterBinding frame.bindings name m.span) := by
  have hclash : reportClash name m.span (frame.clash name) s =
      some (⟨⟩, s.afterBinding frame.bindings name m.span) := by
    rw [Frame.clash_eq, State.afterBinding]
    split_ifs <;> rfl
  have hreport : (liftM (reportClash name m.span (frame.clash name)) : BodyCheck Unit)
      (frame.declare ⟨name, ty, m.span⟩).2 s =
      some ((⟨⟩, (frame.declare ⟨name, ty, m.span⟩).2),
      s.afterBinding frame.bindings name m.span) := by
    change (reportClash name m.span (frame.clash name) s).bind _ = _
    rw [hclash]
    rfl
  exact body_bind_run (f := fun _ => pure frame.locals.length) hreport

theorem checkStmt_bind {m : Mark} {name : String} {type : Option (TypeExpr Mark)}
    {init : Option (Syntax.Expr Mark)} {stmt : Stmt}
    (hrun : checkStmt ctx (.bind m name type init) frame s = some ((stmt, frame'), t)) :
    ∃ init' ty frame1 s1,
      checkInitial ctx m name type init frame s = some (((init', ty), frame1), s1) ∧
        stmt = .bind frame1.locals.length init' ∧
        frame'.locals = frame1.locals ++ [⟨name, ty, m.span⟩] ∧
        t = s1.afterBinding frame1.bindings name m.span := by
  rw [checkStmt] at hrun
  obtain ⟨declared, frame1, s1, hdeclared, hrun⟩ := body_bind_some hrun
  obtain ⟨init', frame2, s2, hinit, hrun⟩ := body_bind_some hrun
  obtain ⟨ty, frame3, s3, hty, hrun⟩ := body_bind_some hrun
  have hinitial : checkInitial ctx m name type init frame s = some (((init', ty), frame3), s3) := by
    rw [checkInitial, body_bind_run hdeclared, body_bind_run hinit, body_bind_run hty]
    rfl
  rw [body_bind_run (declareLocal_run m name ty frame3 s3)] at hrun
  cases hrun
  exact ⟨init', ty, frame3, s3, hinitial, rfl, rfl, rfl⟩

end

end ObjectLang.Check

namespace ObjectLang

open Check Checked Syntax Source Scope Diagnostic

/-- The names of a body follow the scopes of its source.  A name is checked to the local that the
latest binding before it in the innermost block binds, or else to the last parameter of that name;
names of an expression change nothing for what follows it.  A binding gets the next number, whatever
was bound before, and it is reported exactly if its own block, and otherwise hinted at if one
further out, binds the name already. -/
theorem local_names_follow_scopes (ctx : BodyContext) :
    (∀ inst body params s r frame t,
      checkFunction ctx inst body (Frame.ofParams params) s = some ((r, frame), t) →
      agreesElse (.ofParams params) body r.2 ∧ params <+: frame.locals) ∧
    (∀ x expected frame s e frame' t, checkExpr ctx x expected frame s = some ((e, frame'), t) →
      Agrees frame.bindings x e ∧ frame'.bindings = frame.bindings ∧
      frame.locals <+: frame'.locals) ∧
    (∀ x frame s stmt frame' t, checkStmt ctx x frame s = some ((stmt, frame'), t) →
      agreesStmt frame.bindings x stmt ∧ frame'.bindings = frame.bindings.next x stmt ∧
        frame.locals <+: frame'.locals) ∧
    ∀ m name type init frame s stmt frame' t,
      checkStmt ctx (.bind m name type init) frame s = some ((stmt, frame'), t) →
      ∃ init' ty frame1 s1, checkInitial ctx m name type init frame s =
      some (((init', ty), frame1), s1) ∧
        frame1.bindings = frame.bindings ∧ frame.locals <+: frame1.locals ∧
        stmt = .bind frame1.locals.length init' ∧
        frame'.locals = frame1.locals ++ [⟨name, ty, m.span⟩] ∧
        t = s1.afterBinding frame.bindings name m.span := by
  refine ⟨fun inst body params s r frame t hrun => ?_, fun _ _ _ _ _ _ _ => names_checkExpr,
    fun _ _ _ _ _ _ => names_checkStmt, fun m name type init frame s stmt frame' t hrun => ?_⟩
  · rw [← Frame.bindings_ofParams]
    exact names_checkFunction hrun
  · obtain ⟨init', ty, frame1, s1, hinitial, hstmt, hlocals, ht⟩ := checkStmt_bind hrun
    obtain ⟨hbindings, hle⟩ := names_checkInitial hinitial
    exact ⟨init', ty, frame1, s1, hinitial, hbindings, hle, hstmt, hlocals, hbindings ▸ ht⟩

/-- A body in which names are bound again: in the same block, in a block inside, and as
parameters. -/
def reboundNames : Block Mark :=
  let x := Syntax.Expr.ident (default : Mark) "x"
  let y := Syntax.Expr.ident (default : Mark) "y"
  .mk default [.bind default "y" none (some x), .bind default "y" none (some y),
    .expr default (.block default (.mk default [.bind default "x" none (some x)] (some x)))]
    (some x)

/-- The local that a node reads. -/
def Checked.Node.readLocal : Node → Option LocalId
  | .expr (.var _ id) => some id
  | _ => none

/-- Two parameters have one name, and the second one is meant outside of the inner block and in the
initial value there. -/
theorem local_names_follow_scopes_rebound :
    let param : LocalInst := ⟨"x", .bool, default⟩
    let f : FuncInst :=
      { symbol := none, name := "f", kind := .free, returnType := .bool, span := default }
    let run := checkFunction ⟨default, fun _ _ _ => pure none, default, .bool⟩ f (some reboundNames)
      (Frame.ofParams [param, param]) {}
    (run.map fun r => (nodesOfElse r.1.1.2).filterMap Node.readLocal) = some [1, 2, 1, 4, 1] ∧
      (run.map fun r => r.2.errors.map (·.cause)) = some [.alreadyDeclared "y"] ∧
      (run.map fun r => r.2.warnings.map (·.cause)) = some [.shadowed "x"] ∧
      ∀ r, run = some r → agreesElse (.ofParams [param, param]) (some reboundNames) r.1.1.2 :=
  ⟨by decide +kernel, by decide +kernel, by decide +kernel,
    fun r hrun => ((local_names_follow_scopes _).1 _ _ _ _ r.1.1 r.1.2 r.2 hrun).1⟩

end ObjectLang
