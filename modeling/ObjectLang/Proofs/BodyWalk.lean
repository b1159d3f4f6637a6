import ObjectLang.Proofs.LexicalScopes
import ObjectLang.Proofs.NodeRanges
import ObjectLang.Proofs.ClassRequests
import ObjectLang.Proofs.Courses

/-! # Walking through a body

While a body is checked nothing else is being built: it only reports, resolves types and asks for
functions. So whoever allows that may have bodies checked.  What a step yields names only what is
there, its names stand for the locals that they should, and it obeys the rules as long as nothing
has been reported.
-/

namespace ObjectLang.Check

open Source Syntax Scope Names Diagnostic Checked

/-! ### Between bodies -/

section

variable {src : Sources} {closed : Trust} {s t : State}

/-- Nothing waits and nothing is being built. -/
theorem Orderly.built (hs : Orderly src closed {} s) (hc : closed) {c : ClassId}
    (hlt : c < s.program.classes.size) : s.program.Built c :=
  hs.built_of_idle rfl hc hlt

theorem Orderly.extends (hs : Orderly src closed {} s) (ht : Orderly src closed {} t) (hc : closed)
    (hst : Advances {} s t) : Extends s t := by
  have hkept {c} (hlt : c < s.program.classes.size) := hst.kept (.inl (hs.built hc hlt))
  have hwithin {c d} (hlt : c < s.program.classes.size) (hd : d ∈ s.program.chain c) :=
    hs.table.placed.mem_chain_lt hlt hd
  refine ⟨hst.classes, hst.functions, hkept, fun hlt => ?_, hwithin, fun hlt => ?_,
    hst.implementors⟩
  · refine Program.chain_congr hs.table.placed.ranked ht.table.placed.ranked fun d hd => ?_
    rw [(hkept (hwithin hlt hd)).1]
  · have halike := hst.alike hlt
    have hsigned := hst.signed hlt List.not_mem_nil
    refine ⟨halike.name, hsigned.params, hsigned.returnType, halike.receiver, ?_⟩
    refine hst.slots hlt fun c howner => .inl (hs.built hc ?_)
    exact ((hs.typed hc).functions _).receiver _ (hs.catalogue.owned howner) c rfl

end

/-! ### Who has bodies checked -/

/-- A body may ask for the function: it stands in a namespace and, if it has a receiver, is called
on the type that its clause stands for; or it is a generic method. -/
def Callable (src : Sources) (n : Nat) (p : Program) (key : FunctionKey) : Prop :=
  (key.symbol < n ∧ (∃ ns, (src.tree.functionAt key.symbol).owner = .ns ns) ∧
      ∀ ty, key.receiver = some ty → ∃ clause,
        (src.tree.functionAt key.symbol).decl.receiver = some clause ∧
        typeOf src p (Subst.bind ∅ (src.tree.functionAt key.symbol).decl.typeParams key.typeArgs)
          clause = some ty) ∨
    (src.tree.functionAt key.symbol).decl.typeParams ≠ [] ∧ ∃ c, key.receiver = some (.object c)

theorem Retains.callable {src : Sources} {n : Nat} {s t : State} {key : FunctionKey}
    (h : Retains s t) (hkey : Callable src n s.program key) : Callable src n t.program key := by
  refine hkey.imp_left fun ⟨hlt, howner, hreceiver⟩ => ⟨hlt, howner, fun ty hty => ?_⟩
  obtain ⟨clause, hclause, htype⟩ := hreceiver ty hty
  exact ⟨clause, hclause, typeOf_later h.classes clause htype⟩

/-- Something is known of types or of functions. -/
def Trust.Some (closed : Trust) : Prop := closed ∨ closed.known

/-- The steps lead on from the state, and if that is asked for there is a result with enough
fuel. -/
def LeadsOn {α : Type} (holds : State → Prop) (goes : State → State → Prop) (live : Prop)
    (x : Nat → Checking α) (s : State) (Q : α → State → Prop) : Prop :=
  (∀ {i a t}, x i s = some (a, t) → holds t ∧ goes s t ∧ Q a t) ∧ (live → Ends fun i => x i s)

/-- Someone who has bodies checked.  All that a strict one is asked for is on record. -/
structure Host (src : Sources) (request : Nat → ClassRequest) where
  /-- Holds of every state. -/
  holds : State → Prop
  /-- Holds between a state and a later one. -/
  goes : State → State → Prop
  closed : Trust
  strict : Prop
  live : Prop
  /-- Declarations have smaller numbers. -/
  bound : Nat
  trans : ∀ {s t u}, goes s t → goes t u → goes s u
  reports : ∀ {s t}, holds s → Reports s t → holds t ∧ goes s t
  takesBack : ∀ {s t}, holds s → holds t → goes s t →
    holds (s.takeBack t) ∧ goes s (s.takeBack t) ∧ (closed → goes t (s.takeBack t))
  retains : strict → ∀ {s t}, goes s t → Retains s t
  proper : strict → src.Proper bound
  generics : strict → ∀ {s}, holds s → GenericMethods src s.program
  regular : closed.Some → src.Regular
  orderly : closed.Some → ∀ {s}, holds s → Orderly src closed {} s
  advances : closed → ∀ {s t}, goes s t → Advances {} s t
  types : ∀ {s} subst e, holds s → (closed → Subst.Within s.program subst) →
    LeadsOn holds goes live (fun i => resolveType src (request i) subst e) s fun ty t =>
      (closed → ty.Within t.program) ∧ (strict → Resolves src t subst e ty)
  typeLists : ∀ {s} subst es, holds s → (closed → Subst.Within s.program subst) →
    LeadsOn holds goes live (fun i => resolveTypes src (request i) subst es) s fun tys t =>
      closed → ∀ ty ∈ tys, ty.Within t.program
  functions : ∀ {s} key span, holds s → (closed → KeyWithin s.program key) →
    (closed.known → Bare src key) → (strict → Callable src bound s.program key) →
    LeadsOn holds goes live (fun i => requestFunction src (request i) key span) s fun r t =>
      closed → ∀ f, r = some f → f < t.program.functions.size ∧
        Satisfies src key (t.program.functionAt f)

/-! ### Where a body stands -/

/-- The surroundings of a body are those of its function. -/
structure EnvFits (p : Program) (env : BodyEnv) : Prop where
  subst : env.subst.Within p
  selfType : ∀ ty, env.selfType = some ty → ty.Within p
  cls : ∀ c, env.cls = some c → c < p.classes.size ∧ ∀ ty, env.selfType = some ty → ty = .object c

theorem EnvFits.mono {p q : Program} {env : BodyEnv} (h : EnvFits p env)
    (hsize : p.classes.size ≤ q.classes.size) : EnvFits q env :=
  ⟨h.subst.mono hsize, fun ty hty => (h.selfType ty hty).mono hsize, fun c hc =>
    ⟨Nat.lt_of_lt_of_le (h.cls c hc).1 hsize, (h.cls c hc).2⟩⟩

/-- The names that are bound stand for locals. -/
structure Frame.Fits (p : Program) (frame : Frame) : Prop where
  locals : ∀ l ∈ frame.locals, l.ty.Within p
  bound : ∀ names ∈ frame.bindings, ∀ name id, names name = some id → id < frame.locals.length

theorem Frame.Fits.mono {p q : Program} {frame : Frame} (h : frame.Fits p)
    (hsize : p.classes.size ≤ q.classes.size) : frame.Fits q :=
  ⟨fun l hl => (h.locals l hl).mono hsize, h.bound⟩

/-- A body in its surroundings, which asks for classes with the given fuel. -/
abbrev contextAt (src : Sources) (request : Nat → ClassRequest) (env : BodyEnv) (returnType : Ty)
    (i : Nat) : BodyContext :=
  { src, request := request i, env, returnType }

/-- A point in a body. -/
structure Point {src : Sources} {request : Nat → ClassRequest} (h : Host src request)
    (env : BodyEnv) (returnType : Ty) where
  state : State
  frame : Frame
  holds : h.holds state
  around : h.closed → EnvFits state.program env
  fits : h.closed → frame.Fits state.program

variable {src : Sources} {request : Nat → ClassRequest} {h : Host src request} {env : BodyEnv}
  {returnType : Ty} {w w' w'' : Point h env returnType} {α β : Type}

namespace Point

abbrev ctx (_ : Point h env returnType) (i : Nat) : BodyContext :=
  contextAt src request env returnType i

def judge (w : Point h env returnType) : Judge :=
  ⟨w.state, w.frame.locals, env.selfType, returnType⟩

/-- The receiver does not depend on how requests for classes are served. -/
theorem selfExpr_ctx (w : Point h env returnType) (i node : Nat) (span : Span) :
    selfExpr (w.ctx i) node span = selfExpr (w.ctx 0) node span := rfl

theorem orderly (w : Point h env returnType) (hc : h.closed) : Orderly src h.closed {} w.state :=
  h.orderly (.inl hc) w.holds

theorem typed (w : Point h env returnType) (hc : h.closed) : Typed w.state.program :=
  (w.orderly hc).typed hc

/-- The body goes on; there may be more locals. -/
structure Goes (w w' : Point h env returnType) : Prop where
  goes : h.goes w.state w'.state
  locals : w.frame.locals <+: w'.frame.locals

/-- What a step in an expression may change: the same names stand for the same locals. -/
structure Stays (w w' : Point h env returnType) : Prop extends Goes w w' where
  blocks : w'.frame.blocks = w.frame.blocks

/-- What a statement may change: names are bound in the innermost block. -/
structure Declares (w w' : Point h env returnType) (Γ : Bindings) : Prop extends Goes w w' where
  tail : w'.frame.blocks.tail = w.frame.blocks.tail
  bindings : w'.frame.bindings = Γ

namespace Goes

theorem advances (hw : w.Goes w') (hc : h.closed) : Advances {} w.state w'.state :=
  h.advances hc hw.goes

theorem classes (hw : w.Goes w') (hc : h.closed) :
    w.state.program.classes.size ≤ w'.state.program.classes.size :=
  (hw.advances hc).classes

theorem clean (hw : w.Goes w') (hc : h.closed) (hw' : w'.state.Clean) : w.state.Clean :=
  (hw.advances hc).clean hw'

theorem «extends» (hw : w.Goes w') (hc : h.closed) : Extends w.state w'.state :=
  (w.orderly hc).extends (w'.orderly hc) hc (hw.advances hc)

theorem grows (hw : w.Goes w') (hc : h.closed) : w.judge.Grows w'.judge :=
  ⟨hw.extends hc, hw.locals, rfl, rfl⟩

theorem trans (hw : w.Goes w') (hw' : w'.Goes w'') : w.Goes w'' :=
  ⟨h.trans hw.goes hw'.goes, hw.locals.trans hw'.locals⟩

end Goes

theorem Stays.refl (w : Point h env returnType) : w.Stays w :=
  ⟨⟨(h.reports w.holds (.refl _)).2, List.prefix_rfl⟩, rfl⟩

theorem Stays.trans (hw : w.Stays w') (hw' : w'.Stays w'') : w.Stays w'' :=
  ⟨hw.toGoes.trans hw'.toGoes, hw'.blocks.trans hw.blocks⟩

theorem Stays.bindings (hw : w.Stays w') : w'.frame.bindings = w.frame.bindings := by
  rw [Frame.bindings, hw.blocks, Frame.bindings]

/-- The same point in a later state. -/
def later (w : Point h env returnType) {t : State} (ht : h.holds t) (hst : h.goes w.state t) :
    Point h env returnType where
  state := t
  frame := w.frame
  holds := ht
  around hc := (w.around hc).mono (h.advances hc hst).classes
  fits hc := (w.fits hc).mono (h.advances hc hst).classes

theorem stays_later {t : State} (ht : h.holds t) (hst : h.goes w.state t) :
    w.Stays (w.later ht hst) :=
  ⟨⟨hst, List.prefix_rfl⟩, rfl⟩

end Point

/-! ### What is found -/

/-- The types are types of the program.  The nodes name what is there, have the types and marks of
their parts and obey the rules if nothing was reported.  What is asked of the names holds. -/
structure Good (w : Point h env returnType) (tys : List Ty) (nodes : List Node)
    (φ : Bindings → Prop) :
    Prop where
  within : h.closed → ∀ ty ∈ tys, ty.Within w.state.program
  ranged : h.closed → w.judge.Ranged src.tree nodes
  formed : h.closed → Formed w.state.program nodes
  passes : h.closed → w.state.Clean → w.judge.Passes nodes
  known : φ w.frame.bindings

abbrev GoodBy (R : Bindings → Expr → Prop) (e : Expr) (w : Point h env returnType) : Prop :=
  Good w [e.ty] e.nodes (R · e)

abbrev GoodAll (A : Bindings → List Expr → Prop) (es : List Expr) (w : Point h env returnType) :
    Prop :=
  Good w (es.map Expr.ty) (nodesOfExprs es) (A · es)

abbrev GoodExpr (x : Syntax.Expr Mark) (e : Expr) (w : Point h env returnType) : Prop :=
  GoodBy (Agrees · x) e w

abbrev GoodOption (x : Option (Syntax.Expr Mark)) (e : Option Expr) (w : Point h env returnType) :
    Prop :=
  Good w (e.map Expr.ty).toList (nodesOfOption e) (agreesOption · x e)

abbrev GoodStmt (x : Syntax.Stmt Mark) (stmt : Stmt) (w : Point h env returnType) : Prop :=
  Good w [] stmt.nodes (agreesStmt · x stmt)

abbrev GoodBlock (x : Syntax.Block Mark) (b : Block) (w : Point h env returnType) : Prop :=
  Good w [b.ty] b.nodes (agreesBlock · x b)

abbrev GoodElse (x : Option (Syntax.Block Mark)) (b : Option Block) (w : Point h env returnType) :
    Prop :=
  Good w (b.map Block.ty).toList (nodesOfElse b) (agreesElse · x b)

section

variable {tys tys' : List Ty} {nodes nodes' : List Node} {φ ψ : Bindings → Prop}

theorem Good.ty_within {ty : Ty} (hg : Good w (ty :: tys) nodes φ) (hc : h.closed) :
    ty.Within w.state.program :=
  hg.within hc ty List.mem_cons_self

/-- What was found is as good later on, where its names may stand for something else. -/
theorem Good.fixed (hg : Good w tys nodes φ) (hw : h.closed → w.Goes w') :
    Good w' tys nodes fun _ => φ w.frame.bindings :=
  ⟨fun hc ty hty => (hg.within hc ty hty).mono ((hw hc).classes hc),
    fun hc => ((hw hc).grows hc).ranged (hg.ranged hc),
    fun hc => ((hw hc).grows hc).formed (hg.ranged hc) (hg.formed hc),
    fun hc ht => ((hw hc).grows hc).passes (hg.passes hc ((hw hc).clean hc ht)), hg.known⟩

theorem Good.append (hg : Good w tys nodes φ) (hg' : Good w tys' nodes' ψ) :
    Good w (tys ++ tys') (nodes ++ nodes') fun Γ => φ Γ ∧ ψ Γ := by
  refine ⟨fun hc ty hty => ?_, fun hc => (hg.ranged hc).append (hg'.ranged hc),
    fun hc => formed_append.mpr ⟨hg.formed hc, hg'.formed hc⟩,
    fun hc hs => (hg.passes hc hs).append (hg'.passes hc hs), hg.known, hg'.known⟩
  rcases List.mem_append.mp hty with hty | hty
  · exact hg.within hc ty hty
  · exact hg'.within hc ty hty

theorem Good.tail {node : Node} (hg : Good w tys (node :: nodes) φ) : Good w tys nodes φ :=
  ⟨hg.within, fun hc n hn => hg.ranged hc n (List.mem_cons_of_mem node hn),
    fun hc => (formed_cons.mp (hg.formed hc)).2,
    fun hc hs n hn => hg.passes hc hs n (List.mem_cons_of_mem node hn), hg.known⟩

theorem Good.imp (hg : Good w tys nodes φ) (hφ : φ w.frame.bindings → ψ w.frame.bindings) :
    Good w tys nodes ψ :=
  ⟨hg.within, hg.ranged, hg.formed, hg.passes, hφ hg.known⟩

theorem Good.later (hg : Good w tys nodes φ) (hw : w.Stays w') : Good w' tys nodes φ :=
  (hg.fixed fun _ => hw.toGoes).imp fun hφ => hw.bindings ▸ hφ

theorem good_nil (hφ : φ w.frame.bindings) : Good w [] [] φ :=
  ⟨fun _ _ hty => absurd hty List.not_mem_nil, fun _ => Judge.ranged_nil, fun _ => formed_nil,
    fun _ _ => Judge.passes_nil, hφ⟩

/-- An expression is good if its parts are and it keeps to the rules itself. -/
theorem good_expr {e : Expr} (hnodes : e.nodes = .expr e :: nodes) (hparts : Good w tys nodes φ)
    (hwithin : h.closed → e.ty.Within w.state.program)
    (hrange : h.closed → w.judge.ExprRange src.tree e) (hform : e.Formed w.state.program)
    (hrule : h.closed → w.state.Clean → w.judge.ExprRule e)
    (hdispatch : h.closed → w.state.Clean → w.judge.DispatchRule e)
    (hψ : φ w.frame.bindings → ψ w.frame.bindings) : Good w [e.ty] e.nodes ψ := by
  rw [hnodes]
  refine ⟨fun hc ty hty => ?_, fun hc => .cons ⟨hwithin hc, hrange hc⟩ (hparts.ranged hc),
    fun hc => formed_cons.mpr ⟨hform, hparts.formed hc⟩,
    fun hc hs => .cons (hrule hc hs) (hdispatch hc hs) (hparts.passes hc hs), hψ hparts.known⟩
  rw [List.mem_singleton.mp hty]
  exact hwithin hc

theorem good_leaf {e : Expr} (hnodes : e.nodes = [.expr e])
    (hwithin : h.closed → e.ty.Within w.state.program)
    (hrange : h.closed → w.judge.ExprRange src.tree e) (hform : e.Formed w.state.program)
    (hrule : h.closed → w.judge.ExprRule e) (hdispatch : w.judge.DispatchRule e)
    (hψ : ψ w.frame.bindings) : Good w [e.ty] e.nodes ψ :=
  good_expr hnodes (good_nil (φ := fun _ => True) trivial) hwithin hrange hform
    (fun hc _ => hrule hc) (fun _ _ => hdispatch) fun _ => hψ

theorem good_stmt {stmt : Stmt} (hnodes : stmt.nodes = .stmt stmt :: nodes)
    (hparts : Good w tys nodes φ) (hrange : h.closed → w.judge.StmtRange stmt)
    (hrule : h.closed → w.state.Clean → w.judge.StmtRule stmt)
    (hψ : φ w.frame.bindings → ψ w.frame.bindings) : Good w [] stmt.nodes ψ := by
  rw [hnodes]
  exact ⟨fun _ _ hty => absurd hty List.not_mem_nil, fun hc => .cons (hrange hc) (hparts.ranged hc),
    fun hc => formed_cons.mpr ⟨trivial, hparts.formed hc⟩,
    fun hc hs => .cons (hrule hc hs) trivial (hparts.passes hc hs), hψ hparts.known⟩

theorem good_errorExpr (w : Point h env returnType) (span : Span) {R : Bindings → Expr → Prop}
    (hR : ∀ Γ, R Γ (errorExpr span)) : GoodBy R (errorExpr span) w :=
  good_leaf rfl (fun _ => Ty.within_unknown) (fun _ => trivial) trivial (fun _ => rfl)
    trivial (hR _)

end

/-! ### Steps -/

/-- Every run of the steps from the point leads to one where `Q` holds, and if that is asked for
there is a result with enough fuel. -/
structure Steps (w : Point h env returnType) (x : Nat → BodyCheck α)
    (Q : α → Point h env returnType → Prop) : Prop where
  keeps : ∀ {i a frame t}, x i w.frame w.state = some ((a, frame), t) →
    ∃ w' : Point h env returnType, w'.state = t ∧ w'.frame = frame ∧ Q a w'
  ends : h.live → Ends fun i => x i w.frame w.state

namespace Steps

variable {x : Nat → BodyCheck α} {Q Q' : α → Point h env returnType → Prop}

theorem imp (hx : Steps w x Q) (hQ : ∀ a w', Q a w' → Q' a w') : Steps w x Q' where
  keeps hrun := by
    obtain ⟨w', ht, hframe, hq⟩ := hx.keeps hrun
    exact ⟨w', ht, hframe, hQ _ w' hq⟩
  ends := hx.ends

theorem pure {a : α} (ha : Q a w) : Steps w (fun _ => Pure.pure a) Q where
  keeps hrun := by
    cases hrun
    exact ⟨w, rfl, rfl, ha⟩
  ends _ := .step rfl

theorem bind {f : Nat → α → BodyCheck β} {Q' : β → Point h env returnType → Prop} (hx : Steps w x Q)
    (hf : ∀ a w', Q a w' → Steps w' (fun i => f i a) Q') : Steps w (fun i => x i >>= f i) Q' where
  keeps hrun := by
    obtain ⟨a, frame1, s1, h1, h2⟩ := body_bind_some hrun
    obtain ⟨w1, rfl, rfl, hq⟩ := hx.keeps h1
    exact (hf a w1 hq).keeps h2
  ends hl := (hx.ends hl).bind fun {_ r} hrun => by
    obtain ⟨w1, hs, hframe, hq⟩ := hx.keeps hrun
    have hrest := (hf r.1.1 w1 hq).ends hl
    rw [hs, hframe] at hrest
    exact hrest

/-- A step that only changes the names that are bound. -/
theorem modifyFrame {f : Frame → Frame} {k : Nat → PUnit → BodyCheck α}
    (w' : Point h env returnType) (hw : w'.state = w.state)
    (hframe : w'.frame = f w.frame) (hk : Steps w' (fun i => k i ⟨⟩) Q) :
    Steps w (fun i => (modify f : BodyCheck PUnit) >>= k i) Q := by
  obtain ⟨hkeeps, hends⟩ := hk
  rw [hw, hframe] at hkeeps hends
  exact ⟨hkeeps, hends⟩

end Steps

theorem lift_some {x : Checking α} {a : α} {frame frame' : Frame} {s t : State}
    (hrun : (liftM x : BodyCheck α) frame s = some ((a, frame'), t)) :
    x s = some (a, t) ∧ frame' = frame := by
  rcases bind_some (x := x) (f := fun a => pure (a, frame)) hrun with ⟨b, s1, hx, hb⟩
  cases hb
  exact ⟨hx, rfl⟩

/-- Steps in an expression: they leave the names of the body alone. -/
def Walks (w : Point h env returnType) (x : Nat → BodyCheck α)
    (Q : α → Point h env returnType → Prop) :
    Prop :=
  Steps w x fun a w' => w.Stays w' ∧ Q a w'

namespace Walks

variable {x : Nat → BodyCheck α} {Q Q' : α → Point h env returnType → Prop}

theorem imp (hx : Walks w x Q) (hQ : ∀ a w', w.Stays w' → Q a w' → Q' a w') : Walks w x Q' :=
  Steps.imp hx fun a w' hw => ⟨hw.1, hQ a w' hw.1 hw.2⟩

theorem pure {a : α} (ha : Q a w) : Walks w (fun _ => Pure.pure a) Q := Steps.pure ⟨.refl w, ha⟩

theorem bind {f : Nat → α → BodyCheck β} {Q' : β → Point h env returnType → Prop} (hx : Walks w x Q)
    (hf : ∀ a w', w.Stays w' → Q a w' → Walks w' (fun i => f i a) Q') :
    Walks w (fun i => x i >>= f i) Q' :=
  Steps.bind hx fun a w1 hw => Steps.imp (hf a w1 hw.1 hw.2) fun _ _ hw' =>
    ⟨hw.1.trans hw'.1, hw'.2⟩

theorem ite {c : Prop} [Decidable c] {y : Nat → BodyCheck α} (hx : c → Walks w x Q)
    (hy : ¬c → Walks w y Q) : Walks w (fun i => if c then x i else y i) Q := by
  by_cases hc : c
  · simpa only [if_pos hc] using hx hc
  · simpa only [if_neg hc] using hy hc

theorem lift {y : Nat → Checking α} {P : α → State → Prop}
    (hy : LeadsOn h.holds h.goes h.live y w.state P) :
    Walks w (fun i => (liftM (y i) : BodyCheck α)) fun a w' => P a w'.state where
  keeps hrun := by
    obtain ⟨hy', rfl⟩ := lift_some hrun
    obtain ⟨ht, hst, hp⟩ := hy.1 hy'
    exact ⟨w.later ht hst, rfl, rfl, Point.stays_later ht hst, hp⟩
  ends hl := (hy.2 hl).bind fun _ => .step rfl

theorem quiet {y : Checking α} (hy : Quiet y) :
    Walks w (fun _ => (liftM y : BodyCheck α)) fun a w' => y w.state = some (a, w'.state) := by
  refine .lift (P := fun a t => y w.state = some (a, t)) ⟨fun hrun => ?_, fun _ => ?_⟩
  · obtain ⟨ht, hst⟩ := h.reports w.holds (hy.reports hrun)
    exact ⟨ht, hst, hrun⟩
  · obtain ⟨a, t, hrun, -⟩ := @hy w.state
    exact .step hrun

/-- A report under a condition only, and what follows it in any case. -/
theorem «when» {c : Prop} [Decidable c] {y : Checking PUnit} {f : Nat → PUnit → BodyCheck β}
    {Q : β → Point h env returnType → Prop} (hy : Quiet y)
    (hf : ∀ w', w.Stays w' → (if c then y else Pure.pure ⟨⟩) w.state = some (⟨⟩, w'.state) →
      Walks w' (fun i => f i ⟨⟩) Q) :
    Walks w (fun i => if c then (liftM y : BodyCheck PUnit) >>= f i else f i ⟨⟩) Q := by
  refine .ite (fun hc => .bind (.quiet hy) fun _ w1 hw hrun => hf w1 hw ?_) fun hc =>
    hf w (.refl w) ?_
  · rw [if_pos hc]
    exact hrun
  · rw [if_neg hc]
    rfl

theorem program {f : Nat → Program → BodyCheck α} (hf : Walks w (fun i => f i w.state.program) Q) :
    Walks w (fun i => (liftM getProgram : BodyCheck Program) >>= f i) Q :=
  ⟨hf.keeps, hf.ends⟩

theorem state {f : Nat → State → BodyCheck α} (hf : Walks w (fun i => f i w.state) Q) :
    Walks w (fun i => (getThe State : BodyCheck State) >>= f i) Q :=
  ⟨hf.keeps, hf.ends⟩

theorem frame {f : Nat → Frame → BodyCheck α} (hf : Walks w (fun i => f i w.frame) Q) :
    Walks w (fun i => (get : BodyCheck Frame) >>= f i) Q :=
  ⟨hf.keeps, hf.ends⟩

/-- Something was reported, and nothing is known of the result. -/
theorem refused {y : Checking Unit} (hy : Quiet y) {span : Span} {R : Bindings → Expr → Prop}
    (hR : ∀ Γ, R Γ (errorExpr span)) : Walks w (fun _ => do y; return errorExpr span) (GoodBy R) :=
  .bind (.quiet hy) fun _ _ _ _ => .pure (good_errorExpr _ span hR)

theorem type (e : TypeExpr Mark) :
    Walks w (fun i => (liftM (resolveType src (request i) env.subst e) :
    BodyCheck Ty)) fun ty w' => h.closed → ty.Within w'.state.program :=
  (Walks.lift (h.types env.subst e w.holds fun hc => (w.around hc).subst)).imp
    fun _ _ _ hty => hty.1

end Walks

theorem Reports.isAssignable {s t : State} (hst : Reports s t) (source target : Ty) :
    t.isAssignable source target = s.isAssignable source target := by
  rcases hst with ⟨_, _, rfl, -⟩
  rfl

/-- What was expected to be assignable is so if nothing was reported. -/
theorem accepts_of_expected {source target : Ty} {span : Span}
    (hrun : expectAssignable src source target span w.state = some ((), w'.state))
    (hwithin : source.Within w'.state.program) (hclean : w'.state.Clean) :
    w'.judge.Accepts target source := by
  refine ⟨hwithin, ?_⟩
  rw [Point.judge, ((Quiet.expectAssignable src source target span).reports hrun).isAssignable]
  exact expectAssignable_clean hrun hclean

end ObjectLang.Check
