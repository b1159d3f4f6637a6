import ObjectLang.Proofs.FunctionBodies
import ObjectLang.Proofs.MemberCourses

/-! # Bodies and declarations along a course

Checking a body follows every course that the requests for classes and for the functions that a body
may call follow, and so does checking all declarations.
-/

namespace ObjectLang.Check

open Source Syntax Scope Names Diagnostic Checked

/-! ### Bodies -/

section

variable {src : Sources} {k : Course src} {request : Nat → ClassRequest} {α : Type}

theorem Works.leadsOn {P : State → Prop} {x : Nat → Checking α} {Q : α → State → Prop} {s : State}
    (h : Works k P x Q) (hs : k.holds s) (hp : P s) : LeadsOn k.holds k.goes k.live x s Q :=
  ⟨h.keeps hs hp, fun hl => h.ends hl hs hp⟩

/-- Whatever a body asks for keeps to the course. -/
structure Course.Hosts (k : Course src) (request : Nat → ClassRequest) : Prop where
  classes : k.Serves request
  functions : ∀ key span, Works k (fun s => k.strict → Callable src k.bound s.program key)
    (fun i => requestFunction src (request i) key span) fun _ _ => True
  takesBack : ∀ {s t}, k.holds s → k.holds t → k.goes s t →
    k.holds (s.takeBack t) ∧ k.goes s (s.takeBack t)

/-- Bodies are checked along the course, and nothing is asked of what they are. -/
def Course.Hosts.host (hk : k.Hosts request) : Host src request where
  holds := k.holds
  goes := k.goes
  closed := ⟨False, False⟩
  strict := k.strict
  live := k.live
  bound := k.bound
  trans := k.trans
  reports hs hst := k.stay hs (hst.still src).2 (hst.still src).1
  takesBack hs ht hst := ⟨(hk.takesBack hs ht hst).1, (hk.takesBack hs ht hst).2, False.elim⟩
  retains := k.retains
  proper := k.proper
  generics := k.generics
  regular h := (or_self_iff.mp h).elim
  orderly h := (or_self_iff.mp h).elim
  advances := False.elim
  types _ e hs _ :=
    ((works_resolveType hk.classes e).imp (fun _ h => h) fun _ h => ⟨False.elim, h⟩).leadsOn
      hs trivial
  typeLists _ es hs _ :=
    ((works_resolveTypes hk.classes es).imp (fun _ h => h) fun _ _ => False.elim).leadsOn hs trivial
  functions key span hs _ _ hcallable :=
    ((hk.functions key span).imp (fun _ h => h) fun _ _ => False.elim).leadsOn hs hcallable

theorem safe_checkFunction (hk : k.Hosts request) (env : BodyEnv) (returnType : Ty)
    (inst : FuncInst) (body : Option (Syntax.Block Mark)) (frame : Frame) :
    Safe k fun i => checkFunction (contextAt src request env returnType i) inst body frame := by
  let point {s : State} (hs : k.holds s) : Point hk.host env returnType :=
    ⟨s, frame, hs, False.elim, False.elim⟩
  have hsteps {s : State} (hs : k.holds s) := walks_checkFunction (point hs) inst False.elim body
  refine ⟨fun hs _ hrun => ?_, fun hl _ hs _ => (hsteps hs).ends hl⟩
  obtain ⟨w, rfl, -, hw, -⟩ := (hsteps hs).keeps hrun
  exact ⟨w.holds, hw.goes, trivial⟩

end

/-! ### Declarations -/

section

variable {src : Sources} {k : Course src} {fuel : Nat → Nat}
  (hr : k.Serves fun i => requestClass src (fuel i))

include hr

theorem safe_checkStructure {id : StructureId} (hid : k.strict → id < k.bound) :
    Safe k fun i => checkStructure src (fuel i) id := by
  have hresolve (e : TypeExpr Mark) : Safe k fun i => do
      let _ ← resolveType src (requestClass src (fuel i)) ∅ e
      return () :=
    .bind (safe_resolveType hr e) fun _ => .pure fun _ _ => trivial
  simp only [checkStructure]
  cases (src.tree.structureAt id).decl with
  | cls c =>
    refine .ite (fun _ => .bind ((hr id [] _).imp (fun _ _ => hid) fun _ h => h) fun _ => ?_)
      fun _ => ?_
    · exact .pure fun _ _ => trivial
    · exact .pure fun _ _ => trivial
  | protocol p =>
    refine .ite (fun _ => .forM fun method _ => .bind (.forM fun p _ => hresolve p.type)
      fun _ => ?_) fun _ => .pure fun _ _ => trivial
    cases method.returnType with
    | some t => exact hresolve t
    | none => exact .pure fun _ _ => trivial
  | enum e => exact .pure fun _ _ => trivial

variable (hq : k.Admits [])
  (howner : k.strict → ∀ f struct, (src.tree.functionAt f).owner = .struct struct →
    struct < k.bound)

include hq howner

theorem safe_checkSymbol (symbol : SymbolId) : Safe k fun i => checkSymbol src (fuel i) symbol := by
  have hsymbol (receiver : Option Ty) :
      Safe k fun i => requestSymbol src (fuel i) symbol receiver :=
    .bind (safe_requestFunction hr _ hq fun hk struct h => .inr (howner hk symbol struct h))
        fun _ =>
      .pure fun _ _ => trivial
  simp only [checkSymbol]
  refine .ite (fun _ => ?_) fun _ => .pure fun _ _ => trivial
  split
  · exact hsymbol none
  · exact .bind (safe_resolveType hr _) fun ty => .ite (fun _ => hsymbol _) fun _ =>
      .pure fun _ _ => trivial
  · exact .pure fun _ _ => trivial

variable (fuel) in
theorem safe_checkDeclarations (hsize : k.strict → src.tree.structures.size ≤ k.bound) :
    Safe k fun i => (do
      src.tree.functions.toList.forM checkModifiers
      (List.range src.tree.structures.size).forM (checkStructure src (fuel i))
      (List.range src.tree.functions.size).forM (checkSymbol src (fuel i))) := by
  refine .bind (.forM fun f _ => .quiet (.checkModifiers f)) fun _ => .bind (.forM fun id hid => ?_)
    fun _ => .forM fun symbol _ => safe_checkSymbol hr hq howner symbol
  exact safe_checkStructure hr fun hk => Nat.lt_of_lt_of_le (List.mem_range.mp hid) (hsize hk)

end

end ObjectLang.Check
