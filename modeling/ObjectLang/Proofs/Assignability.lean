import ObjectLang.Proofs.PublicRequests

/-! # The order of types

Known types are ordered by what can be stored where.  Classes come after their ancestors and after
the protocols that their declarations or those of their ancestors conform to.  While a check goes
on, classes are added and declarations are found to conform to protocols; so what is assignable
stays so.
-/

namespace ObjectLang.Checked

variable {p q : Program}

namespace Program

/-- What is above an ancestor is above the class. -/
theorem chain_subset (hp : p.Ranked) {c d : ClassId} (h : d ∈ p.chain c) :
    p.chain d ⊆ p.chain c := by
  induction c using ancestor_induction hp with
  | _ c ih =>
    rcases mem_chain_cases hp h with rfl | ⟨a, ha, hd⟩
    · exact fun _ h => h
    · exact fun e he => mem_chain_of_ancestor hp ha (ih a ha hd he)

theorem eq_of_mem_chain (hp : p.Ranked) {c d : ClassId} (h : d ∈ p.chain c) (h' : c ∈ p.chain d) :
    c = d := by
  rcases mem_chain_cases hp h with rfl | ⟨a, ha, hd⟩
  · rfl
  · -- The number of the ancestor is smaller than that of the class, and not smaller either.
    have hlt := (hp ha).2
    have hle := chainId_le_of_mem_chainWithin hp (chain_subset hp hd h')
    omega

end Program

/-- The type is known, and if it is a class, then one that has been built. -/
def Ty.Complete (p : Program) (ty : Ty) : Prop := ty ≠ .unknown ∧ ∀ c, ty = .object c → p.Built c

end ObjectLang.Checked

namespace ObjectLang.Check

open Source Syntax Scope Names Diagnostic Checked

/-! ### A partial order -/

/-- Assignability orders the known types. -/
structure State.OrdersTypes (s : State) : Prop where
  refl : ∀ a, s.isAssignable a a = true
  trans : ∀ a b c, a ≠ .unknown → b ≠ .unknown → c ≠ .unknown → s.isAssignable a b = true →
    s.isAssignable b c = true → s.isAssignable a c = true
  antisymm : ∀ a b, a ≠ .unknown → b ≠ .unknown → s.isAssignable a b = true →
    s.isAssignable b a = true → a = b

/-- What is assignable among complete types stays so. -/
def State.Preserves (s t : State) : Prop :=
  ∀ a b, a.Complete s.program → b.Complete s.program → s.isAssignable a b = true →
    a.Complete t.program ∧ b.Complete t.program ∧ t.isAssignable a b = true

/-- The ways in which one known type is assignable to another. -/
inductive State.Fits (s : State) : Ty → Ty → Prop where
  | same (a : Ty) : Fits s a a
  | subclass {c d : ClassId} (h : d ∈ s.program.chain c) : Fits s (.object c) (.object d)
  | conforms {c a : ClassId} {p : StructureId} (ha : a ∈ s.program.chain c)
      (h : (s.program.classAt a).struct ∈ s.implementorsOf p) : Fits s (.object c) (.protocol p)

variable {src : Sources} {closed : Trust} {w : Work} {s t u : State}

theorem isAssignable_iff_fits {a b : Ty} (ha : a ≠ .unknown) (hb : b ≠ .unknown) :
    s.isAssignable a b = true ↔ s.Fits a b := by
  have hunknown {ty : Ty} (h : ty ≠ .unknown) : ty.isUnknown = false := by
    simpa [Ty.isUnknown] using h
  simp only [State.isAssignable, hunknown ha, hunknown hb, Bool.or_false, Bool.or_eq_true,
    beq_iff_eq]
  constructor
  · rintro (rfl | h)
    · exact .same a
    · split at h
      · exact .subclass (List.contains_iff_mem.mp h)
      · obtain ⟨c, hc, h⟩ := List.any_eq_true.mp h
        exact .conforms hc (List.contains_iff_mem.mp h)
      · cases h
  · rintro (_ | h | ⟨hc, h⟩)
    · exact .inl rfl
    · exact .inr (List.contains_iff_mem.mpr h)
    · exact .inr (List.any_eq_true.mpr ⟨_, hc, List.contains_iff_mem.mpr h⟩)

theorem State.Fits.trans (hp : s.program.Ranked) {a b c : Ty} (h : s.Fits a b) (h' : s.Fits b c) :
    s.Fits a c := by
  cases h with
  | same => exact h'
  | subclass hd =>
    cases h' with
    | same => exact .subclass hd
    | subclass he => exact .subclass (Program.chain_subset hp hd he)
    | conforms he h => exact .conforms (Program.chain_subset hp hd he) h
  | conforms hd h =>
    cases h'
    exact .conforms hd h

theorem State.Fits.antisymm (hp : s.program.Ranked) {a b : Ty} (h : s.Fits a b) (h' : s.Fits b a) :
    a = b := by
  cases h with
  | same => rfl
  | subclass hd =>
    cases h' with
    | same => rfl
    | subclass hc => rw [Program.eq_of_mem_chain hp hd hc]
  | conforms => cases h'

theorem ordersTypes_of_ranked (hp : s.program.Ranked) : s.OrdersTypes where
  refl a := by simp [State.isAssignable]
  trans a b c ha hb hc := by
    rw [isAssignable_iff_fits ha hb, isAssignable_iff_fits hb hc, isAssignable_iff_fits ha hc]
    exact State.Fits.trans hp
  antisymm a b ha hb := by
    rw [isAssignable_iff_fits ha hb, isAssignable_iff_fits hb ha]
    exact State.Fits.antisymm hp

/-! ### Growth -/

namespace State.Grows

/-- Chains of classes that have been built stay as they are. -/
theorem fits (h : s.Grows t) (hs : s.program.Placed) (ht : t.program.Placed) {a b : Ty}
    (ha : a.Complete s.program) (hfits : s.Fits a b) : t.Fits a b := by
  have hchain {c : ClassId} (hc : s.program.Built c) : t.program.chain c = s.program.chain c :=
    Program.chain_congr hs.ranked ht.ranked fun d hd => by
      rw [(h.kept (hs.built_of_mem_chain hc hd)).1]
  cases hfits with
  | same => exact .same a
  | @subclass c d hd => exact .subclass (hchain (ha.2 c rfl) ▸ hd)
  | @conforms c d p hd hx =>
    have hc := ha.2 c rfl
    refine .conforms (hchain hc ▸ hd) ?_
    rw [(h.kept (hs.built_of_mem_chain hc hd)).1]
    exact h.implementors hx

theorem preserves (h : s.Grows t) (hs : s.program.Placed) (ht : t.program.Placed) :
    s.Preserves t := by
  intro a b ha hb hfits
  have hcomplete {ty : Ty} (hty : ty.Complete s.program) : ty.Complete t.program :=
    ⟨hty.1, fun c hc => h.built (hty.2 c hc)⟩
  refine ⟨hcomplete ha, hcomplete hb, ?_⟩
  rw [isAssignable_iff_fits ha.1 hb.1] at hfits ⊢
  exact h.fits hs ht ha hfits

end State.Grows

/-! ### Along a check -/

/-- A step of a check, small or large, and whatever it is about. -/
inductive Move (src : Sources) (s t : State) : Prop where
  | run {request : Request} {fuel : Nat} {r : Option Nat} (h : request.run src fuel s = some (r, t))
  | cls {fuel : Nat} {struct : StructureId} {typeArgs : List Ty} {span : Span} {r : Option ClassId}
      (h : requestClass src fuel struct typeArgs span s = some (r, t))
  | function {fuel : Nat} {key : FunctionKey} {span : Span} {r : Option FuncId}
      (h : requestFunction src (requestClass src fuel) key span s = some (r, t))
  | type {fuel : Nat} {subst : Subst} {e : TypeExpr Mark} {ty : Ty}
      (h : resolveType src (requestClass src fuel) subst e s = some (ty, t))
  | orphans {fuel steps : Nat} (h : completeOrphans src (requestClass src fuel) steps s =
      some ((), t))
  | takeBody {task : BodyTask} {rest : List BodyTask} (hbodies : s.bodies = task :: rest)
      (h : t = { s with bodies := rest })
  | depth {depth : Nat} (h : setDepth depth s = some ((), t))
  | default {ctx : BodyContext} {fuel : Nat} (hsrc : ctx.src = src)
      (hrequest : ctx.request = requestClass src fuel) {cls : ClassId} {field : FieldInst}
      {r : Option FieldInit} {frame frame' : Frame}
      (h : checkFieldDefault ctx cls field frame s = some ((r, frame'), t))
  | expr {ctx : BodyContext} {fuel : Nat} (hsrc : ctx.src = src)
      (hrequest : ctx.request = requestClass src fuel) {e : Syntax.Expr Mark} {expected : Option Ty}
      {e' : Expr} {frame frame' : Frame}
      (h : checkExpr ctx e expected frame s = some ((e', frame'), t))
  | stmt {ctx : BodyContext} {fuel : Nat} (hsrc : ctx.src = src)
      (hrequest : ctx.request = requestClass src fuel) {stmt : Syntax.Stmt Mark} {stmt' : Stmt}
      {frame frame' : Frame} (h : checkStmt ctx stmt frame s = some ((stmt', frame'), t))
  | block {ctx : BodyContext} {fuel : Nat} (hsrc : ctx.src = src)
      (hrequest : ctx.request = requestClass src fuel) {b : Syntax.Block Mark}
      {expected : Option Ty}
      {b' : Block} {frame frame' : Frame}
      (h : checkBlock ctx b expected frame s = some ((b', frame'), t))
  | giveBody {f : FuncId} {span : Span} {inits : List FieldInit} {checked : Option Block}
      {locals : List LocalInst} (hf : f < s.program.functions.size)
      (h : updateFunction f (withBody span inits checked locals) s = some ((), t))

/-- The later state is one that steps of a check lead to from the earlier one. -/
def Later (src : Sources) : State → State → Prop := Relation.ReflTransGen (Move src)

/-- The states that checks lead to. -/
def Visited (src : Sources) : State → Prop := Later src {}

section

variable (hreg : src.Regular)

/-- Nothing is assumed of what is asked for. -/
theorem judged_untrusted (s : State) : Judged src ⟨False, False⟩ s :=
  ⟨fun h => h.elim, fun h => h.elim, fun h => h.elim⟩

include hreg

theorem grows_run {request : Request} {fuel : Nat} {r : Option Nat}
    (hs : Orderly src ⟨False, False⟩ {} s)
    (h : request.run src fuel s = some (r, t)) : Orderly src ⟨False, False⟩ {} t ∧ s.Grows t := by
  rw [Request.run_eq_serve] at h
  obtain ⟨ht, hst, -⟩ := orderly_serve hreg hs (judged_untrusted s)
    (fun _ _ h => orderly_action hreg hs False.elim h) h
  exact ⟨ht, hst⟩

/-- Every step leads to a state in order, and what was built and known to conform stays so. -/
theorem Move.grows (h : Move src s t) (hs : Orderly src ⟨False, False⟩ {} s) :
    Orderly src ⟨False, False⟩ {} t ∧ s.Grows t := by
  have hwalked {ctx : BodyContext} {fuel : Nat} (hsrc : ctx.src = src)
      (hrequest : ctx.request = requestClass src fuel) {α : Type} {x : BodyCheck α} {a : α}
      {frame frame' : Frame} (hrun : x frame s = some ((a, frame'), t))
      (hx : ∀ {h : Host ctx.src fun _ => ctx.request} (w : Point h ctx.env ctx.returnType),
        (h.closed → False) → Steps w (fun _ => x) fun _ w' => w.Goes w') :
      Orderly src ⟨False, False⟩ {} t ∧ s.Grows t := by
    subst hsrc
    have hr : Serves ctx.src ⟨False, False⟩ ctx.request := hrequest ▸ serves_requestClass hreg fuel
    let w : Point (soundHost hr hreg) ctx.env ctx.returnType :=
      ⟨s, frame, hs, False.elim, False.elim⟩
    obtain ⟨w', rfl, -, hw⟩ := (hx w id).keeps (i := 0) hrun
    exact ⟨w'.holds, Advances.grows hw.goes⟩
  cases h with
  | run h => exact grows_run hreg hs h
  | cls h =>
    obtain ⟨ht, hst, -⟩ := serves_requestClass hreg _ hs False.elim False.elim h
    exact ⟨ht, hst.grows⟩
  | function h =>
    obtain ⟨ht, hst, -⟩ := orderly_requestFunction (serves_requestClass hreg _) hs False.elim
      False.elim False.elim h
    exact ⟨ht, hst.grows⟩
  | type h =>
    obtain ⟨ht, hst, -⟩ := orderly_resolveType (serves_requestClass hreg _) hs False.elim h
    exact ⟨ht, hst.grows⟩
  | orphans h =>
    obtain ⟨ht, hst, -⟩ := orderly_completeOrphans (serves_requestClass hreg _) hreg hs h
    exact ⟨ht, hst.grows⟩
  | takeBody hbodies h =>
    subst h
    exact ⟨hs.takeBody hbodies, .of_classes rfl rfl⟩
  | depth h =>
    cases h
    exact ⟨(hs.setDepth _).1, .of_classes rfl rfl⟩
  | default hsrc hrequest h =>
    exact hwalked hsrc hrequest h fun w hc =>
      Steps.imp (walks_checkFieldDefault w fun h => (hc h).elim) fun _ _ h => h.1.toGoes
  | expr hsrc hrequest h =>
    exact hwalked hsrc hrequest h fun w _ => Steps.imp (walks_checkExpr w _ _)
      fun _ _ h => h.1.toGoes
  | stmt hsrc hrequest h =>
    exact hwalked hsrc hrequest h fun w _ => (steps_checkStmt w _).imp fun _ _ h => h.1.toGoes
  | block hsrc hrequest h =>
    exact hwalked hsrc hrequest h fun w _ => Steps.imp (walks_checkBlock w _ _)
      fun _ _ h => h.1.toGoes
  | giveBody hf h =>
    cases h
    exact ⟨hs.updateFunction hf ⟨⟨rfl, rfl, rfl, rfl, rfl⟩, rfl, rfl, rfl, rfl⟩
      (.inr ⟨⟨rfl, rfl⟩, rfl, rfl⟩) False.elim, .of_classes rfl rfl⟩

theorem Later.grows (h : Later src s t) (hs : Orderly src ⟨False, False⟩ {} s) :
    Orderly src ⟨False, False⟩ {} t ∧ s.Grows t := by
  induction h with
  | refl => exact ⟨hs, .refl s⟩
  | tail _ hmove ih =>
    obtain ⟨ht, hst⟩ := hmove.grows hreg ih.1
    exact ⟨ht, ih.2.trans hst⟩

theorem Visited.orderly (h : Visited src s) : Orderly src ⟨False, False⟩ {} s :=
  (Later.grows hreg h orderly_start).1

end

/-! ### While classes are being built -/

/-- Reports an internal error if a test has failed. -/
def insist (passed : Bool) (span : Span) : Checking Unit :=
  if passed then return else report (.internal "the order of types is broken") span

/-- Requests for classes with a look at the state: before a request, also one that is made while
other classes are being built, and after it. -/
def watched (src : Sources) (test : State → State → Bool) : Nat → ClassRequest
  | 0 => fun _ _ _ => exhausted
  | fuel + 1 => fun struct typeArgs span => do
    let s ← get
    insist (test s s) span
    let r ← requestStep src (watched src test fuel) fuel struct typeArgs span
    insist (test s (← get)) span
    return r

/-- The test is passed by two states between which the order of types grows. -/
def Granted (test : State → State → Bool) : Prop :=
  ∀ s t, s.OrdersTypes → t.OrdersTypes → s.Preserves t → test s t = true

theorem Granted.passes {test : State → State → Bool} (htest : Granted test)
    (hs : Orderly src closed w s)
    (ht : Orderly src closed w t) (hst : s.Grows t) : test s t = true :=
  htest s t (ordersTypes_of_ranked hs.table.placed.ranked)
    (ordersTypes_of_ranked ht.table.placed.ranked) (hst.preserves hs.table.placed ht.table.placed)

/-- The watched requests keep to the rules as well; so no test fails, whatever work has been
begun. -/
theorem serves_watched (hreg : src.Regular) {test : State → State → Bool} (htest : Granted test)
    (fuel : Nat) : Serves src closed (watched src test fuel) := by
  induction fuel with
  | zero =>
    intro w s struct typeArgs span r t hs hargs hknown h
    cases h
  | succ fuel ih =>
    intro w s struct typeArgs span r t hs hargs hknown h
    rw [watched] at h
    rcases bind_some h with ⟨_, _, hget, h⟩
    cases hget
    rcases bind_some h with ⟨_, _, hbefore, h⟩
    rw [insist, if_pos (htest.passes hs hs (.refl s))] at hbefore
    cases hbefore
    rcases bind_some h with ⟨r', t', hrun, h⟩
    obtain ⟨ht, hst, hanswer⟩ := serves_requestStep hreg ih fuel hs hargs hknown hrun
    rcases bind_some h with ⟨_, _, hget, h⟩
    cases hget
    rcases bind_some h with ⟨_, _, hafter, h⟩
    rw [insist, if_pos (htest.passes hs ht hst.grows)] at hafter
    cases hafter
    cases h
    exact ⟨ht, hst, hanswer⟩

/-! ### Conditionals -/

/-- The type of a conditional is that of one of its arms, and both arms fit it; or neither arm fits
the type of the other one, which was reported last. -/
def Joined (src : Sources) (t : State) (ty : Ty) (thenArm elseArm : Block) : Prop :=
  (ty = thenArm.ty ∨ ty = elseArm.ty) ∧ t.isAssignable thenArm.ty ty = true ∧
      t.isAssignable elseArm.ty ty = true ∨
    t.isAssignable thenArm.ty elseArm.ty = false ∧ t.isAssignable elseArm.ty thenArm.ty = false ∧
      t.errors.getLast? = some {
        cause := .unexpectedType (t.program.displayType src.tree thenArm.ty)
          (t.program.displayType src.tree elseArm.ty)
        span := elseArm.span }

theorem joined_condType {ctx : BodyContext} {thenArm elseArm : Block} {ty : Ty}
    {frame frame' : Frame} (hthen : thenArm.diverges = false) (helse : elseArm.diverges = false)
    (h : condType ctx thenArm (some elseArm) frame s = some ((ty, frame'), t)) :
    Joined ctx.src t ty thenArm elseArm := by
  have hself {u : State} (ty : Ty) : u.isAssignable ty ty = true := by simp [State.isAssignable]
  rw [condType] at h
  rcases body_bind_some h with ⟨_, _, _, hget, h⟩
  cases hget
  simp only [hthen, helse, Bool.false_eq_true, if_false] at h
  split at h
  · next hfit =>
    cases h
    exact .inl ⟨.inl rfl, hself _, hfit⟩
  split at h
  · next hfit =>
    cases h
    exact .inl ⟨.inr rfl, hfit, hself _⟩
  next hnot hnot' =>
  rw [Bool.not_eq_true] at hnot hnot'
  -- Types that do not fit are known, so that the mismatch is reported.
  have hknown : thenArm.ty.isUnknown = false ∧ elseArm.ty.isUnknown = false := by
    simp only [State.isAssignable, Bool.or_eq_false_iff] at hnot
    exact ⟨hnot.1.2, hnot.1.1.2⟩
  rcases body_bind_some h with ⟨_, _, s1, hreport, h⟩
  cases h
  obtain ⟨hreport, rfl⟩ := lift_some hreport
  simp only [reportMismatch, reportFound, hknown.1, hknown.2, Bool.not_false, if_true] at hreport
  cases hreport
  exact .inr ⟨hnot', hnot, List.getLast?_concat ..⟩

theorem joined_checkExpr {ctx : BodyContext} {m : Mark} {condition : Syntax.Expr Mark}
    {thenArm elseArm : Syntax.Block Mark} {expected : Option Ty} {e : Expr} {frame frame' : Frame}
    (h : checkExpr ctx (.cond m condition thenArm (some elseArm)) expected frame s =
      some ((e, frame'), t)) :
    ∃ info condition' thenArm' elseArm', e = .cond info condition' thenArm' (some elseArm') ∧
      (thenArm'.diverges = false → elseArm'.diverges = false →
        Joined ctx.src t info.ty thenArm' elseArm') := by
  rw [checkExpr] at h
  rcases body_bind_some h with ⟨condition', frame1, s1, h1, h⟩
  rcases body_bind_some h with ⟨_, frame2, s2, h2, h⟩
  rcases body_bind_some h with ⟨thenArm', frame3, s3, h3, h⟩
  rcases body_bind_some h with ⟨arm, frame4, s4, h4, h⟩
  rw [checkBlockOption] at h4
  rcases body_bind_some h4 with ⟨elseArm', frame5, s5, h5, h4⟩
  cases h4
  rcases body_bind_some h with ⟨ty, frame6, s6, h6, h⟩
  cases h
  exact ⟨_, _, _, _, rfl, fun hthen helse => joined_condType hthen helse h6⟩

end ObjectLang.Check

namespace ObjectLang

open Source Syntax Scope Names Diagnostic Checked Check

/-- In every state that checks lead to, known types are partially ordered by assignability, and what
is assignable among complete types stays so.  A look at the states while classes are being built
finds the same.  A conditional has a type that both of its arms fit, unless a mismatch is
reported. -/
theorem assignability_orders_types (name : String) (dependencies : List String)
    (files : List (File Hint)) :
    (∀ s, Visited (sourcesOf name dependencies files) s → s.OrdersTypes) ∧
    (∀ s t, Visited (sourcesOf name dependencies files) s →
      Later (sourcesOf name dependencies files) s t → s.Preserves t) ∧
    (∀ test, Granted test → ∀ s fuel struct typeArgs span r t,
      Visited (sourcesOf name dependencies files) s →
      watched (sourcesOf name dependencies files) test fuel struct typeArgs span s = some (r, t) →
      ∀ e ∈ t.errors ++ t.withdrawn, ¬e.cause.IsInternal) ∧
    ∀ ctx m condition thenArm elseArm expected frame s e frame' t,
      checkExpr ctx (.cond m condition thenArm (some elseArm)) expected frame s =
      some ((e, frame'), t) →
      ∃ info condition' thenArm' elseArm', e = .cond info condition' thenArm' (some elseArm') ∧
        (thenArm'.diverges = false → elseArm'.diverges = false →
          Joined ctx.src t info.ty thenArm' elseArm') := by
  have hreg : (sourcesOf name dependencies files).Regular := regular_sources name dependencies files
  refine ⟨fun s hs => ?_, fun s t hs hst => ?_,
    fun test htest s fuel struct typeArgs span r t hs h => ?_,
    fun ctx m condition thenArm elseArm expected frame s e frame' t h => joined_checkExpr h⟩
  · exact ordersTypes_of_ranked (hs.orderly hreg).table.placed.ranked
  · obtain ⟨ht, hgrows⟩ := hst.grows hreg (hs.orderly hreg)
    exact hgrows.preserves (hs.orderly hreg).table.placed ht.table.placed
  · obtain ⟨ht, -⟩ := serves_watched hreg htest fuel (hs.orderly hreg) False.elim False.elim h
    exact ht.proper

/-- A class that extends another one and implements a protocol, and a class that extends it. -/
def tiles : List (File Hint) := [{
  id := 0
  decls := [
    .protocol { mark := none, name := "Shape" },
    .cls { mark := none, name := "Figure" },
    .cls {
      mark := none, name := "Square", ancestor := some (.named none ["Figure"] [])
      protocols := [.named none ["Shape"] []] },
    .cls { mark := none, name := "Tile", ancestor := some (.named none ["Square"] []) }] }]

/-- No two classes are assignable to each other. -/
def oneWay (s _ : State) : Bool :=
  (List.range s.program.classes.size).all fun c => (List.range s.program.classes.size).all fun d =>
    !(s.isAssignable (.object c) (.object d) && s.isAssignable (.object d) (.object c)) || c == d

theorem granted_oneWay : Granted oneWay := by
  intro s t hs _ _
  refine List.all_eq_true.mpr fun c _ => List.all_eq_true.mpr fun d _ => ?_
  rw [Bool.or_eq_true, Bool.not_eq_true', Bool.and_eq_false_iff, beq_iff_eq]
  by_cases hcd : s.isAssignable (.object c) (.object d) = true
  · by_cases hdc : s.isAssignable (.object d) (.object c) = true
    · have hsame := hs.antisymm (.object c) (.object d) (by simp) (by simp) hcd hdc
      cases hsame
      exact .inr rfl
    · exact .inl (.inr (Bool.eq_false_iff.mpr hdc))
  · exact .inl (.inl (Bool.eq_false_iff.mpr hcd))

/-- The classes are built in two requests.  What the first one finds of the first two is still so
after the second one, and a look at the states finds nothing amiss. -/
theorem assignability_orders_tiles :
    ∃ s t u, Visited (sourcesOf "app" [] tiles) s ∧ Later (sourcesOf "app" [] tiles) s t ∧
      s.program.classes.size = 2 ∧ s.OrdersTypes ∧
      s.isAssignable (.object 0) (.object 1) = true ∧
      s.isAssignable (.object 1) (.object 0) = false ∧
      s.isAssignable (.object 0) (.protocol 0) = true ∧
      t.program.classes.size = 3 ∧ t.OrdersTypes ∧ t.isAssignable (.object 0) (.protocol 0) = true ∧
      watched (sourcesOf "app" [] tiles) oneWay 20 3 [] default {} = some (some 0, u) ∧
      u.program.classes.size = 3 ∧ ∀ e ∈ u.errors ++ u.withdrawn, ¬e.cause.IsInternal := by
  obtain ⟨⟨r, s⟩, hs, htest⟩ : ∃ x, Request.run (sourcesOf "app" [] tiles) 20 (.cls 2 []) {} =
      some x ∧ decide (x.2.program.classes.size = 2 ∧ (x.2.program.classAt 0).inProgress = false ∧
        x.2.isAssignable (.object 0) (.object 1) = true ∧
        x.2.isAssignable (.object 1) (.object 0) = false ∧
        x.2.isAssignable (.object 0) (.protocol 0) = true ∧
        ((Request.run (sourcesOf "app" [] tiles) 20 .all x.2).any fun y =>
          decide (y.2.program.classes.size = 3)) = true) = true :=
    (Option.any_eq_true ..).mp (by decide +kernel)
  obtain ⟨⟨r', u⟩, hu, hsize'⟩ : ∃ x, watched (sourcesOf "app" [] tiles) oneWay 20 3 [] default {} =
      some x ∧ decide (x.1 = some 0 ∧ x.2.program.classes.size = 3) = true :=
    (Option.any_eq_true ..).mp (by decide +kernel)
  obtain ⟨hsize, hbuilt, hsub, hnot, hconforms, hnext⟩ := of_decide_eq_true htest
  obtain ⟨⟨r'', t⟩, ht, hsize''⟩ := (Option.any_eq_true ..).mp hnext
  obtain ⟨hr, hsizeu⟩ := of_decide_eq_true hsize'
  obtain ⟨horders, hpreserves, hwatched, -⟩ := assignability_orders_types "app" [] tiles
  have hvisited : Visited (sourcesOf "app" [] tiles) s := .single (.run hs)
  have hlater : Later (sourcesOf "app" [] tiles) s t := .single (.run ht)
  have hcomplete : (Ty.object 0).Complete s.program := by
    refine ⟨by simp, fun c hc => ?_⟩
    cases hc
    exact ⟨by rw [hsize]; decide, hbuilt⟩
  have hprotocol : (Ty.protocol 0).Complete s.program := ⟨by simp, fun c hc => by cases hc⟩
  refine ⟨s, t, u, hvisited, hlater, hsize, horders s hvisited, hsub, hnot, hconforms,
    of_decide_eq_true hsize'', horders t (hvisited.trans hlater),
    (hpreserves s t hvisited hlater _ _ hcomplete hprotocol hconforms).2.2, ?_, hsizeu, ?_⟩
  · exact hu.trans (by rw [← hr])
  · exact hwatched oneWay granted_oneWay {} 20 3 [] default r' u .refl hu

end ObjectLang
