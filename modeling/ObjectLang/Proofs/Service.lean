import ObjectLang.Proofs.FunctionBodies

/-! # Requests from outside

Between two requests from outside nothing has been begun: no class waits, no body is in the queue,
and the state is in order.  Every request keeps that.
-/

namespace ObjectLang.Check

open Source Syntax Scope Names Diagnostic Checked

/-- States between requests.  The requests may be any, also for types and symbols that do not
exist. -/
inductive Reachable (src : Sources) : State → Prop where
  | start : Reachable src {}
  | checkClass {s t : State} {fuel : Nat} {struct : StructureId} {typeArgs : List Ty}
      {r : Option ClassId} (hs : Reachable src s)
      (h : checkClass src fuel struct typeArgs s = some (r, t)) : Reachable src t
  | checkFunctionInstance {s t : State} {fuel : Nat} {key : FunctionKey} {r : Option FuncId}
      (hs : Reachable src s) (h : checkFunctionInstance src fuel key s = some (r, t)) :
      Reachable src t
  | checkAll {s t : State} {fuel : Nat} (hs : Reachable src s)
      (h : checkAll src fuel s = some ((), t)) : Reachable src t

variable {src : Sources} {closed : Trust} {s t : State}

/-! ### Serving a request -/

/-- The step leads from a state in order to one that goes on from it. -/
def Steady (src : Sources) (closed : Trust) {α : Type} (x : Checking α) : Prop :=
  ∀ ⦃s a t⦄, Orderly src closed {} s → x s = some (a, t) →
    Orderly src closed {} t ∧ Advances {} s t

namespace Steady

variable {α β : Type}

theorem of_quiet {x : Checking α} (hx : Quiet x) : Steady src closed x := fun _ _ _ hs h =>
  hx.orderly hs h

theorem pure (a : α) : Steady src closed (Pure.pure a) := of_quiet (.pure a)

theorem bind {x : Checking α} {f : α → Checking β} (hx : Steady src closed x)
    (hf : ∀ a, Steady src closed (f a)) : Steady src closed (x >>= f) := by
  intro s b t hs h
  rcases bind_some h with ⟨a, s1, h1, h2⟩
  rcases hx hs h1 with ⟨hs1, hst1⟩
  rcases hf a hs1 h2 with ⟨ht, hst2⟩
  exact ⟨ht, hst1.trans hst2⟩

theorem forM {xs : List α} {f : α → Checking PUnit} (hf : ∀ a ∈ xs, Steady src closed (f a)) :
    Steady src closed (xs.forM f) := by
  induction xs with
  | nil => exact .pure _
  | cons a as ih =>
    obtain ⟨ha, has⟩ := List.forall_mem_cons.mp hf
    exact ha.bind fun _ => ih has

theorem ite {P : Prop} [Decidable P] {x y : Checking α} (hx : Steady src closed x)
    (hy : Steady src closed y) : Steady src closed (if P then x else y) := by
  split
  · exact hx
  · exact hy

end Steady

variable {request : ClassRequest}

theorem Orderly.takeBody {task : BodyTask} {rest : List BodyTask} (hs : Orderly src closed {} s)
    (hbodies : s.bodies = task :: rest) : Orderly src closed {} { s with bodies := rest } := by
  have htasks := hs.tasks
  rw [hbodies] at htasks
  exact hs.of_program rfl rfl hs.agenda.unresolved
    (fun x hx => htasks x (List.mem_cons_of_mem task hx)) (fun h => h) hs.proper

theorem orderly_drain (hr : Serves src closed request) (hreg : src.Regular) {steps : Nat}
    (hs : Orderly src closed {} s) (hjudged : Judged src closed s)
    (h : drain src request steps s = some ((), t)) :
    Orderly src closed {} t ∧ s.Grows t ∧ Judged src closed t := by
  induction steps generalizing s with
  | zero => cases h
  | succ steps ih =>
    rw [drain] at h
    rcases bind_some h with ⟨_, _, hget, h⟩
    cases hget
    cases hbodies : s.bodies with
    | nil =>
      rw [hbodies] at h
      cases h
      exact ⟨hs, .refl _, hjudged⟩
    | cons task rest =>
      rw [hbodies] at h
      rcases bind_some h with ⟨_, _, hset, h⟩
      cases hset
      rcases bind_some h with ⟨_, s2, h2, h⟩
      have hs1 := hs.takeBody hbodies
      have hst1 : Advances {} s { s with bodies := rest } :=
        .of_program rfl rfl (fun _ _ h => h) fun h => h
      rcases orderly_checkBody hr hreg hs1 (hjudged.advance hs hs1 hst1)
        (hs.tasks task (hbodies ▸ List.mem_cons_self)) h2 with ⟨hs2, hst2, hjudged2⟩
      rcases ih hs2 hjudged2 h with ⟨ht, hst3, hjudged3⟩
      exact ⟨ht, (hst1.grows.trans hst2).trans hst3, hjudged3⟩

theorem orderly_serve (hreg : src.Regular) {α : Type} {action : Checking α} {fuel : Nat} {a : α}
    (hs : Orderly src closed {} s) (hjudged : Judged src closed s)
    (haction : ∀ ⦃a u⦄, action s = some (a, u) → Orderly src closed {} u ∧ Advances {} s u)
    (h : serve src fuel action s = some (a, t)) :
    Orderly src closed {} t ∧ s.Grows t ∧ Judged src closed t := by
  have hr : Serves src closed (requestClass src fuel) := serves_requestClass hreg fuel
  rw [serve] at h
  rcases bind_some h with ⟨_, s1, h1, h⟩
  rcases haction h1 with ⟨hs1, hst1⟩
  rcases bind_some h with ⟨_, s2, h2, h⟩
  rcases orderly_completeOrphans hr hreg hs1 h2 with ⟨hs2, hst2, -⟩
  rcases bind_some h with ⟨_, s3, h3, h⟩
  cases h
  rcases orderly_drain hr hreg hs2 (hjudged.advance hs hs2 (hst1.trans hst2)) h3 with
    ⟨ht, hst3, hjudged⟩
  exact ⟨ht, (hst1.trans hst2).grows.trans hst3, hjudged⟩

/-! ### All declarations -/

theorem steady_resolveType (hr : Serves src closed request) (e : TypeExpr Mark) :
    Steady src closed (resolveType src request ∅ e) := by
  intro s ty t hs h
  rcases orderly_resolveType hr hs (fun _ => .empty) h with ⟨ht, hst, -⟩
  exact ⟨ht, hst⟩

variable {fuel : Nat} (hreg : src.Regular)

include hreg

theorem steady_checkProtocol (p : Protocol Mark) :
    Steady src closed (checkProtocol src fuel p) := by
  have hr : Serves src closed (requestClass src fuel) := serves_requestClass hreg fuel
  have hresolve := steady_resolveType hr
  refine .ite (.forM fun method _ => .bind (.forM fun param _ => (hresolve _).bind fun _ => .pure _)
    fun _ => ?_) (.pure _)
  cases method.returnType with
  | some t => exact (hresolve t).bind fun _ => .pure _
  | none => exact .pure _

theorem steady_checkStructure (id : StructureId) :
    Steady src closed (checkStructure src fuel id) := by
  have hr : Serves src closed (requestClass src fuel) := serves_requestClass hreg fuel
  rw [checkStructure]
  cases (src.tree.structureAt id).decl with
  | cls c =>
    refine .ite (.bind (fun s r t hs h => ?_) fun _ => .pure _) (.pure _)
    rcases hr hs (fun _ => by simp) (fun _ => by simp) h with ⟨ht, hst, -⟩
    exact ⟨ht, hst⟩
  | protocol p => exact steady_checkProtocol hreg p
  | enum e => exact .pure _

theorem orderly_requestSymbol {symbol : SymbolId} {receiver : Option Ty}
    (hs : Orderly src closed {} s)
    (hreceiver : closed → ∀ ty, receiver = some ty → ty.Within s.program)
    (hsymbol : symbol < src.tree.functions.size)
    (hbare : (src.tree.functionAt symbol).kind = .free → receiver = none)
    (h : requestSymbol src fuel symbol receiver s = some ((), t)) :
    Orderly src closed {} t ∧ Advances {} s t := by
  rcases bind_some h with ⟨_, s1, h1, h⟩
  cases h
  rcases orderly_requestFunction (serves_requestClass hreg fuel) hs
    (fun hc => ⟨by simp, hreceiver hc⟩) (fun _ => .inl rfl)
    (fun _ _ _ hfree => ⟨hbare hfree, hsymbol⟩) h1 with ⟨ht, hst, -⟩
  exact ⟨ht, hst⟩

theorem steady_checkSymbol {symbol : SymbolId} (hsymbol : symbol < src.tree.functions.size) :
    Steady src closed (checkSymbol src fuel symbol) := by
  intro s _ t hs h
  rw [checkSymbol] at h
  split at h
  · cases hkind : (src.tree.functionAt symbol).kind with
    | free =>
      rw [hkind] at h
      exact orderly_requestSymbol hreg hs (fun _ => by simp) hsymbol (fun _ => rfl) h
    | extension =>
      rw [hkind] at h
      cases hclause : (src.tree.functionAt symbol).decl.receiver with
      | none =>
        rw [hclause] at h
        cases h
        exact ⟨hs, .refl _ _⟩
      | some clause =>
        rw [hclause] at h
        rcases bind_some h with ⟨ty, s1, h1, h⟩
        rcases orderly_resolveType (serves_requestClass hreg fuel) hs (fun _ => .empty) h1 with
          ⟨hs1, hst1, hty, -⟩
        split at h
        · rcases orderly_requestSymbol hreg hs1 (fun hc _ h => Option.some.inj h ▸ hty hc) hsymbol
            (fun hfree => by cases hkind.symm.trans hfree) h with ⟨ht, hst2⟩
          exact ⟨ht, hst1.trans hst2⟩
        · cases h
          exact ⟨hs1, hst1⟩
    | method | init | requirement =>
      rw [hkind] at h
      cases h
      exact ⟨hs, .refl _ _⟩
  · cases h
    exact ⟨hs, .refl _ _⟩

theorem orderly_checkAll (hs : Orderly src closed {} s) (hjudged : Judged src closed s)
    (h : checkAll src fuel s = some ((), t)) :
    Orderly src closed {} t ∧ s.Grows t ∧ Judged src closed t := by
  have hsteady : Steady src closed (do
      src.tree.functions.toList.forM checkModifiers
      (List.range src.tree.structures.size).forM (checkStructure src fuel)
      (List.range src.tree.functions.size).forM (checkSymbol src fuel)) :=
    .bind (.forM fun f _ => .of_quiet (Quiet.checkModifiers f)) fun _ =>
      .bind (.forM fun id _ => steady_checkStructure hreg id) fun _ =>
        .forM fun symbol hsymbol => steady_checkSymbol hreg (List.mem_range.mp hsymbol)
  exact orderly_serve hreg hs hjudged (fun _ _ h => hsteady hs h) h

omit hreg in
theorem orderly_start : Orderly src closed {} {} where
  table := {
    placed := ⟨nofun, nofun, nofun, nofun, nofun, nofun⟩
    laid := nofun
    dispatching := ⟨nofun, nofun, nofun, nofun, nofun, nofun⟩
    filled := nofun }
  exact _ := nofun
  catalogue := ⟨nofun, nofun, nofun, nofun, nofun, nofun⟩
  initialized _ := nofun
  typed _ := ⟨fun _ => ClassInst.within_default, fun _ => FuncInst.within_default, nofun⟩
  agenda := ⟨List.nodup_nil, nofun, nofun, nofun, fun _ => trivial, fun _ => nofun⟩
  reserve := ⟨List.nodup_nil, nofun, nofun, nofun⟩
  signing := nofun
  uniform _ := by
    refine ⟨fun {c} hc => absurd hc (Nat.not_lt_zero c), fun {f c m} _ hm => ?_,
      fun c f k _ hslot => ?_⟩
    · cases hm.symbol
    · cases hslot
  labels := by
    refine ⟨fun _ c => ?_, nofun, fun _ f m ns hsymbol => ?_⟩
    · exact (by decide : Unmarked "")
    · cases hsymbol
  tasks := nofun
  proper := nofun

omit hreg in
theorem judged_start : Judged src closed {} := ⟨fun _ _ => nofun, fun _ => nofun, fun _ => nofun⟩

theorem Reachable.orderly (h : Reachable src s) : Orderly src ⟨False, False⟩ {} s := by
  have hjudged (s : State) : Judged src ⟨False, False⟩ s := ⟨nofun, nofun, nofun⟩
  induction h with
  | start => exact orderly_start
  | checkClass _ hrun ih =>
    refine (orderly_serve hreg ih (hjudged _) (fun _ _ h => ?_) hrun).1
    rcases serves_requestClass hreg _ ih nofun nofun h with ⟨ht, hst, -⟩
    exact ⟨ht, hst⟩
  | checkFunctionInstance _ hrun ih =>
    refine (orderly_serve hreg ih (hjudged _) (fun _ _ h => ?_) hrun).1
    rcases orderly_requestFunction (serves_requestClass hreg _) ih nofun
      nofun nofun h with ⟨ht, hst, -⟩
    exact ⟨ht, hst⟩
  | checkAll _ hrun ih => exact (orderly_checkAll hreg ih (hjudged _) hrun).1

end ObjectLang.Check
