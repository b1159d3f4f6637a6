import ObjectLang.Proofs.Instructions

/-! # Scopes of owned references

What waits in the scopes of the emitter are the references that wait in the scopes of the
evaluation, so leaving a scope and returning release the same ones.
-/

namespace ObjectLang.Simulation

open Syntax Checked Code Memory Execution Evaluation

variable {cx : Context} {sc : Scene} {fn : FuncId} {Γ : Nat → Values → Prop}

/-! ## Counting -/

section

variable {v : ValueId} {x : Value}

theorem IsValue.singleton {n : Nat} {vs : Values} (h : IsValue v x n vs) : IsList [v] [x] n vs :=
  .cons h .nil

theorem Sim.retain (hv : ∀ n vs, Γ n vs → IsValue v x n vs) :
    Sim cx sc fn Γ (Code.retain v) (Managed.retain sc x) Nothing :=
  .perform _ fun n vs h => (hv n vs h).singleton

theorem Sim.release (hv : ∀ n vs, Γ n vs → IsValue v x n vs) :
    Sim cx sc fn Γ (Code.release v) (Managed.release sc x) Nothing :=
  .perform _ fun n vs h => (hv n vs h).singleton

theorem Sim.unit : Sim cx sc fn Γ (Pure.pure ()) (Pure.pure ()) (Nothing (α := Unit) (β := Unit)) :=
  .pure fun _ _ _ => trivial

theorem Sim.retainIf (c : Bool) (hv : ∀ n vs, Γ n vs → IsValue v x n vs) :
    Sim cx sc fn Γ (if c then Code.retain v else Pure.pure ()) (Managed.retainIf sc c x)
    Nothing := by
  cases c with
  | false => exact .unit
  | true => exact .retain hv

end

/-! ## Waiting references -/

instance (p : Pending) (x : Holder) : Stable fun n vs => Waits cx n vs p x := by
  constructor
  intro m n vs vs' h hmn ha
  match p, x, h with
  | .value v, .value x, h => exact Stable.extend (Γ := IsValue v x) h hmn ha
  | .slot _, .slot _, h => exact h

instance (ps : List Pending) (xs : List Holder) :
    Stable fun n vs => List.Forall₂ (Waits cx n vs) ps xs :=
  ⟨fun hl hmn ha => hl.imp fun p x h => Stable.extend (Γ := fun n vs => Waits cx n vs p x) h hmn ha⟩

instance (ps : List (List Pending)) (xs : List (List Holder)) :
    Stable fun n vs => List.Forall₂ (List.Forall₂ (Waits cx n vs)) ps xs :=
  ⟨fun hl hmn ha => hl.imp fun p x h =>
    Stable.extend (Γ := fun n vs => List.Forall₂ (Waits cx n vs) p x) h hmn ha⟩

theorem Sim.own {p : Pending} {x : Holder} (hp : ∀ n vs, Γ n vs → Waits cx n vs p x) :
    Sim cx sc fn Γ (Code.own p) (Managed.own x) Nothing := by
  refine .intro (.own p) ?_
  intro s r s' hx hs hd hfin n a t hm ha
  rw [Code.own] at hx
  obtain ⟨s1, s2, hg, hx⟩ := Emit.bind_ok hx
  cases hg
  have hscopes := hm.scopes
  rw [Managed.own]
  cases hsc : s.scopes with
  | nil =>
    rw [hsc] at hx
    exact (Emit.throw_ok hx).elim
  | cons scope outer =>
    rw [hsc] at hx hscopes
    cases hx
    cases htc : t.scopes with
    | nil =>
      rw [htc] at hscopes
      cases hscopes
    | cons scope' outer' =>
      rw [htc] at hscopes
      obtain ⟨hscope, houter⟩ := List.forall₂_cons.mp hscopes
      refine ⟨hd, 0, a, .refl a, ?_, .refl _ _, trivial⟩
      exact ⟨hm.function, hm.code, ⟨hm.store.1, hm.store.2, hm.store.3⟩, hm.slots,
        .cons (.cons (hp _ _ ha) hscope) houter, hm.self⟩

theorem Sim.ownIf (c : Bool) {p : Pending} {x : Holder} (hp : ∀ n vs, Γ n vs → Waits cx n vs p x) :
    Sim cx sc fn Γ (if c then Code.own p else Pure.pure ()) (Managed.ownIf c x) Nothing := by
  cases c with
  | false => exact .unit
  | true => exact .own hp

theorem Sim.ownAllocation [Stable Γ] {v : ValueId} {x : Value}
    (hv : ∀ n vs, Γ n vs → IsValue v x n vs) :
    Sim cx sc fn Γ (Code.ownAllocation v) (Managed.ownAllocation sc x) Nothing :=
  (Sim.retain hv).bind fun _ _ => .own fun n vs h => hv n vs h.1

theorem Emits.releasePending (p : Pending) : Emits (Code.releasePending cx p) := by
  cases p with
  | value v => exact .emit _
  | slot s => exact (Emits.define _).bind fun _ => .emit _

theorem Emits.releaseAll (ps : List Pending) : Emits (Code.releaseAll cx ps) := by
  induction ps with
  | nil => exact .pure ()
  | cons p ps ih => exact (Emits.releasePending p).bind fun _ => ih

theorem Sim.releasePending [Stable Γ] {p : Pending} {x : Holder}
    (hp : ∀ n vs, Γ n vs → Waits cx n vs p x) :
    Sim cx sc fn Γ (Code.releasePending cx p) (Managed.releaseHolder sc x) Nothing := by
  match p, x, hp with
  | .value v, .value x, hp => exact .release hp
  | .value _, .slot _, hp => exact .absurd (.releasePending _) hp
  | .slot _, .value _, hp => exact .absurd (.releasePending _) hp
  | .slot s, .slot id, hp =>
    by_cases hid : s = id ∧ id < cx.function.locals.length
    · obtain ⟨rfl, hlt⟩ := hid
      exact (Sim.readLocal cx.ptr hlt).bind fun _ _ => .release fun _ _ h => h.2
    · exact .absurd (.releasePending _) fun n vs h => hid (hp n vs h)

theorem Sim.releaseAll [Stable Γ] {ps : List Pending} {xs : List Holder}
    (hp : ∀ n vs, Γ n vs → List.Forall₂ (Waits cx n vs) ps xs) :
    Sim cx sc fn Γ (Code.releaseAll cx ps) (Managed.releaseAll sc xs) Nothing := by
  induction ps generalizing xs Γ with
  | nil =>
    cases xs with
    | nil => exact .unit
    | cons x xs => exact .absurd (.releaseAll _) fun n vs h => by cases hp n vs h
  | cons p ps ih =>
    cases xs with
    | nil => exact .absurd (.releaseAll _) fun n vs h => by cases hp n vs h
    | cons x xs =>
      refine (Sim.releasePending fun n vs h => (List.forall₂_cons.mp (hp n vs h)).1).bind
        fun _ _ => ih fun n vs h => ?_
      exact (List.forall₂_cons.mp (hp n vs h.1)).2

/-! ## Scopes -/

theorem Emits.scopes {α : Type} {f : List (List Pending) → Emit α} (h : ∀ ps, Emits (f ps)) :
    Emits (do f (← get).scopes) :=
  fun s r s' hx => h s.scopes s r s' hx

/-- The emission and the evaluation both look at their scopes. -/
theorem Sim.scopes {α β : Type} {R : α → β → Nat → Values → Prop} {f : List (List Pending) → Emit α}
    {g : List (List Holder) → Eval Managed β}
    (h : ∀ ps xs, Sim cx sc fn
      (fun n vs => Γ n vs ∧ List.Forall₂ (List.Forall₂ (Waits cx n vs)) ps xs) (f ps) (g xs) R) :
    Sim cx sc fn Γ (do f (← get).scopes) (do g (← Eval.state).scopes) R := by
  refine .intro (.scopes fun ps => (h ps []).emits) ?_
  intro s r s' hx hs hd hfin n a t hm ha
  exact ((h s.scopes t.scopes) s r s' hx hs).2 hd hfin n a t hm ⟨ha, hm.scopes⟩

theorem closeScope_ok {s s' : Emitter} {u : Unit} (h : closeScope cx s = .ok (u, s')) :
    ∃ scope outer, s.scopes = scope :: outer ∧
      ((s.dead = true ∧ s' = { s with scopes := outer }) ∨
        (s.dead = false ∧ Code.releaseAll cx scope { s with scopes := outer } = .ok ((), s'))) := by
  rw [closeScope] at h
  obtain ⟨s1, s2, hg, h⟩ := Emit.bind_ok h
  cases hg
  cases hsc : s.scopes with
  | nil =>
    rw [hsc] at h
    exact (Emit.throw_ok h).elim
  | cons scope outer =>
    rw [hsc] at h
    refine ⟨scope, outer, rfl, ?_⟩
    cases hd : s.dead with
    | true =>
      refine .inl ⟨rfl, ?_⟩
      change (if s.dead = true then Pure.pure () else Code.releaseAll cx scope : Emit Unit)
        { s with scopes := outer } = _ at h
      rw [hd] at h
      exact (Emit.pure_ok h).2
    | false =>
      refine .inr ⟨rfl, ?_⟩
      change (if s.dead = true then Pure.pure () else Code.releaseAll cx scope : Emit Unit)
        { s with scopes := outer } = _ at h
      rw [hd] at h
      exact h

theorem closeScope_grows {s s' : Emitter} {u : Unit} (h : closeScope cx s = .ok (u, s'))
    (hs : s.Inside) : Grows s s' := by
  obtain ⟨scope, outer, -, ⟨-, rfl⟩ | ⟨-, hr⟩⟩ := closeScope_ok h
  · exact (Grows.refl hs).setScopes outer
  · exact ((Grows.refl hs).setScopes outer).trans (Emits.releaseAll scope _ _ _ hr hs).grows hs

section

variable {α β : Type} {R : α → β → Nat → Values → Prop} {x : Emit α} {y : Eval Managed β}

theorem Emits.inScope (hx : Emits x) : Emits (Code.inScope cx x) := by
  intro s r s' h hs
  obtain ⟨_, s1, ho, h⟩ := Emit.bind_ok h
  cases ho
  obtain ⟨a, s2, hb, h⟩ := Emit.bind_ok h
  obtain ⟨_, s3, hc, h⟩ := Emit.bind_ok h
  cases h
  have he := hx _ _ _ hb hs
  have hg := ((Grows.refl hs).setScopes ([] :: s.scopes)).trans he.grows hs
  have hgrows := hg.trans (closeScope_grows hc hg.inside) hs
  obtain ⟨scope, outer, hsc, hcase⟩ := closeScope_ok hc
  obtain rfl : outer = s.scopes := by simpa [hsc] using he.scopes
  obtain ⟨hd, rfl⟩ | ⟨hd, hr⟩ := hcase
  · exact ⟨hgrows, fun _ => hd, rfl⟩
  · have hr := Emits.releaseAll scope _ _ _ hr hg.inside
    exact ⟨hgrows, fun h => by simp [he.dead h] at hd, hr.scopes⟩

theorem Sim.inScope [∀ a b, Stable (R a b)] (h : Sim cx sc fn Γ x y R) :
    Sim cx sc fn Γ (Code.inScope cx x) (Managed.inScope sc y) R := by
  refine .intro h.emits.inScope ?_
  intro s r s' hx hs hd hfin n a t hm ha
  obtain ⟨_, s1, ho, hx⟩ := Emit.bind_ok hx
  cases ho
  obtain ⟨r, s2, hb, hx⟩ := Emit.bind_ok hx
  obtain ⟨_, s3, hc, hx⟩ := Emit.bind_ok hx
  cases hx
  obtain ⟨he, hsim⟩ := h _ _ _ hb hs
  have hfol := hsim hd (hfin.of_grows (closeScope_grows hc he.grows.inside)) n a
    { t with scopes := [] :: t.scopes }
    ⟨hm.function, hm.code, hm.store, hm.slots, .cons .nil hm.scopes, hm.self⟩ ha
  simp only [Managed.inScope, Eval.bind_apply, Managed.openScope, Eval.update]
  generalize y n { t with scopes := [] :: t.scopes } = result at hfol ⊢
  rcases result with _ | ⟨b | _ | _, t2⟩
  · exact hfol
  · obtain ⟨hd2, k, a2, hk, hm2, hag, hr⟩ := hfol
    obtain ⟨scope, outer, hsc, ⟨hd2', -⟩ | ⟨-, hrel⟩⟩ := closeScope_ok hc
    · simp [hd2] at hd2'
    refine Follows.after (t := { s2 with scopes := outer }) hk hag he.grows.values ?_
    have hscopes := hm2.scopes
    rw [hsc] at hscopes
    cases htc : t2.scopes with
    | nil =>
      rw [htc] at hscopes
      cases hscopes
    | cons scope' outer' =>
      rw [htc] at hscopes
      obtain ⟨hscope, houter⟩ := List.forall₂_cons.mp hscopes
      -- what waits in the scope is released with the scope already left
      have hrest : Sim cx sc fn
          (fun n vs => R r b n vs ∧ List.Forall₂ (Waits cx n vs) scope scope')
          (Code.releaseAll cx scope >>= fun _ => Pure.pure r)
          (Managed.releaseAll sc scope' >>= fun _ => Pure.pure b) R := by
        exact (Sim.releaseAll fun _ _ h => h.2).bind fun _ _ => .pure fun _ _ h => h.1.1
      have hrun : (Code.releaseAll cx scope >>= fun _ => Pure.pure r : Emit α)
          { s2 with scopes := outer } = .ok (r, s') := by
        change (Code.releaseAll cx scope { s2 with scopes := outer } >>= _) = _
        rw [hrel]
        rfl
      have := (hrest _ _ _ hrun he.grows.inside).2 hd2 hfin n a2 { t2 with scopes := outer' }
        ⟨hm2.function, hm2.code, hm2.store, hm2.slots, houter, hm2.self⟩ ⟨hr, hscope⟩
      simpa [Managed.takeScope, htc, Eval.bind_apply] using this
  · exact hfol
  · exact hfol

end

/-! ## Returns -/

section

variable {v : Option ValueId} {x : Option Value} {β : Type} {R : Unit → β → Nat → Values → Prop}

theorem IsOption.get {bound : Nat} {f : Frame} (h : IsOption v x bound f.values) :
    v.mapM f.get = .ok x := by
  match v, x, h with
  | none, none, _ => rfl
  | some _, some _, h =>
    change (f.get _ >>= _) = _
    rw [IsValue.get h]
    rfl

theorem Emits.leave (i : Instr) : Emits (do
    Code.emit i
    switchTo (← newBlock)
    setDead true) := by
  intro s r s' h hs
  rw [leave_run] at h
  cases h
  exact ⟨((Grows.refl hs).push hs i).beyond, fun _ => rfl, rfl⟩

theorem Sim.leave (hv : ∀ n vs, Γ n vs → IsOption v x n vs) :
    Sim cx sc fn Γ (do
      Code.emit (.ret v)
      switchTo (← newBlock)
      setDead true) (Eval.leave x) R := by
  refine .intro (.leave _) ?_
  intro s r s' h hs hd hfin n a t hm ha
  rw [leave_run] at h
  cases h
  have hin : (s.push (.ret v)).Inside := by simpa [Emitter.Inside] using hs
  have hcode : a.frame.code = .ret v :: (s.push (.ret v)).rest (blocks sc fn) :=
    hm.code.trans (Emitter.rest_push hs (hfin.of_grows (Grows.refl hin).beyond).code)
  have hget : v.mapM (a.frame.withCode ((s.push (.ret v)).rest (blocks sc fn))).get = .ok x :=
    IsOption.get (hv _ a.frame.values ha)
  refine ⟨0, a, .refl a, ?_, hm.store⟩
  rw [Activation.step_cons hcode, Frame.execute, hget]
  rfl

/-- A return releases all that waits and leaves. -/
theorem Sim.releaseLeave [Stable Γ] (hv : ∀ n vs, Γ n vs → IsOption v x n vs) :
    Sim cx sc fn Γ
      (do
        Code.releaseAll cx (← get).scopes.flatten
        Code.emit (.ret v)
        switchTo (← newBlock)
        setDead true)
      (do
        Managed.releaseAll sc (← Eval.state).scopes.flatten
        Eval.leave x) R := by
  refine Sim.scopes
    (f := fun ps => do
      Code.releaseAll cx ps.flatten
      Code.emit (.ret v)
      switchTo (← newBlock)
      setDead true)
    (g := fun xs => do
      Managed.releaseAll sc xs.flatten
      Eval.leave x)
    fun ps xs => ?_
  refine (Sim.releaseAll fun _ _ h => List.rel_flatten h.2).bind fun _ _ => ?_
  exact .leave fun n vs h => hv n vs h.1.1

theorem Emits.emitReturn (v : Option ValueId) : Emits (Code.emitReturn cx v) := by
  have hrest : Emits (do
      Code.releaseAll cx (← get).scopes.flatten
      Code.emit (.ret v)
      switchTo (← newBlock)
      setDead true) :=
    .scopes (f := fun ps => do
      Code.releaseAll cx ps.flatten
      Code.emit (.ret v)
      switchTo (← newBlock)
      setDead true) fun ps => (Emits.releaseAll _).bind fun _ => .leave _
  cases v with
  | none => exact hrest
  | some v =>
    rw [Code.emitReturn]
    exact .ite ((Emits.emit _).bind fun _ => hrest) hrest

theorem Sim.emitReturn [Stable Γ] (hcx : cx.function = sc.function)
    (hv : ∀ n vs, Γ n vs → IsOption v x n vs) :
    Sim cx sc fn Γ (Code.emitReturn cx v) (Managed.returnFrom sc x) R := by
  match v, x, hv with
  | none, none, hv => exact .releaseLeave hv
  | none, some _, hv => exact .absurd (.emitReturn _) hv
  | some _, none, hv => exact .absurd (.emitReturn _) hv
  | some v, some x, hv =>
    simp only [Code.emitReturn, Managed.returnFrom, Managed.onResult, Managed.retainIf, ← hcx]
    cases cx.function.returnType.isReference with
    | false => exact .releaseLeave hv
    | true =>
      exact (Sim.retain hv).bind fun _ _ => .releaseLeave fun n vs h => hv n vs h.1

end

end ObjectLang.Simulation
