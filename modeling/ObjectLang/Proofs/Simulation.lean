import Mathlib.Data.List.Forall2
import ObjectLang.Proofs.Emission
import ObjectLang.Proofs.Managed

/-! # Emitted code follows an evaluation

An emission and an evaluation correspond when the emitted code, run in a frame that stands where the
emitter stood, does what the evaluation does and arrives where the emitter then stands.  On a dead
path nothing is asked of the code, as it is never reached.
-/

namespace ObjectLang.Simulation

open Checked Code Memory Execution Evaluation

abbrev Values := Std.TreeMap ValueId Value

/-! ## Facts about values -/

/-- The value is defined below the bound. -/
def IsValue (v : ValueId) (x : Value) (bound : Nat) (vs : Values) : Prop :=
  v < bound ∧ vs[v]? = some x

def IsOption : Option ValueId → Option Value → Nat → Values → Prop
  | some v, some x, bound, vs => IsValue v x bound vs
  | none, none, _, _ => True
  | _, _, _, _ => False

def IsList (ids : List ValueId) (xs : List Value) (bound : Nat) (vs : Values) : Prop :=
  List.Forall₂ (fun v x => IsValue v x bound vs) ids xs

/-- Nothing to know. -/
def Nothing {α β : Type} (_ : α) (_ : β) (_ : Nat) (_ : Values) : Prop := True

/-- Both tables have the same values below the bound. -/
def Agree (bound : Nat) (vs vs' : Values) : Prop := ∀ v < bound, vs'[v]? = vs[v]?

theorem Agree.refl (bound : Nat) (vs : Values) : Agree bound vs vs := fun _ _ => rfl

theorem Agree.trans {m n : Nat} {vs vs' vs'' : Values} (h : Agree m vs vs') (h' : Agree n vs' vs'')
    (hmn : m ≤ n) : Agree m vs vs'' :=
  fun v hv => (h' v (Nat.lt_of_lt_of_le hv hmn)).trans (h v hv)

theorem Agree.insert (bound : Nat) (vs : Values) (x : Value) {v : ValueId} (hv : bound ≤ v) :
    Agree bound vs (vs.insert v x) := by
  intro w hw
  rw [Std.TreeMap.getElem?_insert, if_neg]
  rw [Std.LawfulEqCmp.compare_eq_iff_eq]
  omega

/-- A fact about values that stays true as long as only new values are defined. -/
class Stable (Γ : Nat → Values → Prop) : Prop where
  extend {m n : Nat} {vs vs' : Values} : Γ m vs → m ≤ n → Agree m vs vs' → Γ n vs'

instance (v : ValueId) (x : Value) : Stable (IsValue v x) :=
  ⟨fun h hmn ha => ⟨Nat.lt_of_lt_of_le h.1 hmn, (ha v h.1).trans h.2⟩⟩

instance (v : Option ValueId) (x : Option Value) : Stable (IsOption v x) := by
  constructor
  intro m n vs vs' h hmn ha
  cases v <;> cases x <;> first | exact h | exact Stable.extend (Γ := IsValue _ _) h hmn ha

instance (ids : List ValueId) (xs : List Value) : Stable (IsList ids xs) :=
  ⟨fun h hmn ha => h.imp fun v x hv => Stable.extend (Γ := IsValue v x) hv hmn ha⟩

instance {α β : Type} (a : α) (b : β) : Stable (Nothing a b) := ⟨fun h _ _ => h⟩

instance {Γ Δ : Nat → Values → Prop} [Stable Γ] [Stable Δ] : Stable fun n vs => Γ n vs ∧ Δ n vs :=
  ⟨fun h hmn ha => ⟨Stable.extend h.1 hmn ha, Stable.extend h.2 hmn ha⟩⟩

/-! ## Frames and emitters -/

section

variable (cx : Context) (sc : Scene) (fn : FuncId)

/-- The final code of the function. -/
abbrev blocks : Array Code.Block := (sc.module.codeAt fn).blocks

/-- What was emitted so far is part of the final module. -/
structure Final (s : Emitter) : Prop where
  code : s.Within (blocks sc fn)
  literals : s.literals.toList <+: sc.module.literals.toList

/-- What waits in a scope of the emitter, in a frame with these values. -/
def Waits (bound : Nat) (vs : Values) : Pending → Holder → Prop
  | .value v, .value x => IsValue v x bound vs
  | .slot s, .slot id => s = id ∧ id < cx.function.locals.length
  | _, _ => False

/-- The slots of the locals, the heap and the calls are those of the store. -/
structure SameStore (a : Activation) (st : Store) : Prop where
  locals : ∀ id < cx.function.locals.length, a.frame.slots[id]? = st.locals[id]?
  heap : a.heap = st.heap
  made : a.made = st.made

/-- The frame stands where the emitter stands and holds what the evaluation holds. -/
structure Matches (s : Emitter) (a : Activation) (t : Managed) : Prop where
  function : a.frame.function = fn
  code : a.frame.code = s.rest (blocks sc fn)
  store : SameStore cx a t.toStore
  slots : cx.function.locals.length ≤ s.slots.size
  scopes : List.Forall₂ (List.Forall₂ (Waits cx s.nextValue a.frame.values)) s.scopes t.scopes
  self : ∀ v, cx.receiver? = some v → ∃ x, sc.self = some x ∧ IsValue v x s.nextValue a.frame.values

/-- The run from `a` does what an evaluation did that ended as given. -/
def Follows {α β : Type} (R : α → β → Nat → Values → Prop) (n : Nat) (s s' : Emitter)
    (a : Activation) (r : α) : Option (Ending β × Managed) → Prop
  | none => ∃ b, Activation.Steps sc.module sc.calls n a b
  | some (.value y, t) =>
    s'.dead = false ∧ ∃ k b, Activation.Steps sc.module sc.calls k a b ∧ Matches cx sc fn s' b t ∧
      Agree s.nextValue a.frame.values b.frame.values ∧ R r y s'.nextValue b.frame.values
  | some (.returned x, t) =>
    ∃ k b, Activation.Steps sc.module sc.calls k a b ∧
      b.step sc.module sc.calls = .ok (.done x) ∧ SameStore cx b t.toStore
  | some (.fault e, t) =>
    ∃ k b, Activation.Steps sc.module sc.calls k a b ∧
      b.step sc.module sc.calls = .error e ∧ SameStore cx b t.toStore

/-- What every emission does to the emitter: it grows, a dead path stays dead, and the scopes around
the innermost stay as they are. -/
structure Emitted (s s' : Emitter) : Prop where
  grows : Grows s s'
  dead : s.dead = true → s'.dead = true
  scopes : s'.scopes.tail = s.scopes.tail

def Emits {α : Type} (x : Emit α) : Prop :=
  ∀ s r s', x s = .ok (r, s') → s.Inside → Emitted s s'

/-- The emission and the evaluation correspond where `Γ` holds of the values; their results are then
related by `R`. -/
def Sim {α β : Type} (Γ : Nat → Values → Prop) (x : Emit α) (y : Eval Managed β)
    (R : α → β → Nat → Values → Prop) : Prop :=
  ∀ s r s', x s = .ok (r, s') → s.Inside →
    Emitted s s' ∧
      (s.dead = false → Final sc fn s' → ∀ n a t, Matches cx sc fn s a t →
        Γ s.nextValue a.frame.values → Follows cx sc fn R n s s' a r (y n t))

end

namespace Final

variable {sc : Scene} {fn : FuncId} {s t : Emitter}

theorem of_grows (h : Final sc fn t) (hg : Grows s t) : Final sc fn s :=
  ⟨hg.within h.code, hg.literals.trans h.literals⟩

end Final

namespace Emitted

variable {s t u : Emitter}

theorem refl (hs : s.Inside) : Emitted s s := ⟨.refl hs, id, rfl⟩

theorem trans (hst : Emitted s t) (htu : Emitted t u) (hs : s.Inside) : Emitted s u where
  grows := hst.grows.trans htu.grows hs
  dead h := htu.dead (hst.dead h)
  scopes := htu.scopes.trans hst.scopes

theorem push (h : Emitted s t) (hs : s.Inside) (i : Instr) : Emitted s (t.push i) :=
  ⟨h.grows.push hs i, h.dead, h.scopes⟩

theorem withValue (h : Emitted s t) : Emitted s t.withValue := ⟨h.grows.withValue, h.dead, h.scopes⟩

end Emitted

namespace Emits

variable {α β : Type} {x : Emit α} {f : α → Emit β}

theorem bind (hx : Emits x) (hf : ∀ a, Emits (f a)) : Emits (x >>= f) := by
  intro s r s' h hs
  obtain ⟨a, t, ha, hb⟩ := Emit.bind_ok h
  have hst := hx s a t ha hs
  exact hst.trans (hf a t r s' hb hst.grows.inside) hs

theorem pure (a : α) : Emits (Pure.pure a : Emit α) := by
  intro s r s' h hs
  obtain ⟨-, rfl⟩ := Emit.pure_ok h
  exact .refl hs

theorem lift (x : Except Error α) : Emits (liftM x : Emit α) := by
  intro s r s' h hs
  obtain ⟨-, rfl⟩ := Emit.lift_ok h
  exact .refl hs

theorem throw (e : Error) : Emits (throw e : Emit α) := fun _ _ _ h _ => (Emit.throw_ok h).elim

theorem emit (i : Instr) : Emits (emit i) := by
  intro s r s' h hs
  cases h
  exact (Emitted.refl hs).push hs i

theorem define (f : ValueId → Instr) : Emits (define f) := by
  intro s r s' h hs
  cases h
  exact (Emitted.refl hs).withValue.push hs _

theorem own (p : Pending) : Emits (own p) := by
  intro s r s' h hs
  rw [Code.own] at h
  obtain ⟨s1, t, hg, h⟩ := Emit.bind_ok h
  cases hg
  cases heq : s.scopes with
  | nil =>
    rw [heq] at h
    exact (Emit.throw_ok h).elim
  | cons scope outer =>
    rw [heq] at h
    cases h
    exact ⟨(Grows.refl hs).setScopes _, id, by rw [heq]; rfl⟩

theorem isDead {f : Bool → Emit α} (hf : ∀ d, Emits (f d)) : Emits (isDead >>= f) := by
  intro s r s' h hs
  obtain ⟨d, t, hd, h⟩ := Emit.bind_ok h
  cases hd
  exact hf _ _ _ _ h hs

theorem ite {c : Prop} [Decidable c] {x y : Emit α} (hx : Emits x) (hy : Emits y) :
    Emits (if c then x else y) := by
  split
  · exact hx
  · exact hy

end Emits

/-! ## Composition -/

section

variable {cx : Context} {sc : Scene} {fn : FuncId} {α β γ δ : Type} {Γ Δ : Nat → Values → Prop}
  {R : α → β → Nat → Values → Prop} {S : γ → δ → Nat → Values → Prop} {y : Eval Managed β}
  {x : Emit α} {f : γ → Emit α}

theorem Sim.emits (h : Sim cx sc fn Γ x y R) : Emits x :=
  fun s r s' hx hs => (h s r s' hx hs).1

/-- An emission that always writes the same corresponds as soon as its code does. -/
theorem Sim.intro (he : Emits x)
    (h : ∀ s r s', x s = .ok (r, s') → s.Inside → s.dead = false → Final sc fn s' →
      ∀ n a t, Matches cx sc fn s a t → Γ s.nextValue a.frame.values →
        Follows cx sc fn R n s s' a r (y n t)) : Sim cx sc fn Γ x y R :=
  fun s r s' hx hs => ⟨he s r s' hx hs, h s r s' hx hs⟩

/-- A run that goes on after some steps, which count. -/
theorem Follows.later {m n k : Nat} {s t s' : Emitter} {a c : Activation} {r : α}
    {o : Option (Ending β × Managed)} (hk : Activation.Steps sc.module sc.calls k a c)
    (ha : Agree s.nextValue a.frame.values c.frame.values) (hv : s.nextValue ≤ t.nextValue)
    (hmn : m ≤ k + n) (h : Follows cx sc fn R n t s' c r o) : Follows cx sc fn R m s s' a r o := by
  match o, h with
  | none, ⟨b, hb⟩ => exact (hk.trans hb).first hmn
  | some (.value _, _), ⟨hd, j, b, hj, hm, hab, hr⟩ =>
    exact ⟨hd, k + j, b, hk.trans hj, hm, ha.trans hab hv, hr⟩
  | some (.returned _, _), ⟨j, b, hj, hb⟩ => exact ⟨k + j, b, hk.trans hj, hb⟩
  | some (.fault _, _), ⟨j, b, hj, hb⟩ => exact ⟨k + j, b, hk.trans hj, hb⟩

theorem Follows.after {n k : Nat} {s t s' : Emitter} {a c : Activation} {r : α}
    {o : Option (Ending β × Managed)} (hk : Activation.Steps sc.module sc.calls k a c)
    (ha : Agree s.nextValue a.frame.values c.frame.values) (hv : s.nextValue ≤ t.nextValue)
    (h : Follows cx sc fn R n t s' c r o) : Follows cx sc fn R n s s' a r o :=
  h.later hk ha hv (Nat.le_add_left n k)

theorem Sim.bind [Inhabited β] [Stable Γ] {f : α → Emit γ} {g : β → Eval Managed δ}
    (hx : Sim cx sc fn Γ x y R) (hf : ∀ r b, Sim cx sc fn (fun n vs => Γ n vs ∧ R r b n vs) (f r)
      (g b) S) :
    Sim cx sc fn Γ (x >>= f) (y >>= g) S := by
  refine .intro (hx.emits.bind fun r => (hf r default).emits) ?_
  intro s r s' h hs hd hfin n a t hm ha
  obtain ⟨r1, s1, h1, h2⟩ := Emit.bind_ok h
  obtain ⟨he1, hsim⟩ := hx s r1 s1 h1 hs
  have hg2 := (hf r1 default).emits s1 r s' h2 he1.grows.inside
  have hfol := hsim hd (hfin.of_grows hg2.grows) n a t hm ha
  rw [Eval.bind_apply]
  match y n t, hfol with
  | none, h => exact h
  | some (.returned _, _), h => exact h
  | some (.fault _, _), h => exact h
  | some (.value b, t1), ⟨hd1, k, a1, hk, hm1, hag, hr⟩ =>
    refine Follows.after hk hag he1.grows.values ?_
    refine ((hf r1 b) s1 r s' h2 he1.grows.inside).2 hd1 hfin n a1 t1 hm1 ⟨?_, hr⟩
    exact Stable.extend ha he1.grows.values hag

theorem Sim.pure {a : α} {b : β} (h : ∀ bound vs, Γ bound vs → R a b bound vs) :
    Sim cx sc fn Γ (Pure.pure a) (Pure.pure b) R := by
  refine .intro (.pure a) ?_
  intro s r s' hx _ hd _ n act t hm ha
  obtain ⟨rfl, rfl⟩ := Emit.pure_ok hx
  exact ⟨hd, 0, act, .refl act, hm, .refl _ _, h _ _ ha⟩

/-- Code that computes something fixed has no part in the evaluation. -/
theorem Sim.prepare [Stable Γ] {x : Emit γ} {c : δ} (hx : Sim cx sc fn Γ x (Pure.pure c) S)
    (hf : ∀ r, Sim cx sc fn (fun n vs => Γ n vs ∧ S r c n vs) (f r) y R) :
    Sim cx sc fn Γ (x >>= f) y R := by
  refine .intro (hx.emits.bind fun r => (hf r).emits) ?_
  intro s r s' h hs hd hfin n a t hm ha
  obtain ⟨r1, s1, h1, h2⟩ := Emit.bind_ok h
  obtain ⟨he1, hsim⟩ := hx s r1 s1 h1 hs
  have hg2 := (hf r1).emits s1 r s' h2 he1.grows.inside
  obtain ⟨hd1, k, a1, hk, hm1, hag, hr⟩ := hsim hd (hfin.of_grows hg2.grows) n a t hm ha
  refine Follows.after hk hag he1.grows.values ?_
  refine ((hf r1) s1 r s' h2 he1.grows.inside).2 hd1 hfin n a1 t hm1 ⟨?_, hr⟩
  exact Stable.extend ha he1.grows.values hag

theorem Sim.prepareIf [Stable Γ] {p : Prop} [Decidable p] {x x' : Emit γ} {c d : δ}
    (hx : Sim cx sc fn Γ x (Pure.pure c) S) (hx' : Sim cx sc fn Γ x' (Pure.pure d) S)
    (hf : ∀ r, Sim cx sc fn (fun n vs => Γ n vs ∧ S r (if p then c else d) n vs) (f r) y R) :
    Sim cx sc fn Γ (if p then x >>= f else x' >>= f) y R := by
  by_cases hp : p
  · simp only [if_pos hp] at hf ⊢
    exact .prepare hx hf
  · simp only [if_neg hp] at hf ⊢
    exact .prepare hx' hf

theorem Sim.map {f : α → γ} {g : β → δ} (hx : Sim cx sc fn Γ x y R)
    (h : ∀ a b bound vs, R a b bound vs → S (f a) (g b) bound vs) :
    Sim cx sc fn Γ (f <$> x) (g <$> y) S := by
  intro s r s' hr hs
  obtain ⟨a, ha, rfl⟩ := Emit.map_ok hr
  refine ⟨hx.emits s a s' ha hs, fun hd hfin n act t hm hΓ => ?_⟩
  have hfol := (hx s a s' ha hs).2 hd hfin n act t hm hΓ
  rw [Eval.map_apply]
  match y n t, hfol with
  | none, h => exact h
  | some (.returned _, _), h => exact h
  | some (.fault _, _), h => exact h
  | some (.value b, t1), ⟨hd1, k, a1, hk, hm1, hag, hr⟩ =>
    exact ⟨hd1, k, a1, hk, hm1, hag, h _ _ _ _ hr⟩

/-- Look-ups of the emission leave no code. -/
theorem Sim.lift {e : Except Error γ} (h : ∀ c, e = .ok c → Sim cx sc fn Γ (f c) y R) :
    Sim cx sc fn Γ (liftM e >>= f) y R := by
  intro s r s' hx hs
  obtain ⟨c, t, hc, hf⟩ := Emit.bind_ok hx
  obtain ⟨he, rfl⟩ := Emit.lift_ok hc
  exact h c he _ _ _ hf hs

/-- Nothing is asked of code that is reached with no values at all. -/
theorem Sim.absurd (he : Emits x) (h : ∀ n vs, ¬ Γ n vs) : Sim cx sc fn Γ x y R :=
  .intro he fun _ _ _ _ _ _ _ _ _ _ _ ha => (h _ _ ha).elim

theorem Sim.throw {e : Error} :
    Sim cx sc fn Γ (throw e : Emit α) y R := fun _ _ _ h _ => (Emit.throw_ok h).elim

/-- What depends on whether the path is dead corresponds when it does on a live one. -/
theorem Sim.isDead {f : Bool → Emit α} (hlive : Sim cx sc fn Γ (f false) y R)
    (hdead : Emits (f true)) :
    Sim cx sc fn Γ (isDead >>= f) y R := by
  have he : Emits (Code.isDead >>= f) := .isDead fun d => by
    cases d with
    | false => exact hlive.emits
    | true => exact hdead
  refine .intro he ?_
  intro s r s' hx hs hd
  obtain ⟨d, t, ht, hx⟩ := Emit.bind_ok hx
  cases ht
  rw [hd] at hx
  exact (hlive s r s' hx hs).2 hd

theorem Sim.ite {c : Prop} [Decidable c] {x' : Emit α} {y' : Eval Managed β}
    (h : Sim cx sc fn Γ x y R) (h' : Sim cx sc fn Γ x' y' R) :
    Sim cx sc fn Γ (if c then x else x') (if c then y else y') R := by
  split
  · exact h
  · exact h'

end

/-! ## Single instructions -/

section

variable {cx : Context} {sc : Scene} {fn : FuncId} {Γ : Nat → Values → Prop}

theorem Matches.advance {s s' : Emitter} {a b : Activation} {t t' : Managed}
    (hm : Matches cx sc fn s a t) (hv : s.nextValue ≤ s'.nextValue)
    (hslots : s.slots.size ≤ s'.slots.size) (hsc : s'.scopes = s.scopes)
    (hsc' : t'.scopes = t.scopes) (hfn : b.frame.function = a.frame.function)
    (hcode : b.frame.code = s'.rest (blocks sc fn)) (hst : SameStore cx b t'.toStore)
    (hag : Agree s.nextValue a.frame.values b.frame.values) : Matches cx sc fn s' b t' where
  function := hfn.trans hm.function
  code := hcode
  store := hst
  slots := Nat.le_trans hm.slots hslots
  scopes := by
    rw [hsc, hsc']
    refine hm.scopes.imp fun _ _ h => h.imp fun p x hw => ?_
    match p, x, hw with
    | .value _, .value _, hw => exact Stable.extend (Γ := IsValue _ _) hw hv hag
    | .slot _, .slot _, hw => exact hw
  self v h := by
    obtain ⟨x, hx, hvx⟩ := hm.self v h
    exact ⟨x, hx, Stable.extend (Γ := IsValue v x) hvx hv hag⟩

/-- An instruction that defines a value does what an evaluation does that results in the value. -/
theorem Sim.define {f : ValueId → Instr} {y : Eval Store Value}
    (h : ∀ (a : Activation) (st : Store) (n : Nat) (v : ValueId) (rest : List Instr) (bound : Nat),
      a.frame.code = f v :: rest → SameStore cx a st → Γ bound a.frame.values →
      match y n st with
      | some (.value x, st') => st'.locals = st.locals ∧ a.step sc.module sc.calls =
          .ok (.next ⟨(a.frame.withCode rest).set v x, st'.heap, st'.made⟩)
      | some (.fault e, st') => st' = st ∧ a.step sc.module sc.calls = .error e
      | _ => False) :
    Sim cx sc fn Γ (Code.define f) (Managed.lift y) IsValue := by
  refine .intro (.define f) ?_
  intro s r s' hx hs hd hfin n a t hm ha
  cases hx
  have hcode :
      a.frame.code = f s.nextValue :: (s.withValue.push (f s.nextValue)).rest (blocks sc fn) :=
    hm.code.trans (Emitter.rest_push (s := s.withValue) hs hfin.code)
  have hstep := h a t.toStore n s.nextValue _ s.nextValue hcode hm.store ha
  rw [Managed.lift]
  generalize y n t.toStore = result at hstep ⊢
  rcases result with _ | ⟨x | _ | e, st⟩
  · exact hstep.elim
  · obtain ⟨hl, hstep⟩ := hstep
    have hag := Agree.insert s.nextValue a.frame.values x (Nat.le_refl s.nextValue)
    refine ⟨hd, 1, _, .one hstep, ?_, hag, Nat.lt_succ_self _, by simp [Frame.set]⟩
    refine hm.advance (Nat.le_succ _) (Nat.le_refl _) rfl rfl rfl rfl ⟨?_, rfl, rfl⟩ hag
    exact fun id hid => (hm.store.locals id hid).trans (by rw [hl])
  · exact hstep.elim
  · obtain ⟨rfl, hstep⟩ := hstep
    exact ⟨0, a, .refl a, hstep, hm.store⟩

/-- An instruction without a result does what an evaluation does that works on the store. -/
theorem Sim.emit {i : Instr} {y : Eval Store Unit}
    (h : ∀ (a : Activation) (st : Store) (n : Nat) (rest : List Instr) (bound : Nat),
      a.frame.code = i :: rest → SameStore cx a st → Γ bound a.frame.values →
      match y n st with
      | some (.value (), st') => ∃ b : Activation, a.step sc.module sc.calls = .ok (.next b) ∧
          b.frame.code = rest ∧ b.frame.values = a.frame.values ∧
          b.frame.function = a.frame.function ∧ SameStore cx b st'
      | some (.fault e, st') => st' = st ∧ a.step sc.module sc.calls = .error e
      | _ => False) :
    Sim cx sc fn Γ (Code.emit i) (Managed.lift y) Nothing := by
  refine .intro (.emit i) ?_
  intro s r s' hx hs hd hfin n a t hm ha
  cases hx
  have hcode : a.frame.code = i :: (s.push i).rest (blocks sc fn) :=
    hm.code.trans (Emitter.rest_push hs hfin.code)
  have hstep := h a t.toStore n _ s.nextValue hcode hm.store ha
  rw [Managed.lift]
  generalize y n t.toStore = result at hstep ⊢
  rcases result with _ | ⟨_ | _ | e, st⟩
  · exact hstep.elim
  · obtain ⟨b, hstep, hc, hv, hfn, hst⟩ := hstep
    have hag : Agree s.nextValue a.frame.values b.frame.values := hv ▸ .refl _ _
    refine ⟨hd, 1, b, .one hstep, ?_, hag, trivial⟩
    exact hm.advance (Nat.le_refl _) (Nat.le_refl _) rfl rfl hfn hc hst hag
  · exact hstep.elim
  · obtain ⟨rfl, hstep⟩ := hstep
    exact ⟨0, a, .refl a, hstep, hm.store⟩

end

end ObjectLang.Simulation
