import ObjectLang.Proofs.Operations

/-! # Branches

Code that branches follows the evaluation of the arm that is taken, and arrives with it where the
arms come together.
-/

namespace ObjectLang.Simulation

open Syntax Checked Code Memory Execution Evaluation

variable {cx : Context} {sc : Scene} {fn : FuncId} {Γ : Nat → Values → Prop}

/-! ## Jumps -/

variable {y : Eval Managed Value} {s : Emitter} {a : Activation} {ty : MachineType} {u : Emitter}
  {v : ValueId} {j : Emitter} {t : Managed} {f : Frame} {x : Value}

theorem Final.congr {s' : Emitter} (h : Final sc fn s) (hb : s'.blocks = s.blocks)
    (hl : s'.literals = s.literals) : Final sc fn s' := by
  refine ⟨?_, hl ▸ h.literals⟩
  have hc := h.code
  simp only [Emitter.Within, Emitter.blockAt, hb] at hc ⊢
  exact hc

/-- A jump to a block that has nothing yet goes to where the emitter stands when it starts the
block. -/
theorem jump_eq (hfn : f.function = fn) (hu : Final sc fn u) (hin : u.Inside)
    (hnew : u.blockAt u.current = {}) :
    f.jump sc.module { block := u.current } = .ok (f.withCode (u.rest (blocks sc fn))) := by
  have hparams : (((blocks sc fn).getD u.current default)).params = [] := by
    rw [(hu.code u.current hin).1, hnew]
  have hrest : u.rest (blocks sc fn) = _ := Emitter.rest_of_empty (by rw [hnew])
  subst hfn
  change Except.ok (f.enter ((blocks sc f.function).getD u.current default) []) = _
  rw [Frame.enter, hparams, ← hrest]
  rfl

/-- A jump with a value to a block that has only a parameter. -/
theorem jump_param {r : ValueId} (hfn : f.function = fn) (hu : Final sc fn u) (hin : u.Inside)
    (hnew : u.blockAt u.current = { params := [(r, ty)] }) (hx : f.get v = .ok x) :
    f.jump sc.module { block := u.current, arg := some v } =
      .ok ((f.set r x).withCode (u.rest (blocks sc fn))) := by
  have hparams : (((blocks sc fn).getD u.current default)).params = [(r, ty)] := by
    rw [(hu.code u.current hin).1, hnew]
  have hrest : u.rest (blocks sc fn) = _ := Emitter.rest_of_empty (by rw [hnew])
  subst hfn
  change ([v].mapM f.get >>= fun args =>
    Except.ok (f.enter ((blocks sc f.function).getD u.current default) args)) = _
  rw [List.mapM_cons, hx]
  change Except.ok (f.enter ((blocks sc f.function).getD u.current default) [x]) = _
  rw [Frame.enter, hparams, ← hrest]
  rfl

theorem step_jump {m : Module} {calls : Calls} {target : Target} {rest : List Instr}
    (hcode : a.frame.code = .jump target :: rest)
    (hf : (a.frame.withCode rest).jump m target = .ok f) :
    a.step m calls = .ok (.next { a with frame := f }) := by
  rw [Activation.step_cons hcode, Frame.execute, hf]
  rfl

section

variable {m : Module} {calls : Calls} {a : Activation} {c : ValueId} {x : Value} {bound : Nat}
  {yes no : Target} {rest : List Instr}

theorem step_branch {n : Int} {f : Frame} (hcode : a.frame.code = .branch c yes no :: rest)
    (hc : IsValue c x bound a.frame.values) (hx : intOf x = .ok n)
    (hf : (a.frame.withCode rest).jump m (if n = 0 then no else yes) = .ok f) :
    a.step m calls = .ok (.next { a with frame := f }) := by
  have hget : (a.frame.withCode rest).getInt c = .ok n := hc.getInt.trans hx
  rw [Activation.step_cons hcode, Frame.execute, hget]
  simp only [bind, Except.bind, hf]
  rfl

theorem step_branch_error {e : Fault} (hcode : a.frame.code = .branch c yes no :: rest)
    (hc : IsValue c x bound a.frame.values) (hx : intOf x = .error e) :
    a.step m calls = .error e := by
  have hget : (a.frame.withCode rest).getInt c = .error e := hc.getInt.trans hx
  rw [Activation.step_cons hcode, Frame.execute, hget]
  rfl

end

section

variable {s s' u : Emitter} {a b : Activation} {t t' : Managed}

/-- The frame goes to where another emitter with the same scopes stands. -/
theorem Matches.goTo (hm : Matches cx sc fn s a t) (hv : s.nextValue ≤ u.nextValue)
    (hsl : s.slots.size ≤ u.slots.size) (hsc : u.scopes = s.scopes) :
    Matches cx sc fn u (a.goTo (u.rest (blocks sc fn))) t :=
  hm.advance hv hsl hsc rfl rfl rfl ⟨hm.store.1, hm.store.2, hm.store.3⟩ (.refl _ _)

end

private theorem forall₂_meet {α β γ : Type} {R : α → β → Prop} {S T : α → γ → Prop}
    (h : ∀ a b c, R a b → S a c → T a c) {as : List α} {bs : List β} {cs : List γ}
    (hr : List.Forall₂ R as bs) (hs : List.Forall₂ S as cs) : List.Forall₂ T as cs := by
  induction hr generalizing cs with
  | nil =>
    cases hs
    exact .nil
  | cons hab _ ih =>
    cases hs with
    | cons hac hs => exact .cons (h _ _ _ hab hac) (ih hs)

section

variable {s s' u : Emitter} {a b : Activation} {t t' : Managed}

/-- Paths that part at `s` and keep its scopes come together at `u`: what waits there was defined
before they parted. -/
theorem Matches.rejoin (hm : Matches cx sc fn s a t) (hm' : Matches cx sc fn s' b t')
    (hsc : s'.scopes = s.scopes) (hu : u.scopes = s.scopes) (hv : s.nextValue ≤ u.nextValue)
    (hsl : s.slots.size ≤ u.slots.size) {c : Activation} (hfn : c.frame.function = b.frame.function)
    (hcode : c.frame.code = u.rest (blocks sc fn)) (hst : SameStore cx c t'.toStore)
    (hag : Agree s.nextValue b.frame.values c.frame.values) : Matches cx sc fn u c t' where
  function := hfn.trans hm'.function
  code := hcode
  store := hst
  slots := Nat.le_trans hm.slots hsl
  scopes := by
    have hnow := hm'.scopes
    rw [hsc] at hnow
    rw [hu]
    have hwaits (p : Pending) (x y : Holder) (hx : Waits cx s.nextValue a.frame.values p x)
        (hy : Waits cx s'.nextValue b.frame.values p y) :
        Waits cx u.nextValue c.frame.values p y := by
      match p, x, y, hx, hy with
      | .value v, .value _, .value _, hx, hy =>
        exact ⟨Nat.lt_of_lt_of_le hx.1 hv, (hag v hx.1).trans hy.2⟩
      | .slot _, .slot _, .slot _, _, hy => exact hy
    refine forall₂_meet ?_ hm.scopes hnow
    exact fun _ _ _ h h' => forall₂_meet hwaits h h'
  self v h := by
    obtain ⟨x, -, hx⟩ := hm.self v h
    obtain ⟨y, hy, hvy⟩ := hm'.self v h
    exact ⟨y, hy, Nat.lt_of_lt_of_le hx.1 hv, (hag v hx.1).trans hvy.2⟩

theorem Matches.rejoinWith (hm : Matches cx sc fn s a t) (hm' : Matches cx sc fn s' b t')
    (hsc : s'.scopes = s.scopes) (hu : u.scopes = s.scopes) (hv : s.nextValue ≤ u.nextValue)
    (hsl : s.slots.size ≤ u.slots.size) (x : Value) :
    Matches cx sc fn u ((b.set s.nextValue x).goTo (u.rest (blocks sc fn))) t' :=
  hm.rejoin hm' hsc hu hv hsl rfl rfl ⟨hm'.store.1, hm'.store.2, hm'.store.3⟩
    (Agree.insert _ _ x (Nat.le_refl _))

end

/-- The jump at the end of an arm. -/
theorem Matches.jumpTo (hm : Matches cx sc fn s a t) (hs : s.Inside)
    (hpush : Final sc fn (s.push (.jump { block := j.current }))) (hj : Final sc fn j)
    (hinj : j.Inside) (hnew : j.blockAt j.current = {}) (hv : s.nextValue ≤ j.nextValue)
    (hsl : s.slots.size ≤ j.slots.size) (hsc : j.scopes = s.scopes) :
    a.step sc.module sc.calls = .ok (.next (a.goTo (j.rest (blocks sc fn)))) ∧
      Matches cx sc fn j (a.goTo (j.rest (blocks sc fn))) t :=
  ⟨step_jump (hm.code.trans (Emitter.rest_push hs hpush.code))
    (jump_eq (f := a.frame.withCode _) hm.function hj hinj hnew), hm.goTo hv hsl hsc⟩

/-! ## Scopes of arms -/

/-- The emission leaves the scopes as they were. -/
def Kept {α : Type} (x : Emit α) : Prop :=
  ∀ s r s', x s = .ok (r, s') → s.Inside → s'.scopes = s.scopes

theorem releaseAll_scopes {ps : List Pending} {s' : Emitter} {u : Unit}
    (h : Code.releaseAll cx ps s = .ok (u, s')) : s'.scopes = s.scopes := by
  induction ps generalizing s with
  | nil =>
    obtain ⟨-, rfl⟩ := Emit.pure_ok h
    rfl
  | cons p ps ih =>
    obtain ⟨_, t, hp, h⟩ := Emit.bind_ok h
    rw [ih h]
    cases p <;> cases hp <;> rfl

theorem Kept.inScope {α : Type} {x : Emit α} (hx : Emits x) : Kept (Code.inScope cx x) := by
  intro s r s' h hs
  obtain ⟨_, s1, ho, h⟩ := Emit.bind_ok h
  cases ho
  obtain ⟨a, s2, hb, h⟩ := Emit.bind_ok h
  obtain ⟨_, s3, hc, h⟩ := Emit.bind_ok h
  cases h
  have he := hx _ _ _ hb hs
  obtain ⟨scope, outer, hsc, hcase⟩ := closeScope_ok hc
  obtain rfl : outer = s.scopes := by simpa [hsc] using he.scopes
  obtain ⟨-, rfl⟩ | ⟨-, hr⟩ := hcase
  · rfl
  · exact (releaseAll_scopes hr).trans rfl

/-! ## Logical operators -/

namespace Shortcut

variable (s : Emitter) (op : BinaryOp) (a : ValueId)

/-- The block where both ways come together; the right operand has the block before it. -/
def merge : Nat := s.withBlock.blocks.size

/-- The branch after the left operand `a`. -/
def branch : Instr :=
  let right : Target := { block := s.blocks.size }
  let decided : Target := { block := merge s, arg := some a }
  if op = .and then .branch a right decided else .branch a decided right

/-- Both new blocks are there; the result is a parameter of the second. -/
def forked : Emitter := s.withBlock.withBlock.withParam (merge s) .i8

/-- The emitter at the start of the right operand. -/
def right : Emitter := { (forked s).push (branch s op a) with current := s.blocks.size }

/-- The emitter behind the operator when the right operand `b` ended at `t`. -/
def joined (t : Emitter) (b : ValueId) : Emitter :=
  { t.push (.jump { block := merge s, arg := some b }) with dead := s.dead, current := merge s }

theorem right_nextValue : (right s op a).nextValue = s.nextValue + 1 := rfl
theorem right_scopes : (right s op a).scopes = s.scopes := rfl

theorem merge_eq : merge s = s.blocks.size + 1 := by simp [merge, Emitter.withBlock]

theorem forked_size : (forked s).blocks.size = s.blocks.size + 2 := by
  simp [forked, Emitter.withParam, Emitter.withBlock]

theorem right_size : (right s op a).blocks.size = s.blocks.size + 2 := by
  simp [right, forked_size]

theorem forked_grows (hs : s.Inside) : Grows s (forked s) :=
  (Grows.refl hs).withBlock.withBlock.withParam hs (merge_eq s ▸ Nat.le_succ _) .i8

theorem forked_blockAt {b : BlockId} (hb : b ≠ merge s) : (forked s).blockAt b = s.blockAt b := by
  rw [forked, Emitter.withParam_blockAt, if_neg (by simp [hb]), Emitter.withBlock_blockAt,
    Emitter.withBlock_blockAt]

theorem forked_merge : (forked s).blockAt (merge s) = { params := [(s.nextValue, .i8)] } := by
  have hnew : s.withBlock.blockAt (merge s) = {} := Emitter.blockAt_of_size_le _ (Nat.le_refl _)
  rw [forked, Emitter.withParam_blockAt, if_pos ⟨rfl, by simp [merge, Emitter.withBlock]⟩,
    Emitter.withBlock_blockAt, hnew]
  rfl

theorem right_grows (hs : s.Inside) : Grows s (right s op a) :=
  ((forked_grows s hs).push hs _).switch (Nat.le_refl _) (by simp [forked_size])

theorem right_inside : (right s op a).Inside := by
  rw [Emitter.Inside, right_size]
  exact Nat.lt_add_of_pos_right (by decide)

theorem right_blockAt (b : BlockId) :
    (right s op a).blockAt b = ((forked s).push (branch s op a)).blockAt b := rfl

theorem right_current (hs : s.Inside) : (right s op a).blockAt s.blocks.size = {} := by
  have hne : s.blocks.size ≠ (forked s).current := Nat.ne_of_gt hs
  rw [right_blockAt, Emitter.push_blockAt_ne _ _ hne, forked_blockAt _ (by simp [merge_eq]),
    Emitter.blockAt_of_size_le _ (Nat.le_refl _)]

theorem right_merge (hs : s.Inside) :
    (right s op a).blockAt (merge s) = { params := [(s.nextValue, .i8)] } := by
  have hne : merge s ≠ (forked s).current := merge_eq s ▸ Nat.ne_of_gt (Nat.lt_succ_of_lt hs)
  rw [right_blockAt, Emitter.push_blockAt_ne _ _ hne, forked_merge]

theorem forked_rest (hs : s.Inside) (blocks : Array Code.Block) :
    (forked s).rest blocks = s.rest blocks := by
  have hne : s.current ≠ merge s := merge_eq s ▸ Nat.ne_of_lt (Nat.lt_succ_of_lt hs)
  change List.drop ((forked s).blockAt s.current).code.size _ = _
  rw [forked_blockAt s hne]
  rfl

theorem rest_eq (hs : s.Inside) {blocks : Array Code.Block}
    (h : ((forked s).push (branch s op a)).Within blocks) :
    s.rest blocks = branch s op a :: ((forked s).push (branch s op a)).rest blocks := by
  have hin : (forked s).Inside := (forked_grows s hs).inside
  rw [← forked_rest s hs]
  exact Emitter.rest_push hin h

/-- The emission behind the left operand `a`. -/
def rest (cx : Context) (op : BinaryOp) (a : ValueId) (x : Emit ValueId) : Emit ValueId :=
  fun s => do
  let (b, t) ← Code.inScope cx x (right s op a)
  return (s.nextValue, joined s t b)

theorem rest_ok {x : Emit ValueId} {s s' : Emitter} {r : ValueId}
    (h : rest cx op a x s = .ok (r, s')) :
    ∃ b t, Code.inScope cx x (right s op a) = .ok (b, t) ∧ r = s.nextValue ∧ s' = joined s t b := by
  obtain ⟨p, hp, h⟩ := except_bind_ok h
  cases h
  exact ⟨p.1, p.2, hp, rfl, rfl⟩

variable {s op a}

theorem joined_merge {t : Emitter} (hs : s.Inside) (hg : Grows (right s op a) t) (b : ValueId) :
    (joined s t b).blockAt (merge s) = { params := [(s.nextValue, .i8)] } := by
  have hlt : merge s < (right s op a).blocks.size := by rw [right_size, merge_eq]; omega
  have hne : merge s ≠ t.current := by
    have := merge_eq s
    rcases hg.current with h | h
    · have h : @Eq Nat t.current s.blocks.size := h
      omega
    · omega
  change (t.push _).blockAt _ = _
  rw [Emitter.push_blockAt_ne _ _ hne, hg.kept _ hlt ?_, right_merge _ _ _ hs]
  change merge s ≠ s.blocks.size
  rw [merge_eq]
  omega

theorem joined_grows {t : Emitter} (hs : s.Inside) (hg : Grows (right s op a) t) (b : ValueId) :
    Grows s (joined s t b) := by
  have hlt : merge s < t.blocks.size := by
    have := hg.size
    rw [right_size] at this
    rw [merge_eq]
    omega
  have ht := (((right_grows s op a hs).trans hg hs).push hs
    (.jump { block := merge s, arg := some b })).setDead s.dead
  exact ht.switch (by rw [merge_eq]; omega) (by simpa using hlt)

end Shortcut

theorem emitLogical_eq (op : BinaryOp) (left right : Emit ValueId) :
    emitLogical cx op left right = left >>= fun a => Shortcut.rest cx op a right := by
  funext s
  rw [emitLogical]
  change (left s >>= fun p => _) = (left s >>= fun p => _)
  congr 1
  funext ⟨a, s⟩
  by_cases hop : op = .and
  · simp only [hop, if_true]
    rfl
  · simp only [Shortcut.rest, Shortcut.right, Shortcut.branch, hop, if_false]
    rfl

theorem Emits.shortcut {x : Emit ValueId} (hx : Emits x) (op : BinaryOp) (a : ValueId) :
    Emits (Shortcut.rest cx op a x) := by
  intro s r s' h hs
  obtain ⟨b, t, ht, rfl, rfl⟩ := Shortcut.rest_ok op a h
  have he := hx.inScope _ _ _ ht (Shortcut.right_inside s op a)
  exact ⟨Shortcut.joined_grows hs he.grows b, id, he.scopes⟩

/-- A way from `s` through `e` to `u` that ends with a jump to `j`, where its result is a
parameter. -/
theorem Follows.joinParam {e : Emitter} {c : Activation} {b : ValueId} {n : Nat}
    {o : Option (Ending Value × Managed)} (hm : Matches cx sc fn s a t)
    (hstep : a.step sc.module sc.calls = .ok (.next c)) (hc : c.frame.values = a.frame.values)
    (hfol : Follows cx sc fn IsValue n e u c b o) (hle : s.nextValue ≤ e.nextValue)
    (hkept : u.scopes = s.scopes) (hin : u.Inside)
    (hpush : Final sc fn (u.push (.jump { block := j.current, arg := some b })))
    (hfin : Final sc fn j)
    (hinj : j.Inside) (hnew : j.blockAt j.current = { params := [(s.nextValue, ty)] })
    (hlt : s.nextValue < j.nextValue) (hslots : s.slots.size ≤ j.slots.size)
    (hscopes : j.scopes = s.scopes)
    (hd : j.dead = false) : Follows cx sc fn IsValue n s j a s.nextValue o := by
  have hac : Agree s.nextValue a.frame.values c.frame.values := hc ▸ .refl _ _
  match o, hfol with
  | none, hfol => exact Follows.after (.one hstep) hac hle hfol
  | some (.returned _, _), hfol => exact Follows.after (.one hstep) hac hle hfol
  | some (.fault _, _), hfol => exact Follows.after (.one hstep) hac hle hfol
  | some (.value z, t'), ⟨_, k, c', hk, hm', hag, hz⟩ =>
    have hcode := hm'.code.trans (Emitter.rest_push hin hpush.code)
    have hjump := jump_param (f := c'.frame.withCode _) hm'.function hfin hinj hnew (IsValue.get hz)
    have hins := Agree.insert s.nextValue c'.frame.values z (Nat.le_refl s.nextValue)
    refine ⟨hd, 1 + k + 1, (c'.set s.nextValue z).goTo (j.rest (blocks sc fn)),
      ((Activation.Steps.one hstep).trans hk).trans (.one (step_jump hcode hjump)), ?_, ?_, hlt, ?_⟩
    · exact hm.rejoinWith hm' hkept hscopes (Nat.le_of_lt hlt) hslots z
    · exact (hac.trans hag hle).trans hins (Nat.le_refl _)
    · simp [Activation.goTo, Activation.set, Frame.withCode, Frame.set]

/-- The branch goes to `e`, from where the right operand is followed, or with the left one to
`j`. -/
theorem Follows.shortcut {e : Emitter} {op : BinaryOp} {n : Nat} {rest : List Instr}
    (hm : Matches cx sc fn s a t) (hv : IsValue v x s.nextValue a.frame.values)
    (hcode : a.frame.code =
      (if op = .and then .branch v { block := e.current } { block := j.current, arg := some v }
        else .branch v { block := j.current, arg := some v } { block := e.current }) :: rest)
    (hfe : Final sc fn e) (hine : e.Inside) (hnewe : e.blockAt e.current = {})
    (htake : a.step sc.module sc.calls = .ok (.next (a.goTo (e.rest (blocks sc fn)))) →
      Follows cx sc fn IsValue n s j a s.nextValue (y n t)) (hfj : Final sc fn j) (hinj : j.Inside)
    (hnewj : j.blockAt j.current = { params := [(s.nextValue, ty)] })
    (hlt : s.nextValue < j.nextValue)
    (hslots : s.slots.size ≤ j.slots.size) (hscopes : j.scopes = s.scopes) (hd : j.dead = false) :
    Follows cx sc fn IsValue n s j a s.nextValue
      ((do
        let k ← Eval.ofExcept (intOf x)
        if op = BinaryOp.and then
          if k ≠ 0 then y else Pure.pure x
        else
          if k ≠ 0 then Pure.pure x else y : Eval Managed Value) n t) := by
  have hskip (h : a.step sc.module sc.calls =
      .ok (.next ((a.set s.nextValue x).goTo (j.rest (blocks sc fn))))) :
      Follows cx sc fn IsValue n s j a s.nextValue ((Pure.pure x : Eval Managed Value) n t) :=
    ⟨hd, 1, _, .one h, hm.rejoinWith hm rfl hscopes (Nat.le_of_lt hlt) hslots x,
      Agree.insert _ _ x (Nat.le_refl _), hlt,
      by simp [Activation.goTo, Activation.set, Frame.withCode, Frame.set]⟩
  have hje := jump_eq (f := a.frame.withCode rest) hm.function hfe hine hnewe
  have hjj := jump_param (f := a.frame.withCode rest) hm.function hfj hinj hnewj (IsValue.get hv)
  cases hx : intOf x with
  | error e =>
    refine ⟨0, a, .refl a, ?_, hm.store⟩
    split at hcode
    · exact step_branch_error hcode hv hx
    · exact step_branch_error hcode hv hx
  | ok k =>
    change Follows cx sc fn IsValue n s j a s.nextValue
      ((if op = BinaryOp.and then if k ≠ 0 then y else Pure.pure x
        else if k ≠ 0 then Pure.pure x else y : Eval Managed Value) n t)
    by_cases hop : op = .and <;> by_cases hk : k = 0
    · rw [if_pos hop] at hcode ⊢
      rw [if_neg (by simp [hk])]
      exact hskip (step_branch hcode hv hx (by rw [if_pos hk]; exact hjj))
    · rw [if_pos hop] at hcode ⊢
      rw [if_pos hk]
      exact htake (step_branch hcode hv hx (by rw [if_neg hk]; exact hje))
    · rw [if_neg hop] at hcode ⊢
      rw [if_neg (by simp [hk])]
      exact htake (step_branch hcode hv hx (by rw [if_pos hk]; exact hje))
    · rw [if_neg hop] at hcode ⊢
      rw [if_pos hk]
      exact hskip (step_branch hcode hv hx (by rw [if_neg hk]; exact hjj))

/-- The code behind the left operand goes on with the right one only if the left one does not
decide. -/
theorem Sim.shortcut [Stable Γ] (op : BinaryOp) {z : Emit ValueId}
    (hv : ∀ n vs, Γ n vs → IsValue v x n vs) (h : Sim cx sc fn Γ z y IsValue) :
    Sim cx sc fn Γ (Shortcut.rest cx op v z)
      (do
        let n ← Eval.ofExcept (intOf x)
        if op = .and then
          if n ≠ 0 then Managed.inScope sc y else Pure.pure x
        else
          if n ≠ 0 then Pure.pure x else Managed.inScope sc y) IsValue := by
  refine .intro (h.emits.shortcut op v) ?_
  intro s r s' hx hs hd hfin n a t hm ha
  obtain ⟨b, u, hu, rfl, rfl⟩ := Shortcut.rest_ok op v hx
  have hin := Shortcut.right_inside s op v
  obtain ⟨he, hsim⟩ := Sim.inScope h _ _ _ hu hin
  have hkept : u.scopes = s.scopes :=
    (Kept.inScope h.emits _ _ _ hu hin).trans (Shortcut.right_scopes s op v)
  have hpush : Final sc fn (u.push (.jump { block := Shortcut.merge s, arg := some b })) :=
    hfin.congr rfl rfl
  have hfinu := hpush.of_grows ((Grows.refl he.grows.inside).push he.grows.inside _)
  have hfinr := hfinu.of_grows he.grows
  have hforked : Final sc fn ((Shortcut.forked s).push _) := hfinr.congr rfl rfl
  have hcode := hm.code.trans (Shortcut.rest_eq s op v hs hforked.code)
  have hle : s.nextValue ≤ (Shortcut.right s op v).nextValue :=
    Shortcut.right_nextValue s op v ▸ Nat.le_succ _
  have hlt : s.nextValue < u.nextValue := by
    have := he.grows.values
    rw [Shortcut.right_nextValue] at this
    exact this
  have hinj := (Shortcut.joined_grows hs he.grows b).inside
  have hnewj := Shortcut.joined_merge hs he.grows b
  have hmr := hm.goTo hle (Nat.le_refl _) (Shortcut.right_scopes s op v)
  have hΓ : Γ (Shortcut.right s op v).nextValue
      (a.goTo ((Shortcut.right s op v).rest (blocks sc fn))).frame.values := by
    rw [Activation.goTo_values]
    exact Stable.extend ha hle (.refl _ _)
  have hfol := hsim hd hfinu n _ t hmr hΓ
  refine Follows.shortcut (e := Shortcut.right s op v) hm (hv _ _ ha) hcode hfinr hin
    (Shortcut.right_current s op v hs) (fun hstep => ?_) hfin hinj hnewj hlt he.grows.slots hkept hd
  exact .joinParam hm hstep (Activation.goTo_values _ _) hfol hle hkept he.grows.inside hpush hfin
    hinj hnewj hlt he.grows.slots hkept hd

theorem Sim.emitLogical [Stable Γ] (op : BinaryOp) {x z : Emit ValueId} {w : Eval Managed Value}
    (hx : Sim cx sc fn Γ x y IsValue)
    (hz : ∀ {Δ : Nat → Values → Prop} [Stable Δ], Sim cx sc fn Δ z w IsValue) :
    Sim cx sc fn Γ (Code.emitLogical cx op x z) (Managed.logical sc op y w) IsValue := by
  rw [emitLogical_eq]
  exact hx.bind fun _ _ => .shortcut op (fun _ _ h => h.2) hz

end ObjectLang.Simulation
