import ObjectLang.Proofs.Conditionals

/-! # Loops

The code of a loop follows its rounds: each one goes from the header through the body back to the
header, where the same values wait as before.
-/

namespace ObjectLang.Simulation

open Syntax Checked Code Memory Execution Evaluation

variable {cx : Context} {sc : Scene} {fn : FuncId} {Γ : Nat → Values → Prop}

namespace Loop

variable (s : Emitter) (c : ValueId)

/-- The header comes first of three new blocks, then the body and last the exit. -/
def jump : Instr := .jump { block := s.blocks.size }

def branch : Instr := .branch c { block := Fork.second s } { block := Fork.third s }

def headAt : Emitter := { Fork.forked s (jump s) with current := s.blocks.size }

/-- The emitter at the start of the body, when the condition `c` ended at `u`. -/
def bodyAt (u : Emitter) : Emitter := { u.push (branch s c) with current := Fork.second s }

/-- The emitter behind the loop, when the body ended at `w`. -/
def exitAt (u w : Emitter) : Emitter := { w with dead := u.dead, current := Fork.third s }

theorem headAt_size : (headAt s).blocks.size = s.blocks.size + 3 := Fork.forked_size s (jump s)

theorem headAt_new (hs : s.Inside) {b : BlockId} (hb : s.blocks.size ≤ b) :
    (headAt s).blockAt b = {} := Fork.forked_new s (jump s) hs hb

theorem headAt_grows (hs : s.Inside) : Grows s (headAt s) := by
  refine (Fork.forked_grows s (jump s) hs).switch (Nat.le_refl _) ?_
  rw [Fork.forked_size]
  exact Nat.lt_add_of_pos_right (by decide)

variable {s c} {u w : Emitter}

theorem cond_size (hg : Grows (headAt s) u) : s.blocks.size + 3 ≤ u.blocks.size :=
  headAt_size s ▸ hg.size

theorem cond_new (hs : s.Inside) (hg : Grows (headAt s) u) {b : Nat} (hb : s.blocks.size < b)
    (hb' : b < s.blocks.size + 3) : u.blockAt b = {} := by
  rw [hg.kept b (by rw [headAt_size]; exact hb') (Nat.ne_of_gt hb)]
  exact headAt_new s hs (Nat.le_of_lt hb)

/-- The branch goes to the end of the header's last block, which is none of the other new ones. -/
theorem bodyAt_new (hs : s.Inside) (hg : Grows (headAt s) u) {b : Nat} (hb : s.blocks.size < b)
    (hb' : b < s.blocks.size + 3) : (bodyAt s c u).blockAt b = {} := by
  have hne : b ≠ u.current := by
    obtain h | h := hg.current
    · rw [h]
      exact Nat.ne_of_gt hb
    · exact Nat.ne_of_lt (Nat.lt_of_lt_of_le hb' (headAt_size s ▸ h))
  change (u.push (branch s c)).blockAt b = {}
  rw [Emitter.push_blockAt_ne _ _ hne]
  exact cond_new hs hg hb hb'

theorem bodyAt_inside (hg : Grows (headAt s) u) : (bodyAt s c u).Inside := by
  have := cond_size hg
  change Fork.second s < (u.push (branch s c)).blocks.size
  rw [Fork.second_eq, Emitter.push_blocks_size]
  omega

theorem bodyAt_grows (hs : s.Inside) (hg : Grows (headAt s) u) : Grows s (bodyAt s c u) := by
  have hsu := ((headAt_grows s hs).trans hg hs).push hs (branch s c)
  exact hsu.switch (Fork.second_eq s ▸ Nat.le_succ _) (bodyAt_inside hg)

theorem exitAt_inside (hg : Grows (headAt s) u) (hg' : Grows (bodyAt s c u) w) :
    (exitAt s u w).Inside := by
  have h1 := cond_size hg
  have h2 : (u.push (branch s c)).blocks.size ≤ w.blocks.size := hg'.size
  rw [Emitter.push_blocks_size] at h2
  change Fork.third s < w.blocks.size
  rw [Fork.third_eq]
  omega

theorem exitAt_new (hs : s.Inside) (hg : Grows (headAt s) u) (hg' : Grows (bodyAt s c u) w) :
    (exitAt s u w).blockAt (exitAt s u w).current = {} := by
  have h1 := cond_size hg
  have heq := Fork.third_eq s
  have hlt : Fork.third s < (bodyAt s c u).blocks.size := by
    change Fork.third s < (u.push (branch s c)).blocks.size
    rw [Emitter.push_blocks_size]
    omega
  have hne : Fork.third s ≠ Fork.second s := by
    rw [Fork.third_eq, Fork.second_eq]
    omega
  change w.blockAt (Fork.third s) = {}
  rw [hg'.kept _ hlt hne]
  exact bodyAt_new hs hg (b := Fork.third s) (by omega) (by omega)

theorem exitAt_grows (hs : s.Inside) (hg : Grows (headAt s) u) (hg' : Grows (bodyAt s c u) w) :
    Grows s (exitAt s u w) := by
  have hsw := ((bodyAt_grows hs hg).trans hg' hs).setDead u.dead
  exact hsw.switch (by rw [Fork.third_eq]; exact Nat.le_add_right _ _) (exitAt_inside hg hg')

end Loop

/-- The emission of a loop, in terms of its states. -/
theorem emitLoop_eq (condition : Emit ValueId) (ty : Ty) (body : Emit (Option ValueId))
    (s : Emitter) :
    emitLoop cx condition ty body s = (do
      let (c, u) ← inScope cx condition (Loop.headAt s)
      let (_, w) ← emitArm ty none s.blocks.size body (Loop.bodyAt s c u)
      pure ((), Loop.exitAt s u w) : Except Error (Unit × Emitter)) := by
  rw [emitLoop]
  change (inScope cx condition (Loop.headAt s) >>= fun p => _) = _
  congr 1
  funext ⟨c, u⟩
  change (body (Loop.bodyAt s c u) >>= fun p => _) = (body (Loop.bodyAt s c u) >>= fun p => _) >>= _
  rw [bind_assoc]
  congr 1
  funext ⟨value, w⟩
  obtain ⟨blocks, order, current, slots, nextValue, scopes, dead, literals⟩ := w
  cases dead with
  | true => rfl
  | false =>
    cases value with
    | none => rfl
    | some v => cases ty.isReference <;> rfl

variable {body : Emit (Option ValueId)} {condition : Emit ValueId} {a : Activation} {x : Emitter}
  {t : Managed} {n : Nat} {ty : Ty}

theorem emitLoop_ok {s s' : Emitter} {r : Unit}
    (h : emitLoop cx condition ty body s = .ok (r, s')) :
    ∃ c u d w, inScope cx condition (Loop.headAt s) = .ok (c, u) ∧
      emitArm ty none s.blocks.size body (Loop.bodyAt s c u) = .ok (d, w) ∧
      s' = Loop.exitAt s u w := by
  rw [emitLoop_eq] at h
  obtain ⟨p, hp, h⟩ := except_bind_ok h
  obtain ⟨q, hq, h⟩ := except_bind_ok h
  cases h
  exact ⟨p.1, p.2, q.1, q.2, hp, hq, rfl⟩

theorem Emits.emitLoop (hc : Emits condition) (hb : Emits body) (hk : Kept body) :
    Emits (Code.emitLoop cx condition ty body) := by
  intro s r s' h hs
  obtain ⟨c, u, d, w, hu, hw, rfl⟩ := emitLoop_ok h
  have hin := (Loop.headAt_grows s hs).inside
  have he := hc.inScope _ _ _ hu hin
  have hine := Loop.bodyAt_inside (c := c) he.grows
  have hg' := emitArm_grows hb hw hine
  refine ⟨Loop.exitAt_grows hs he.grows hg', fun hd => he.dead hd, ?_⟩
  have hscopes : w.scopes = s.scopes :=
    calc w.scopes = (Loop.bodyAt s c u).scopes := emitArm_scopes hk hw hine
      _ = u.scopes := rfl
      _ = (Loop.headAt s).scopes := Kept.inScope hc _ _ _ hu hin
      _ = s.scopes := rfl
  change w.scopes.tail = s.scopes.tail
  rw [hscopes]

/-! ## Rounds -/

namespace Loop

variable (sc) in
theorem iterate_succ (y : Eval Managed Value) (ty : Ty) (z : Eval Managed (Option Value))
    (k : Nat) :
    Eval.iterate (holds (Managed.inScope sc y)) (do Managed.dropResult sc ty (← z)) (k + 1) = (do
      let taken ← Eval.ofExcept (intOf (← Managed.inScope sc y))
      if taken ≠ 0 then
        let _ ← Managed.arm sc .void (ty, z)
        Eval.iterate (holds (Managed.inScope sc y)) (do Managed.dropResult sc ty (← z)) k) := by
  rw [Eval.iterate, holds]
  simp only [bind_assoc, pure_bind]
  congr 1
  funext x
  congr 1
  funext taken
  by_cases h : taken = 0
  · simp [h]
  · simp [h, Managed.arm, Ty.isVoid, Ty.void]

end Loop

/-- The test of a loop goes on to the body or behind the loop; the branch counts as a step. -/
theorem Follows.test {k : Nat} {head u e : Emitter} {c : ValueId} {rest : List Instr}
    {y : Eval Managed Value}
    {z : Eval Managed Unit} (hcond : Follows cx sc fn IsValue n head u a c (y n t)) (hk : k + 1 ≤ n)
    (hcode : u.rest (blocks sc fn) =
      .branch c { block := e.current } { block := x.current } :: rest) (he : Final sc fn e)
      (hine : e.Inside)
    (hnewe : e.blockAt e.current = {}) (hx : Final sc fn x) (hinx : x.Inside)
    (hnewx : x.blockAt x.current = {}) (hdead : x.dead = u.dead) (hv : u.nextValue ≤ x.nextValue)
    (hsl : u.slots.size ≤ x.slots.size) (hsc : x.scopes = u.scopes)
    (hbody : ∀ b t', u.dead = false → Matches cx sc fn u b t' →
      Agree head.nextValue a.frame.values b.frame.values →
      Follows cx sc fn Nothing k head x (b.goTo (e.rest (blocks sc fn))) () (z n t')) :
    Follows cx sc fn Nothing (k + 1) head x a ()
      ((do
        let taken ← Eval.ofExcept (intOf (← y))
        if taken ≠ 0 then z : Eval Managed Unit) n t) := by
  rw [Eval.bind_apply]
  match y n t, hcond with
  | none, ⟨b, hb⟩ => exact hb.first hk
  | some (.returned _, _), h => exact h
  | some (.fault _, _), h => exact h
  | some (.value v, t'), ⟨hd, i, b, hi, hm, hag, hval⟩ =>
    have hb := hm.code.trans hcode
    dsimp only
    cases hint : intOf v with
    | error e => exact ⟨i, b, hi, step_branch_error hb hval hint, hm.store⟩
    | ok m =>
      change Follows cx sc fn Nothing (k + 1) head x a ()
        ((if m ≠ 0 then z else Pure.pure () : Eval Managed Unit) n t')
      by_cases hzero : m = 0
      · have hstep : b.step sc.module sc.calls = .ok (.next (b.goTo (x.rest (blocks sc fn)))) := by
          refine step_branch hb hval hint ?_
          rw [if_pos hzero]
          exact jump_eq (f := b.frame.withCode rest) hm.function hx hinx hnewx
        rw [if_neg (not_not_intro hzero)]
        exact ⟨hdead.trans hd, i + 1, _, hi.trans (.one hstep), hm.goTo hv hsl hsc, hag, trivial⟩
      · have hstep : b.step sc.module sc.calls = .ok (.next (b.goTo (e.rest (blocks sc fn)))) := by
          refine step_branch hb hval hint ?_
          rw [if_neg hzero]
          exact jump_eq (f := b.frame.withCode rest) hm.function he hine hnewe
        rw [if_pos hzero]
        exact (hbody b t' hd hm hag).later (hi.trans (.one hstep)) hag (Nat.le_refl _) (by omega)

/-- From the end of the body the run is back at the header, where the same waits as before. -/
theorem Follows.back {k bound : Nat} {d : Bool} {head j : Emitter} {b : Activation} {t1 : Managed}
    {z : Eval Managed (Option Value)} {g : Eval Managed Unit}
    (harr : Arrives cx sc fn n bound d j none b (z n t1)) (hle : head.nextValue ≤ bound)
    (hk : k ≤ n)
    (hm : Matches cx sc fn head a t) (hag : Agree head.nextValue a.frame.values b.frame.values)
    (hsc : j.scopes = head.scopes) (hcode : j.rest (blocks sc fn) = head.rest (blocks sc fn))
    (hnext : ∀ c t2, Matches cx sc fn head c t2 →
      Agree head.nextValue a.frame.values c.frame.values →
      Follows cx sc fn Nothing k head x c () (g n t2)) :
    Follows cx sc fn Nothing k head x b () ((do let _ ← z; g : Eval Managed Unit) n t1) := by
  rw [Eval.bind_apply]
  match z n t1, harr with
  | none, ⟨c, hc⟩ => exact hc.first hk
  | some (.returned _, _), h => exact h
  | some (.fault _, _), h => exact h
  | some (.value _, t2), ⟨_, i, c, hi, hmj, hbc, _⟩ =>
    have hmh : Matches cx sc fn head c t2 := hm.rejoin hmj hsc rfl (Nat.le_refl _)
      (Nat.le_refl _) rfl (hmj.code.trans hcode) hmj.store (.refl _ _)
    have hbc' : Agree head.nextValue b.frame.values c.frame.values :=
      fun v hv => hbc v (Nat.lt_of_lt_of_le hv hle)
    exact (hnext c t2 hmh (hag.trans hbc' (Nat.le_refl _))).after hi hbc' (Nat.le_refl _)

namespace Loop

variable {ty : Ty} {condition : Emit ValueId} {y : Eval Managed Value}
  {body : Emit (Option ValueId)} {z : Eval Managed (Option Value)} {s u w : Emitter} {c : ValueId}
  {d : Bool} {n : Nat}

/-- The header as it is seen from the end of the body. -/
def backAt (s w : Emitter) : Emitter := { headAt s with nextValue := w.nextValue, slots := w.slots }

/-- Rounds from the header; each takes a step at least. -/
theorem rounds [Stable Γ] (hcond : Sim cx sc fn Γ condition y IsValue)
    (hbody : Sim cx sc fn Γ body z IsOption) (hkept : Kept body) (hs : s.Inside)
    (hd : s.dead = false) (hu : inScope cx condition (headAt s) = .ok (c, u))
    (hw : emitArm ty none s.blocks.size body (bodyAt s c u) = .ok (d, w))
    (hfin : Final sc fn (exitAt s u w)) (k : Nat) (hk : k ≤ n) (a : Activation) (t : Managed)
    (hm : Matches cx sc fn (headAt s) a t) (hΓ : Γ (headAt s).nextValue a.frame.values) :
    Follows cx sc fn Nothing k (headAt s) (exitAt s u w) a ()
      (Eval.iterate (holds (Managed.inScope sc y)) (do Managed.dropResult sc ty (← z)) k n t) := by
  have hin := (headAt_grows s hs).inside
  obtain ⟨he, hsim⟩ := hcond.inScope _ _ _ hu hin
  have hine := bodyAt_inside (c := c) he.grows
  have hg' := emitArm_grows hbody.emits hw hine
  have hscu : u.scopes = (headAt s).scopes := Kept.inScope hcond.emits _ _ _ hu hin
  have hscw : w.scopes = (bodyAt s c u).scopes := emitArm_scopes hkept hw hine
  have hfinw : Final sc fn w := hfin.congr rfl rfl
  have hfinb : Final sc fn (bodyAt s c u) := hfinw.of_grows hg'
  have hpush : Final sc fn (u.push (branch s c)) := hfinb.congr rfl rfl
  have hfinu := hpush.of_grows ((Grows.refl he.grows.inside).push he.grows.inside _)
  have hfinj : Final sc fn (backAt s w) := (hfinu.of_grows he.grows).congr rfl rfl
  have hnewb : (bodyAt s c u).blockAt (bodyAt s c u).current = {} :=
    bodyAt_new (b := Fork.second s) hs he.grows (by rw [Fork.second_eq]; omega)
      (by rw [Fork.second_eq]; omega)
  induction k generalizing a t with
  | zero => exact ⟨a, .refl a⟩
  | succ k ih =>
    rw [iterate_succ]
    refine Follows.test (e := bodyAt s c u) (hsim hd hfinu n a t hm hΓ) hk
      (Emitter.rest_push he.grows.inside hpush.code) hfinb hine hnewb hfin
      (exitAt_inside he.grows hg') (exitAt_new hs he.grows hg') rfl hg'.values hg'.slots hscw ?_
    intro b t1 hdu hmu hag
    have hmb := hmu.goTo (u := bodyAt s c u) (Nat.le_refl _) (Nat.le_refl _) rfl
    have hΓb := Stable.extend hΓ he.grows.values hag
    have harr := hbody.arrives (j := backAt s w) hkept (rfl : Ty.void.isVoid = _) (by simp)
      (by simp) hw hine hdu
      hfinw hfinj hin (headAt_new s hs (Nat.le_refl _)) (Nat.le_refl _) (Nat.le_refl _) hscu.symm
      n hmb hΓb
    refine Follows.back harr he.grows.values (Nat.le_of_succ_le hk) hm hag rfl rfl ?_
    intro b' t2 hmh hall
    exact ih (Nat.le_of_succ_le hk) b' t2 hmh (Stable.extend hΓ (Nat.le_refl _) hall)

end Loop

/-- A run that starts with a jump to a new block. -/
theorem Follows.enter {α β : Type} {R : α → β → Nat → Values → Prop} {s e : Emitter}
    {rest : List Instr} {r : α} {o : Option (Ending β × Managed)} (hm : Matches cx sc fn s a t)
    (hcode : s.rest (blocks sc fn) = .jump { block := e.current } :: rest) (he : Final sc fn e)
    (hine : e.Inside) (hnew : e.blockAt e.current = {}) (hg : Grows s e) (hsc : e.scopes = s.scopes)
    (h : ∀ b, Matches cx sc fn e b t → b.frame.values = a.frame.values →
      Follows cx sc fn R n e x b r o) : Follows cx sc fn R n s x a r o := by
  have hstep : a.step sc.module sc.calls = .ok (.next (a.goTo (e.rest (blocks sc fn)))) :=
    step_jump (hm.code.trans hcode) (jump_eq (f := a.frame.withCode rest) hm.function he hine hnew)
  have hag : Agree s.nextValue a.frame.values (a.goTo (e.rest (blocks sc fn))).frame.values :=
    .refl _ _
  exact (h _ (hm.goTo hg.values hg.slots hsc) rfl).after (.one hstep) hag hg.values

theorem Sim.emitLoop [Stable Γ] {y : Eval Managed Value} {z : Eval Managed (Option Value)}
    (hcond : Sim cx sc fn Γ condition y IsValue) (hbody : Sim cx sc fn Γ body z IsOption)
    (hkept : Kept body) :
    Sim cx sc fn Γ (Code.emitLoop cx condition ty body) (Managed.whileLoop sc y ty z) Nothing := by
  refine .intro (hcond.emits.emitLoop hbody.emits hkept) ?_
  intro s r s' hx hs hd hfin n a t hm ha
  obtain ⟨c, u, d, w, hu, hw, rfl⟩ := emitLoop_ok hx
  have hg := Loop.headAt_grows s hs
  have he := hcond.emits.inScope _ _ _ hu hg.inside
  have hine := Loop.bodyAt_inside (c := c) he.grows
  have hfinw : Final sc fn w := hfin.congr rfl rfl
  have hfinb := hfinw.of_grows (emitArm_grows hbody.emits hw hine)
  have hpush : Final sc fn (u.push (Loop.branch s c)) := hfinb.congr rfl rfl
  have hfinh :=
    (hpush.of_grows ((Grows.refl he.grows.inside).push he.grows.inside _)).of_grows he.grows
  have hcode : s.rest (blocks sc fn) = .jump { block := (Loop.headAt s).current } :: _ :=
    Fork.rest_eq s (Loop.jump s) hs (hfinh.congr rfl rfl).code
  refine Follows.enter hm hcode hfinh hg.inside (Loop.headAt_new s hs (Nat.le_refl _)) hg rfl ?_
  intro b hmb hb
  refine Loop.rounds hcond hbody hkept hs hd hu hw hfin n (Nat.le_refl _) b t hmb ?_
  rw [hb]
  exact Stable.extend ha hg.values (.refl _ _)

end ObjectLang.Simulation
