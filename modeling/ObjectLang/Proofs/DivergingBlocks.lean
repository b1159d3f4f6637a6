import ObjectLang.Proofs.IdRanges
import ObjectLang.Proofs.LiveBlocks

/-! # Blocks that diverge

The check marks the blocks in which every way ends in a return.  Neither the evaluation nor the
emission of code looks at the mark, but both agree with it: a marked block never has a value, and
the code behind it is dead.  So a function with a result, in which the check misses none, returns a
value wherever it ends.
-/

namespace ObjectLang.Evaluation

open Syntax Checked Code Eval

variable {σ α β : Type} {x : Eval σ α} {f : α → Eval σ β} {p : Program} {sc : Scene}

/-- The evaluation does not get to its end: it returns from the function or it fails before. -/
def Leaves (x : Eval σ α) : Prop := ∀ n s a t, x n s ≠ some (.value a, t)

namespace Leaves

theorem leave (v : Option Memory.Value) : Leaves (Eval.leave v : Eval σ α) := by
  intro n s a t h
  cases h

theorem bind (h : Leaves x) : Leaves (x >>= f) := by
  intro n s b t hrun
  rw [bind_apply] at hrun
  split at hrun
  · cases hrun
  · next a s1 hx => exact h n s a s1 hx
  · cases hrun
  · cases hrun

/-- What comes before may do as it likes. -/
theorem after (x : Eval σ α) (h : ∀ a, Leaves (f a)) : Leaves (x >>= f) := by
  intro n s b t hrun
  rw [bind_apply] at hrun
  split at hrun
  · cases hrun
  · next a s1 _ => exact h a n s1 b t hrun
  · cases hrun
  · cases hrun

theorem ite {c : Prop} [Decidable c] {x y : Eval σ α} (hx : Leaves x) (hy : Leaves y) :
    Leaves (if c then x else y) := by
  split
  · exact hx
  · exact hy

theorem ends {n : Nat} {s t : σ} {ending : Ending α} (h : Leaves x)
    (hrun : x n s = some (ending, t)) :
    (∃ v, ending = .returned v) ∨ ∃ e, ending = .fault e := by
  cases ending with
  | value a => exact absurd hrun (h n s a t)
  | returned v => exact .inl ⟨v, rfl⟩
  | fault e => exact .inr ⟨e, rfl⟩

end Leaves

mutual

theorem evalExpr_leaves (e : Expr) (h : Formed p e.nodes) (hd : e.diverges) :
    Leaves (evalExpr sc e) := by
  match e with
  | .block i body =>
    rw [Expr.nodes, formed_cons] at h
    rw [evalExpr]
    exact evalBlock_leaves body h.2 hd
  | .cond i condition thenBranch (some elseBranch) =>
    rw [Expr.nodes, formed_cons, formed_append, formed_append] at h
    obtain ⟨-, -, hthen, helse⟩ := h
    obtain ⟨hdt, hde⟩ := Bool.and_eq_true_iff.mp hd
    rw [evalExpr]
    apply Leaves.after
    intro c
    exact .ite (evalBlock_leaves thenBranch hthen hdt).bind
      (evalBlock_leaves elseBranch helse hde).bind

theorem evalStmt_leaves (s : Stmt) (h : Formed p s.nodes) (hd : s.diverges) :
    Leaves (evalStmt sc s) := by
  match s with
  | .ret none =>
    rw [evalStmt]
    exact .leave none
  | .ret (some value) =>
    rw [evalStmt]
    exact .after _ fun v => .leave (some v)
  | .expr value =>
    rw [Stmt.nodes, formed_cons] at h
    rw [evalStmt]
    exact (evalExpr_leaves value h.2 hd).bind

theorem evalStmts_leaves (ss : List Stmt) (h : Formed p (nodesOfStmts ss))
    (hd : ss.any (·.diverges)) :
    Leaves (evalStmts sc ss) := by
  match ss with
  | s :: ss =>
    rw [nodesOfStmts, formed_append] at h
    rw [List.any_cons, Bool.or_eq_true] at hd
    rw [evalStmts]
    rcases hd with hd | hd
    · exact (evalStmt_leaves s h.1 hd).bind
    · exact .after _ fun _ => evalStmts_leaves ss h.2 hd

theorem evalBlock_leaves (b : Checked.Block) (h : Formed p b.nodes) (hd : b.diverges) :
    Leaves (evalBlock sc b) := by
  match b with
  | .mk stmts none ty d span =>
    rw [Block.nodes, formed_cons, formed_append] at h
    have hs : stmts.any (·.diverges) := by simpa [Block.diverges, h.1.2] using hd
    rw [evalBlock]
    exact (evalStmts_leaves stmts h.2.1 hs).bind
  | .mk stmts (some tail) ty d span =>
    rw [Block.nodes, formed_cons, formed_append] at h
    obtain ⟨hform, hstmts, htail⟩ := h
    have hany : stmts.any (·.diverges) || tail.diverges := hform.2 ▸ hd
    rw [evalBlock]
    rcases Bool.or_eq_true_iff.mp hany with hs | ht
    · exact (evalStmts_leaves stmts hstmts hs).bind
    · exact .after _ fun _ => evalExpr_leaves tail htail ht

end

end ObjectLang.Evaluation

namespace ObjectLang.Check

open Source Scope Checked

variable {ctx : BodyContext} {s : State}

/-- Two known types that differ are reported. -/
theorem reportMismatch_ne {src : Sources} {expected found : Ty} {span : Span}
    (hexpected : expected ≠ .unknown)
    (hfound : found ≠ .unknown) : reportMismatch src expected found span s ≠ some ((), s) := by
  intro h
  rw [reportMismatch, if_pos (by simpa [Ty.isUnknown] using hexpected)] at h
  rcases bind_some h with ⟨text, s1, htext, h⟩
  cases htext
  rw [reportFound, if_pos (by simpa [Ty.isUnknown] using hfound)] at h
  rcases bind_some h with ⟨text, s1, htext, h⟩
  cases htext
  have herrors := congrArg (fun r => r.2.errors.length) (Option.some.inj h)
  simp at herrors

/-- A body that may be left without a return has a value, unless that is reported. -/
theorem ty_tail_of_checkResult {b : Block} (h : checkResult ctx b s = some ((), s))
    (hvoid : ctx.returnType ≠ .void) (hknown : ctx.returnType ≠ .unknown)
    (hdiverges : b.diverges = false) :
    ∃ e, b.tail = some e ∧ e.ty ≠ .void := by
  rw [checkResult, if_pos (by simp [Ty.isVoid, Ty.isUnknown, hvoid, hknown, hdiverges])] at h
  cases htail : b.tail with
  | none =>
    rw [htail] at h
    exact absurd h (reportMismatch_ne hknown fun hunknown => by cases hunknown)
  | some e =>
    rw [htail] at h
    refine ⟨e, rfl, fun hty => ?_⟩
    simp only [expectAssignable] at h
    rcases bind_some h with ⟨s', s1, hget, h⟩
    cases hget
    rw [if_pos (by simp [State.isAssignable, hty, Ty.isUnknown, hknown, Ne.symm hvoid])] at h
    exact reportMismatch_ne hknown (hty ▸ fun hunknown => by cases hunknown) h

end ObjectLang.Check

namespace ObjectLang.Simulation

open Syntax Scope Checked Check Code

theorem ne_unknown_of_signature {ptr : MachineType} {f : FuncInst} {sig : Signature}
    (h : signature ptr f = .ok sig) : f.returnType ≠ .unknown := by
  intro hunknown
  obtain ⟨params, -, h⟩ := except_bind_ok h
  rw [hunknown] at h
  obtain ⟨result, hresult, -⟩ := except_bind_ok h
  cases hresult

/-- On the way through an accepted body that does not return there is a value in the end. -/
theorem lowerBlock_yields_of_checkResult {cx : Context} {p : Program} (hcx : cx.program = p)
    {b : Checked.Block} (hform : Formed p b.nodes) {ctx : BodyContext} {s : State}
    (h : checkResult ctx b s = some ((), s)) (hvoid : ctx.returnType ≠ .void)
    (hknown : ctx.returnType ≠ .unknown) : Yields (lowerBlock cx b) := by
  apply lowerBlock_yields hcx b hform
  cases hd : b.diverges with
  | true => exact .inr rfl
  | false =>
    obtain ⟨e, htail, hty⟩ := ty_tail_of_checkResult h hvoid hknown hd
    obtain ⟨stmts, tail, ty, d, span⟩ := b
    rw [Block.nodes, formed_cons] at hform
    have heq : ty = (tail.map Expr.ty).getD .void := hform.1.1
    have htail : tail = some e := htail
    rw [htail] at heq
    left
    simpa [Checked.Block.ty, Ty.isVoid, heq] using hty

end ObjectLang.Simulation

namespace ObjectLang

open Source Syntax Scope Checked Check Code Simulation

/-- Without any report there is no `return` without a value in a function that has a result. -/
theorem Check.Settled.not_clean_of_bare {src : Sources} {s : State} (hs : Settled src s)
    {f : FuncId}
    (hf : f < s.program.functions.size) (hvoid : (s.program.functionAt f).returnType ≠ .void)
    (hknown : (s.program.functionAt f).returnType ≠ .unknown)
    (h : .stmt (.ret none) ∈ (s.program.functionAt f).nodes) : ¬s.Clean := by
  intro hclean
  have hrule := ((hs.judged.sound trivial hclean f hf).passes _ h).1
  exact hvoid (hrule hknown)

/-- Whatever was asked for and whatever was reported: a block that is marked as diverging is never
evaluated to its end, and behind its code the path is dead.  If the result of a function was
accepted, every way through its code that ends does so in a return, which has a value unless a
`return` without one was written and reported. -/
theorem divergence_sound (name : String) (dependencies : List String) (files : List (File Hint))
    {s : State} (h : Reached (sourcesOf name dependencies files) s) {f : FuncId}
    (hf : f < s.program.functions.size) :
    (∀ b, .block b ∈ (s.program.functionAt f).nodes → b.diverges = true →
      (∀ sc rounds store ending store', Evaluation.evalBlock sc b rounds store =
      some (ending, store') →
        (∃ v, ending = .returned v) ∨ ∃ e, ending = .fault e) ∧
      ∀ cx e v e', e.Inside → lowerBlock cx b e = .ok (v, e') → e'.dead = true) ∧
    ∀ b, (s.program.functionAt f).body = some b → (s.program.functionAt f).returnType ≠ .void →
      ∀ ctx t, ctx.returnType = (s.program.functionAt f).returnType →
      checkResult ctx b t = some ((), t) →
      ∀ cx sig literals e, cx.program = s.program → cx.function = s.program.functionAt f →
        signature cx.ptr cx.function = .ok sig → emitFunction cx sig { literals } = .ok ((), e) →
      ∀ path k i, (e.code sig).Path path k → i ∈ ((e.code sig).blockAt k).code.toList →
        i.isTerminator = true → i.targets = [] →
        ∃ v, i = .ret v ∧
          (v = none → .stmt (.ret none) ∈ (s.program.functionAt f).nodes ∧ ¬s.Clean) := by
  have hs := h.settled (regular_sources name dependencies files)
    (proper_sources name dependencies files)
  have hform := hs.judged.forms trivial f hf
  constructor
  · intro b hb hd
    have hbody : Formed s.program b.nodes :=
      fun n hn => hform n ((s.program.functionAt f).covers b hb hn)
    constructor
    · intro sc rounds store ending store' hrun
      exact (Evaluation.evalBlock_leaves b hbody hd).ends hrun
    · intro cx e v e' hinside hrun
      exact lowerBlock_dies b hbody hd e v e' hrun hinside
  · intro b hb hvoid ctx t hctx hresult cx sig literals e hprogram hfunction hsig hrun path k i
      hpath hi hend htargets
    have hknown : (s.program.functionAt f).returnType ≠ .unknown :=
      hfunction ▸ ne_unknown_of_signature hsig
    have hyields : ∀ body, cx.function.body = some body → Yields (lowerBlock cx body) := by
      intro body hbody
      obtain rfl : b = body := Option.some.inj (hb.symm.trans (hfunction ▸ hbody))
      apply lowerBlock_yields_of_checkResult hprogram _ hresult (hctx ▸ hvoid) (hctx ▸ hknown)
      intro n hn
      exact hform n (FuncInst.mem_nodes.mpr (.inl ⟨b, hb, hn⟩))
    have hbares :
        Bares (.stmt (.ret none) ∈ (s.program.functionAt f).nodes ∧ ¬s.Clean)
        cx.function.nodes := by
      intro hmem
      rw [hfunction] at hmem
      exact ⟨hmem, hs.not_clean_of_bare hf hvoid hknown hmem⟩
    have hreturns : cx.function.returnType.isVoid = false := by
      rw [hfunction]
      simpa [Ty.isVoid] using hvoid
    obtain ⟨L, h0, hclosed⟩ := emitFunction_closed hrun hbares hreturns hyields
    exact hclosed.returns h0 hpath hi hend htargets

/-- A function that returns in both arms of a conditional and has nothing behind it. -/
def fork : List (File Hint) := [{
  id := 0
  decls := [
    .function {
      mark := none, name := "fork",
      params := [{ mark := none, name := "n", type := .primitive none .i64 }]
      returnType := some (.primitive none .i64)
      body := some (.mk none [
        .expr none (.cond none (.binary none .eq (.ident none "n") (.int none 0))
          (.mk none [.ret none (some (.int none 1))] none)
          (some (.mk none [.ret none (some (.ident none "n"))] none)))] none) }] }]

def firstContext (p : Program) : Code.Context where
  program := p
  ptr := .i64
  layouts := []
  functionNames := ∅
  function := p.functionAt 0

/-- The first function, called where no call is answered. -/
def firstScene (p : Program) : Evaluation.Scene :=
  .ofCall default (p.functionAt 0) (fun _ _ _ => .error .mismatch) []

/-- The first local is zero. -/
def zeroStore : Evaluation.Store where
  locals := .ofList [(0, Memory.Value.int 0)]
  heap := {}

theorem checkAll_fork :
    ∃ s b sig e, checkAll (sourcesOf "app" [] fork) 50 {} = some ((), s) ∧ s.Clean ∧
      s.program.functions.size = 1 ∧ (s.program.functionAt 0).returnType = .primitive .i64 ∧
      (s.program.functionAt 0).body = some b ∧ b.diverges = true ∧
      (Evaluation.evalBlock (firstScene s.program) b 1 zeroStore).isSome = true ∧
      (lowerBlock (firstContext s.program) b (entry [] #[])).isOk = true ∧
      signature .i64 (s.program.functionAt 0) = .ok sig ∧
      emitFunction (firstContext s.program) sig {} = .ok ((), e) ∧
      (∃ i ∈ (e.blockAt 0).code.toList, ∃ t ∈ i.targets, t.block = 1) ∧
      ∃ i ∈ (e.blockAt 1).code.toList, i.isTerminator = true ∧ i.targets = [] := by
  have hrun : ((checkAll (sourcesOf "app" [] fork) 50 {}).any fun r =>
      r.2.errors.isEmpty && r.2.withdrawn.isEmpty && r.2.program.functions.size == 1 &&
      decide ((r.2.program.functionAt 0).returnType = .primitive .i64) &&
      (r.2.program.functionAt 0).body.any fun b => b.diverges &&
        (Evaluation.evalBlock (firstScene r.2.program) b 1 zeroStore).isSome &&
        (lowerBlock (firstContext r.2.program) b (entry [] #[])).isOk &&
        (signature .i64 (r.2.program.functionAt 0)).toOption.any fun sig =>
          (emitFunction (firstContext r.2.program) sig {}).toOption.any fun e =>
            ((e.2.blockAt 0).code.toList.any fun i => i.targets.any fun t => t.block == 1) &&
            (e.2.blockAt 1).code.toList.any fun i => i.isTerminator && i.targets.isEmpty) =
                true := by
    decide +kernel
  simp only [Option.any_eq_true, Bool.and_eq_true, List.isEmpty_iff, beq_iff_eq, decide_eq_true_eq,
    List.any_eq_true] at hrun
  obtain ⟨⟨_, s⟩, hcheck, ⟨⟨hclean, hsize⟩, hty⟩, b, hb, ⟨⟨hd, heval⟩, hlower⟩, sig, hsig, ⟨_, e⟩,
      he, hcode⟩ :=
    hrun
  exact ⟨s, b, sig, e, hcheck, hclean, hsize, hty, hb, hd, heval, hlower, eq_ok_of_toOption hsig,
    eq_ok_of_toOption he, hcode⟩

/-- One arm of the conditional is the block behind the entry. -/
theorem divergence_sound_fork :
    ∃ s b sig e, Reached (sourcesOf "app" [] fork) s ∧ s.Clean ∧
      (s.program.functionAt 0).body = some b ∧ b.diverges = true ∧
      (∃ ending store, Evaluation.evalBlock (firstScene s.program) b 1 zeroStore =
      some (ending, store) ∧
        ((∃ v, ending = .returned v) ∨ ∃ e, ending = .fault e)) ∧
      (∃ v e', lowerBlock (firstContext s.program) b (entry [] #[]) = .ok (v, e') ∧
      e'.dead = true) ∧
      emitFunction (firstContext s.program) sig {} = .ok ((), e) ∧ (e.code sig).Path [0] 1 ∧
      ∃ v, .ret (some v) ∈ ((e.code sig).blockAt 1).code.toList := by
  obtain ⟨s, b, sig, e, h, hclean, hsize, hty, hb, hd, heval, hlower, hsig, he, hbranch, i, hi,
      hend, htargets⟩ :=
    checkAll_fork
  have hreached : Reached (sourcesOf "app" [] fork) s :=
    .single ⟨.all, 50, none, trivial, bind_of_eq_some h⟩
  obtain ⟨hmarked, hreturns⟩ :=
    divergence_sound "app" [] fork hreached (f := 0) (by rw [hsize]; decide)
  have hmem : .block b ∈ (s.program.functionAt 0).nodes := by
    obtain ⟨stmts, tail, ty, d, span⟩ := b
    exact FuncInst.mem_nodes.mpr (.inl ⟨_, hb, by simp [Block.nodes]⟩)
  obtain ⟨heval', hlower'⟩ := hmarked b hmem hd
  obtain ⟨⟨ending, store⟩, hrun⟩ := Option.isSome_iff_exists.mp heval
  have hpath : (e.code sig).Path [0] 1 := by
    obtain ⟨j, hj, t, ht, hblock⟩ := hbranch
    exact hblock ▸ .step .entry hj ht
  obtain ⟨v, rfl, hv⟩ := hreturns b hb (by simp [hty])
    ⟨sourcesOf "app" [] fork, fun _ _ _ => pure none, default, (s.program.functionAt 0).returnType⟩
    s rfl
    (by rw [checkResult, if_neg (by simp [hd])]; rfl) (firstContext s.program) sig #[] e
    rfl rfl hsig he [0] 1 i hpath hi hend htargets
  refine ⟨s, b, sig, e, hreached, hclean, hb, hd, ⟨ending, store, hrun, heval' _ _ _ _ _ hrun⟩, ?_,
    he, hpath, ?_⟩
  · cases hok : lowerBlock (firstContext s.program) b (entry [] #[]) with
    | error _ =>
      rw [hok] at hlower
      cases hlower
    | ok r => exact ⟨r.1, r.2, rfl, hlower' _ _ _ _ (entry_inside _ _) hok⟩
  · cases v with
    | none => exact absurd hclean (hv rfl).2
    | some v => exact ⟨v, hi⟩

/-- A function with a result that divides by its parameter and then returns without a value. -/
def bareReturn : List (File Hint) := [{
  id := 0
  decls := [
    .function {
      mark := none, name := "f",
      params := [{ mark := none, name := "n", type := .primitive none .i64 }]
      returnType := some (.primitive none .i64)
      body := some (.mk none [
        .expr none (.binary none .div (.int none 1) (.ident none "n")), .ret none none] none) }] }]

def Evaluation.Ending.isTrap {α : Type} : Ending α → Bool
  | .fault .trap => true
  | _ => false

theorem Evaluation.Ending.eq_trap {α : Type} {x : Ending α} (h : x.isTrap = true) :
    x = .fault .trap := by
  unfold isTrap at h
  split at h
  · rfl
  · cases h

/-- The body diverges, and so nothing is said about its result: yet a division by zero ends it
before the `return`, and behind the division its code returns without a value. -/
theorem bare_return_accepted :
    ∃ s b sig e store, checkAll (sourcesOf "app" [] bareReturn) 50 {} = some ((), s) ∧
      (s.program.functionAt 0).body = some b ∧
      (s.program.functionAt 0).returnType = .primitive .i64 ∧ b.diverges = true ∧
      checkResult ⟨sourcesOf "app" [] bareReturn, fun _ _ _ => pure none, default, .primitive .i64⟩
      b s =
        some ((), s) ∧
      Evaluation.evalBlock (firstScene s.program) b 1 zeroStore = some (.fault .trap, store) ∧
      signature .i64 (s.program.functionAt 0) = .ok sig ∧
      emitFunction (firstContext s.program) sig {} = .ok ((), e) ∧
      .ret none ∈ ((e.code sig).blockAt 0).code.toList := by
  have hrun : ((checkAll (sourcesOf "app" [] bareReturn) 50 {}).any fun r =>
      decide ((r.2.program.functionAt 0).returnType = .primitive .i64) &&
      (r.2.program.functionAt 0).body.any fun b => b.diverges &&
        (Evaluation.evalBlock (firstScene r.2.program) b 1 zeroStore).any (·.1.isTrap) &&
        (signature .i64 (r.2.program.functionAt 0)).toOption.any fun sig =>
          (emitFunction (firstContext r.2.program) sig {}).toOption.any fun e =>
            decide (.ret none ∈ ((e.2.code sig).blockAt 0).code.toList)) = true := by
    decide +kernel
  simp only [Option.any_eq_true, Bool.and_eq_true, decide_eq_true_eq] at hrun
  obtain ⟨⟨_, s⟩, hcheck, hty, b, hb, ⟨hd, ⟨ending, store⟩, heval, htrap⟩, sig, hsig, ⟨_, e⟩, he,
    hret⟩ := hrun
  refine ⟨s, b, sig, e, store, hcheck, hb, hty, hd, ?_, Evaluation.Ending.eq_trap htrap ▸ heval,
    eq_ok_of_toOption hsig, eq_ok_of_toOption he, hret⟩
  rw [checkResult, if_neg (by simp [hd])]
  rfl

end ObjectLang
