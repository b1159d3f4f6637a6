import ObjectLang.Proofs.Erasure

/-! # The code of a function means what its tree means

A call of a generated function is compared with the evaluation of the function's checked tree, as
far as a call shows: what it returns or why it cannot go on, what the locals and the heap hold in
the end, and which calls were made.  The code does what the evaluation with counted references does,
whatever calls answer.  It does what the plain evaluation does unless counting fails or frees what
is still used.
-/

namespace ObjectLang.Preservation

open Syntax Checked Code Memory Execution Evaluation Simulation

structure Outcome where
  /-- What was returned, or why the call could not go on. -/
  result : Except Fault (Option Value)
  locals : List (Option Value)
  heap : Heap
  made : List (Callee × List Value)

namespace Outcome

/-- What is shown by a function whose locals hold values. -/
def ofLocals (f : FuncInst) (result : Except Fault (Option Value)) (held : LocalId → Option Value)
    (heap : Heap) (made : List (Callee × List Value)) : Outcome :=
  { result, locals := (List.range f.locals.length).map held, heap, made }

def ofEnd (f : FuncInst) : Activation.End → Outcome
  | .returned x a => .ofLocals f (.ok x) (a.frame.slots[·]?) a.heap a.made
  | .fault e a => .ofLocals f (.error e) (a.frame.slots[·]?) a.heap a.made

def ofEnding (f : FuncInst) : Ending Empty × Store → Outcome
  | (.returned x, s) => .ofLocals f (.ok x) (s.locals[·]?) s.heap s.made
  | (.fault e, s) => .ofLocals f (.error e) (s.locals[·]?) s.heap s.made

/-- The outcomes differ in counting only. -/
structure Alike (lost : Fault → Prop) (o o' : Outcome) : Prop where
  result : o.result = o'.result
  locals : o.locals = o'.locals
  heap : SameContents lost o.heap o'.heap
  made : visible o.made = visible o'.made

def IsLost (lost : Fault → Prop) (o : Outcome) : Prop := ∃ e, o.result = .error e ∧ lost e

theorem ofLocals_eq {cx : Context} {a : Activation} {s : Store} (h : SameStore cx a s)
    (result : Except Fault (Option Value)) :
    ofLocals cx.function result (a.frame.slots[·]?) a.heap a.made =
      ofLocals cx.function result (s.locals[·]?) s.heap s.made := by
  have hlocals : (List.range cx.function.locals.length).map (a.frame.slots[·]?) =
      (List.range cx.function.locals.length).map (s.locals[·]?) :=
    List.map_congr_left fun id hid => h.locals id (List.mem_range.mp hid)
  rw [ofLocals, ofLocals, hlocals, h.heap, h.made]

theorem alike_of_shows {lost : Fault → Prop} {sc : Scene} {t : Managed} {st : Store}
    (h : Shows lost sc t st) (f : FuncInst) (result : Except Fault (Option Value)) :
    Alike lost (ofLocals f result (t.locals[·]?) t.heap t.made)
      (ofLocals f result (st.locals[·]?) st.heap st.made) :=
  ⟨rfl, by rw [ofLocals, ofLocals, h.locals], h.heap, h.made⟩

end Outcome

section

variable (m : Module) (f : FuncInst) (calls : Calls) (args : List Value) (heap : Heap)

def evalCall (rounds : Nat) : Option (Ending Empty × Store) :=
  f.body.bind fun body =>
    evalFunction (.ofCall m f calls args) body (passedArgs f args) rounds { heap }

def evalCounted (rounds : Nat) : Option (Ending Empty × Store) :=
  f.body.bind fun body =>
    (Managed.evalFunction (.ofCall m f calls args) body (passedArgs f args) rounds { heap }).map
      fun e => (e.1, e.2.toStore)

/-- A run of the code of a function ends with the outcome. -/
def RunShows (id : FuncId) (o : Outcome) : Prop :=
  ∃ fuel, (Activation.run m calls fuel (.start m id args heap)).map (.ofEnd f) = some o

def CountedShows (o : Outcome) : Prop :=
  ∃ rounds, (evalCounted m f calls args heap rounds).map (.ofEnding f) = some o

def EvalShows (o : Outcome) : Prop :=
  ∃ rounds, (evalCall m f calls args heap rounds).map (.ofEnding f) = some o

end

/-- A run that follows an evaluation shows in the end what the evaluation shows. -/
theorem run_of_follows {cx : Context} {sc : Scene} {fn : FuncId} {n : Nat} {s s' : Emitter}
    {a : Activation} {e : Ending Empty × Managed}
    (h : Follows cx sc fn (Nothing (α := Unit)) n s s' a () (some e)) :
    ∃ fuel, (Activation.run sc.module sc.calls fuel a).map (Outcome.ofEnd cx.function) =
      some (.ofEnding cx.function (e.1, e.2.toStore)) := by
  obtain ⟨_ | x | e, t⟩ := e
  · contradiction
  · obtain ⟨k, b, hk, hb, hstore⟩ := h
    refine ⟨k + 1, ?_⟩
    rw [hk.run_add, Activation.run, hb]
    exact congrArg some (Outcome.ofLocals_eq hstore _)
  · obtain ⟨k, b, hk, hb, hstore⟩ := h
    refine ⟨k + 1, ?_⟩
    rw [hk.run_add, Activation.run, hb]
    exact congrArg some (Outcome.ofLocals_eq hstore _)

/-- The bound on the rounds bounds no run that ends within as many steps. -/
theorem ends_of_follows {cx : Context} {sc : Scene} {fn : FuncId} {n : Nat} {s s' : Emitter}
    {a : Activation} {o : Option (Ending Empty × Managed)} {r : Activation.End}
    (h : Follows cx sc fn (Nothing (α := Unit)) n s s' a () o)
    (hr : Activation.run sc.module sc.calls n a = some r) : ∃ e, o = some e := by
  cases o with
  | some e => exact ⟨e, rfl⟩
  | none =>
    obtain ⟨b, hb⟩ := h
    rw [hb.run_eq_none] at hr
    cases hr

section

variable {p : Program} {m : Module} {f : FuncId} {args : List Value}

/-- The code does what the evaluation with counted references does, whatever calls answer. -/
theorem runShows_iff_countedShows (hm : generate .i64 p = .ok m) (hf : f < p.functions.size)
    (htyped : functionTyped p (p.functionAt f))
    (hargs : args.length = (passedTypes (p.functionAt f)).length) (calls : Calls) (heap : Heap)
    (o : Outcome) :
    RunShows m (p.functionAt f) calls args heap f o ↔
      CountedShows m (p.functionAt f) calls args heap o := by
  constructor
  · rintro ⟨fuel, hrun⟩
    obtain ⟨cx, s, s', body, hcx, hbody, hfol⟩ :=
      follows_of_generate hm hf htyped calls hargs heap fuel
    obtain ⟨r, hr, rfl⟩ := Option.map_eq_some_iff.mp hrun
    -- The rounds of a loop take a step each, so the evaluation ends within as many rounds.
    obtain ⟨e, he⟩ := ends_of_follows hfol hr
    rw [he] at hfol
    obtain ⟨fuel', hrun'⟩ := run_of_follows hfol
    obtain ⟨r', hr', hoe⟩ := Option.map_eq_some_iff.mp hrun'
    obtain rfl := Activation.run_unique hr hr'
    refine ⟨fuel, ?_⟩
    rw [evalCounted, hbody, Option.bind_some, he, ← hcx, hoe]
    rfl
  · rintro ⟨rounds, heval⟩
    obtain ⟨cx, s, s', body, hcx, hbody, hfol⟩ :=
      follows_of_generate hm hf htyped calls hargs heap rounds
    rw [evalCounted, hbody, Option.bind_some, Option.map_map] at heval
    obtain ⟨e, he, rfl⟩ := Option.map_eq_some_iff.mp heval
    rw [he] at hfol
    rw [RunShows, ← hcx]
    exact run_of_follows hfol

variable {lost : Fault → Prop} {calls plain : Calls}

/-- The evaluation with counted references is lost, or the plain one shows the same. -/
theorem counted_of_eval {fn : FuncInst} (hparams : paramsTyped fn) (hc : Erases lost calls plain)
    (heap : Heap) (rounds : Nat) :
    (∀ o : Outcome, (evalCounted m fn calls args heap rounds).map (.ofEnding fn) = some o →
      o.IsLost lost ∨ ∃ o' : Outcome,
        (evalCall m fn plain args heap rounds).map (.ofEnding fn) = some o' ∧ o.Alike lost o') ∧
    ∀ o' : Outcome, (evalCall m fn plain args heap rounds).map (.ofEnding fn) = some o' →
      ∃ o : Outcome, (evalCounted m fn calls args heap rounds).map (.ofEnding fn) = some o ∧
        (o.IsLost lost ∨ o.Alike lost o') := by
  unfold evalCounted evalCall
  cases fn.body with
  | none => simp
  | some body =>
    have hmirror := @evalFunction_mirrors lost (.ofCall m fn calls args) plain hc hparams body
      (passedArgs fn args) rounds { heap }
    have hscene : (Scene.ofCall m fn calls args).answeredBy plain = .ofCall m fn plain args := rfl
    rw [hscene] at hmirror
    simp only [Option.bind_some, Option.map_map]
    generalize Managed.evalFunction (.ofCall m fn calls args) body _ rounds _ = x,
      evalFunction (.ofCall m fn plain args) body _ rounds _ = y at hmirror ⊢
    cases hmirror with
    | none => simp
    | lost he =>
      refine ⟨fun o ho => ?_, fun o' _ => ⟨_, rfl, .inl ⟨_, rfl, he⟩⟩⟩
      cases ho
      exact .inl ⟨_, rfl, he⟩
    | @value a => exact a.elim
    | returned hs | fault hs =>
      have halike := Outcome.alike_of_shows hs fn
      refine ⟨fun o ho => ?_, fun o' ho' => ?_⟩
      · cases ho
        exact .inr ⟨_, rfl, halike _⟩
      · cases ho'
        exact ⟨_, rfl, .inr (halike _)⟩

/-- Running the code of a well-typed function shows exactly what evaluating its tree with counted
references shows.  Where counting leaves alone what the heap holds, it shows what the plain
evaluation shows, unless the run is lost. -/
theorem run_shows_iff_eval_shows (hm : generate .i64 p = .ok m) (hf : f < p.functions.size)
    (htyped : functionTyped p (p.functionAt f))
    (hargs : args.length = (passedTypes (p.functionAt f)).length) (calls : Calls) (heap : Heap) :
    (∀ o, RunShows m (p.functionAt f) calls args heap f o ↔
      CountedShows m (p.functionAt f) calls args heap o) ∧
    ∀ lost plain, Erases lost calls plain →
      (∀ o, RunShows m (p.functionAt f) calls args heap f o → o.IsLost lost ∨
        ∃ o', EvalShows m (p.functionAt f) plain args heap o' ∧ o.Alike lost o') ∧
      ∀ o', EvalShows m (p.functionAt f) plain args heap o' →
        ∃ o, RunShows m (p.functionAt f) calls args heap f o ∧
          (o.IsLost lost ∨ o.Alike lost o') := by
  have hruns := runShows_iff_countedShows hm hf htyped hargs calls heap
  have hparams : paramsTyped (p.functionAt f) := by
    simp only [functionTyped, Bool.and_eq_true] at htyped
    exact htyped.1.1.2
  refine ⟨hruns, fun lost plain hc => ⟨fun o ho => ?_, fun o' ho' => ?_⟩⟩
  · obtain ⟨rounds, hcounted⟩ := (hruns o).mp ho
    rcases (counted_of_eval hparams hc heap rounds).1 o hcounted with hlost | ⟨o', ho', halike⟩
    · exact .inl hlost
    · exact .inr ⟨o', ⟨rounds, ho'⟩, halike⟩
  · obtain ⟨rounds, heval⟩ := ho'
    obtain ⟨o, hcounted, ho⟩ := (counted_of_eval hparams hc heap rounds).2 o' heval
    exact ⟨o, (hruns o).mpr ⟨rounds, hcounted⟩, ho⟩

end

/-- Makes a string, counts the argument down, and compares the string with its text. -/
def countdown : FuncInst where
  symbol := none
  name := "countdown"
  kind := .free
  params := [⟨"n", .i64, 0⟩]
  locals := [⟨"n", .i64, default⟩, ⟨"s", .string, default⟩]
  body := some (.mk
    [.bind 1 (some (.str ⟨.string, default⟩ "done")),
      .loop (.binary ⟨.bool, default⟩ .lt (.int ⟨.i64, default⟩ 0) (.var ⟨.i64, default⟩ 0))
        (.mk [.setVar 0 (.binary ⟨.i64, default⟩ .sub (.var ⟨.i64, default⟩ 0)
          (.int ⟨.i64, default⟩ 1))] none .void false default)]
    (some (.cond ⟨.i64, default⟩
      (.binary ⟨.bool, default⟩ .eq (.var ⟨.string, default⟩ 1) (.str ⟨.string, default⟩ "done"))
      (.mk [] (some (.var ⟨.i64, default⟩ 0)) .i64 false default)
      (some (.mk [.ret (some (.int ⟨.i64, default⟩ 1))] none .void true default))))
    .i64 false default)
  returnType := .i64
  span := default

/-- The function whose calls are counted by the runtime. -/
theorem countdown_shows :
    ∃ m, generate .i64 { functions := #[countdown] } = .ok m ∧ ∀ n heap,
      let calls := counting m fun _ _ _ => .error .mismatch
      let plain := uncounted m fun _ _ _ => .error .mismatch
      (∀ o, RunShows m countdown calls [.int n] heap 0 o ↔
        CountedShows m countdown calls [.int n] heap o) ∧
      (∀ o, RunShows m countdown calls [.int n] heap 0 o → o.IsLost OfCounting ∨
        ∃ o', EvalShows m countdown plain [.int n] heap o' ∧ o.Alike OfCounting o') ∧
      ∀ o', EvalShows m countdown plain [.int n] heap o' →
        ∃ o, RunShows m countdown calls [.int n] heap 0 o ∧
          (o.IsLost OfCounting ∨ o.Alike OfCounting o') := by
  have hok : (generate .i64 { functions := #[countdown] }).isOk := by decide +kernel
  match hm : generate .i64 { functions := #[countdown] }, hok with
  | .ok m, _ =>
    refine ⟨m, rfl, fun n heap => ?_⟩
    have hshows := run_shows_iff_eval_shows (f := 0) hm (by decide) (by decide)
      (show [Value.int n].length = _ from rfl) (counting m fun _ _ _ => .error .mismatch) heap
    exact ⟨hshows.1, hshows.2 OfCounting _ (counting_erases m fun _ _ _ _ _ => .error _)⟩

end ObjectLang.Preservation
