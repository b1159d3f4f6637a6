import ObjectLang.Proofs.Generation
import ObjectLang.Proofs.References

/-! # Evaluation without counting

An evaluation with counted references does what the plain evaluation does, unless it ends in a loss:
counting fails, or something is used that counting has freed.  Which faults are losses is a
parameter.
-/

namespace ObjectLang.Evaluation

open Syntax Checked Code Memory Execution Eval

section

variable (lost : Fault → Prop)

/-- The first answer is a loss, or the second one is like it. -/
inductive Answers {α β : Type} (R : α → β → Prop) : Except Fault α → Except Fault β → Prop
  | lost {e : Fault} {y : Except Fault β} : lost e → Answers R (.error e) y
  | error (e : Fault) : Answers R (.error e) (.error e)
  | ok {a : α} {b : β} : R a b → Answers R (.ok a) (.ok b)

/-- The cells hold the same.  One that is freed in the first heap may be there in the second if its
use is a loss. -/
structure SameContents (h g : Heap) : Prop where
  size : h.cells.size = g.cells.size
  contents : h.contentAt = g.contentAt
  freed : ∀ a, h.isFreed a = g.isFreed a ∨ h.isFreed a = true ∧ lost (.useAfterFree a)

def SameAnswer (x y : Option Value × Heap) : Prop := x.1 = y.1 ∧ SameContents lost x.2 y.2

/-- Counting leaves alone what the cells hold, and the plain calls do all the rest. -/
structure Erases (calls plain : Calls) : Prop where
  retain : ∀ v {h g}, SameContents lost h g →
    Answers lost (SameAnswer lost) (calls (.builtin .retain) [v] h) (.ok (none, g))
  release : ∀ v {h g}, SameContents lost h g →
    Answers lost (SameAnswer lost) (calls (.builtin .release) [v] h) (.ok (none, g))
  answers : ∀ callee args {h g}, SameContents lost h g →
    Answers lost (SameAnswer lost) (calls callee args h) (plain callee args g)

end

variable {lost : Fault → Prop}

namespace Answers

variable {α β γ δ : Type} {R : α → β → Prop} {S : γ → δ → Prop}

theorem refl (x : Except Fault α) : Answers lost Eq x x := by
  cases x with
  | error e => exact .error e
  | ok a => exact .ok rfl

theorem bind {x : Except Fault α} {y : Except Fault β} {f : α → Except Fault γ}
    {g : β → Except Fault δ} (h : Answers lost R x y)
    (hf : ∀ a b, R a b → Answers lost S (f a) (g b)) : Answers lost S (x >>= f) (y >>= g) := by
  cases h with
  | lost he => exact .lost he
  | error e => exact .error e
  | ok hab => exact hf _ _ hab

end Answers

/-! ## Heaps that hold the same -/

namespace SameContents

theorem refl (h : Heap) : SameContents lost h h := ⟨rfl, rfl, fun _ => .inl rfl⟩

variable {h g : Heap} (hg : SameContents lost h g)

include hg

theorem cell (a : Address) :
    Answers lost (fun c d => h.cells[a]? = some c ∧ g.cells[a]? = some d ∧
      c.content = d.content ∧ c.freed = d.freed) (h.cell a) (g.cell a) := by
  have hcontent := congrFun hg.contents a
  have hfreed := hg.freed a
  simp only [Heap.contentAt, Heap.isFreed] at hcontent hfreed
  unfold Heap.cell
  cases hc : h.cells[a]? with
  | none =>
    rw [hc] at hcontent
    rw [Option.map_eq_none_iff.mp hcontent.symm]
    exact .error _
  | some c =>
    rw [hc] at hcontent hfreed
    obtain ⟨d, hd, hcd⟩ := Option.map_eq_some_iff.mp hcontent.symm
    rw [hd] at hfreed ⊢
    dsimp only [Option.any_some] at hfreed ⊢
    rcases hfreed with heq | ⟨hcf, hlost⟩
    · rw [heq]
      split
      · exact .error _
      · exact .ok ⟨rfl, rfl, hcd.symm, heq⟩
    · rw [if_pos hcf]
      exact .lost hlost

theorem object (v : Value) :
    Answers lost (fun x y => ∃ a c d o, x = (a, c, o) ∧ y = (a, d, o) ∧ h.cells[a]? = some c ∧
      g.cells[a]? = some d ∧ c.freed = d.freed) (h.object v) (g.object v) := by
  cases v with
  | int n =>
    obtain rfl | hn := eq_or_ne n 0
    · exact .error _
    · have hint (k : Heap) : k.object (.int n) = .error .mismatch := by simp [Heap.object, hn]
      rw [hint, hint]
      exact .error _
  | ref a =>
    refine (hg.cell a).bind fun c d hcd => ?_
    obtain ⟨hc, hd, hcontent, hfreed⟩ := hcd
    rw [← hcontent]
    cases c.content with
    | text s => exact .error _
    | object o => exact .ok ⟨a, c, d, o, rfl, rfl, hc, hd, hfreed⟩
  | _ => exact .error _

theorem text (v : Value) : Answers lost Eq (h.text v) (g.text v) := by
  cases v with
  | ref a =>
    refine (hg.cell a).bind fun c d hcd => ?_
    rw [← hcd.2.2.1]
    exact .refl _
  | int n =>
    obtain rfl | hn := eq_or_ne n 0
    · exact .refl _
    · have hint (k : Heap) : k.text (.int n) = .error .mismatch := by simp [Heap.text, hn]
      rw [hint, hint]
      exact .error _
  | _ => exact .refl _

theorem loadWord (m : Module) (t : MachineType) (v : Value) (offset : Nat) :
    Answers lost Eq (Execution.loadWord m h t v offset) (Execution.loadWord m g t v offset) := by
  unfold Execution.loadWord
  split
  · exact .refl _
  · refine (hg.object v).bind fun x y hxy => ?_
    obtain ⟨a, c, d, o, rfl, rfl, -⟩ := hxy
    exact .refl _

theorem store (v : Value) (offset : Nat) (x : Value) :
    Answers lost (SameContents lost) (h.store v offset x) (g.store v offset x) := by
  refine (hg.object v).bind fun y z hyz => ?_
  obtain ⟨a, c, d, o, rfl, rfl, hc, hd, hfreed⟩ := hyz
  refine .ok ⟨by simp [Heap.setCell, hg.size], ?_, fun b => ?_⟩
  · funext b
    rw [Heap.contentAt_setCell hc, Heap.contentAt_setCell hd, hg.contents]
  · rw [Heap.isFreed_setCell hc, Heap.isFreed_setCell hd]
    split
    · exact .inl hfreed
    · exact hg.freed b

theorem alloc (content : Content) : SameContents lost (h.alloc content).2 (g.alloc content).2 := by
  refine ⟨by simp [Heap.alloc, hg.size], ?_, fun a => ?_⟩
  · funext a
    have hcontent := congrFun hg.contents a
    simp only [Heap.contentAt, Heap.alloc, Array.getElem?_push, hg.size] at hcontent ⊢
    split
    · rfl
    · exact hcontent
  · have hfreed := hg.freed a
    simp only [Heap.isFreed, Heap.alloc, Array.getElem?_push, hg.size] at hfreed ⊢
    split
    · exact .inl rfl
    · exact hfreed

end SameContents

/-- Where a field cannot be read it cannot be stored to. -/
theorem store_of_loadWord {m : Module} {h : Heap} {t : MachineType} {v : Value} {offset : Nat}
    {e : Fault} (hl : loadWord m h t v offset = .error e) (x : Value) :
    h.store v offset x = .error e := by
  unfold loadWord at hl
  split at hl
  · rw [vtableEntry] at hl
    split at hl <;> cases hl
    rfl
  · rw [Heap.load] at hl
    rw [Heap.store]
    cases ho : h.object v with
    | error e' =>
      rw [ho] at hl
      cases hl
      rfl
    | ok r =>
      rw [ho] at hl
      change (if offset = Layout.vtableOffset then Except.ok _ else Except.ok _) = _ at hl
      split at hl <;> cases hl

/-! ## Evaluations that mirror each other -/

/-- The calls that do not count references. -/
def visible (made : List (Callee × List Value)) : List (Callee × List Value) :=
  made.filter fun call => call.1 ≠ .builtin .retain ∧ call.1 ≠ .builtin .release

@[simp] theorem visible_append (made more : List (Callee × List Value)) :
    visible (made ++ more) = visible made ++ visible more := List.filter_append ..

namespace Scene

/-- The scene with other answers to calls. -/
def answeredBy (sc : Scene) (calls : Calls) : Scene := { sc with calls }

@[simp] theorem answeredBy_module (sc : Scene) (calls : Calls) :
    (sc.answeredBy calls).module = sc.module := rfl

@[simp] theorem answeredBy_function (sc : Scene) (calls : Calls) :
    (sc.answeredBy calls).function = sc.function := rfl

@[simp] theorem answeredBy_self (sc : Scene) (calls : Calls) :
    (sc.answeredBy calls).self = sc.self := rfl

@[simp] theorem answeredBy_calls (sc : Scene) (calls : Calls) :
    (sc.answeredBy calls).calls = calls := rfl

end Scene

section

variable (lost) (sc : Scene)

/-- Both states show the same.  Every local that holds references is set, and only such locals wait
for their release. -/
structure Shows (t : Managed) (st : Store) : Prop where
  locals : t.locals = st.locals
  heap : SameContents lost t.heap st.heap
  made : visible t.made = visible st.made
  set : ∀ id, Managed.isReference sc id → t.locals[id]?.isSome
  waiting : ∀ scope ∈ t.scopes, ∀ id, .slot id ∈ scope → Managed.isReference sc id

/-- The evaluation with counted references ends in a loss or as the plain one, with so many scopes
if it goes on. -/
inductive Mirrored {α : Type} (scopes : Nat) :
    Option (Ending α × Managed) → Option (Ending α × Store) → Prop
  | none : Mirrored scopes none none
  | lost {e : Fault} {t : Managed} {y : Option (Ending α × Store)} :
      lost e → Mirrored scopes (some (.fault e, t)) y
  | value {a : α} {t : Managed} {st : Store} : Shows lost sc t st → t.scopes.length = scopes →
      Mirrored scopes (some (.value a, t)) (some (.value a, st))
  | returned {x : Option Value} {t : Managed} {st : Store} : Shows lost sc t st →
      Mirrored scopes (some (.returned x, t)) (some (.returned x, st))
  | fault {e : Fault} {t : Managed} {st : Store} : Shows lost sc t st →
      Mirrored scopes (some (.fault e, t)) (some (.fault e, st))

/-- The first evaluation ends in a loss or does what the second does. -/
def Mirrors {α : Type} (x : Eval Managed α) (y : Eval Store α) : Prop :=
  ∀ n t st, Shows lost sc t st → t.scopes ≠ [] →
    Mirrored lost sc t.scopes.length (x n t) (y n st)

end

namespace Mirrors

variable {sc : Scene} {α β : Type}

theorem pure (a : α) : Mirrors lost sc (Pure.pure a) (Pure.pure a) := fun _ _ _ h _ => .value h rfl

theorem fault (e : Fault) : Mirrors lost sc (Eval.fault e : Eval Managed α) (Eval.fault e) :=
  fun _ _ _ h _ => .fault h

theorem leave (x : Option Value) :
    Mirrors lost sc (Eval.leave x : Eval Managed α) (Eval.leave x) :=
  fun _ _ _ h _ => .returned h

theorem ofExcept (x : Except Fault α) :
    Mirrors lost sc (Eval.ofExcept x) (Eval.ofExcept x) := by
  cases x with
  | ok a => exact .pure a
  | error e => exact .fault e

variable {y : Eval Store α} {x : Eval Managed α}

theorem bind {f : α → Eval Managed β} {g : α → Eval Store β} (h : Mirrors lost sc x y)
    (hf : ∀ a, Mirrors lost sc (f a) (g a)) : Mirrors lost sc (x >>= f) (y >>= g) := by
  intro n t st hs hne
  have hxy := h n t st hs hne
  simp only [Eval.bind_apply]
  generalize x n t = r, y n st = r' at hxy ⊢
  cases hxy with
  | none => exact .none
  | lost he => exact .lost he
  | returned hs' => exact .returned hs'
  | fault hs' => exact .fault hs'
  | @value a t' st' hs' hlen =>
    have hne' : t'.scopes ≠ [] := by
      rw [← List.length_pos_iff, hlen]
      exact List.length_pos_iff.mpr hne
    rw [← hlen]
    exact hf a n t' st' hs' hne'

theorem map (f : α → β) (h : Mirrors lost sc x y) : Mirrors lost sc (f <$> x) (f <$> y) :=
  h.bind fun a => .pure (f a)

theorem silently {x : Eval Managed Unit} {f : Eval Managed α} {g : Eval Store α}
    (hx : Mirrors lost sc x (Pure.pure ())) (h : Mirrors lost sc f g) :
    Mirrors lost sc (x >>= fun _ => f) g := by
  simpa using hx.bind fun _ => h

theorem thenSilently {f : α → Eval Managed Unit} (h : Mirrors lost sc x y)
    (hf : ∀ a, Mirrors lost sc (f a) (Pure.pure ())) :
    Mirrors lost sc (x >>= fun a => f a >>= fun _ => Pure.pure a) y := by
  simpa using h.bind fun a => (hf a).silently (.pure a)

theorem needed {x : Eval Managed (Option Value)} {y : Eval Store (Option Value)}
    (h : Mirrors lost sc x y) : Mirrors lost sc (Evaluation.needed x) (Evaluation.needed y) := by
  refine h.bind fun value => ?_
  cases value with
  | none => exact .fault _
  | some v => exact .pure v

theorem holds {x : Eval Managed Value} {y : Eval Store Value} (h : Mirrors lost sc x y) :
    Mirrors lost sc (Evaluation.holds x) (Evaluation.holds y) :=
  h.bind fun _ => (Mirrors.ofExcept _).bind fun _ => .pure _

theorem iterate {test : Eval Managed Bool} {test' : Eval Store Bool} {round : Eval Managed Unit}
    {round' : Eval Store Unit} (htest : Mirrors lost sc test test')
    (hround : Mirrors lost sc round round') (k : Nat) :
    Mirrors lost sc (Eval.iterate test round k) (Eval.iterate test' round' k) := by
  induction k with
  | zero => exact fun _ _ _ _ _ => .none
  | succ k ih =>
    refine htest.bind fun b => ?_
    cases b with
    | true => exact hround.bind fun _ => ih
    | false => exact .pure ()

theorem loop {test : Eval Managed Bool} {test' : Eval Store Bool} {round : Eval Managed Unit}
    {round' : Eval Store Unit} (htest : Mirrors lost sc test test')
    (hround : Mirrors lost sc round round') :
    Mirrors lost sc (Eval.loop test round) (Eval.loop test' round') :=
  fun n => Mirrors.iterate htest hround n n

/-! ### Operations on the store -/

theorem inspect {e e' : Store → Except Fault α}
    (h : ∀ t st, Shows lost sc t st → Answers lost Eq (e t.toStore) (e' st)) :
    Mirrors lost sc (Managed.lift (Eval.inspect e)) (Eval.inspect e') := by
  intro n t st hs hne
  have hst := h t st hs
  simp only [Managed.lift, Eval.inspect]
  generalize e t.toStore = r, e' st = r' at hst ⊢
  cases hst with
  | lost he => exact .lost he
  | error e => exact .fault hs
  | ok hab =>
    subst hab
    exact .value hs rfl

theorem readLocal (id : LocalId) :
    Mirrors lost sc (Managed.lift (Evaluation.readLocal id)) (Evaluation.readLocal id) := by
  refine .inspect fun t st hs => ?_
  rw [hs.locals]
  exact .refl _

theorem loadAt (plain : Calls) (w : MachineType) (v : Value) (offset : Nat) :
    Mirrors lost sc (Managed.lift (Evaluation.loadAt sc w v offset))
      (Evaluation.loadAt (sc.answeredBy plain) w v offset) :=
  .inspect fun _ _ hs => hs.heap.loadWord sc.module w v offset

theorem isSome_insert {locals : Std.TreeMap LocalId Value} {id : LocalId}
    (h : locals[id]?.isSome) (k : LocalId) (x : Value) : (locals.insert k x)[id]?.isSome := by
  rw [Std.TreeMap.getElem?_insert]
  split
  · rfl
  · exact h

theorem writeLocal (id : LocalId) (x : Value) :
    Mirrors lost sc (Managed.lift (Evaluation.writeLocal id x)) (Evaluation.writeLocal id x) :=
  fun _ _ _ hs _ => .value ⟨congrArg (·.insert id x) hs.locals, hs.heap, hs.made,
    fun k hk => isSome_insert (hs.set k hk) id x, hs.waiting⟩ rfl

theorem storeAt (v : Value) (offset : Nat) (x : Value) :
    Mirrors lost sc (Managed.lift (Evaluation.storeAt v offset x))
      (Evaluation.storeAt v offset x) := by
  intro n t st hs hne
  have hstore := hs.heap.store v offset x
  simp only [Managed.lift, Evaluation.storeAt]
  generalize t.heap.store v offset x = r, st.heap.store v offset x = r' at hstore ⊢
  cases hstore with
  | lost he => exact .lost he
  | error e => exact .fault hs
  | ok hheap => exact .value ⟨hs.locals, hheap, hs.made, hs.set, hs.waiting⟩ rfl

theorem own_value (x : Value) : Mirrors lost sc (Managed.own (.value x)) (Pure.pure ()) := by
  intro n t st hs hne
  obtain ⟨store, _ | ⟨scope, outer⟩⟩ := t
  · exact absurd rfl hne
  · refine .value { hs with waiting := ?_ } rfl
    simpa using hs.waiting

theorem own_slot {id : LocalId} (hid : Managed.isReference sc id) :
    Mirrors lost sc (Managed.own (.slot id)) (Pure.pure ()) := by
  intro n t st hs hne
  obtain ⟨store, _ | ⟨scope, outer⟩⟩ := t
  · exact absurd rfl hne
  · refine .value { hs with waiting := ?_ } rfl
    have hwaiting := hs.waiting
    simp only [List.mem_cons, forall_eq_or_imp, Holder.slot.injEq] at hwaiting ⊢
    exact ⟨⟨hid, hwaiting.1⟩, hwaiting.2⟩

theorem ownResult (ty : Ty) (value : Option Value) :
    Mirrors lost sc (Managed.ownResult ty value) (Pure.pure ()) := by
  unfold Managed.ownResult Managed.onResult Managed.ownIf
  split
  · split
    · exact .own_value _
    · exact .pure ()
  · exact .pure ()

section

variable {plain : Calls} (hc : Erases lost sc.calls plain)

include hc

/-! ### Calls -/

theorem perform (callee : Callee) (args : List Value) :
    Mirrors lost sc (Managed.lift (Evaluation.perform sc callee args))
      (Evaluation.perform (sc.answeredBy plain) callee args) := by
  intro n t st hs hne
  have hcall := hc.answers callee args hs.heap
  simp only [Managed.lift, Evaluation.perform, Scene.answeredBy_calls]
  generalize sc.calls callee args t.heap = r, plain callee args st.heap = r' at hcall ⊢
  cases hcall with
  | lost he => exact .lost he
  | error e => exact .fault hs
  | @ok a b hsame =>
    obtain ⟨x, k⟩ := a
    obtain ⟨y, l⟩ := b
    refine .value { hs with heap := hsame.2, made := ?_ } rfl
    rw [visible_append, visible_append, hs.made]

theorem ask (callee : Callee) (args : List Value) :
    Mirrors lost sc (Managed.lift (Evaluation.ask sc callee args))
      (Evaluation.ask (sc.answeredBy plain) callee args) := by
  intro n t st hs hne
  have hcall := hc.answers callee args hs.heap
  simp only [Managed.lift, Evaluation.ask, Scene.answeredBy_calls]
  generalize sc.calls callee args t.heap = r, plain callee args st.heap = r' at hcall ⊢
  cases hcall with
  | lost he => exact .lost he
  | error e => exact .fault hs
  | @ok a b hsame =>
    obtain ⟨_ | x, k⟩ := a
    · obtain ⟨y, l⟩ := b
      obtain ⟨rfl, hheap⟩ := hsame
      exact .fault hs
    · obtain ⟨y, l⟩ := b
      obtain ⟨rfl, hheap⟩ := hsame
      refine .value { hs with heap := hheap, made := ?_ } rfl
      rw [visible_append, visible_append, hs.made]

omit hc in
/-- A call that shows nothing. -/
theorem quiet {b : Builtin} {args : List Value} (hb : b = .retain ∨ b = .release)
    (hcall : ∀ {h g}, SameContents lost h g →
      Answers lost (SameAnswer lost) (sc.calls (.builtin b) args h) (.ok (none, g))) :
    Mirrors lost sc (Managed.lift (Evaluation.perform sc (.builtin b) args)) (Pure.pure ()) := by
  intro n t st hs hne
  have hcall := hcall hs.heap
  simp only [Managed.lift, Evaluation.perform]
  generalize sc.calls (.builtin b) args t.heap = r at hcall ⊢
  cases hcall with
  | lost he => exact .lost he
  | @ok a _ hsame =>
    obtain ⟨x, k⟩ := a
    refine .value { hs with heap := hsame.2, made := ?_ } rfl
    rw [← hs.made]
    rcases hb with rfl | rfl <;> simp [visible]

theorem retain (x : Value) : Mirrors lost sc (Managed.retain sc x) (Pure.pure ()) :=
  .quiet (.inl rfl) (hc.retain x)

theorem release (x : Value) : Mirrors lost sc (Managed.release sc x) (Pure.pure ()) :=
  .quiet (.inr rfl) (hc.release x)

theorem retainIf (c : Bool) (x : Value) :
    Mirrors lost sc (Managed.retainIf sc c x) (Pure.pure ()) := by
  cases c with
  | true => exact .retain hc x
  | false => exact .pure ()

theorem releaseSlot {id : LocalId} (hid : Managed.isReference sc id) :
    Mirrors lost sc (Managed.lift (Evaluation.readLocal id) >>= Managed.release sc)
      (Pure.pure ()) := by
  intro n t st hs hne
  obtain ⟨x, hx⟩ := Option.isSome_iff_exists.mp (hs.set id hid)
  have hread : Managed.lift (Evaluation.readLocal id) n t = some (.value x, t) := by
    simp only [Managed.lift, Evaluation.readLocal, Eval.inspect, hx, Eval.ofExcept]
    rfl
  rw [Eval.bind_apply, hread]
  exact Mirrors.release hc x n t st hs hne

theorem releaseAll {holders : List Holder}
    (h : ∀ id, .slot id ∈ holders → Managed.isReference sc id) :
    Mirrors lost sc (Managed.releaseAll sc holders) (Pure.pure ()) := by
  induction holders with
  | nil => exact .pure ()
  | cons holder rest ih =>
    have hfirst : Mirrors lost sc (Managed.releaseHolder sc holder) (Pure.pure ()) := by
      cases holder with
      | value x => exact .release hc x
      | slot id => exact .releaseSlot hc (h id (by simp))
    exact hfirst.silently (ih fun id hid => h id (by simp [hid]))

theorem inScope (h : Mirrors lost sc x y) : Mirrors lost sc (Managed.inScope sc x) y := by
  intro n t st hs hne
  have hopened : Shows lost sc { t with scopes := [] :: t.scopes } st :=
    { hs with waiting := by simpa using hs.waiting }
  have hxy := h n _ st hopened (by simp)
  simp only [Managed.inScope, Managed.openScope, Eval.update, Eval.bind_apply]
  generalize x n { t with scopes := [] :: t.scopes } = r, y n st = r' at hxy ⊢
  cases hxy with
  | none => exact .none
  | lost he => exact .lost he
  | returned hs' => exact .returned hs'
  | fault hs' => exact .fault hs'
  | @value a t' st' hs' hlen =>
    obtain ⟨store, scopes⟩ := t'
    obtain ⟨scope, outer, rfl⟩ := List.exists_cons_of_length_eq_add_one hlen
    simp only [List.length_cons, Nat.add_right_cancel_iff] at hlen
    have hne' : outer ≠ [] := by
      rw [← List.length_pos_iff, hlen]
      exact List.length_pos_iff.mpr hne
    have hleft : Shows lost sc ⟨store, outer⟩ st' :=
      { hs' with waiting := fun scope hscope => hs'.waiting scope (by simp [hscope]) }
    have hrest := (Mirrors.releaseAll hc (hs'.waiting scope (by simp))).silently (.pure a)
    rw [← hlen]
    exact hrest n _ st' hleft hne'

theorem returnFrom (value : Option Value) :
    Mirrors lost sc (Managed.returnFrom sc value : Eval Managed α) (Eval.leave value) := by
  have hresult : Mirrors lost sc (Managed.onResult value (Managed.retainIf sc
      sc.function.returnType.isReference)) (Pure.pure ()) := by
    cases value with
    | none => exact .pure ()
    | some x => exact .retainIf hc _ x
  refine hresult.silently fun n t st hs hne => ?_
  have hslots : ∀ id, .slot id ∈ t.scopes.flatten → Managed.isReference sc id := by
    intro id hid
    obtain ⟨scope, hscope, hid⟩ := List.mem_flatten.mp hid
    exact hs.waiting scope hscope id hid
  exact (Mirrors.releaseAll hc hslots).silently (.leave value) n t st hs hne

theorem ownAllocation (x : Value) :
    Mirrors lost sc (Managed.ownAllocation sc x) (Pure.pure ()) :=
  (Mirrors.retain hc x).silently (.own_value x)

theorem dropResult (ty : Ty) (value : Option Value) :
    Mirrors lost sc (Managed.dropResult sc ty value) (Pure.pure ()) := by
  unfold Managed.dropResult Managed.onResult
  split
  · split
    · exact .release hc _
    · exact .pure ()
  · exact .pure ()

/-! ### Parts of trees -/

theorem logical (op : BinaryOp) {left right : Eval Managed Value}
    {left' right' : Eval Store Value} (hleft : Mirrors lost sc left left')
    (hright : Mirrors lost sc right right') :
    Mirrors lost sc (Managed.logical sc op left right) (Evaluation.logical op left' right') := by
  refine hleft.bind fun a => (Mirrors.ofExcept _).bind fun k => ?_
  split <;> split
  · exact .inScope hc hright
  · exact .pure a
  · exact .pure a
  · exact .inScope hc hright

variable {condition : Eval Managed Value} {condition' : Eval Store Value}
  {body' : Eval Store (Option Value)}

theorem scopedResult (ty : Ty) {body : Eval Managed (Option Value)}
    (h : Mirrors lost sc body body') : Mirrors lost sc (Managed.scopedResult sc ty body) body' := by
  refine .inScope hc (h.thenSilently fun value => ?_)
  cases value with
  | none => exact .pure ()
  | some x => exact .retainIf hc _ x

theorem callFunction (f : FuncId) (dispatch : Dispatch) (args : List Value) :
    Mirrors lost sc (Managed.callFunction sc f dispatch args)
      (Evaluation.callFunction (sc.answeredBy plain) f dispatch args) := by
  have hcallee : Mirrors lost sc (Managed.lift (calleeOf sc f dispatch args))
      (calleeOf (sc.answeredBy plain) f dispatch args) := by
    unfold calleeOf
    split
    · exact .pure _
    · split
      · exact .fault _
      · simp only [Managed.lift_bind, Managed.lift_ofExcept]
        exact (Mirrors.loadAt plain _ _ _).bind fun _ =>
          (Mirrors.loadAt plain _ _ _).bind fun _ => .ofExcept _
  have hcall (ty : Ty) (callee : Callee) :
      Mirrors lost sc (Managed.lift (callFor sc ty callee args))
      (callFor (sc.answeredBy plain) ty callee args) := by
    unfold callFor
    split
    · simp only [Managed.lift_bind, Managed.lift_pure]
      exact (Mirrors.perform hc _ _).bind fun _ => .pure _
    · simp only [Managed.lift_map]
      exact .map _ (.ask hc _ _)
  have hlift : Mirrors lost sc (Managed.lift (Evaluation.callFunction sc f dispatch args))
      (Evaluation.callFunction (sc.answeredBy plain) f dispatch args) := by
    simp only [Evaluation.callFunction, Managed.lift_bind]
    exact hcallee.bind fun callee => hcall _ callee
  exact hlift.thenSilently (.ownResult _)

theorem newText (text : String) : Mirrors lost sc (Managed.newText sc text)
    (Evaluation.newText (sc.answeredBy plain) text) :=
  (Mirrors.ask hc _ _).thenSilently (.ownAllocation hc)

theorem newObject (c : ClassId) : Mirrors lost sc (Managed.newObject sc c)
    (Evaluation.newObject (sc.answeredBy plain) c) := by
  have hlift : Mirrors lost sc (Managed.lift (Evaluation.newObject sc c))
      (Evaluation.newObject (sc.answeredBy plain) c) := by
    simp only [Evaluation.newObject, Scene.answeredBy_module]
    cases sc.module.layouts[c]? with
    | none => exact .fault _
    | some layout => exact .ask hc _ _
  exact hlift.thenSilently (.ownAllocation hc)

theorem operate (ty : Ty) (op : BinaryOp) (a b : Value) :
    Mirrors lost sc (Managed.operate sc ty op a b)
      (Evaluation.operate (sc.answeredBy plain) ty op a b) := by
  have hlift : Mirrors lost sc (Managed.lift (Evaluation.operate sc ty op a b))
      (Evaluation.operate (sc.answeredBy plain) ty op a b) := by
    unfold Evaluation.operate
    split
    · split
      · exact .ask hc _ _
      · exact .ask hc _ _
      · simp only [Managed.lift_bind, Managed.lift_ofExcept]
        exact (Mirrors.ask hc _ _).bind fun _ => .ofExcept _
      · exact .fault _
    · split
      · rw [Managed.lift_ofExcept]
        exact .ofExcept _
      · exact .fault _
  by_cases hjoin : ty = .string ∧ op = .add
  · simp only [Managed.operate, if_pos hjoin]
    exact hlift.thenSilently (.ownAllocation hc)
  · rwa [Managed.operate_of_not_join sc hjoin]

omit hc in
theorem loadField (plain : Calls) (object : Value) (c : ClassId) (index : Nat) :
    Mirrors lost sc (Managed.lift (Evaluation.loadField sc object c index))
      (Evaluation.loadField (sc.answeredBy plain) object c index) := by
  simp only [Evaluation.loadField, Managed.lift_bind, Managed.lift_ofExcept]
  exact (Mirrors.ofExcept _).bind fun _ => .loadAt plain _ _ _

/-- Where the old value of a field cannot be read, the new one cannot be stored. -/
theorem storeField (object : Value) (c : ClassId) (index : Nat) (x : Value) :
    Mirrors lost sc (Managed.storeField sc object c index x)
      (Evaluation.storeField (sc.answeredBy plain) object c index x) := by
  refine (Mirrors.ofExcept _).bind fun field => ?_
  cases field.isReference with
  | false => exact .silently (.pure ()) (.storeAt _ _ _)
  | true =>
    refine .silently (.retain hc x) fun n t st hs hne => ?_
    have hload : Managed.lift (Evaluation.loadAt sc field.type object field.offset) n t =
        Eval.ofExcept (loadWord sc.module t.heap field.type object field.offset) n t := by
      simp only [Managed.lift, Evaluation.loadAt, Eval.inspect]
      cases loadWord sc.module t.heap field.type object field.offset <;> rfl
    have hword := hs.heap.loadWord sc.module field.type object field.offset
    have hstore {e : Fault} (he : loadWord sc.module st.heap field.type object field.offset =
        .error e) : st.heap.store object field.offset x = .error e := store_of_loadWord he x
    rw [Eval.bind_apply, hload]
    generalize loadWord sc.module t.heap field.type object field.offset = r,
      loadWord sc.module st.heap field.type object field.offset = r' at hword hstore ⊢
    cases hword with
    | lost he => exact .lost he
    | error e =>
      simp only [Evaluation.storeAt, hstore rfl]
      exact .fault hs
    | @ok old _ _ =>
      have hrest := (Mirrors.release hc old).silently (.storeAt object field.offset x)
      exact hrest n t st hs hne

theorem bindLocal (id : LocalId) (x : Value) :
    Mirrors lost sc (Managed.bind sc id x) (Evaluation.writeLocal id x) := by
  have hown : Mirrors lost sc (Managed.ownIf (Managed.isReference sc id) (.slot id))
      (Pure.pure ()) := by
    cases hid : Managed.isReference sc id with
    | true => exact .own_slot hid
    | false => exact .pure ()
  refine .silently (.retainIf hc _ x) ?_
  simpa using (Mirrors.writeLocal id x).thenSilently fun _ => hown

theorem setVar (id : LocalId) (x : Value) :
    Mirrors lost sc (Managed.setVar sc id x) (Evaluation.writeLocal id x) := by
  unfold Managed.setVar
  cases hid : Managed.isReference sc id with
  | false => exact .silently (.pure ()) (.writeLocal id x)
  | true =>
    refine .silently (.retain hc x) ?_
    simpa using (Mirrors.releaseSlot hc hid).silently (.writeLocal id x)

theorem arm_void {ty : Ty} (hty : ty.isVoid) (body : Ty × Eval Managed (Option Value))
    (h : Mirrors lost sc body.2 body') :
    Mirrors lost sc (Managed.arm sc ty body) (do let _ ← body'; Pure.pure none) := by
  simp only [Managed.arm, hty, if_true]
  exact h.bind fun value => (Mirrors.dropResult hc body.1 value).silently (.pure none)

omit hc in
theorem arm_value {ty : Ty} (hty : ¬ty.isVoid) (body : Ty × Eval Managed (Option Value))
    (h : Mirrors lost sc body.2 body') : Mirrors lost sc (Managed.arm sc ty body) body' := by
  simpa [Managed.arm, hty] using h

/-- What a condition decides, after the scope of the condition is left. -/
theorem decideBy {x y : Eval Managed α} {g : Bool → Eval Store α}
    (h : Mirrors lost sc condition condition') (hx : Mirrors lost sc x (g true))
    (hy : Mirrors lost sc y (g false)) :
    Mirrors lost sc (do
      let k ← Eval.ofExcept (intOf (← Managed.inScope sc condition))
      if k ≠ 0 then x else y) (Evaluation.holds condition' >>= g) := by
  simp only [Evaluation.holds, bind_assoc, pure_bind]
  refine (Mirrors.inScope hc h).bind fun v => (Mirrors.ofExcept _).bind fun k => ?_
  obtain rfl | hk := eq_or_ne k 0
  · exact hy
  · rw [if_pos hk, decide_eq_true hk]
    exact hx

theorem ifThen (ty : Ty) {thenArm : Ty × Eval Managed (Option Value)}
    {thenArm' : Eval Store (Option Value)} (h : Mirrors lost sc condition condition')
    (hthen : Mirrors lost sc thenArm.2 thenArm') :
    Mirrors lost sc (Managed.conditional sc ty condition thenArm none)
      (Evaluation.holds condition' >>= fun b =>
        if b then thenArm' >>= fun _ => Pure.pure none else Pure.pure none) :=
  .decideBy hc h ((Mirrors.arm_void hc rfl thenArm hthen).thenSilently (.ownResult ty))
    ((Mirrors.pure none).thenSilently (.ownResult ty))

theorem ifElse (ty : Ty) {thenArm elseArm : Ty × Eval Managed (Option Value)}
    {thenArm' elseArm' : Eval Store (Option Value)} {g : Option Value → Eval Store (Option Value)}
    (h : Mirrors lost sc condition condition') (hthen : Mirrors lost sc thenArm.2 thenArm')
    (helse : Mirrors lost sc elseArm.2 elseArm')
    (hg : ∀ value, g value = if ty.isVoid then Pure.pure none else Pure.pure value) :
    Mirrors lost sc (Managed.conditional sc ty condition thenArm (some elseArm))
      (Evaluation.holds condition' >>= fun b => if b then thenArm' >>= g else elseArm' >>= g) := by
  have harm : ∀ {body : Ty × Eval Managed (Option Value)} {body' : Eval Store (Option Value)},
      Mirrors lost sc body.2 body' → Mirrors lost sc (Managed.arm sc ty body) (body' >>= g) := by
    intro body body' hbody
    by_cases hty : ty.isVoid
    · simpa only [funext hg, hty, if_true] using .arm_void hc hty body hbody
    · simpa [funext hg, hty] using Mirrors.arm_value hty body hbody
  exact .decideBy hc h ((harm hthen).thenSilently (.ownResult ty))
    ((harm helse).thenSilently (.ownResult ty))

theorem whileLoop (ty : Ty) {body : Eval Managed (Option Value)}
    (h : Mirrors lost sc condition condition') (hbody : Mirrors lost sc body body') :
    Mirrors lost sc (Managed.whileLoop sc condition ty body)
      (Eval.loop (Evaluation.holds condition') (body' >>= fun _ => Pure.pure ())) :=
  .loop (.holds (.inScope hc h)) (hbody.bind (.dropResult hc ty))

theorem construct {object : Eval Managed Value} {object' : Eval Store Value}
    (init : Option FuncId) {args : Eval Managed (List Value)} {args' : Eval Store (List Value)}
    (hobject : Mirrors lost sc object object') (hargs : Mirrors lost sc args args') :
    Mirrors lost sc
      (Evaluation.construct object init args fun f values =>
        Managed.lift (Evaluation.perform sc (.function f) values))
      (Evaluation.construct object' init args' fun f =>
        Evaluation.perform (sc.answeredBy plain) (.function f)) := by
  refine hobject.bind fun o => ?_
  cases init with
  | none => exact .pure o
  | some f => exact hargs.bind fun _ => (Mirrors.perform hc _ _).bind fun _ => .pure o

end

end Mirrors

/-! ## Trees -/

section

variable {sc : Scene} {plain : Calls}

mutual

theorem evalExpr_mirrors (hc : Erases lost sc.calls plain) :
    ∀ e : Expr, Mirrors lost sc (Managed.evalExpr sc e) (evalExpr (sc.answeredBy plain) e)
  | .int _ _ => .map _ (.ofExcept _)
  | .float _ _ => .pure _
  | .bool _ _ => .pure _
  | .str _ _ => .map _ (.newText hc _)
  | .var _ _ => .map _ (.readLocal _)
  | .self _ => by
    rw [Managed.evalExpr, evalExpr, Scene.answeredBy_self]
    cases sc.self with
    | none => exact .fault _
    | some v => exact .pure _
  | .field _ object _ _ =>
    (evalExpr_mirrors hc object).needed.bind fun _ => .map _ (.loadField plain _ _ _)
  | .binary _ op left right => by
    rw [Managed.evalExpr, evalExpr]
    split
    · exact .map _ (.logical hc op (evalExpr_mirrors hc left).needed
        (evalExpr_mirrors hc right).needed)
    · exact (evalExpr_mirrors hc left).needed.bind fun a =>
        (evalExpr_mirrors hc right).needed.bind fun b => .map _ (.operate hc _ _ a b)
  | .unary _ _ operand => (evalExpr_mirrors hc operand).needed.bind fun _ => .map _ (.ofExcept _)
  | .call _ _ none args _ => (evalValues_mirrors hc args).bind fun _ => .callFunction hc _ _ _
  | .call _ _ (some receiver) args _ =>
    (evalExpr_mirrors hc receiver).needed.bind fun _ => (evalValues_mirrors hc args).bind fun _ =>
      .callFunction hc _ _ _
  | .new _ c init args => .map _ (.construct hc init (.newObject hc c) (evalValues_mirrors hc args))
  | .cond i condition thenBranch none => by
    rw [Managed.evalExpr, evalExpr]
    exact .ifThen hc i.ty (evalExpr_mirrors hc condition).needed
      (.scopedResult hc _ (evalBlock_mirrors hc thenBranch))
  | .cond i condition thenBranch (some elseBranch) => by
    rw [Managed.evalExpr, evalExpr]
    refine .ifElse hc i.ty (evalExpr_mirrors hc condition).needed ?_ ?_ fun _ => rfl
    · exact .scopedResult hc _ (evalBlock_mirrors hc thenBranch)
    · exact .scopedResult hc _ (evalBlock_mirrors hc elseBranch)
  | .block _ body =>
    (Mirrors.scopedResult hc _ (evalBlock_mirrors hc body)).thenSilently (.ownResult _)
  | .variant .. => .pure _
  | .error _ => .fault _

theorem evalValues_mirrors (hc : Erases lost sc.calls plain) : ∀ es : List Expr,
    Mirrors lost sc (Managed.evalValues sc es) (evalValues (sc.answeredBy plain) es)
  | [] => .pure _
  | e :: es =>
    (evalExpr_mirrors hc e).needed.bind fun _ => (evalValues_mirrors hc es).bind fun _ => .pure _

theorem evalStmt_mirrors (hc : Erases lost sc.calls plain) :
    ∀ s : Stmt, Mirrors lost sc (Managed.evalStmt sc s) (evalStmt (sc.answeredBy plain) s)
  | .bind id none => by
    rw [Managed.evalStmt, evalStmt, Scene.answeredBy_function, Managed.isReference]
    split
    · exact .bindLocal hc id _
    · exact .pure _
  | .bind id (some init) => (evalExpr_mirrors hc init).needed.bind fun v => .bindLocal hc id v
  | .setVar id value => (evalExpr_mirrors hc value).needed.bind fun v => .setVar hc id v
  | .setField object c index value =>
    (evalExpr_mirrors hc object).needed.bind fun o =>
      (evalExpr_mirrors hc value).needed.bind fun v => .storeField hc o c index v
  | .expr value => (evalExpr_mirrors hc value).bind fun _ => .pure _
  | .ret none => .returnFrom hc none
  | .ret (some value) => (evalExpr_mirrors hc value).needed.bind fun v => .returnFrom hc (some v)
  | .loop condition body =>
    .whileLoop hc _ (evalExpr_mirrors hc condition).needed
      (.scopedResult hc _ (evalBlock_mirrors hc body))

theorem evalStmts_mirrors (hc : Erases lost sc.calls plain) : ∀ ss : List Stmt,
    Mirrors lost sc (Managed.evalStmts sc ss) (evalStmts (sc.answeredBy plain) ss)
  | [] => .pure _
  | s :: ss => (evalStmt_mirrors hc s).bind fun _ => evalStmts_mirrors hc ss

theorem evalBlock_mirrors (hc : Erases lost sc.calls plain) : ∀ b : Checked.Block,
    Mirrors lost sc (Managed.evalBlock sc b) (evalBlock (sc.answeredBy plain) b)
  | .mk stmts none .. => (evalStmts_mirrors hc stmts).bind fun _ => .pure _
  | .mk stmts (some tail) .. => (evalStmts_mirrors hc stmts).bind fun _ => evalExpr_mirrors hc tail

end

/-! ## Functions -/

variable (hc : Erases lost sc.calls plain)

include hc

theorem takeParams_mirrors (assigned : List LocalId)
    {params : List (ParamInst × Value)}
    (h : ∀ q ∈ params, q.1.ty.isReference → Managed.isReference sc q.1.id) :
    Mirrors lost sc (Managed.takeParams sc assigned params) (takeParams params) := by
  induction params with
  | nil => exact .pure ()
  | cons first rest ih =>
    have hrest := ih fun q hq => h q (by simp [hq])
    refine (Mirrors.writeLocal _ _).bind fun _ => ?_
    by_cases howned : (first.1.ty.isReference && assigned.contains first.1.id) = true
    · have href := h first (by simp) (Bool.and_eq_true_iff.mp howned).1
      rw [if_pos howned]
      exact (Mirrors.retain hc _).silently ((Mirrors.own_slot href).silently hrest)
    · rw [if_neg howned]
      exact hrest

theorem evalFieldInits_mirrors (object : Value) (c : ClassId) :
    ∀ inits : List FieldInit, Mirrors lost sc (Managed.evalFieldInits sc object c inits)
      (evalFieldInits (sc.answeredBy plain) object c inits)
  | [] => .pure _
  | init :: rest =>
    (evalExpr_mirrors hc init.value).needed.bind fun v =>
      (Mirrors.storeField hc object c init.index v).bind fun _ =>
        evalFieldInits_mirrors object c rest

theorem evalDefaults_mirrors :
    Mirrors lost sc (Managed.evalDefaults sc) (evalDefaults (sc.answeredBy plain)) := by
  simp only [Managed.evalDefaults, evalDefaults, Scene.answeredBy_function, Scene.answeredBy_self]
  by_cases hkind : sc.function.kind = .init
  · simp only [hkind, if_true]
    cases sc.self with
    | none => exact .fault _
    | some object =>
      cases sc.function.owner with
      | none => exact .fault _
      | some c => exact evalFieldInits_mirrors hc object c _
  · simp only [hkind, if_false]
    exact .pure ()

omit hc in
/-- Clearing sets every local that holds references, and keeps those that are set. -/
theorem clearLocals_sets (ls : List LocalInst) (first : LocalId) (n : Nat) (s : Store) :
    ∃ t, clearLocals ls first n s = some (.value (), t) ∧
      (∀ id : LocalId, s.locals[id]?.isSome → t.locals[id]?.isSome) ∧
      ∀ k : Nat, (ls[k]?.map (·.ty.isReference)).getD false = true →
        t.locals[first + k]?.isSome := by
  induction ls generalizing first s with
  | nil => exact ⟨s, rfl, fun _ h => h, by simp⟩
  | cons l ls ih =>
    have hfirst : ∃ t, clearLocals (l :: ls) first n s = clearLocals ls (first + 1) n t ∧
        (∀ id : LocalId, s.locals[id]?.isSome → t.locals[id]?.isSome) ∧
        (l.ty.isReference → t.locals[first]?.isSome) := by
      rw [clearLocals]
      by_cases hl : l.ty.isReference
      · rw [if_pos hl]
        exact ⟨_, rfl, fun id hid => Mirrors.isSome_insert hid _ _, fun _ => by simp⟩
      · rw [if_neg hl]
        exact ⟨s, rfl, fun _ h => h, fun h => absurd h hl⟩
    obtain ⟨t, ht, hkeep, hset⟩ := hfirst
    obtain ⟨u, hu, hkeep', hsets⟩ := ih (first + 1) t
    refine ⟨u, ht.trans hu, fun id hid => hkeep' id (hkeep id hid), fun k hk => ?_⟩
    cases k with
    | zero => exact hkeep' _ (hset (by simpa using hk))
    | succ k =>
      rw [Nat.add_comm k 1, ← Nat.add_assoc]
      exact hsets k (by simpa using hk)

/-- A whole call ends in a loss or as the plain evaluation does, and then shows the same. -/
theorem evalFunction_mirrors (hparams : paramsTyped sc.function)
    (body : Checked.Block) (passed : List Value) (n : Nat) (s : Store) :
    Mirrored lost sc 1 (Managed.evalFunction sc body passed n { toStore := s })
      (evalFunction (sc.answeredBy plain) body passed n s) := by
  obtain ⟨t, ht, -, hset⟩ := clearLocals_sets sc.function.locals 0 n s
  have hrefs : ∀ q ∈ sc.function.params.zip passed, q.1.ty.isReference →
      Managed.isReference sc q.1.id := by
    intro q hq href
    obtain ⟨k, hk⟩ := List.mem_iff_getElem?.mp (List.of_mem_zip hq).1
    have hq := List.all_eq_true.mp hparams (q.1, k) (List.mem_zipIdx_iff_getElem?.mpr hk)
    simp only [Bool.and_eq_true, beq_iff_eq] at hq
    obtain ⟨hid, hty⟩ := hq
    obtain ⟨l, hl, hlty⟩ := Option.map_eq_some_iff.mp hty
    rw [Managed.isReference, hid, hl, Option.map_some, Option.getD_some, hlty]
    exact href
  have hshows : Shows lost sc { toStore := t, scopes := [[]] } t :=
    ⟨rfl, .refl _, rfl, fun id hid => by simpa using hset id hid, by simp⟩
  have hrest := (takeParams_mirrors hc (blockAssigns body) hrefs).bind fun _ =>
    (evalDefaults_mirrors hc).bind fun _ => (evalBlock_mirrors hc body).bind fun tail =>
      Mirrors.returnFrom (α := Empty) hc (if sc.function.returnType.isVoid then none else tail)
  have ht' : clearLocals (sc.answeredBy plain).function.locals 0 n s = some (.value (), t) := ht
  rw [Managed.evalFunction, Eval.bind_apply, Managed.lift, ht, evalFunction, Eval.bind_apply, ht']
  exact hrest n _ t hshows (by simp)

end

/-! ## The runtime -/

/-- A fault that counting can bring about. -/
inductive OfCounting : Fault → Prop
  | useAfterFree (a : Address) : OfCounting (.useAfterFree a)
  | mismatch : OfCounting .mismatch
  | outOfFuel : OfCounting .outOfFuel

namespace SameContents

variable {h g : Heap} (hg : SameContents OfCounting h g)

include hg

theorem recount {a : Address} {c : Cell} (hc : h.cells[a]? = some c) (n : Nat)
    (counters : Counters) :
    SameContents OfCounting { h.setCell a { c with count := n } with counters } g := by
  have hr := Heap.recounts_setCell hc n counters
  refine ⟨(Heap.size_setCell h a _).trans hg.size, hr.contents.trans hg.contents, fun b => ?_⟩
  rw [hr.freed]
  exact hg.freed b

theorem free {a : Address} {c : Cell} (hc : h.cells[a]? = some c) (counters : Counters) :
    SameContents OfCounting { h.setCell a { c with freed := true } with counters } g := by
  have hl := Heap.loses_setCell hc counters
  refine ⟨(Heap.size_setCell h a _).trans hg.size, hl.contents.trans hg.contents, fun b => ?_⟩
  rw [hl.freed]
  by_cases hb : b = a
  · exact .inr ⟨by simp [hb], .useAfterFree b⟩
  · simpa [hb] using hg.freed b

/-- What a counted cell is, or a loss. -/
theorem counted (a : Address) :
    Answers OfCounting (fun c d => h.cells[a]? = some c ∧ SameContents OfCounting h d)
      (h.cell a) (.ok g) := by
  unfold Heap.cell
  cases hc : h.cells[a]? with
  | none => exact .lost .mismatch
  | some c =>
    dsimp only
    split
    · exact .lost (.useAfterFree a)
    · exact .ok ⟨rfl, hg⟩

theorem retain (v : Value) : Answers OfCounting (SameContents OfCounting) (h.retain v) (.ok g) := by
  unfold Heap.retain
  split
  · exact .ok hg
  · exact (hg.counted _).bind (g := .ok) fun c d hcd => .ok (hcd.2.recount hcd.1 _ _)
  · exact .lost .mismatch

theorem perform (task : Heap.Task) :
    Answers OfCounting (fun r d => SameContents OfCounting r.1 d) (h.perform task) (.ok g) := by
  unfold Heap.perform
  split
  · exact .ok hg
  · exact (hg.counted _).bind (g := .ok) fun c d hcd => .ok (hcd.2.recount hcd.1 _ _)
  · exact .lost .mismatch
  · exact (hg.counted _).bind (g := .ok) fun c d hcd => .ok (hcd.2.free hcd.1 _)

/-- A release frees cells and leaves alone what they hold. -/
theorem performAll (fuel : Nat) (tasks : List Heap.Task) :
    Answers OfCounting (SameContents OfCounting) (h.performAll fuel tasks) (.ok g) := by
  induction fuel generalizing h g tasks with
  | zero =>
    cases tasks with
    | nil => exact .ok hg
    | cons task tasks => exact .lost .outOfFuel
  | succ fuel ih =>
    cases tasks with
    | nil => exact .ok hg
    | cons task tasks =>
      exact (hg.perform task).bind (g := .ok) fun r d hd => ih hd _

end SameContents

section

variable (m : Module) (functions : FuncId → List Value → Heap → Except Fault (Option Value × Heap))

/-- The builtin functions; what functions do is a parameter. -/
def counting : Calls
  | .function f, args, h => functions f args h
  | .builtin b, args, h => runBuiltin m h b args
  | .drop _, _, _ => .error .mismatch

/-- The builtin functions, except that nothing is counted. -/
def uncounted : Calls
  | .function f, args, h => functions f args h
  | .builtin b, args, h =>
    if b = .retain ∨ b = .release then .ok (none, h) else runBuiltin m h b args
  | .drop _, _, _ => .error .mismatch

end

section

variable (m : Module) {h g : Heap} (hg : SameContents OfCounting h g)

include hg

theorem runBuiltin_retain (v : Value) : Answers OfCounting (SameAnswer OfCounting)
    (runBuiltin m h .retain [v]) (.ok (none, g)) :=
  (hg.retain v).bind (g := fun k => .ok (none, k)) fun _ _ hk => .ok ⟨rfl, hk⟩

theorem runBuiltin_release (v : Value) : Answers OfCounting (SameAnswer OfCounting)
    (runBuiltin m h .release [v]) (.ok (none, g)) :=
  (hg.performAll _ _).bind (g := fun k => .ok (none, k)) fun _ _ hk => .ok ⟨rfl, hk⟩

theorem answers_alloc (content : Content) : SameAnswer OfCounting
    (some (.ref (h.alloc content).1), (h.alloc content).2)
    (some (.ref (g.alloc content).1), (g.alloc content).2) :=
  ⟨congrArg (fun a => some (Value.ref a)) hg.size, hg.alloc content⟩

theorem uncounted_answers (functions : FuncId → List Value → Heap →
      Except Fault (Option Value × Heap))
    (b : Builtin) (args : List Value) : Answers OfCounting (SameAnswer OfCounting)
    (runBuiltin m h b args) (uncounted m functions (.builtin b) args g) := by
  fun_cases runBuiltin m h b args with
  | case1 v => exact runBuiltin_retain m hg v
  | case2 v => exact runBuiltin_release m hg v
  | case3 size vtable drop =>
    refine (Answers.refl (dropAt m drop)).bind fun x y hxy => ?_
    subst hxy
    exact .ok (answers_alloc hg _)
  | case4 data length =>
    refine (Answers.refl (literalText m data length)).bind fun x y hxy => ?_
    subst hxy
    exact .ok (answers_alloc hg _)
  | case5 x y =>
    simp only [uncounted, runBuiltin, Heap.concat, bind_assoc, pure_bind]
    refine (hg.text x).bind fun s s' hs => (hg.text y).bind fun u u' hu => ?_
    subst hs hu
    exact .ok (answers_alloc hg _)
  | case6 x y =>
    simp only [uncounted, runBuiltin, Heap.sameText, bind_assoc, pure_bind]
    refine (hg.text x).bind fun s s' hs => (hg.text y).bind fun u u' hu => ?_
    subst hs hu
    exact .ok ⟨rfl, hg⟩
  | case7 x =>
    simp only [uncounted, runBuiltin, Heap.textLength, bind_assoc, pure_bind]
    refine (hg.text x).bind fun s s' hs => ?_
    subst hs
    exact .ok ⟨rfl, hg⟩
  | case8 => exact .lost .mismatch

end

/-- Where functions do the same on heaps that hold the same, so do the calls without counting. -/
theorem counting_erases (m : Module)
    {functions : FuncId → List Value → Heap → Except Fault (Option Value × Heap)}
    (hf : ∀ f args {h g}, SameContents OfCounting h g →
      Answers OfCounting (SameAnswer OfCounting) (functions f args h) (functions f args g)) :
    Erases OfCounting (counting m functions) (uncounted m functions) where
  retain v _ _ hg := runBuiltin_retain m hg v
  release v _ _ hg := runBuiltin_release m hg v
  answers callee args _ _ hg := by
    cases callee with
    | function f => exact hf f args hg
    | drop c => exact .error _
    | builtin b => exact uncounted_answers m hg functions b args

end ObjectLang.Evaluation
