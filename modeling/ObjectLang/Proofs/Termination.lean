import ObjectLang.Proofs.ClassCourses
import ObjectLang.Proofs.Depths

/-! # Checking comes to an end

A body asks for classes and functions that are not generic only finitely often, and what it asks for
with type arguments lies deeper than the body itself.  So the queue runs empty, and every request
from outside is answered.
-/

namespace ObjectLang.Check

open Filter
open Source Syntax Scope Names Diagnostic Checked

variable {src : Sources} {n b : Nat} {s t u : State}

/-! ### Bodies -/

/-- The course of requests in general: functions without type arguments weigh `extra` more than
others. -/
def requestCourse (hproper : src.Proper n) (extra : Nat) : Course src :=
  trackCourse hproper extra (fun _ => True) fun _ _ _ _ _ => trivial

theorem requestCourse_serves (hproper : src.Proper n) (extra : Nat) :
    (requestCourse hproper extra).Serves (requestClass src) :=
  trackCourse_serves (settles hproper) fun _ => trivial

theorem requestCourse_admits (hproper : src.Proper n) (typeArgs : List Ty) :
    (requestCourse hproper 1).Admits typeArgs :=
  trackCourse_queues fun _ => Nat.one_pos

/-- A function that stands in a namespace, asked for without type arguments, was missing. -/
theorem outstanding_lt_of_function {key : FunctionKey} (hst : Retains s t)
    (hcallable : Callable src n s.program key) (hempty : key.typeArgs = [])
    (hcount : key.typeArgs.length = (src.tree.functionAt key.symbol).decl.typeParams.length)
    (hnone : s.program.functionFor key = none) {id : FuncId}
    (hsome : t.program.functionFor key = some id) :
    outstanding src n t.program < outstanding src n s.program := by
  obtain ⟨symbol, typeArgs, receiver⟩ := key
  obtain rfl : typeArgs = [] := hempty
  have hparams : (src.tree.functionAt symbol).decl.typeParams = [] :=
    List.length_eq_zero_iff.mp hcount.symm
  rcases hcallable with ⟨hlt, -, hreceiver⟩ | ⟨hgeneric, -⟩
  · cases receiver with
    | none =>
      refine hst.outstanding_lt .function hlt hnone ?_
      simp [Missing, hsome]
    | some ty =>
      obtain ⟨clause, hclause, htype⟩ := hreceiver ty rfl
      simp only [hparams] at hclause htype
      have htype' : typeOf src t.program ∅ clause = some ty :=
        typeOf_later hst.classes clause htype
      refine hst.outstanding_lt .extension hlt (fun clause' ty' hclause' htype'' => ?_)
        fun hmissing => ?_
      · cases hclause.symm.trans hclause'
        cases htype.symm.trans htype''
        exact hnone
      · cases (hmissing clause ty hclause htype').symm.trans hsome
  · exact absurd hparams hgeneric

/-- A function without type arguments that a body asks for is new only if there is one less
outstanding afterwards. -/
theorem works_requestPlain (hproper : src.Proper n) {key : FunctionKey} (hempty : key.typeArgs = [])
    (span : Span) :
    Works (requestCourse hproper 0) (fun s => Callable src n s.program key)
      (fun i => requestFunction src (requestClass src i) key span) fun _ _ => True := by
  simp only [requestFunction]
  have hfind := (works_findFunction (k := requestCourse hproper 0) key).frame
    (S := fun s => Callable src n s.program key) (fun hst h => hst.2.follows.retains.callable h)
    fun _ _ => trivial
  refine .bind hfind fun found => ?_
  cases found with
  | some id => exact .pure fun _ _ => trivial
  | none =>
    refine .ite (fun _ => .pure fun _ _ => trivial) fun _ => .ite (fun _ => ?_) fun hcount => ?_
    · exact .bind (.quiet (.report span)) fun _ => .pure fun _ _ => trivial
    have hcount := not_not.mp hcount
    refine .extract (φ := ∃ ns, (src.tree.functionAt key.symbol).owner = .ns ns) (fun _ hp => ?_)
      fun howner => ?_
    · rcases hp.2 with ⟨-, howner, -⟩ | ⟨hgeneric, -⟩
      · exact howner
      · exact absurd (List.length_eq_zero_iff.mp (hempty ▸ hcount).symm) hgeneric
    obtain ⟨ns, howner⟩ := howner
    simp only [howner, instantiateWithin, hempty, List.isEmpty_nil, Bool.not_true, Bool.false_and,
      Bool.false_eq_true, if_false]
    refine .bind (.imp .get (fun _ h => h) fun _ h => h.2) fun _ => .bind (Q := fun _ _ => True) ?_
      fun _ => .pure fun _ _ => trivial
    -- One thing less is outstanding afterwards, so the body of the new instance may weigh anything.
    have hmake := works_instantiateFunction (requestCourse_serves hproper 1) key none
      (fun _ h => by cases howner.symm.trans h) (requestCourse_admits hproper key.typeArgs)
    refine ⟨fun hs hp hx => ?_, fun _ _ hs hp => ?_⟩
    · obtain ⟨ht, hst, hid⟩ := hmake.keeps hs ⟨fun _ => hp.1, fun h => absurd hempty h⟩ hx
      refine ⟨ht, ⟨hst.1, .of_lt hst.2.follows ?_⟩, trivial⟩
      exact outstanding_lt_of_function hst.2.follows.retains hp.2 hempty hcount hp.1 (hid trivial)
    · exact hmake.ends trivial hs ⟨fun _ => hp.1, fun h => absurd hempty h⟩

theorem requestCourse_hosts (hproper : src.Proper n) :
    (requestCourse hproper 0).Hosts (requestClass src) where
  classes := requestCourse_serves hproper 0
  takesBack _ ht hst := by
    obtain ⟨hrecorded, htracks⟩ := ht.1.takeBack hst.2
    exact ⟨⟨hrecorded, trivial⟩, hst.1, htracks⟩
  functions key span := by
    by_cases hempty : key.typeArgs = []
    · exact (works_requestPlain hproper hempty span).imp (fun _ h => h trivial) fun _ h => h
    · refine .extract (φ := ∀ struct, (src.tree.functionAt key.symbol).owner = .struct struct →
        ∃ c, key.receiver = some (.object c)) (fun _ hp struct howner => ?_) fun howner => ?_
      · rcases hp trivial with ⟨-, ⟨ns, hns⟩, -⟩ | ⟨-, hreceiver⟩
        · cases howner.symm.trans hns
        · exact hreceiver
      · refine (safe_requestFunction (requestCourse_serves hproper 0) span ?_ fun _ struct h =>
          .inl (howner struct h)).imp (fun _ _ => trivial) fun _ h => h
        exact trackCourse_queues fun h => by simp [hempty] at h

theorem leads_checkBody (hproper : src.Proper n) (hs : Recorded src s) (task : BodyTask) :
    Leads (fun i => checkBody src (requestClass src i) task) s fun _ t =>
      Recorded src t ∧ t.depth = s.depth ∧ Tracks src n task.weight none s t := by
  simp only [checkBody]
  refine .bind (Q := fun r t => s = r ∧ s = t) (.step rfl ⟨rfl, rfl⟩) ?_
  rintro _ _ ⟨rfl, rfl⟩
  refine .bind (Q := fun _ t => s.atDepth task.env.depth = t) (.step rfl rfl) ?_
  rintro _ _ rfl
  have hbody := safe_checkFunction (requestCourse_hosts hproper) task.env
    (s.program.functionAt task.function).returnType (s.program.functionAt task.function)
    ((s.program.functionAt task.function).symbol.bind fun f => (src.tree.functionAt f).decl.body)
    (Frame.ofParams (s.program.functionAt task.function).locals)
  refine .bind (hbody.leads trivial ⟨hs.atDepth _, trivial⟩ trivial) ?_
  rintro r s2 ⟨⟨hs2, -⟩, ⟨-, htracks⟩, -⟩
  refine .bind (Q := fun _ t => s2.atDepth s.depth = t) (.step rfl rfl) ?_
  rintro _ _ rfl
  have hlast : Still src (updateFunction task.function
      (withBody (s.program.functionAt task.function).span r.1.1 r.1.2 r.2.locals)) :=
    .updateFunction fun _ => rfl
  obtain ⟨_, t, ht, hwork, hrecords⟩ := hlast (s2.atDepth s.depth)
  obtain ⟨hrecorded, htracks'⟩ :=
    (hs2.atDepth s.depth).still (n := n) (b := task.weight) hwork hrecords
  exact .step ht ⟨hrecorded, hwork.depth, (htracks.restore s.depth).trans htracks'⟩

/-! ### The queue -/

/-- A body was taken out of the queue. -/
theorem load_eq_plus_body {task : BodyTask} {rest : List BodyTask}
    (hbodies : s.bodies = task :: rest) :
    s.load src n = (State.load src n { s with bodies := rest }).plus {task.weight} := by
  rw [State.load, hbodies]
  simp only [State.load, Load.plus, List.map_cons, ← Multiset.cons_coe, ← Multiset.singleton_add]
  rw [add_assoc, add_comm ({task.weight} : Multiset Nat)]

theorem leads_drain (hproper : src.Proper n) (hs : Recorded src s) {steps : Nat → Nat}
    (hsteps : Tendsto steps atTop atTop) :
    Leads (fun i => drain src (requestClass src i) (steps i)) s fun _ t =>
      Recorded src t ∧ t.depth = s.depth ∧ Follows none s t ∧ t.bodies = [] := by
  induction hload : s.load src n using wellFounded_lighter.induction generalizing s steps with
  | _ load ih =>
    refine .fueled (x := fun i steps => drain src (requestClass src i) steps) hsteps
      (fun _ => rfl) ?_
    simp only [drain]
    refine .bind (Q := fun r t => s = r ∧ s = t) (.step rfl ⟨rfl, rfl⟩) ?_
    rintro _ _ ⟨rfl, rfl⟩
    cases hbodies : s.bodies with
    | nil => exact .step rfl ⟨hs, rfl, .refl _ _, hbodies⟩
    | cons task rest =>
      rw [load_eq_plus_body hbodies] at hload
      have hs1 : Recorded src { s with bodies := rest } := hs.of_work rfl rfl (.refl _) .rfl
      have hfollows1 : Follows none s { s with bodies := rest } :=
        ⟨le_rfl, id, id, List.prefix_rfl, List.prefix_rfl, fun _ h _ => ⟨rfl, h⟩⟩
      refine .bind (Q := fun _ t => { s with bodies := rest } = t) (.step rfl rfl) ?_
      rintro _ _ rfl
      -- Whatever the body leaves behind weighs less than the body.
      refine .bind (leads_checkBody hproper hs1 task) ?_
      rintro _ s2 ⟨hs2, hdepth2, htracks2⟩
      refine (ih _ (hload ▸ htracks2.spends.lighter) hs2 ((tendsto_sub_atTop_nat 1).comp hsteps)
        rfl).imp ?_
      rintro _ t ⟨ht, hdepth, hfollows, hempty⟩
      exact ⟨ht, hdepth.trans hdepth2, hfollows1.trans (htracks2.follows.trans hfollows), hempty⟩

/-! ### Requests from outside -/

theorem leads_serve (hproper : src.Proper n) {α : Type} {action : Nat → Checking α}
    {Q : α → State → Prop}
    (haction : Leads action s fun a t => Recorded src t ∧ t.depth = s.depth ∧ Follows none s t ∧
      t.waiting = [] ∧ Q a t) :
    Leads (fun i => serve src i (action i)) s fun a t => Recorded src t ∧ t.depth = s.depth ∧
      Follows none s t ∧ t.bodies = [] ∧ ∃ u, Q a u ∧ Follows none u t := by
  simp only [serve]
  refine .bind haction ?_
  rintro a u ⟨hu, hdepth, hfollows, hwaiting, hq⟩
  have horphans :
      Leads (fun i => completeOrphans src (requestClass src i) i) u fun _ v => u = v := by
    refine .fueled (x := fun i fuel => completeOrphans src (requestClass src i) fuel) tendsto_id
      (fun _ => rfl) ?_
    simp only [completeOrphans]
    refine .bind (Q := fun r t => u = r ∧ u = t) (.step rfl ⟨rfl, rfl⟩) ?_
    rintro _ _ ⟨rfl, rfl⟩
    rw [hwaiting]
    exact .step rfl rfl
  refine .bind horphans ?_
  rintro _ _ rfl
  refine .bind (leads_drain hproper hu tendsto_id) ?_
  rintro _ t ⟨ht, hdepth', hfollows', hempty⟩
  exact .step rfl ⟨ht, hdepth'.trans hdepth, hfollows.trans hfollows', hempty, u, hq, hfollows'⟩

end ObjectLang.Check
