import ObjectLang.Proofs.BodyCourses
import ObjectLang.Proofs.Chains
import ObjectLang.Proofs.Loads

/-! # Registers

There is one instance for each key, and it is found under its key from the moment that it is begun.
A class has the ancestor that its clause stands for, and what waits will get it.  Every step of a
check keeps to that, leaves alone what was there before, and does not add more to the load than its
depth allows.
-/

namespace ObjectLang.Check

open Source Syntax Scope Names Diagnostic Checked

/-! ### Ancestors -/

/-- The type that the declaration of a class names as its ancestor. -/
def clauseOf (src : Sources) (p : Program) (c : ClassId) : Option (TypeExpr Mark) :=
  (src.tree.structureAt (p.classAt c).struct).decl.cls?.bind (·.ancestor)

/-- The ancestor that a class has or will get is right: the class that its clause stands for, or
none if there is no clause, if the clause stands for no type, or if it was refused. -/
inductive Inherits (src : Sources) (s : State) (c : ClassId) : Option ClassId → Prop where
  | root (h : clauseOf src s.program c = none) : Inherits src s c none
  | below {clause : TypeExpr Mark} {a : ClassId} (h : clauseOf src s.program c = some clause)
      (ha : typeOf src s.program (classSubst src s.program c) clause = some (.object a)) :
      Inherits src s c (some a)
  | faulty {clause : TypeExpr Mark} (h : clauseOf src s.program c = some clause)
      (hfault : Faulty src s (classSubst src s.program c) clause) : Inherits src s c none
  | refused {clause : TypeExpr Mark} {text : String} {fault : InheritFault}
      (h : clauseOf src s.program c = some clause)
      (hreported : Reported s (.cannotInherit text fault) clause.mark.span) : Inherits src s c none

variable {src : Sources} {n b b' : Nat} {x y : Option ClassId} {s t u : State}

theorem Inherits.later {c : ClassId} {ancestor : Option ClassId} (h : Inherits src s c ancestor)
    (hst : Retains s t) (hkey : (t.program.classAt c).key = (s.program.classAt c).key) :
    Inherits src t c ancestor := by
  obtain ⟨hstruct, htypeArgs⟩ := (ClassKey.mk.injEq ..).mp hkey
  have hclause : clauseOf src t.program c = clauseOf src s.program c := by
    rw [clauseOf, hstruct, clauseOf]
  have hsubst : classSubst src t.program c = classSubst src s.program c := by
    simp only [classSubst, hstruct, htypeArgs]
  cases h with
  | root h => exact .root (hclause.trans h)
  | below h ha => exact .below (hclause.trans h) (hsubst ▸ typeOf_later hst.classes _ ha)
  | faulty h hfault => exact .faulty (hclause.trans h) (hsubst ▸ hst.faulty _ hfault)
  | refused h hreported => exact .refused (hclause.trans h) (hst.reported hreported)

/-! ### What holds of every state -/

/-- The classes that wait. -/
def State.parked (s : State) : List ClassId := s.waiting.map (·.pending.cls)

/-- The state with one more class, which is found under its key. -/
def State.withClass (s : State) (inst : ClassInst) : State :=
  { s with program :=
    { s.program with
      classes := s.program.classes.push inst
      classCache := s.program.classCache.begin inst.key s.program.classes.size } }

/-- The state with one more class that waits. -/
def State.withWaiting (s : State) (w : Waiting) : State := { s with waiting := s.waiting ++ [w] }

/-- Instances and keys belong to each other, and so do classes and their ancestors. -/
structure Recorded (src : Sources) (s : State) : Prop where
  classes : ∀ {key c}, s.program.classFor key = some c ↔
    c < s.program.classes.size ∧ (s.program.classAt c).key = key
  functions : ∀ {key f}, s.program.functionFor key = some f ↔
    f < s.program.functions.size ∧ (s.program.functionAt f).key? = some key
  belongs : ∀ {key f}, s.program.functionFor key = some f → Belongs src key
  done : ∀ {c}, s.program.Built c →
    s.program.classCache.get? (s.program.classAt c).key = some (.done c)
  nodup : s.parked.Nodup
  waits : ∀ w ∈ s.waiting, w.pending.cls < s.program.classes.size ∧
    Inherits src s w.pending.cls (some w.ancestor)
  inherits : ∀ {c}, s.program.Built c → Inherits src s c (s.program.classAt c).ancestor
  counted : ∀ {c}, c < s.program.classes.size → (s.program.classAt c).typeArgs.length =
    (src.tree.structureAt (s.program.classAt c).struct).decl.typeParams.length
  generics : GenericMethods src s.program
  conforming : s.Conforming
  ordinary : ∀ e ∈ s.errors ++ s.withdrawn, ¬e.cause.IsOrphan

/-! ### What holds of later states -/

/-- What was there before is there.  Of the classes that do not wait, all but `x` keep their
ancestor. -/
structure Follows (x : Option ClassId) (s t : State) : Prop where
  classes : s.program.classes.size ≤ t.program.classes.size
  foundClass : ∀ {key c}, s.program.classFor key = some c → t.program.classFor key = some c
  foundFunction : ∀ {key f}, s.program.functionFor key = some f → t.program.functionFor key = some f
  errors : s.errors <+: t.errors
  withdrawn : s.withdrawn <+: t.withdrawn
  ancestor : ∀ {c}, c < s.program.classes.size → c ∉ s.parked → x ≠ some c →
    (t.program.classAt c).ancestor = (s.program.classAt c).ancestor ∧ c ∉ t.parked

namespace Follows

theorem refl (x : Option ClassId) (s : State) : Follows x s s :=
  ⟨Nat.le_refl _, id, id, List.prefix_rfl, List.prefix_rfl, fun _ h _ => ⟨rfl, h⟩⟩

theorem retains (h : Follows x s t) : Retains s t := by
  refine ⟨h.foundClass, h.foundFunction, fun hr => ?_⟩
  simp only [Reported, List.mem_append] at hr ⊢
  exact hr.imp (fun hr => h.errors.subset hr) fun hr => h.withdrawn.subset hr

/-- First one thing and then another, which may have changed the ancestor of a class that waited or
was not there at first. -/
theorem trans_of (h : Follows x s t) (h' : Follows y t u)
    (hy : ∀ {c}, c < s.program.classes.size → c ∉ s.parked → x ≠ some c → y ≠ some c) :
    Follows x s u where
  classes := h.classes.trans h'.classes
  foundClass hc := h'.foundClass (h.foundClass hc)
  foundFunction hf := h'.foundFunction (h.foundFunction hf)
  errors := h.errors.trans h'.errors
  withdrawn := h.withdrawn.trans h'.withdrawn
  ancestor hc hparked hx := by
    obtain ⟨hancestor, hparked'⟩ := h.ancestor hc hparked hx
    obtain ⟨hancestor', hparked''⟩ := h'.ancestor (Nat.lt_of_lt_of_le hc h.classes) hparked'
      (hy hc hparked hx)
    exact ⟨hancestor'.trans hancestor, hparked''⟩

theorem trans (h : Follows x s t) (h' : Follows x t u) : Follows x s u :=
  h.trans_of h' fun _ _ h => h

theorem weaken (h : Follows none s t) : Follows x s t :=
  (refl x s).trans_of h fun _ _ _ => nofun

theorem of_atDepth {depth : Nat} (h : Follows x (s.atDepth depth) t) : Follows x s t :=
  ⟨h.classes, h.foundClass, h.foundFunction, h.errors, h.withdrawn, h.ancestor⟩

theorem atDepth (h : Follows x s t) (depth : Nat) : Follows x s (t.atDepth depth) :=
  ⟨h.classes, h.foundClass, h.foundFunction, h.errors, h.withdrawn, h.ancestor⟩

theorem key_eq (h : Follows x s t) (hs : Recorded src s) (ht : Recorded src t) {c : ClassId}
    (hc : c < s.program.classes.size) : (t.program.classAt c).key = (s.program.classAt c).key :=
  (ht.classes.mp (h.foundClass (hs.classes.mpr ⟨hc, rfl⟩))).2

theorem inherits (h : Follows x s t) (hs : Recorded src s) (ht : Recorded src t) {c : ClassId}
    (hc : c < s.program.classes.size) {ancestor : Option ClassId} (ha : Inherits src s c ancestor) :
    Inherits src t c ancestor :=
  ha.later h.retains (h.key_eq hs ht hc)

end Follows

/-- A later state with not much more to do. -/
structure Tracks (src : Sources) (n b : Nat) (x : Option ClassId) (s t : State) : Prop where
  follows : Follows x s t
  spends : Spends b (s.load src n) (t.load src n)

namespace Tracks

theorem refl (s : State) : Tracks src n b x s s := ⟨.refl x s, .refl b _⟩

theorem mono (h : Tracks src n b x s t) (hb : b ≤ b') : Tracks src n b' x s t :=
  ⟨h.follows, h.spends.mono hb⟩

theorem trans (h : Tracks src n b x s t) (h' : Tracks src n b x t u) : Tracks src n b x s u :=
  ⟨h.follows.trans h'.follows, h.spends.trans h'.spends⟩

theorem weaken (h : Tracks src n b none s t) : Tracks src n b x s t := ⟨h.follows.weaken, h.spends⟩

theorem restore {depth : Nat} (h : Tracks src n b x (s.atDepth depth) t) (depth' : Nat) :
    Tracks src n b x s (t.atDepth depth') :=
  ⟨h.follows.of_atDepth.atDepth depth', h.spends⟩

/-- Something new was made that counts. -/
theorem of_lt (h : Follows x s t)
    (hlt : outstanding src n t.program < outstanding src n s.program) : Tracks src n b x s t :=
  ⟨h, .inl hlt⟩

end Tracks

theorem Follows.spends (h : Follows x s t) (hwaiting : t.waiting = s.waiting)
    (hbodies : t.bodies = s.bodies) : Spends b (s.load src n) (t.load src n) := by
  refine .inr ⟨h.retains.outstanding_le, ?_⟩
  rw [State.load, State.load, hwaiting, hbodies]
  exact .refl _ _

/-! ### Single changes -/

namespace Recorded

/-- The records are the same, and whatever was reported is in order. -/
theorem still (hs : Recorded src s) (hwork : SameWork s t) (hrecords : SameRecords src s t) :
    Recorded src t ∧ Tracks src n b none s t := by
  obtain ⟨new, hnew, horphan⟩ := hrecords.errors
  have hparked : t.parked = s.parked := by rw [State.parked, hwork.waiting, State.parked]
  have hbuilt {c : ClassId} (hc : t.program.Built c) : s.program.Built c :=
    ⟨hrecords.classes ▸ hc.1, hrecords.inProgress c ▸ hc.2⟩
  have hfollows : Follows none s t := by
    refine ⟨hrecords.classes.ge, hrecords.retains.classes, hrecords.retains.functions, ?_, ?_, ?_⟩
    · rw [hnew]
      exact List.prefix_append _ _
    · rw [hrecords.withdrawn]
    · exact fun {c} _ hc _ => ⟨hrecords.ancestor c, hparked ▸ hc⟩
  refine ⟨?_, hfollows, hfollows.spends hwork.waiting hwork.bodies⟩
  have hinherits {c : ClassId} {ancestor : Option ClassId} (h : Inherits src s c ancestor) :
      Inherits src t c ancestor :=
    h.later hrecords.retains (hrecords.classKey c)
  constructor
  · intro key c
    rw [hrecords.classFor, hrecords.classes, hrecords.classKey]
    exact hs.classes
  · intro key f
    rw [hrecords.functionFor, hrecords.functions, hrecords.functionKey]
    exact hs.functions
  · intro key f hf
    exact hs.belongs ((hrecords.functionFor key).symm.trans hf)
  · intro c hc
    rw [hrecords.classCache, hrecords.classKey]
    exact hs.done (hbuilt hc)
  · rw [hparked]
    exact hs.nodup
  · intro w hw
    rw [hwork.waiting] at hw
    obtain ⟨hlt, hw⟩ := hs.waits w hw
    exact ⟨hrecords.classes ▸ hlt, hinherits hw⟩
  · intro c hc
    rw [hrecords.ancestor]
    exact hinherits (hs.inherits (hbuilt hc))
  · intro c hc
    obtain ⟨hstruct, htypeArgs⟩ := (ClassKey.mk.injEq ..).mp (hrecords.classKey c)
    rw [hstruct, htypeArgs]
    exact hs.counted (hrecords.classes ▸ hc)
  · exact hrecords.generics hs.generics
  · exact hrecords.conforming hs.conforming
  · intro e he
    rw [hnew, hrecords.withdrawn] at he
    simp only [List.mem_append] at he
    rcases he with (he | he) | he
    · exact hs.ordinary e (List.mem_append_left _ he)
    · exact horphan e he
    · exact hs.ordinary e (List.mem_append_right _ he)

/-- There is one more function instance, which is found under its key if it has one. -/
theorem withFunction (hs : Recorded src s) (inst : FuncInst) (cache : InstanceCache FunctionKey)
    (hold : ∀ {key f}, s.program.functionFor key = some f → (cache.get? key).map (·.id) = some f)
    (hfound : ∀ {key f}, (cache.get? key).map (·.id) = some f →
      s.program.functionFor key = some f ∨ f = s.program.functions.size ∧ inst.key? = some key)
    (hnew : ∀ {key}, inst.key? = some key →
      (cache.get? key).map (·.id) = some s.program.functions.size ∧ Belongs src key) :
    Recorded src (s.withFunction inst cache) ∧
    Tracks src n b none s (s.withFunction inst cache) := by
  have hfollows : Follows none s (s.withFunction inst cache) :=
    ⟨le_rfl, id, hold, List.prefix_rfl, List.prefix_rfl, fun _ h _ => ⟨rfl, h⟩⟩
  refine ⟨?_, hfollows, hfollows.spends rfl rfl⟩
  have hinherits {c : ClassId} {ancestor : Option ClassId} (h : Inherits src s c ancestor) :=
    h.later hfollows.retains rfl
  refine ⟨hs.classes, fun {key f} => ?_, fun {key f} h => ?_, hs.done, hs.nodup, fun w hw => ?_,
    fun {c} hc => ?_, hs.counted, hs.generics, hs.conforming, hs.ordinary⟩
  · have hfunction : (s.withFunction inst cache).program.functionAt f =
        if f = s.program.functions.size then inst else s.program.functionAt f :=
      getD_push _ _ _ _
    rw [hfunction]
    change (cache.get? key).map (·.id) = some f ↔ f < (s.program.functions.push inst).size ∧ _
    rw [Array.size_push]
    constructor
    · intro h
      rcases hfound h with h | ⟨rfl, hkey⟩
      · obtain ⟨hlt, hkey⟩ := hs.functions.mp h
        rw [if_neg (Nat.ne_of_lt hlt)]
        exact ⟨Nat.lt_succ_of_lt hlt, hkey⟩
      · rw [if_pos rfl]
        exact ⟨Nat.lt_succ_self _, hkey⟩
    · rintro ⟨hlt, hkey⟩
      split at hkey
      · next h => exact h ▸ (hnew hkey).1
      · next h => exact hold (hs.functions.mpr ⟨Nat.lt_of_le_of_ne (Nat.le_of_lt_succ hlt) h, hkey⟩)
  · rcases hfound h with h | ⟨-, hkey⟩
    · exact hs.belongs h
    · exact (hnew hkey).2
  · exact ⟨(hs.waits w hw).1, hinherits (hs.waits w hw).2⟩
  · exact hinherits (hs.inherits hc)

/-- Work was taken up or added, and what was reported is on record. -/
theorem of_work (hs : Recorded src s) (hprogram : t.program = s.program)
    (himplementors : t.implementors = s.implementors) (hwaiting : t.waiting.Sublist s.waiting)
    (hreports : ∀ {e}, e ∈ t.errors ++ t.withdrawn ↔ e ∈ s.errors ++ s.withdrawn) :
    Recorded src t := by
  have hinherits {c : ClassId} {ancestor : Option ClassId} (h : Inherits src s c ancestor) :
      Inherits src t c ancestor :=
    h.later ⟨by rw [hprogram]; exact id, by rw [hprogram]; exact id, hreports.mpr⟩
      (by rw [hprogram])
  constructor
  · exact hprogram ▸ hs.classes
  · exact hprogram ▸ hs.functions
  · exact hprogram ▸ hs.belongs
  · exact hprogram ▸ hs.done
  · exact hs.nodup.sublist (hwaiting.map _)
  · intro w hw
    obtain ⟨hlt, hw⟩ := hs.waits w (hwaiting.subset hw)
    exact ⟨hprogram ▸ hlt, hinherits hw⟩
  · intro c hc
    rw [hprogram] at hc ⊢
    exact hinherits (hs.inherits hc)
  · exact hprogram ▸ hs.counted
  · exact hprogram ▸ hs.generics
  · exact hs.conforming.congr (by rw [hprogram]) (by simp [hprogram]) (by simp [hprogram])
      himplementors
  · exact fun e he => hs.ordinary e (hreports.mp he)

theorem atDepth (hs : Recorded src s) (depth : Nat) : Recorded src (s.atDepth depth) :=
  hs.of_work rfl rfl (.refl _) .rfl

theorem withBody (hs : Recorded src s) {task : BodyTask} (htask : task.weight < b) :
    Recorded src (s.withBody task) ∧ Tracks src n b none s (s.withBody task) := by
  have hfollows : Follows none s (s.withBody task) :=
    ⟨le_rfl, id, id, List.prefix_rfl, List.prefix_rfl, fun _ h _ => ⟨rfl, h⟩⟩
  refine ⟨hs.of_work rfl rfl (.refl _) .rfl, hfollows, .inr ⟨hfollows.retains.outstanding_le, ?_⟩⟩
  have hload : ((s.withBody task).load src n).2 = (s.load src n).2 + {task.weight} := by
    simp [State.load, State.withBody, ← Multiset.coe_add, add_assoc]
  rw [hload]
  exact .add _ htask

theorem takeBack (ht : Recorded src t) (hst : Tracks src n b none s t) :
    Recorded src (s.takeBack t) ∧ Tracks src n b none s (s.takeBack t) := by
  have herrors : t.errors.take s.errors.length = s.errors := by
    obtain ⟨new, hnew⟩ := hst.follows.errors
    rw [← hnew, List.take_left]
  refine ⟨ht.of_work rfl rfl (.refl _) fun {e} => ?_, ?_, hst.spends⟩
  · have hsplit : e ∈ t.errors ↔
        e ∈ t.errors.take s.errors.length ∨ e ∈ t.errors.drop s.errors.length := by
      rw [← List.mem_append, List.take_append_drop]
    simp only [State.takeBack, List.mem_append, hsplit]
    tauto
  · refine ⟨hst.follows.classes, hst.follows.foundClass, hst.follows.foundFunction, ?_, ?_,
      hst.follows.ancestor⟩
    · exact herrors.symm ▸ List.prefix_rfl
    · exact hst.follows.withdrawn.trans (List.prefix_append _ _)

/-! ### Changes of classes -/

section

variable {inst : ClassInst}

theorem classAt_withClass (c : ClassId) : (s.withClass inst).program.classAt c =
    if c = s.program.classes.size then inst else s.program.classAt c :=
  getD_push ..

theorem classAt_withClass_of_lt {c : ClassId} (hc : c < s.program.classes.size) :
    (s.withClass inst).program.classAt c = s.program.classAt c := by
  rw [classAt_withClass, if_neg (Nat.ne_of_lt hc)]

theorem lt_withClass {c : ClassId} (hc : c < (s.withClass inst).program.classes.size)
    (hne : c ≠ s.program.classes.size) : c < s.program.classes.size := by
  rw [State.withClass, Array.size_push] at hc
  exact Nat.lt_of_le_of_ne (Nat.le_of_lt_succ hc) hne

theorem classFor_withClass (key : ClassKey) : (s.withClass inst).program.classFor key =
    if inst.key = key then some s.program.classes.size else s.program.classFor key := by
  simp only [State.withClass, Program.classFor, InstanceCache.get?_begin]
  split <;> rfl

theorem built_of_withClass (hprogress : inst.inProgress = true) {c : ClassId}
    (hc : (s.withClass inst).program.Built c) : s.program.Built c := by
  obtain ⟨hc, hnot⟩ := hc
  rw [classAt_withClass] at hnot
  split at hnot
  · cases hprogress.symm.trans hnot
  · next h => exact ⟨lt_withClass hc h, hnot⟩

variable (hs : Recorded src s) (hkey : s.program.classFor inst.key = none)

include hs hkey

theorem key_ne {c : ClassId} (hc : c < s.program.classes.size) :
    inst.key ≠ (s.program.classAt c).key := by
  intro h
  cases hkey.symm.trans (h ▸ hs.classes.mpr ⟨hc, rfl⟩)

/-- The key is new, so whatever was found is still found. -/
theorem follows_withClass : Follows none s (s.withClass inst) := by
  refine ⟨by simp [State.withClass], fun {key c} h => ?_, id, List.prefix_rfl, List.prefix_rfl,
    fun {c} hc h _ => ?_⟩
  · obtain ⟨hc, rfl⟩ := hs.classes.mp h
    rw [classFor_withClass, if_neg (hs.key_ne hkey hc)]
    exact h
  · rw [classAt_withClass_of_lt hc]
    exact ⟨rfl, h⟩

theorem classes_withClass {key : ClassKey} {c : ClassId} :
    (s.withClass inst).program.classFor key = some c ↔
      c < (s.withClass inst).program.classes.size ∧
        ((s.withClass inst).program.classAt c).key = key := by
  have hsize : (s.withClass inst).program.classes.size = s.program.classes.size + 1 :=
    Array.size_push ..
  rw [classFor_withClass]
  by_cases hc : c = s.program.classes.size
  · rw [classAt_withClass, if_pos hc, hsize, hc]
    split
    · next h => simp [h]
    · next h =>
      simp only [h, and_false, iff_false]
      exact fun h => Nat.lt_irrefl _ (hs.classes.mp h).1
  · rw [classAt_withClass, if_neg hc]
    split
    · next h =>
      subst h
      constructor
      · exact fun h => absurd (Option.some.inj h).symm hc
      · exact fun h => absurd h.2.symm (hs.key_ne hkey (lt_withClass h.1 hc))
    · rw [hs.classes]
      exact and_congr_left fun _ =>
        ⟨fun h => hsize ▸ Nat.lt_succ_of_lt h, fun h => lt_withClass h hc⟩

omit hkey in
/-- A new class conforms to nothing yet. -/
theorem conforming_withClass (hprotocols : inst.protocols = []) :
    (s.withClass inst).Conforming := by
  intro protocol struct
  refine (hs.conforming protocol struct).trans (exists_congr fun c => ?_)
  have hsize : (s.withClass inst).program.classes.size = s.program.classes.size + 1 :=
    Array.size_push ..
  rw [classAt_withClass]
  split
  · next h => simp [h, hprotocols]
  · next h =>
    exact and_congr_left fun _ =>
      ⟨fun hc => hsize ▸ Nat.lt_succ_of_lt hc, fun hc => lt_withClass hc h⟩

variable (inst) in
theorem withClass (hprogress : inst.inProgress = true)
    (hcount : inst.typeArgs.length = (src.tree.structureAt inst.struct).decl.typeParams.length)
    (hmethods : inst.methods = ∅) (hprotocols : inst.protocols = []) :
    Recorded src (s.withClass inst) ∧ Follows none s (s.withClass inst) := by
  have hfollows := hs.follows_withClass hkey
  refine ⟨?_, hfollows⟩
  have hinherits {c : ClassId} (hc : c < s.program.classes.size) {ancestor : Option ClassId}
      (h : Inherits src s c ancestor) : Inherits src (s.withClass inst) c ancestor :=
    h.later hfollows.retains (by rw [classAt_withClass_of_lt hc])
  refine ⟨hs.classes_withClass hkey, hs.functions, hs.belongs, fun {c} hc => ?_, hs.nodup,
    fun w hw => ?_, fun {c} hc => ?_, fun {c} hc => ?_, fun c f n hn => ?_,
    hs.conforming_withClass hprotocols, hs.ordinary⟩
  · have hc' := built_of_withClass hprogress hc
    rw [classAt_withClass_of_lt hc'.1]
    simp only [State.withClass, InstanceCache.get?_begin, if_neg (hs.key_ne hkey hc'.1)]
    exact hs.done hc'
  · obtain ⟨hc, hw⟩ := hs.waits w hw
    exact ⟨Nat.lt_of_lt_of_le hc hfollows.classes, hinherits hc hw⟩
  · have hc' := built_of_withClass hprogress hc
    rw [classAt_withClass_of_lt hc'.1]
    exact hinherits hc'.1 (hs.inherits hc')
  · rw [classAt_withClass]
    split
    · exact hcount
    · next h => exact hs.counted (lt_withClass hc h)
  · rw [classAt_withClass] at hn
    split at hn
    · simp [hmethods] at hn
    · exact hs.generics c f n hn

end

/-- The state in which the record of a class is changed and the classes are found by a cache. -/
abbrev rebuilt (s : State) (cls : ClassId) (f : ClassInst → ClassInst)
    (cache : InstanceCache ClassKey) : State :=
  { s with program := { s.program.updateClass cls f with classCache := cache } }

/-- The cache is the same and so is the progress of the class, or the class is finished there. -/
def Completes (s : State) (cls : ClassId) (inst : ClassInst) (cache : InstanceCache ClassKey) :
    Prop :=
  cache = s.program.classCache ∧ inst.inProgress = (s.program.classAt cls).inProgress ∨
    cache = s.program.classCache.finish (s.program.classAt cls).key cls

section

variable (hs : Recorded src s) {cls : ClassId} (hlt : cls < s.program.classes.size)
  {f : ClassInst → ClassInst} (hkey : (f (s.program.classAt cls)).key = (s.program.classAt cls).key)
  {cache : InstanceCache ClassKey} (hcache : Completes s cls (f (s.program.classAt cls)) cache)

include hlt in
theorem classAt_rebuilt (c : ClassId) : (rebuilt s cls f cache).program.classAt c =
    if c = cls then f (s.program.classAt cls) else s.program.classAt c :=
  Program.classAt_updateClass s.program c hlt f

include hlt hkey in
theorem key_rebuilt (c : ClassId) :
    ((rebuilt s cls f cache).program.classAt c).key = (s.program.classAt c).key := by
  rw [classAt_rebuilt hlt]
  split
  · next h => rw [h, hkey]
  · rfl

include hcache in
/-- Only the entry of the class itself may change. -/
theorem get?_of_completes {key : ClassKey} (h : (s.program.classAt cls).key ≠ key) :
    cache.get? key = s.program.classCache.get? key := by
  rcases hcache with ⟨rfl, -⟩ | rfl
  · rfl
  · exact (InstanceCache.get?_finish ..).trans (if_neg h)

include hs hlt hcache

/-- The entry of the class leads to the same class. -/
theorem classFor_rebuilt (key : ClassKey) :
    (rebuilt s cls f cache).program.classFor key = s.program.classFor key := by
  by_cases h : (s.program.classAt cls).key = key
  · subst h
    rcases hcache with ⟨rfl, -⟩ | rfl
    · rfl
    · rw [hs.classes.mpr ⟨hlt, rfl⟩, Program.classFor, InstanceCache.get?_finish, if_pos rfl]
      rfl
  · rw [Program.classFor, get?_of_completes hcache h, Program.classFor]

theorem follows_rebuilt : Follows (some cls) s (rebuilt s cls f cache) := by
  refine ⟨(Program.size_updateClass ..).ge, fun h => (hs.classFor_rebuilt hlt hcache _).trans h, id,
    List.prefix_rfl, List.prefix_rfl, fun {c} hc hparked hne => ?_⟩
  rw [classAt_rebuilt hlt, if_neg (fun h : c = cls => hne (congrArg some h.symm))]
  exact ⟨rfl, hparked⟩

omit hs hcache in
theorem built_of_rebuilt {c : ClassId} (hne : c ≠ cls)
    (hc : (rebuilt s cls f cache).program.Built c) : s.program.Built c := by
  obtain ⟨hc, hprogress⟩ := hc
  rw [classAt_rebuilt hlt, if_neg hne] at hprogress
  exact ⟨Program.size_updateClass .. ▸ hc, hprogress⟩

include hkey in
theorem done_rebuilt {c : ClassId} (hc : (rebuilt s cls f cache).program.Built c) :
    cache.get? ((rebuilt s cls f cache).program.classAt c).key = some (.done c) := by
  rw [key_rebuilt hlt hkey]
  by_cases h : c = cls
  · subst h
    rcases hcache with ⟨rfl, hprogress⟩ | rfl
    · exact hs.done ⟨hlt, by rw [← hprogress, ← hc.2, classAt_rebuilt hlt, if_pos rfl]⟩
    · exact (InstanceCache.get?_finish ..).trans (if_pos rfl)
  · have hbuilt := built_of_rebuilt hlt h hc
    rw [get?_of_completes hcache]
    · exact hs.done hbuilt
    · intro hkey
      have hcls := hs.classes.mpr ⟨hlt, hkey⟩
      exact h (Option.some.inj ((hs.classes.mpr ⟨hbuilt.1, rfl⟩).symm.trans hcls))

include hkey in
/-- A class was placed below its ancestor, or finished. -/
theorem rebuild (hmethods : (f (s.program.classAt cls)).methods = (s.program.classAt cls).methods)
    (hprotocols : (f (s.program.classAt cls)).protocols = (s.program.classAt cls).protocols)
    (hinherits : Inherits src s cls (f (s.program.classAt cls)).ancestor) :
    Recorded src (rebuilt s cls f cache) ∧
      Tracks src n b (some cls) s (rebuilt s cls f cache) := by
  have hfollows := hs.follows_rebuilt hlt hcache
  have hsize : (rebuilt s cls f cache).program.classes.size = s.program.classes.size :=
    Program.size_updateClass ..
  have hkeys (c : ClassId) :
      ((rebuilt s cls f cache).program.classAt c).key = (s.program.classAt c).key :=
    key_rebuilt hlt hkey c
  refine ⟨?_, hfollows, hfollows.spends rfl rfl⟩
  have hlater {c : ClassId} {ancestor : Option ClassId} (h : Inherits src s c ancestor) :
      Inherits src (rebuilt s cls f cache) c ancestor :=
    h.later hfollows.retains (hkeys c)
  refine ⟨fun {key c} => ?_, hs.functions, hs.belongs, hs.done_rebuilt hlt hkey hcache, hs.nodup,
    fun w hw => ?_, fun {c} hc => ?_, fun {c} hc => ?_, fun c g m hm => ?_, ?_, hs.ordinary⟩
  · rw [hs.classFor_rebuilt hlt hcache, hsize, hkeys]
    exact hs.classes
  · obtain ⟨hlt, hw⟩ := hs.waits w hw
    exact ⟨hsize ▸ hlt, hlater hw⟩
  · rw [classAt_rebuilt hlt]
    split
    · next h => exact hlater (h ▸ hinherits)
    · next h => exact hlater (hs.inherits (built_of_rebuilt hlt h hc))
  · obtain ⟨hstruct, htypeArgs⟩ := (ClassKey.mk.injEq ..).mp (hkeys c)
    rw [hstruct, htypeArgs]
    exact hs.counted (hsize ▸ hc)
  · rw [classAt_rebuilt hlt] at hm
    split at hm
    · exact hs.generics cls g m (hmethods ▸ hm)
    · exact hs.generics c g m hm
  · refine hs.conforming.congr hsize hkeys (fun c => ?_) rfl
    rw [classAt_rebuilt hlt]
    split
    · next h => rw [h, hprotocols]
    · rfl

end

/-! ### Classes that wait -/

theorem withWaiting (hs : Recorded src s) {w : Waiting}
    (hlt : w.pending.cls < s.program.classes.size) (hparked : w.pending.cls ∉ s.parked)
    (hinherits : Inherits src s w.pending.cls (some w.ancestor)) (hweight : w.pending.weight < b) :
    Recorded src (s.withWaiting w) ∧ Tracks src n b (some w.pending.cls) s (s.withWaiting w) := by
  have hparkeds : (s.withWaiting w).parked = s.parked ++ [w.pending.cls] := List.map_append
  have hfollows : Follows (some w.pending.cls) s (s.withWaiting w) := by
    refine ⟨le_rfl, id, id, List.prefix_rfl, List.prefix_rfl, fun {c} _ hc hne => ⟨rfl, ?_⟩⟩
    rw [hparkeds, List.mem_append, List.mem_singleton]
    rintro (h | h)
    · exact hc h
    · exact hne (h ▸ rfl)
  have hlater {c : ClassId} {ancestor : Option ClassId} (h : Inherits src s c ancestor) :
      Inherits src (s.withWaiting w) c ancestor :=
    h.later hfollows.retains rfl
  refine ⟨⟨hs.classes, hs.functions, hs.belongs, hs.done, ?_, fun w' hw' => ?_,
    fun hc => hlater (hs.inherits hc), hs.counted, hs.generics, hs.conforming, hs.ordinary⟩,
    hfollows, .inr ⟨hfollows.retains.outstanding_le, ?_⟩⟩
  · rw [hparkeds, List.nodup_append]
    refine ⟨hs.nodup, List.nodup_singleton _, fun c hc d hd h => hparked ?_⟩
    rw [← List.mem_singleton.mp hd, ← h]
    exact hc
  · rcases List.mem_append.mp hw' with hw' | hw'
    · exact ⟨(hs.waits w' hw').1, hlater (hs.waits w' hw').2⟩
    · rw [List.mem_singleton.mp hw']
      exact ⟨hlt, hlater hinherits⟩
  · have hload : ((s.withWaiting w).load src n).2 = (s.load src n).2 + {w.pending.weight} := by
      simp [State.load, State.withWaiting, ← Multiset.coe_add, add_right_comm]
    rw [hload]
    exact .add _ hweight

end Recorded

/-- The state without the classes that wait for an ancestor, which are to be completed now. -/
def State.withoutWaiting (s : State) (ancestor : ClassId) : State :=
  { s with waiting := s.waiting.filter (·.ancestor != ancestor) }

/-- The classes that wait for an ancestor. -/
def State.descendants (s : State) (ancestor : ClassId) : List Pending :=
  (s.waiting.filter (·.ancestor == ancestor)).map (·.pending)

theorem State.load_eq_plus_descendants (s : State) (ancestor : ClassId) :
    s.load src n = ((s.withoutWaiting ancestor).load src n).plus
      ↑((s.descendants ancestor).map fun d => d.weight) := by
  have hsplit : (s.waiting : Multiset Waiting) = ↑(s.waiting.filter (·.ancestor != ancestor)) +
      ↑(s.waiting.filter (·.ancestor == ancestor)) := by
    rw [Multiset.coe_add, Multiset.coe_eq_coe]
    exact (List.filter_append_perm (·.ancestor == ancestor) _).symm.trans List.perm_append_comm
  simp only [State.load, State.withoutWaiting, State.descendants, Load.plus, List.map_map,
    ← Multiset.map_coe, hsplit, Multiset.map_add]
  rw [add_right_comm]
  rfl

end ObjectLang.Check
