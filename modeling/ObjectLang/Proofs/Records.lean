import ObjectLang.Proofs.Checking
import ObjectLang.Proofs.Instances

/-! # What is on record

Instances are found again by their keys, and types by the classes that they name; what was reported
stays reported.  Most steps of a check leave all that as it is.
-/

namespace ObjectLang.Diagnostic

/-- The ancestor of a class was never completed. -/
def ErrorCause.IsOrphan : ErrorCause → Prop
  | .cannotInherit _ .neverCompleted => True
  | _ => False

theorem ErrorCause.IsUsual.not_isOrphan {cause : ErrorCause} (h : cause.IsUsual) :
    ¬cause.IsOrphan := by
  cases cause with
  | cannotInherit _ fault =>
    cases fault with
    | neverCompleted => exact h.elim
    | cycle | notClass => exact id
  | _ => exact id

end ObjectLang.Diagnostic

namespace ObjectLang.Checked

def ClassInst.key (c : ClassInst) : ClassKey := ⟨c.struct, c.typeArgs⟩

/-- An initializer that nobody wrote has no key. -/
def FuncInst.key? (f : FuncInst) : Option FunctionKey :=
  f.symbol.map fun symbol => ⟨symbol, f.typeArgs, f.receiver⟩

namespace Program

/-- The class instance that a key leads to, finished or not. -/
def classFor (p : Program) (key : ClassKey) : Option ClassId := (p.classCache.get? key).map (·.id)

/-- The function instance that a key leads to, finished or not. -/
def functionFor (p : Program) (key : FunctionKey) : Option FuncId :=
  (p.functionCache.get? key).map (·.id)

end Program

end ObjectLang.Checked

namespace ObjectLang.Check

open Source Syntax Scope Names Diagnostic Checked

/-- The error was reported at the span; it may have been taken back. -/
def Reported (s : State) (cause : ErrorCause) (span : Span) : Prop :=
  { cause, span } ∈ s.errors ++ s.withdrawn

/-! ### Types as they are found -/

section

variable (src : Sources)

mutual

/-- The type that an expression stands for, as far as its classes have been made. -/
def typeOf (p : Program) (subst : Subst) : TypeExpr Mark → Option Ty
  | .primitive _ k => some (.primitive k)
  | .named m _ args =>
    match src.names.target m.node with
    | .unknown => none
    | .typeParam name => subst[name]?.filter (!·.isUnknown)
    | .struct s =>
      match typesOf p subst args with
      | none => none
      | some tys =>
        if tys.length ≠ (src.tree.structureAt s).decl.typeParams.length then none
        else
          match (src.tree.structureAt s).decl.kind with
          | .cls => (p.classFor ⟨s, tys⟩).map .object
          | .protocol => some (.protocol s)
          | .enum => some (.enum s)

def typesOf (p : Program) (subst : Subst) : List (TypeExpr Mark) → Option (List Ty)
  | [] => some []
  | e :: es =>
    match typeOf p subst e, typesOf p subst es with
    | some ty, some tys => some (ty :: tys)
    | _, _ => none

end

mutual

/-- The expression stands for no type: a name in it means nothing, has the wrong number of
arguments, or would have nested too deeply. -/
def Faulty (s : State) (subst : Subst) : TypeExpr Mark → Prop
  | .primitive _ _ => False
  | .named m _ args =>
    match src.names.target m.node with
    | .unknown => True
    | .typeParam name => subst[name]?.getD .unknown = .unknown
    | .struct id =>
      args.length ≠ (src.tree.structureAt id).decl.typeParams.length ∨ FaultyAny s subst args ∨
        Reported s (.tooDeep (src.tree.structurePath id) maxDepth) m.span

def FaultyAny (s : State) (subst : Subst) : List (TypeExpr Mark) → Prop
  | [] => False
  | e :: es => Faulty s subst e ∨ FaultyAny s subst es

end

/-- A type that was found for an expression: what the tables say, or unknown for a reason. -/
structure Resolves (s : State) (subst : Subst) (e : TypeExpr Mark) (ty : Ty) : Prop where
  known : ty ≠ .unknown → typeOf src s.program subst e = some ty
  unknown : ty = .unknown → Faulty src s subst e

/-- Members of structures are called on objects. -/
def Belongs (key : FunctionKey) : Prop :=
  ∀ struct, (src.tree.functionAt key.symbol).owner = .struct struct →
    ∃ c, key.receiver = some (.object c)

/-- Methods that are instantiated by their calls have type parameters. -/
def GenericMethods (p : Program) : Prop :=
  ∀ c f (n : String), (p.classAt c).methods[n]? = some (.generic f) →
    (src.tree.functionAt f).decl.typeParams ≠ []

end

/-! ### Later states -/

section

variable {src : Sources} {p q : Program} {subst : Subst}

/-- The ways in which a name with arguments stands for a type. -/
inductive Stands (src : Sources) (p : Program) (subst : Subst) (m : Mark)
    (args : List (TypeExpr Mark)) : Ty → Prop where
  | param {name : String} {ty : Ty} (htarget : src.names.target m.node = .typeParam name)
      (hty : subst[name]? = some ty) (hknown : ty.isUnknown = false) : Stands src p subst m args ty
  | cls {id : StructureId} {tys : List Ty} {c : ClassId}
      (htarget : src.names.target m.node = .struct id) (htys : typesOf src p subst args = some tys)
      (hcount : ¬tys.length ≠ (src.tree.structureAt id).decl.typeParams.length)
      (hkind : (src.tree.structureAt id).decl.kind = .cls) (hc : p.classFor ⟨id, tys⟩ = some c) :
      Stands src p subst m args (.object c)
  | protocol {id : StructureId} {tys : List Ty} (htarget : src.names.target m.node = .struct id)
      (htys : typesOf src p subst args = some tys)
      (hcount : ¬tys.length ≠ (src.tree.structureAt id).decl.typeParams.length)
      (hkind : (src.tree.structureAt id).decl.kind = .protocol) :
      Stands src p subst m args (.protocol id)
  | enum {id : StructureId} {tys : List Ty} (htarget : src.names.target m.node = .struct id)
      (htys : typesOf src p subst args = some tys)
      (hcount : ¬tys.length ≠ (src.tree.structureAt id).decl.typeParams.length)
      (hkind : (src.tree.structureAt id).decl.kind = .enum) : Stands src p subst m args (.enum id)

theorem typeOf_named {m : Mark} {path : List String} {args : List (TypeExpr Mark)} {ty : Ty} :
    typeOf src p subst (.named m path args) = some ty ↔ Stands src p subst m args ty := by
  rw [typeOf]
  constructor
  · intro h
    split at h
    · cases h
    · next htarget =>
      obtain ⟨hty, hknown⟩ := Option.filter_eq_some_iff.mp h
      exact .param htarget hty (by simpa using hknown)
    · next htarget =>
      split at h
      · cases h
      · next htys =>
        split at h
        · cases h
        · next hcount =>
          split at h
          · next hkind =>
            obtain ⟨c, hc, rfl⟩ := Option.map_eq_some_iff.mp h
            exact .cls htarget htys hcount hkind hc
          · next hkind => exact Option.some.inj h ▸ .protocol htarget htys hcount hkind
          · next hkind => exact Option.some.inj h ▸ .enum htarget htys hcount hkind
  · intro h
    cases h with
    | param htarget hty hknown => simp [htarget, hty, hknown]
    | cls htarget htys hcount hkind hc => simp [htarget, htys, if_neg hcount, hkind, hc]
    | protocol htarget htys hcount hkind | enum htarget htys hcount hkind =>
      simp [htarget, htys, if_neg hcount, hkind]

theorem typesOf_cons {e : TypeExpr Mark} {es : List (TypeExpr Mark)} {tys : List Ty} :
    typesOf src p subst (e :: es) = some tys ↔
      ∃ ty rest, typeOf src p subst e = some ty ∧ typesOf src p subst es = some rest ∧
        tys = ty :: rest := by
  rw [typesOf]
  cases typeOf src p subst e <;> cases typesOf src p subst es <;> simp [eq_comm]

mutual

/-- A type that was found is found as long as its classes are. -/
theorem typeOf_later (h : ∀ {key c}, p.classFor key = some c → q.classFor key = some c)
    (e : TypeExpr Mark)
    {ty : Ty} (he : typeOf src p subst e = some ty) : typeOf src q subst e = some ty := by
  match e with
  | .primitive _ k => exact he
  | .named m _ args =>
    rw [typeOf_named] at he ⊢
    cases he with
    | param htarget hty hknown => exact .param htarget hty hknown
    | cls htarget htys hcount hkind hc =>
      exact .cls htarget (typesOf_later h args htys) hcount hkind (h hc)
    | protocol htarget htys hcount hkind =>
      exact .protocol htarget (typesOf_later h args htys) hcount hkind
    | enum htarget htys hcount hkind =>
      exact .enum htarget (typesOf_later h args htys) hcount hkind

theorem typesOf_later (h : ∀ {key c}, p.classFor key = some c → q.classFor key = some c)
    (es : List (TypeExpr Mark)) {tys : List Ty} (hes : typesOf src p subst es = some tys) :
    typesOf src q subst es = some tys := by
  match es with
  | [] => exact hes
  | e :: es =>
    obtain ⟨ty, tys', hty, htys, rfl⟩ := typesOf_cons.mp hes
    exact typesOf_cons.mpr ⟨ty, tys', typeOf_later h e hty, typesOf_later h es htys, rfl⟩

end

end

/-- What was found or reported in the one state is found or reported in the other. -/
structure Retains (s t : State) : Prop where
  classes : ∀ {key c}, s.program.classFor key = some c → t.program.classFor key = some c
  functions : ∀ {key f}, s.program.functionFor key = some f → t.program.functionFor key = some f
  reported : ∀ {cause span}, Reported s cause span → Reported t cause span

namespace Retains

variable {src : Sources} {s t u : State} {subst : Subst}

mutual

theorem faulty (h : Retains s t) (e : TypeExpr Mark) (he : Faulty src s subst e) :
    Faulty src t subst e := by
  match e with
  | .primitive _ _ => exact he
  | .named m _ args =>
    rw [Faulty] at he ⊢
    cases htarget : src.names.target m.node <;> rw [htarget] at he
    · rcases he with he | he | he
      · exact .inl he
      · exact .inr (.inl (h.faultyAny args he))
      · exact .inr (.inr (h.reported he))
    · exact he
    · exact he

theorem faultyAny (h : Retains s t) (es : List (TypeExpr Mark)) (hes : FaultyAny src s subst es) :
    FaultyAny src t subst es := by
  match es with
  | [] => exact hes
  | e :: es =>
    rw [FaultyAny] at hes ⊢
    rcases hes with he | hes
    · exact .inl (h.faulty e he)
    · exact .inr (h.faultyAny es hes)

end

theorem resolves (h : Retains s t) {e : TypeExpr Mark} {ty : Ty} (he : Resolves src s subst e ty) :
    Resolves src t subst e ty :=
  ⟨fun hty => typeOf_later h.classes e (he.known hty), fun hty => h.faulty e (he.unknown hty)⟩

end Retains

/-! ### Conformance -/

/-- A declaration is on the list of a protocol exactly if one of its instances conforms to the
protocol. -/
def State.Conforming (s : State) : Prop :=
  ∀ protocol struct, struct ∈ s.implementorsOf protocol ↔
    ∃ c < s.program.classes.size,
      (s.program.classAt c).struct = struct ∧ protocol ∈ (s.program.classAt c).protocols

section

variable {s t : State}

theorem State.Conforming.congr (h : s.Conforming)
    (hsize : t.program.classes.size = s.program.classes.size)
    (hkey : ∀ c, (t.program.classAt c).key = (s.program.classAt c).key)
    (hprotocols : ∀ c, (t.program.classAt c).protocols = (s.program.classAt c).protocols)
    (himplementors : t.implementors = s.implementors) : t.Conforming := by
  have hstruct (c : ClassId) : (t.program.classAt c).struct = (s.program.classAt c).struct :=
    congrArg ClassKey.struct (hkey c)
  intro protocol struct
  rw [State.implementorsOf, himplementors, ← State.implementorsOf, h protocol struct]
  simp only [hsize, hstruct, hprotocols]

end

/-! ### Steps that leave the records alone -/

/-- The depth and the lists of work are the same. -/
structure SameWork (s t : State) : Prop where
  depth : t.depth = s.depth
  deepest : t.deepest = s.deepest
  waiting : t.waiting = s.waiting
  bodies : t.bodies = s.bodies

/-- The instances have the same keys and are found under them; the lists of protocols stay in order;
nothing was taken back, and what was reported is not about an ancestor that was never completed. -/
structure SameRecords (src : Sources) (s t : State) : Prop where
  classes : t.program.classes.size = s.program.classes.size
  functions : t.program.functions.size = s.program.functions.size
  classKey : ∀ c, (t.program.classAt c).key = (s.program.classAt c).key
  ancestor : ∀ c, (t.program.classAt c).ancestor = (s.program.classAt c).ancestor
  inProgress : ∀ c, (t.program.classAt c).inProgress = (s.program.classAt c).inProgress
  functionKey : ∀ f, (t.program.functionAt f).key? = (s.program.functionAt f).key?
  generics : GenericMethods src s.program → GenericMethods src t.program
  conforming : s.Conforming → t.Conforming
  classCache : ∀ key, t.program.classCache.get? key = s.program.classCache.get? key
  functionFor : ∀ key, t.program.functionFor key = s.program.functionFor key
  errors : ∃ new, t.errors = s.errors ++ new ∧ ∀ e ∈ new, ¬e.cause.IsOrphan
  withdrawn : t.withdrawn = s.withdrawn

section

variable {src : Sources} {s t u : State}

theorem SameWork.refl (s : State) : SameWork s s := ⟨rfl, rfl, rfl, rfl⟩

theorem SameWork.trans (h : SameWork s t) (h' : SameWork t u) : SameWork s u :=
  ⟨h'.depth.trans h.depth, h'.deepest.trans h.deepest, h'.waiting.trans h.waiting,
    h'.bodies.trans h.bodies⟩

namespace SameRecords

theorem of_program (hprogram : t.program = s.program)
    (himplementors : t.implementors = s.implementors)
    (herrors : ∃ new, t.errors = s.errors ++ new ∧ ∀ e ∈ new, ¬e.cause.IsOrphan)
    (hwithdrawn : t.withdrawn = s.withdrawn) : SameRecords src s t := by
  constructor
  case errors => exact herrors
  case withdrawn => exact hwithdrawn
  case conforming =>
    exact fun hs => hs.congr (by rw [hprogram]) (by simp [hprogram]) (by simp [hprogram])
      himplementors
  all_goals simp [hprogram]

theorem refl (s : State) : SameRecords src s s := .of_program rfl rfl ⟨[], by simp, nofun⟩ rfl

theorem trans (h : SameRecords src s t) (h' : SameRecords src t u) : SameRecords src s u where
  classes := h'.classes.trans h.classes
  functions := h'.functions.trans h.functions
  classKey c := (h'.classKey c).trans (h.classKey c)
  ancestor c := (h'.ancestor c).trans (h.ancestor c)
  inProgress c := (h'.inProgress c).trans (h.inProgress c)
  functionKey f := (h'.functionKey f).trans (h.functionKey f)
  generics hs := h'.generics (h.generics hs)
  conforming hs := h'.conforming (h.conforming hs)
  classCache key := (h'.classCache key).trans (h.classCache key)
  functionFor key := (h'.functionFor key).trans (h.functionFor key)
  errors := by
    obtain ⟨new, hnew, horphan⟩ := h.errors
    obtain ⟨new', hnew', horphan'⟩ := h'.errors
    refine ⟨new ++ new', by rw [hnew', hnew, List.append_assoc], fun e he => ?_⟩
    exact (List.mem_append.mp he).elim (horphan e) (horphan' e)
  withdrawn := h'.withdrawn.trans h.withdrawn

theorem classFor (h : SameRecords src s t) (key : ClassKey) :
    t.program.classFor key = s.program.classFor key := by
  rw [Program.classFor, h.classCache, Program.classFor]

theorem retains (h : SameRecords src s t) : Retains s t := by
  obtain ⟨new, hnew, -⟩ := h.errors
  refine ⟨fun hc => (h.classFor _).trans hc, fun hf => (h.functionFor _).trans hf, fun hr => ?_⟩
  rw [Reported, hnew, h.withdrawn]
  simp only [Reported, List.mem_append] at hr ⊢
  exact hr.imp_left .inl

theorem annotateClass {c : ClassId} {f : ClassInst → ClassInst} (s : State)
    {implementors : Std.TreeMap StructureId (List StructureId)}
    (hkey : (f (s.program.classAt c)).key = (s.program.classAt c).key)
    (hancestor : (f (s.program.classAt c)).ancestor = (s.program.classAt c).ancestor)
    (hprogress : (f (s.program.classAt c)).inProgress = (s.program.classAt c).inProgress)
    (hmethods : ∀ (n : String) g, (f (s.program.classAt c)).methods[n]? = some (.generic g) →
      (s.program.classAt c).methods[n]? = some (.generic g) ∨
        (src.tree.functionAt g).decl.typeParams ≠ [])
    (hconforming : s.Conforming →
      State.Conforming { s with program := s.program.updateClass c f, implementors }) :
    SameRecords src s { s with program := s.program.updateClass c f, implementors } := by
  refine ⟨by simp, rfl, fun d => ?_, fun d => ?_, fun d => ?_, fun _ => rfl, fun hs d g n hg => ?_,
    hconforming, fun _ => rfl, fun _ => rfl, ⟨[], by simp, by simp⟩, rfl⟩
  · rcases s.program.classAt_updateClass_cases c d f with h | ⟨rfl, h⟩ <;> simp [h, hkey]
  · rcases s.program.classAt_updateClass_cases c d f with h | ⟨rfl, h⟩ <;> simp [h, hancestor]
  · rcases s.program.classAt_updateClass_cases c d f with h | ⟨rfl, h⟩ <;> simp [h, hprogress]
  · rcases s.program.classAt_updateClass_cases c d f with h | ⟨rfl, h⟩ <;> rw [h] at hg
    · exact hs d g n hg
    · exact (hmethods n g hg).elim (hs d g n) id

theorem updateClass {c : ClassId} {f : ClassInst → ClassInst} (s : State)
    (hkey : (f (s.program.classAt c)).key = (s.program.classAt c).key)
    (hancestor : (f (s.program.classAt c)).ancestor = (s.program.classAt c).ancestor)
    (hprogress : (f (s.program.classAt c)).inProgress = (s.program.classAt c).inProgress)
    (hprotocols : (f (s.program.classAt c)).protocols = (s.program.classAt c).protocols)
    (hmethods : ∀ (n : String) g, (f (s.program.classAt c)).methods[n]? = some (.generic g) →
      (s.program.classAt c).methods[n]? = some (.generic g) ∨
        (src.tree.functionAt g).decl.typeParams ≠ []) :
    SameRecords src s { s with program := s.program.updateClass c f } := by
  refine .annotateClass s hkey hancestor hprogress hmethods fun hs =>
    hs.congr (by simp) (fun d => ?_) (fun d => ?_) rfl
  · rcases s.program.classAt_updateClass_cases c d f with h | ⟨rfl, h⟩ <;> simp [h, hkey]
  · rcases s.program.classAt_updateClass_cases c d f with h | ⟨rfl, h⟩ <;> simp [h, hprotocols]

/-- The class conforms to one more protocol, and its declaration is on the list. -/
theorem conform {cls : ClassId} {struct protocol : StructureId}
    (hcls : cls < s.program.classes.size) (hstruct : (s.program.classAt cls).struct = struct)
    (h : addImplementor protocol struct { s with
      program := s.program.updateClass cls fun c =>
        { c with protocols := c.protocols ++ [protocol] } } =
        some ((), t)) :
    SameRecords src s t := by
  have ht : t = { s with
      program := s.program.updateClass cls fun c =>
        { c with protocols := c.protocols ++ [protocol] }
      implementors := t.implementors } := by
    cases h
    dsimp only
    split <;> rfl
  have hmem (protocol' struct' : StructureId) : struct' ∈ t.implementorsOf protocol' ↔ _ :=
    mem_implementorsOf_addImplementor h
  rw [ht]
  refine .annotateClass s rfl rfl rfl (fun _ _ hg => .inl hg) fun hs => ?_
  rw [← ht]
  intro protocol' struct'
  rw [hmem]
  change struct' ∈ s.implementorsOf protocol' ∨ _ ↔ _
  rw [hs protocol' struct', ht]
  simp only [Program.size_updateClass, Program.classAt_updateClass s.program _ hcls]
  constructor
  · rintro (⟨c, hc, hstruct', hprotocol⟩ | ⟨rfl, rfl⟩)
    · refine ⟨c, hc, ?_⟩
      split
      · next heq => simp [← heq, hstruct', hprotocol]
      · exact ⟨hstruct', hprotocol⟩
    · exact ⟨cls, hcls, by simp [hstruct]⟩
  · rintro ⟨c, hc, hstruct', hprotocol⟩
    split at hstruct' <;> split at hprotocol
    · next heq _ =>
      rcases List.mem_append.mp hprotocol with hold | hnew
      · exact .inl ⟨cls, hcls, hstruct', hold⟩
      · exact .inr ⟨List.mem_singleton.mp hnew, hstruct'.symm.trans hstruct⟩
    · next heq hne => exact absurd heq hne
    · next hne heq => exact absurd heq hne
    · exact .inl ⟨c, hc, hstruct', hprotocol⟩

theorem updateFunction {i : FuncId} {f : FuncInst → FuncInst} (s : State)
    (hkey : (f (s.program.functionAt i)).key? = (s.program.functionAt i).key?) :
    SameRecords src s { s with program := s.program.updateFunction i f } := by
  refine ⟨rfl, by simp, fun _ => rfl, fun _ => rfl, fun _ => rfl, fun g => ?_, fun hs => hs,
    fun hs => hs, fun _ => rfl, fun _ => rfl, ⟨[], by simp, nofun⟩, rfl⟩
  dsimp only
  by_cases hi : i < s.program.functions.size
  · rw [Program.functionAt_updateFunction s.program g hi]
    split
    · next hg => rw [hg, hkey]
    · rfl
  · rw [Program.updateFunction, Array.setIfInBounds_eq_of_size_le (Nat.le_of_not_lt hi)]

end SameRecords

end

/-- The step always gives a result, and the records stay as they are. -/
def Still (src : Sources) {α : Type} (x : Checking α) : Prop :=
  ∀ s, ∃ a t, x s = some (a, t) ∧ SameWork s t ∧ SameRecords src s t

theorem Reports.still (src : Sources) {s t : State} (h : Reports s t) :
    SameWork s t ∧ SameRecords src s t := by
  obtain ⟨errors, warnings, rfl, he⟩ := h
  exact ⟨⟨rfl, rfl, rfl, rfl⟩, .of_program rfl rfl ⟨errors, rfl, fun e h => (he e h).not_isOrphan⟩
    rfl⟩

namespace Still

variable {src : Sources} {α β : Type}

theorem of_quiet {x : Checking α} (hx : Quiet x) : Still src x := by
  intro s
  obtain ⟨a, t, h, hreports⟩ := @hx s
  exact ⟨a, t, h, hreports.still src⟩

theorem pure (a : α) : Still src (Pure.pure a) := .of_quiet (.pure a)

theorem bind {x : Checking α} {f : α → Checking β} (hx : Still src x) (hf : ∀ a, Still src (f a)) :
    Still src (x >>= f) := by
  intro s
  obtain ⟨a, s1, h1, hwork1, hrecords1⟩ := hx s
  obtain ⟨b, t, h2, hwork2, hrecords2⟩ := hf a s1
  exact ⟨b, t, (bind_of_eq_some h1).trans h2, hwork1.trans hwork2, hrecords1.trans hrecords2⟩

theorem getProgram : Still src getProgram := .of_quiet .getProgram

theorem report {cause : ErrorCause} (span : Span) (hc : cause.IsUsual := by trivial) :
    Still src (report cause span) :=
  .of_quiet (.report span hc)

theorem ite {P : Prop} [Decidable P] {x y : Checking α} (hx : Still src x) (hy : Still src y) :
    Still src (if P then x else y) := by
  split
  · exact hx
  · exact hy

theorem updateClass {c : ClassId} {f : ClassInst → ClassInst} (hf : ∀ d, (f d).key = d.key ∧
    (f d).ancestor = d.ancestor ∧ (f d).inProgress = d.inProgress ∧ (f d).protocols = d.protocols ∧
    (f d).methods = d.methods) :
    Still src (updateClass c f) := by
  intro s
  obtain ⟨hkey, hancestor, hprogress, hprotocols, hmethods⟩ := hf (s.program.classAt c)
  exact ⟨(), _, rfl, ⟨rfl, rfl, rfl, rfl⟩, .updateClass s hkey hancestor hprogress hprotocols
      fun _ _ h =>
    .inl (hmethods ▸ h)⟩

theorem updateFunction {i : FuncId} {f : FuncInst → FuncInst} (hkey : ∀ g, (f g).key? = g.key?) :
    Still src (updateFunction i f) := fun s =>
  ⟨(), _, rfl, ⟨rfl, rfl, rfl, rfl⟩, .updateFunction s (hkey _)⟩

/-! ### Members of a class -/

theorem takeChainId (cls : ClassId) (ancestor : Option ClassId) :
    Still src (takeChainId cls ancestor) := by
  cases ancestor with
  | none => exact .pure _
  | some base =>
    exact getProgram.bind fun p => .bind (.updateClass fun _ => ⟨rfl, rfl, rfl, rfl, rfl⟩)
      fun _ => .pure _

theorem openSlot (cls : ClassId) (function : FuncId) : Still src (openSlot cls function) :=
  getProgram.bind fun _ => .bind (.updateClass fun _ => ⟨rfl, rfl, rfl, rfl, rfl⟩) fun _ =>
    .updateFunction fun _ => rfl

/-- What a registered override changes is not part of the key. -/
theorem key?_registerOverride {base f : FuncInst} {chainId : Nat} {function : FuncId}
    (h : base.registerOverride chainId function = .ok f) : f.key? = base.key? := by
  rw [FuncInst.registerOverride] at h
  split at h
  · cases h
    rfl
  · cases h

theorem joinSlot (cls : ClassId) (function : FuncId) (slot : Nat) (span : Span) :
    Still src (joinSlot cls function slot span) := by
  refine getProgram.bind fun p => .bind (.updateFunction fun _ => rfl) fun _ => ?_
  cases (p.classAt cls).slotOwners[slot]? with
  | none => exact .pure _
  | some owner =>
    intro s
    dsimp only
    have hget : Check.getProgram s = some (s.program, s) := rfl
    cases hregister : (s.program.functionAt owner).registerOverride (p.classAt cls).chainId
      function with
    | ok f =>
      refine ⟨(), { s with program := s.program.updateFunction owner fun _ => f }, ?_,
        ⟨rfl, rfl, rfl, rfl⟩, .updateFunction s (key?_registerOverride hregister)⟩
      rw [bind_of_eq_some hget, hregister]
      rfl
    | error e =>
      refine ⟨(), { s with errors := s.errors ++ [{ cause := .internal e.message, span }] }, ?_,
        ⟨rfl, rfl, rfl, rfl⟩, .of_program rfl rfl ⟨_, rfl, by simp [ErrorCause.IsOrphan]⟩ rfl⟩
      rw [bind_of_eq_some hget, hregister]
      rfl

theorem applyDispatchRules (cls : ClassId) (function : FuncId) (method : Function Mark) :
    Still src (applyDispatchRules src cls function method) := by
  have hjoin (base : FuncId) (slot : Nat) : Still src (do
      Check.checkOverrideSignature src base function method.mark.span
      Check.joinSlot cls function slot method.mark.span) :=
    .bind (.of_quiet (.checkOverrideSignature ..)) fun _ => .joinSlot cls function slot _
  have hopen : Still src (if method.isVirtual then Check.openSlot cls function else Pure.pure ()) :=
    .ite (.openSlot cls function) (.pure _)
  refine getProgram.bind fun p => ?_
  dsimp only
  split
  · split
    · exact .ite (.bind (.report _) fun _ => hjoin _ _) (hjoin _ _)
    · exact .report _
  · exact .report _
  · exact .ite (.bind (.report _) fun _ => hopen) hopen

end Still

end ObjectLang.Check
