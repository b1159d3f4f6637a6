import Mathlib.Tactic.ByContra
import ObjectLang.Check.Requests

/-! # Steps of a check

A run of a check is taken apart into runs of its steps.  Many steps do nothing but report; they
leave the program and the lists of work as they are.
-/

namespace ObjectLang.Diagnostic

/-- Only a broken table can be the cause. -/
def ErrorCause.IsInternal : ErrorCause → Prop
  | .internal _ => True
  | _ => False

/-- Neither a broken table nor an ancestor that was never completed is the cause. -/
def ErrorCause.IsUsual : ErrorCause → Prop
  | .internal _ | .cannotInherit _ .neverCompleted => False
  | _ => True

theorem ErrorCause.IsUsual.not_isInternal {cause : ErrorCause} (h : cause.IsUsual) :
    ¬cause.IsInternal := by
  cases cause with
  | internal _ => exact h.elim
  | _ => exact id

end ObjectLang.Diagnostic

namespace ObjectLang.Scope.StructureDecl

variable {d : StructureDecl} {c : Syntax.Class Syntax.Mark}

theorem typeParams_of_cls? (h : d.cls? = some c) : d.typeParams = c.typeParams := by
  cases d <;> cases h
  rfl

theorem name_of_cls? (h : d.cls? = some c) : d.name = c.name := by
  cases d <;> cases h
  rfl

end ObjectLang.Scope.StructureDecl

namespace ObjectLang.Check

open Source Syntax Scope Names Diagnostic Checked

variable {α β γ : Type} {s t u : State} {src : Sources} {x : Checking α} {span : Span} {found : Ty}

theorem bind_some {f : α → Checking β} {r : β × State} (h : (x >>= f) s = some r) :
    ∃ a s1, x s = some (a, s1) ∧ f a s1 = some r := by
  change (x s).bind (fun y => f y.1 y.2) = some r at h
  rcases Option.bind_eq_some_iff.mp h with ⟨⟨a, s1⟩, hx, hf⟩
  exact ⟨a, s1, hx, hf⟩

theorem bind_of_eq_some {f : α → Checking β} {a : α} (h : x s = some (a, t)) :
    (x >>= f) s = f a t := by
  change (x s).bind (fun y => f y.1 y.2) = f a t
  rw [h]
  rfl

theorem map_some {f : α → β} {b : β} (h : (f <$> x) s = some (b, t)) :
    ∃ a, x s = some (a, t) ∧ b = f a := by
  change (x >>= fun a => pure (f a)) s = some (b, t) at h
  rcases bind_some h with ⟨a, s1, hx, hf⟩
  cases hf
  exact ⟨a, hx, rfl⟩

/-- A step that is taken under a condition only, and what follows it in any case. -/
theorem when_some {P : Prop} [Decidable P] {x : Checking PUnit} {f : PUnit → Checking β}
    {r : β × State} (h : (if P then x >>= f else f ⟨⟩) s = some r) :
    ∃ s1, (if P then x else pure ⟨⟩) s = some (⟨⟩, s1) ∧ f ⟨⟩ s1 = some r := by
  split at h
  · next hP =>
    rw [if_pos hP]
    exact Exists.elim (bind_some h) fun _ h => h
  · next hP =>
    rw [if_neg hP]
    exact ⟨s, rfl, h⟩

/-- A property of the state and of what remains of a list is kept by a loop over the list. -/
theorem forM_some {xs : List α} {f : α → Checking PUnit} (R : List α → State → Prop)
    (hstep : ∀ x xs s t, R (x :: xs) s → f x s = some (⟨⟩, t) → R xs t) (hs : R xs s)
    (h : xs.forM f s = some (⟨⟩, t)) : R [] t := by
  induction xs generalizing s with
  | nil =>
    cases h
    exact hs
  | cons x xs ih =>
    have h : (f x >>= fun _ => xs.forM f) s = some (⟨⟩, t) := h
    rcases bind_some h with ⟨_, s1, h1, h2⟩
    exact ih (hstep x xs s s1 hs h1) h2

/-- What is found of a body is what a run of a step of the body finds. -/
theorem body_bind_some {x : BodyCheck α} {f : α → BodyCheck β} {frame : Frame}
    {r : (β × Frame) × State} (h : (x >>= f) frame s = some r) :
    ∃ a frame1 s1, x frame s = some ((a, frame1), s1) ∧ f a frame1 s1 = some r := by
  rcases bind_some (x := x frame) (f := fun y => f y.1 y.2) h with ⟨⟨a, frame1⟩, s1, hx, hf⟩
  exact ⟨a, frame1, s1, hx, hf⟩

/-- No error was ever reported, not even one that was taken back. -/
def State.Clean (s : State) : Prop := s.errors = [] ∧ s.withdrawn = []

/-! ### Reports -/

/-- From one state to the other nothing but reports was added. -/
def Reports (s t : State) : Prop :=
  ∃ errors warnings, t = { s with errors := s.errors ++ errors, warnings } ∧
    ∀ e ∈ errors, e.cause.IsUsual

namespace Reports

theorem refl (s : State) : Reports s s := ⟨[], s.warnings, by simp, by simp⟩

theorem trans (h : Reports s t) (h' : Reports t u) : Reports s u := by
  rcases h with ⟨errors, warnings, rfl, he⟩
  rcases h' with ⟨errors', warnings', rfl, he'⟩
  refine ⟨errors ++ errors', warnings', by simp, fun e hmem => ?_⟩
  rcases List.mem_append.mp hmem with hmem | hmem
  · exact he e hmem
  · exact he' e hmem

theorem program (h : Reports s t) : t.program = s.program := by
  rcases h with ⟨errors, warnings, rfl, -⟩
  rfl

theorem clean (h : Reports s t) (ht : t.Clean) : s.Clean := by
  rcases h with ⟨errors, warnings, rfl, -⟩
  exact ⟨(List.append_eq_nil_iff.mp ht.1).1, ht.2⟩

theorem not_clean {cause : ErrorCause} {span : Span}
    (h : Reports { s with errors := s.errors ++ [{ cause, span }] } t) : ¬t.Clean := fun ht => by
  simpa using (h.clean ht).1

end Reports

/-- The step always gives a result, and it only reports. -/
def Quiet (x : Checking α) : Prop := ∀ ⦃s⦄, ∃ a t, x s = some (a, t) ∧ Reports s t

namespace Quiet

variable {x : Checking α}

theorem reports {a : α} (hx : Quiet x) (h : x s = some (a, t)) : Reports s t := by
  obtain ⟨_, _, h', hreports⟩ := @hx s
  cases h.symm.trans h'
  exact hreports

theorem pure (a : α) : Quiet (Pure.pure a) := fun s => ⟨a, s, rfl, .refl s⟩

theorem bind {f : α → Checking β} (hx : Quiet x) (hf : ∀ a, Quiet (f a)) : Quiet (x >>= f) := by
  intro s
  obtain ⟨a, s1, h1, hreports1⟩ := @hx s
  obtain ⟨b, t, h2, hreports2⟩ := @hf a s1
  exact ⟨b, t, (bind_of_eq_some h1).trans h2, hreports1.trans hreports2⟩

theorem get : Quiet get := fun s => ⟨s, s, rfl, .refl s⟩

theorem getProgram : Quiet getProgram := get.bind fun s => .pure s.program

theorem display (src : Sources) (ty : Ty) : Quiet (display src ty) :=
  getProgram.bind fun p => .pure (p.displayType src.tree ty)

theorem report {cause : ErrorCause} (span : Span) (hc : cause.IsUsual := by trivial) :
    Quiet (report cause span) := fun s =>
  ⟨(), _, rfl, [{ cause, span }], s.warnings, rfl, by simpa using hc⟩

theorem warn (cause : WarningCause) (span : Span) : Quiet (warn cause span) := fun s =>
  ⟨(), _, rfl, [], s.warnings ++ [⟨cause, span⟩], by simp, by simp⟩

theorem ite {P : Prop} [Decidable P] {y : Checking α} (hx : Quiet x) (hy : Quiet y) :
    Quiet (if P then x else y) := by
  split
  · exact hx
  · exact hy

theorem forM {xs : List α} {f : α → Checking PUnit} (hf : ∀ a, Quiet (f a)) :
    Quiet (xs.forM f) := by
  induction xs with
  | nil => exact .pure _
  | cons a as ih => exact (hf a).bind fun _ => ih

theorem reportFound (src : Sources) (expected : String) (found : Ty) (span : Span) :
    Quiet (reportFound src expected found span) :=
  .ite ((display src found).bind fun _ => .report span) (.pure _)

theorem reportMismatch (src : Sources) (expected found : Ty) (span : Span) :
    Quiet (reportMismatch src expected found span) :=
  .ite ((display src expected).bind fun _ => .reportFound src _ found span) (.pure _)

theorem expectAssignable (src : Sources) (found expected : Ty) (span : Span) :
    Quiet (expectAssignable src found expected span) :=
  get.bind fun _ => .ite (.reportMismatch src expected found span) (.pure _)

theorem checkOverrideSignature (src : Sources) (base function : FuncId) (span : Span) :
    Quiet (checkOverrideSignature src base function span) := by
  refine getProgram.bind fun p => .ite (.report span) (.forM fun pair => ?_)
  exact .ite (.reportMismatch src _ _ span) (.pure _)

theorem checkModifiers (f : FunctionSymbol) : Quiet (checkModifiers f) := by
  have hoverride : Quiet (if f.decl.isOverride then Check.report .misplacedOverride f.decl.mark.span
      else Pure.pure ()) :=
    .ite (.report _) (.pure _)
  rw [Check.checkModifiers]
  exact .ite (.ite (.bind (.report _) fun _ => hoverride) hoverride) (.pure _)

theorem refuseAncestor (src : Sources) (ty : Ty) (span : Span) {fault : InheritFault}
    (hfault : fault ≠ .neverCompleted) : Quiet (refuseAncestor src ty span fault) := by
  refine (display src ty).bind fun _ => .bind (.report span ?_) fun _ => .pure _
  cases fault with
  | notClass | cycle => trivial
  | neverCompleted => exact absurd rfl hfault

theorem judgeAncestor (src : Sources) (cls : ClassId) (outer : List ClassId) (span : Span)
    (ty : Ty) :
    Quiet (judgeAncestor src cls outer span ty) := by
  cases ty with
  | unknown => exact .pure _
  | object base =>
    exact getProgram.bind fun _ =>
      .ite (.pure _) (.ite (.pure _) (.refuseAncestor src _ span (by simp)))
  | primitive _ | protocol _ | enum _ => exact .refuseAncestor src _ span (by simp)

end Quiet

/-! ### What was not reported is so -/

theorem reportFound_clean {expected : String}
    (h : reportFound src expected found span s = some ((), t))
    (ht : t.Clean) : found = .unknown := by
  by_contra hne
  have hknown : (!found.isUnknown) = true := by simpa [Ty.isUnknown] using hne
  rw [reportFound, if_pos hknown] at h
  rcases bind_some h with ⟨text, s1, -, hreport⟩
  cases hreport
  exact Reports.not_clean (.refl _) ht

theorem reportMismatch_clean {expected : Ty}
    (h : reportMismatch src expected found span s = some ((), t))
    (ht : t.Clean) : expected = .unknown ∨ found = .unknown := by
  by_cases hknown : expected = .unknown
  · exact .inl hknown
  · have hb : (!expected.isUnknown) = true := by simpa [Ty.isUnknown] using hknown
    rw [reportMismatch, if_pos hb] at h
    rcases bind_some h with ⟨text, s1, -, hfound⟩
    exact .inr (reportFound_clean hfound ht)

theorem forM_clean {xs : List α} {f : α → Checking PUnit} {P : α → Prop} (hquiet : ∀ a, Quiet (f a))
    (hstep : ∀ {a s t}, f a s = some (⟨⟩, t) → t.Clean → P a) (h : xs.forM f s = some (⟨⟩, t))
    (ht : t.Clean) : ∀ a ∈ xs, P a := by
  induction xs generalizing s with
  | nil => exact fun _ ha => absurd ha List.not_mem_nil
  | cons x xs ih =>
    have h : (f x >>= fun _ => xs.forM f) s = some (⟨⟩, t) := h
    rcases bind_some h with ⟨_, s1, h1, h2⟩
    exact List.forall_mem_cons.mpr ⟨hstep h1 (((Quiet.forM hquiet).reports h2).clean ht), ih h2⟩

/-- Where an override differs from what it overrides, one of the types is unknown. -/
theorem checkOverrideSignature_clean {base function : FuncId}
    (h : checkOverrideSignature src base function span s = some ((), t)) (ht : t.Clean) :
    (s.program.functionAt base).params.length = (s.program.functionAt function).params.length ∧
      ∀ pair ∈ (s.program.functionAt base).paramTypes.zip
      (s.program.functionAt function).paramTypes ++
        [((s.program.functionAt base).returnType, (s.program.functionAt function).returnType)],
        pair.1 = pair.2 ∨ pair.1 = .unknown ∨ pair.2 = .unknown := by
  rw [checkOverrideSignature] at h
  rcases bind_some h with ⟨_, _, hget, h⟩
  cases hget
  dsimp only at h
  split at h
  · cases h
    exact absurd ht (Reports.not_clean (.refl _))
  · next hlength =>
    refine ⟨not_not.mp hlength, forM_clean ?_ ?_ h ht⟩
    · exact fun _ => .ite (.reportMismatch src _ _ span) (.pure _)
    · intro pair s t hpair ht
      split at hpair
      · exact .inr (reportMismatch_clean hpair ht)
      · next heq => exact .inl (not_not.mp heq)

theorem isAssignable_of_unknown {source target : Ty} (h : source = .unknown ∨ target = .unknown) :
    s.isAssignable source target = true := by
  rcases h with rfl | rfl <;> simp [State.isAssignable, Ty.isUnknown]

theorem expectAssignable_clean {expected : Ty}
    (h : expectAssignable src found expected span s = some ((), t))
    (ht : t.Clean) : s.isAssignable found expected = true := by
  by_contra hfit
  rw [expectAssignable] at h
  rcases bind_some h with ⟨s', s1, hget, h⟩
  cases hget
  rw [if_pos (by simpa using hfit)] at h
  exact hfit (isAssignable_of_unknown (reportMismatch_clean h ht).symm)

/-! ### Lists of protocols -/

theorem mem_implementorsOf_addImplementor {protocol struct protocol' struct' : StructureId}
    (h : addImplementor protocol struct s = some ((), t)) :
    struct' ∈ t.implementorsOf protocol' ↔
      struct' ∈ s.implementorsOf protocol' ∨ protocol' = protocol ∧ struct' = struct := by
  cases h
  dsimp only
  split
  · next hmem =>
    rw [List.contains_iff_mem] at hmem
    constructor
    · exact .inl
    · rintro (h | ⟨rfl, rfl⟩)
      · exact h
      · exact hmem
  · simp only [State.implementorsOf, Std.TreeMap.getElem?_insert]
    by_cases heq : protocol = protocol'
    · subst heq
      simp
    · have hne : ¬protocol' = protocol := fun h => heq h.symm
      simp [heq, hne]

end ObjectLang.Check
