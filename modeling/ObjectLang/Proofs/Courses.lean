import Mathlib.Data.List.Forall2
import Mathlib.Order.Filter.AtTopBot.Basic
import ObjectLang.Proofs.Records

/-! # The course of a check

A check is followed by what holds of every state on its way and by how a later state is related to
an earlier one.  Both are built up step by step along the program, and so is the fact that with
enough fuel there is a result.  The steps depend on a number, from which the requests for classes
get their fuel.
-/

namespace ObjectLang.Check

open Filter
open Source Syntax Scope Names Diagnostic Checked

/-- What is declared has a number below `n`, and the tables of members are those of the
declarations. -/
structure Sources.Proper (src : Sources) (n : Nat) : Prop where
  targets : ∀ {node id}, src.names.target node = .struct id → id < n
  functions : ∀ {ns f} {name : String}, src.tree.functionIn ns name = some f →
    f < n ∧ ∃ ns', (src.tree.functionAt f).owner = .ns ns'
  extensions : ∀ {ns f} {name : String}, f ∈ src.tree.extensionsIn ns name →
    f < n ∧ ∃ ns', (src.tree.functionAt f).owner = .ns ns'
  methods : ∀ {id decl f} {method : Function Mark}, (src.tree.structureAt id).decl.cls? =
    some decl → method ∈ decl.methods → (src.tree.structureAt id).methods[method.name]? = some f →
    (src.tree.functionAt f).decl.mark.node = method.mark.node →
    (src.tree.functionAt f).decl.typeParams = method.typeParams

def State.withFunction (s : State) (inst : FuncInst) (cache : InstanceCache FunctionKey) : State :=
  { s with program :=
    { s.program with functions := s.program.functions.push inst, functionCache := cache } }

def State.withBody (s : State) (task : BodyTask) : State := { s with bodies := s.bodies ++ [task] }

def State.atDepth (s : State) (depth : Nat) : State :=
  { s with depth, deepest := max s.deepest depth }

/-- The later state without what was reported since the earlier one. -/
def State.takeBack (s t : State) : State :=
  { t with
    errors := t.errors.take s.errors.length
    withdrawn := t.withdrawn ++ t.errors.drop s.errors.length
    warnings := t.warnings.take s.warnings.length }

/-- A way to follow a check.  A strict one keeps to what is on record, a live one comes to an
end. -/
structure Course (src : Sources) where
  /-- Holds of every state. -/
  holds : State → Prop
  /-- Holds between a state and a later one. -/
  goes : State → State → Prop
  strict : Prop
  live : Prop
  /-- Declarations have smaller numbers. -/
  bound : Nat
  trans : ∀ {s t u}, goes s t → goes t u → goes s u
  level : ∀ {s t}, goes s t → t.depth = s.depth
  still : ∀ {s t}, holds s → SameWork s t → (strict → SameRecords src s t) → holds t ∧ goes s t
  retains : strict → ∀ {s t}, goes s t → Retains s t
  proper : strict → src.Proper bound
  generics : strict → ∀ {s}, holds s → GenericMethods src s.program
  opens : ∀ {s key} inst, holds s →
    (strict → s.program.functionFor key = none ∧ inst.key? = some key ∧ Belongs src key) →
    holds (s.withFunction inst (s.program.functionCache.begin key s.program.functions.size)) ∧
      goes s (s.withFunction inst (s.program.functionCache.begin key s.program.functions.size))
  pushes : ∀ {s} inst, holds s → inst.key? = none →
    holds (s.withFunction inst s.program.functionCache) ∧
      goes s (s.withFunction inst s.program.functionCache)

variable {src : Sources} {k : Course src} {α β : Type}

/-- A course goes on where the records and the work stay the same. -/
theorem Course.stay {s t : State} (hs : k.holds s) (hrecords : SameRecords src s t)
    (hwork : SameWork s t) : k.holds t ∧ k.goes s t :=
  k.still hs hwork fun _ => hrecords

/-! ### Results with enough fuel -/

/-- With enough fuel there is a result, and with any fuel there is no other. -/
def Ends (x : Nat → Option α) : Prop :=
  ∃ r, (∀ᶠ i in atTop, x i = some r) ∧ ∀ {i r'}, x i = some r' → r' = r

namespace Ends

theorem step {x : Option α} {a : α} (h : x = some a) : Ends fun _ => x :=
  ⟨a, .of_forall fun _ => h, fun h' => Option.some.inj (h'.symm.trans h)⟩

variable {x : Nat → Option α}

theorem bind {f : Nat → α → Option β} (hx : Ends x)
    (hf : ∀ {i a}, x i = some a → Ends fun j => f j a) :
    Ends fun i => (x i).bind (f i) := by
  obtain ⟨a, ha, hunique⟩ := hx
  obtain ⟨i, hi⟩ := ha.exists
  obtain ⟨r, hr, hunique'⟩ := hf hi
  refine ⟨r, ?_, fun {i r'} h => ?_⟩
  · filter_upwards [ha, hr] with i hi hi'
    rw [hi]
    exact hi'
  · obtain ⟨a', ha', h⟩ := Option.bind_eq_some_iff.mp h
    cases hunique ha'
    exact hunique' h

/-- What comes to an end whenever it has fuel, and whose fuel grows, comes to an end. -/
theorem of_fuel {y : Nat → Option α} {fuel : Nat → Nat} (hfuel : Tendsto fuel atTop atTop)
    (hzero : ∀ i, fuel i = 0 → y i = none) (hpos : ∀ i, 0 < fuel i → y i = x i) (h : Ends x) :
    Ends y := by
  obtain ⟨r, hr, hunique⟩ := h
  refine ⟨r, ?_, fun {i r'} hy => ?_⟩
  · filter_upwards [hr, hfuel.eventually_gt_atTop 0] with i hi hlt
    exact (hpos i hlt).trans hi
  · rcases Nat.eq_zero_or_pos (fuel i) with hi | hi
    · cases (hzero i hi).symm.trans hy
    · exact hunique ((hpos i hi).symm.trans hy)

/-- What comes to an end does so with less fuel, too, as long as the fuel grows. -/
theorem comp (h : Ends x) {g : Nat → Nat} (hg : Tendsto g atTop atTop) : Ends fun i => x (g i) := by
  obtain ⟨r, hr, hunique⟩ := h
  exact ⟨r, hg.eventually hr, fun h => hunique h⟩

end Ends

/-! ### Steps along a course -/

/-- From a state where `P` holds the steps lead on along the course, and `Q` holds of their
result. -/
structure Works (k : Course src) (P : State → Prop) (x : Nat → Checking α) (Q : α → State → Prop) :
    Prop where
  keeps : ∀ {i s a t}, k.holds s → P s → x i s = some (a, t) → k.holds t ∧ k.goes s t ∧ Q a t
  ends : k.live → ∀ {s}, k.holds s → P s → Ends fun i => x i s

/-- From any state of the course the steps lead on along the course. -/
abbrev Safe (k : Course src) (x : Nat → Checking α) : Prop :=
  Works k (fun _ => True) x fun _ _ => True

namespace Works

variable {P P' : State → Prop} {x : Nat → Checking α} {Q Q' : α → State → Prop}

theorem imp (h : Works k P x Q) (hP : ∀ {s}, k.holds s → P' s → P s)
    (hQ : ∀ {a s}, k.holds s → Q a s → Q' a s) : Works k P' x Q' where
  keeps hs hp hx := by
    obtain ⟨ht, hst, hq⟩ := h.keeps hs (hP hs hp) hx
    exact ⟨ht, hst, hQ ht hq⟩
  ends hl _ hs hp := h.ends hl hs (hP hs hp)

theorem safe (h : Works k P x Q) : Works k P x fun _ _ => True :=
  h.imp (fun _ h => h) fun _ _ => trivial

theorem beside {S : State → Prop} (h : Works k P x Q) (hS : ∀ {s t}, k.goes s t → S s → S t) :
    Works k (fun s => P s ∧ S s) x fun a s => Q a s ∧ S s where
  keeps hs hp hx := by
    obtain ⟨ht, hst, hq⟩ := h.keeps hs hp.1 hx
    exact ⟨ht, hst, hq, hS hst hp.2⟩
  ends hl _ hs hp := h.ends hl hs hp.1

theorem frame {S : State → Prop} (h : Works k P x Q) (hS : ∀ {s t}, k.goes s t → S s → S t)
    (hP : ∀ {s}, k.holds s → S s → P s) : Works k S x fun a s => Q a s ∧ S s :=
  (h.beside hS).imp (fun hs h => ⟨hP hs h, h⟩) fun _ h => h

/-- What follows from the condition on the state may be assumed. -/
theorem extract {φ : Prop} (hφ : ∀ {s}, k.holds s → P s → φ) (h : φ → Works k P x Q) :
    Works k P x Q where
  keeps hs hp hx := (h (hφ hs hp)).keeps hs hp hx
  ends hl _ hs hp := (h (hφ hs hp)).ends hl hs hp

theorem step {x : Checking α} (h : ∀ {s}, k.holds s → P s →
    ∃ a t, x s = some (a, t) ∧ k.holds t ∧ k.goes s t ∧ Q a t) : Works k P (fun _ => x) Q where
  keeps hs hp hx := by
    obtain ⟨a, t, ht, hrest⟩ := h hs hp
    cases hx.symm.trans ht
    exact hrest
  ends _ _ hs hp := by
    obtain ⟨a, t, ht, -⟩ := h hs hp
    exact .step ht

theorem still {x : Checking α} (h : Still src x) : Works k P (fun _ => x) fun _ _ => True :=
  step fun {s} hs _ => by
    obtain ⟨a, t, ht, hwork, hrecords⟩ := h s
    obtain ⟨hk, hst⟩ := k.still hs hwork fun _ => hrecords
    exact ⟨a, t, ht, hk, hst, trivial⟩

theorem quiet {x : Checking α} (h : Quiet x) : Works k P (fun _ => x) fun _ _ => True :=
  .still (.of_quiet h)

theorem pure {a : α} (h : ∀ {s}, k.holds s → P s → Q a s) : Works k P (fun _ => Pure.pure a) Q :=
  step fun {s} hs hp => ⟨a, s, rfl, hs, (k.still hs (.refl s) fun _ => .refl s).2, h hs hp⟩

theorem get : Works k P (fun _ => get) fun a s => a = s ∧ P s :=
  step fun {s} hs hp => ⟨s, s, rfl, hs, (k.still hs (.refl s) fun _ => .refl s).2, rfl, hp⟩

theorem getProgram : Works k P (fun _ => getProgram) fun p s => p = s.program ∧ P s :=
  step fun {s} hs hp => ⟨s.program, s, rfl, hs, (k.still hs (.refl s) fun _ => .refl s).2, rfl, hp⟩

theorem bind {f : Nat → α → Checking β} {Q' : β → State → Prop} (hx : Works k P x Q)
    (hf : ∀ a, Works k (Q a) (fun i => f i a) Q') : Works k P (fun i => x i >>= f i) Q' where
  keeps hs hp h := by
    obtain ⟨a, s1, h1, h2⟩ := bind_some h
    obtain ⟨hs1, hst1, hq⟩ := hx.keeps hs hp h1
    obtain ⟨ht, hst2, hq'⟩ := (hf a).keeps hs1 hq h2
    exact ⟨ht, k.trans hst1 hst2, hq'⟩
  ends hl s hs hp := (hx.ends hl hs hp).bind fun {_ a} h => by
    obtain ⟨hs1, -, hq⟩ := hx.keeps hs hp h
    exact (hf a.1).ends hl hs1 hq

theorem map {f : α → β} {Q' : β → State → Prop} (hx : Works k P x fun a => Q' (f a)) :
    Works k P (fun i => f <$> x i) Q' :=
  hx.bind fun _ => .pure fun _ h => h

theorem ite {c : Prop} [Decidable c] {y : Nat → Checking α} (hx : c → Works k P x Q)
    (hy : ¬c → Works k P y Q) : Works k P (fun i => if c then x i else y i) Q := by
  by_cases h : c
  · simpa only [if_pos h] using hx h
  · simpa only [if_neg h] using hy h

/-- A step that is taken under a condition only, and what follows it in any case. -/
theorem optional {c : Prop} [Decidable c] {x : Nat → Checking PUnit} {f : Nat → PUnit → Checking β}
    {R : State → Prop} {Q : β → State → Prop} (hx : Works k P x fun _ => R) (hP : ∀ {s}, P s → R s)
    (hf : Works k R (fun i => f i ⟨⟩) Q) :
    Works k P (fun i => if c then x i >>= f i else f i ⟨⟩) Q :=
  .ite (fun _ => hx.bind fun _ => hf) fun _ => hf.imp (fun _ => hP) fun _ h => h

theorem forM {xs : List α} {f : Nat → α → Checking PUnit}
    (hf : ∀ a ∈ xs, Works k P (fun i => f i a) fun _ => P) :
    Works k P (fun i => xs.forM (f i)) fun _ => P := by
  induction xs with
  | nil => exact .pure fun _ h => h
  | cons a as ih =>
    exact (hf a List.mem_cons_self).bind fun _ => ih fun b hb => hf b (List.mem_cons_of_mem a hb)

theorem mapM {xs : List α} {f : Nat → α → Checking β} (hf : ∀ a ∈ xs, Safe k fun i => f i a) :
    Safe k fun i => xs.mapM (f i) := by
  induction xs with
  | nil => exact .pure fun _ _ => trivial
  | cons a as ih =>
    simp only [List.mapM_cons]
    refine (hf a List.mem_cons_self).bind fun _ => ?_
    exact (ih fun b hb => hf b (List.mem_cons_of_mem a hb)).bind fun _ => .pure fun _ _ => trivial

end Works

/-! ### Single states -/

/-- Every run of the steps from the state leads to where `Q` holds, and with enough fuel there is
one. -/
structure Leads (x : Nat → Checking α) (s : State) (Q : α → State → Prop) : Prop where
  keeps : ∀ {i a t}, x i s = some (a, t) → Q a t
  ends : Ends fun i => x i s

theorem Works.leads {P : State → Prop} {x : Nat → Checking α} {Q : α → State → Prop} {s : State}
    (h : Works k P x Q) (hl : k.live) (hs : k.holds s) (hp : P s) :
    Leads x s fun a t => k.holds t ∧ k.goes s t ∧ Q a t :=
  ⟨h.keeps hs hp, h.ends hl hs hp⟩

theorem Works.of_leads {P : State → Prop} {x : Nat → Checking α} {Q : α → State → Prop}
    (h : ∀ {s}, k.holds s → P s → Leads x s fun a t => k.holds t ∧ k.goes s t ∧ Q a t) :
    Works k P x Q :=
  ⟨fun hs hp hx => (h hs hp).keeps hx, fun _ _ hs hp => (h hs hp).ends⟩

namespace Leads

variable {x y : Nat → Checking α} {s : State} {Q Q' : α → State → Prop}

theorem imp (h : Leads x s Q) (hQ : ∀ {a t}, Q a t → Q' a t) : Leads x s Q' :=
  ⟨fun hx => hQ (h.keeps hx), h.ends⟩

/-- Where the steps lead is where they led. -/
theorem trace (h : Leads x s Q) : Leads x s fun a t => Q a t ∧ ∃ i, x i s = some (a, t) :=
  ⟨fun {i _ _} hx => ⟨h.keeps hx, i, hx⟩, h.ends⟩

theorem step {x : Checking α} {a : α} {t : State} (h : x s = some (a, t)) (hQ : Q a t) :
    Leads (fun _ => x) s Q := by
  refine ⟨fun hx => ?_, .step h⟩
  cases hx.symm.trans h
  exact hQ

theorem bind {f : Nat → α → Checking β} {Q' : β → State → Prop} (hx : Leads x s Q)
    (hf : ∀ {a t}, Q a t → Leads (fun i => f i a) t Q') : Leads (fun i => x i >>= f i) s Q' := by
  refine ⟨fun h => ?_, hx.ends.bind fun h => (hf (hx.keeps h)).ends⟩
  obtain ⟨a, s1, h1, h2⟩ := bind_some h
  exact (hf (hx.keeps h1)).keeps h2

/-- Steps whose fuel grows, and for which there is no result without fuel. -/
theorem fueled {x : Nat → Nat → Checking α} {fuel : Nat → Nat} (hfuel : Tendsto fuel atTop atTop)
    (hzero : ∀ i, x i 0 s = none) (h : Leads (fun i => x i (fuel i - 1 + 1)) s Q) :
    Leads (fun i => x i (fuel i)) s Q := by
  have hpos {i : Nat} (hi : 0 < fuel i) : fuel i - 1 + 1 = fuel i := Nat.sub_add_cancel hi
  refine ⟨fun {i a t} hx => ?_, h.ends.of_fuel hfuel (fun i hi => ?_) fun i hi => ?_⟩
  · rcases Nat.eq_zero_or_pos (fuel i) with hi | hi
    · rw [hi] at hx
      cases (hzero i).symm.trans hx
    · exact h.keeps (i := i) (hpos hi ▸ hx)
  · rw [hi]
    exact hzero i
  · rw [hpos hi]

/-- Steps for which there is no result without fuel. -/
theorem succ (h : Leads (fun i => x (i + 1)) s Q) (hzero : x 0 s = none) : Leads x s Q := by
  refine ⟨fun {i a t} hx => ?_, ?_⟩
  · cases i with
    | zero => cases hzero.symm.trans hx
    | succ i => exact h.keeps hx
  · refine (h.ends.comp (tendsto_sub_atTop_nat 1)).of_fuel tendsto_id (fun i hi => ?_)
      fun i hi => ?_
    · rw [show i = 0 from hi]
      exact hzero
    · rw [Nat.sub_add_cancel (show 1 ≤ i from hi)]

/-- A property of the state and of what remains of a list is kept by a loop over the list. -/
theorem forM {xs : List α} {f : Nat → α → Checking PUnit} (R : List α → State → Prop)
    (hf : ∀ {a as t}, R (a :: as) t → Leads (fun i => f i a) t fun _ => R as) (hs : R xs s) :
    Leads (fun i => xs.forM (f i)) s fun _ => R [] := by
  induction xs generalizing s with
  | nil => exact .step rfl hs
  | cons a as ih => exact (hf hs).bind fun ht => ih ht

end Leads

/-! ### Requests for classes -/

/-- What a request for a class has come to. -/
structure Answered (src : Sources) (s : State) (struct : StructureId) (typeArgs : List Ty)
    (span : Span) (r : Option ClassId) : Prop where
  found : ∀ c, r = some c → s.program.classFor ⟨struct, typeArgs⟩ = some c
  refused : r = none → (src.tree.structureAt struct).decl.cls? = none ∨
    typeArgs.length ≠ (src.tree.structureAt struct).decl.typeParams.length ∨
    maxDepth ≤ s.depth ∧ Reported s (.tooDeep (src.tree.structurePath struct) maxDepth) span

/-- Requests for classes keep to the course. -/
def Course.Serves (k : Course src) (request : Nat → ClassRequest) : Prop :=
  ∀ struct typeArgs span, Works k (fun _ => k.strict → struct < k.bound)
    (fun i => request i struct typeArgs span)
    fun r s => k.strict → Answered src s struct typeArgs span r

/-! ### Types -/

section

variable {s : State} {subst : Subst} {es : List (TypeExpr Mark)} {tys : List Ty}

theorem typesOf_of_forall₂ (h : List.Forall₂ (Resolves src s subst) es tys)
    (hknown : ∀ ty ∈ tys, ty ≠ .unknown) : typesOf src s.program subst es = some tys := by
  induction h with
  | nil => rfl
  | cons he _ ih =>
    rw [typesOf, he.known (hknown _ List.mem_cons_self),
      ih fun ty hty => hknown ty (List.mem_cons_of_mem _ hty)]

theorem faultyAny_of_forall₂ (h : List.Forall₂ (Resolves src s subst) es tys)
    (hunknown : .unknown ∈ tys) :
    FaultyAny src s subst es := by
  induction h with
  | nil => cases hunknown
  | cons he _ ih =>
    rw [FaultyAny]
    rcases List.mem_cons.mp hunknown with h | h
    · exact .inl (he.unknown h.symm)
    · exact .inr (ih h)

theorem any_isUnknown : tys.any (·.isUnknown) = true ↔ .unknown ∈ tys := by
  simp [Ty.isUnknown]

/-- A structure at arguments of the right number that are all known. -/
theorem typeOf_struct {m : Mark} {path : List String} {id : StructureId}
    (htarget : src.names.target m.node = .struct id)
    (h : List.Forall₂ (Resolves src s subst) es tys) (hknown : .unknown ∉ tys)
    (hlength : tys.length = (src.tree.structureAt id).decl.typeParams.length) :
    typeOf src s.program subst (.named m path es) =
      match (src.tree.structureAt id).decl.kind with
      | .cls => (s.program.classFor ⟨id, tys⟩).map .object
      | .protocol => some (.protocol id)
      | .enum => some (.enum id) := by
  rw [typeOf, htarget]
  dsimp only
  rw [typesOf_of_forall₂ h fun ty hty hty' => hknown (hty' ▸ hty)]
  cases (src.tree.structureAt id).decl.kind <;> exact if_neg (by simpa using hlength)

end

section

variable {request : Nat → ClassRequest} (hr : k.Serves request) {subst : Subst}

include hr

theorem works_applyStructure {m : Mark} {path : List String} {es : List (TypeExpr Mark)}
    {struct : StructureId} (htarget : src.names.target m.node = .struct struct) (tys : List Ty) :
    Works k (fun s => k.strict → List.Forall₂ (Resolves src s subst) es tys)
      (fun i => applyStructure src (request i) struct tys m.span)
      fun ty s => k.strict → Resolves src s subst (.named m path es) ty := by
  have hfaulty {s : State} (h : tys.length ≠ (src.tree.structureAt struct).decl.typeParams.length ∨
      .unknown ∈ tys ∨ Reported s (.tooDeep (src.tree.structurePath struct) maxDepth) m.span)
      (hes : List.Forall₂ (Resolves src s subst) es tys) :
      Resolves src s subst (.named m path es) .unknown := by
    refine ⟨fun hne => absurd rfl hne, fun _ => ?_⟩
    rw [Faulty, htarget]
    rw [← hes.length_eq] at h
    exact h.imp_right (Or.imp_left (faultyAny_of_forall₂ hes))
  -- The arguments still stand for these types after a report or a request.
  have hstable {s t : State} (hst : k.goes s t)
      (h : k.strict → List.Forall₂ (Resolves src s subst) es tys) (hk : k.strict) :
      List.Forall₂ (Resolves src t subst) es tys :=
    (h hk).imp fun _ _ he => (k.retains hk hst).resolves he
  simp only [applyStructure]
  refine .ite (fun hlength => ?_) fun hlength => .ite (fun hany => ?_) fun hany => ?_
  · refine (Works.frame (P := fun _ => True) (.quiet (.report _)) hstable
      fun _ _ => trivial).bind fun _ => .pure fun _ h hk => ?_
    exact hfaulty (.inl hlength) (h.2 hk)
  · exact .pure fun _ h hk => hfaulty (.inr (.inl (any_isUnknown.mp hany))) (h hk)
  · have hlength : tys.length = (src.tree.structureAt struct).decl.typeParams.length :=
      not_not.mp hlength
    have hknown : .unknown ∉ tys := fun h => hany (any_isUnknown.mpr h)
    cases hkind : (src.tree.structureAt struct).decl.kind with
    | protocol | enum =>
      refine .pure fun _ h hk => ⟨fun _ => ?_, by simp⟩
      rw [typeOf_struct htarget (h hk) hknown hlength, hkind]
    | cls =>
      refine ((hr struct tys m.span).frame hstable
        fun _ _ hk => (k.proper hk).targets htarget).bind fun r => ?_
      cases r with
      | some c =>
        refine .pure fun _ h hk => ⟨fun _ => ?_, by simp⟩
        rw [typeOf_struct htarget (h.2 hk) hknown hlength, hkind]
        dsimp only
        rw [(h.1 hk).found c rfl, Option.map_some]
      | none =>
        refine .pure fun _ h hk => hfaulty (.inr (.inr ?_)) (h.2 hk)
        -- The structure is a class and the number of arguments is right, so the depth was the
        -- reason.
        rcases (h.1 hk).refused rfl with hcls | hne | ⟨-, hdeep⟩
        · cases hdecl : (src.tree.structureAt struct).decl <;> rw [hdecl] at hkind hcls
          · cases hcls
          · cases hkind
          · cases hkind
        · exact absurd hlength hne
        · exact hdeep

omit hr in
mutual

theorem works_resolveType (hr : k.Serves request) (e : TypeExpr Mark) :
    Works k (fun _ => True) (fun i => resolveType src (request i) subst e)
      fun ty s => k.strict → Resolves src s subst e ty := by
  match e with
  | .primitive _ p =>
    simp only [resolveType]
    exact .pure fun _ _ _ => ⟨fun _ => rfl, nofun⟩
  | .named m path args =>
    simp only [resolveType]
    cases htarget : src.names.target m.node with
    | unknown =>
      refine .pure fun _ _ _ => ⟨fun hne => absurd rfl hne, fun _ => ?_⟩
      rw [Faulty, htarget]
      trivial
    | typeParam name =>
      refine .optional (.quiet (.report _)) (fun h => h) (.pure fun _ _ _ => ⟨fun hne => ?_,
        fun hunknown => ?_⟩)
      · rw [typeOf, htarget]
        dsimp only
        cases hty : subst[name]? with
        | none =>
          rw [hty] at hne
          exact absurd rfl hne
        | some ty =>
          rw [hty, Option.getD_some] at hne
          simpa [Option.filter, Ty.isUnknown] using hne
      · rw [Faulty, htarget]
        exact hunknown
    | struct id =>
      exact (works_resolveTypes hr args).bind fun tys => works_applyStructure hr htarget tys

theorem works_resolveTypes (hr : k.Serves request) (es : List (TypeExpr Mark)) :
    Works k (fun _ => True) (fun i => resolveTypes src (request i) subst es)
      fun tys s => k.strict → List.Forall₂ (Resolves src s subst) es tys := by
  match es with
  | [] =>
    simp only [resolveTypes]
    exact .pure fun _ _ _ => .nil
  | e :: es =>
    simp only [resolveTypes]
    refine (works_resolveType hr e).bind fun ty => ?_
    refine ((works_resolveTypes hr es).frame (S := fun s => k.strict → Resolves src s subst e ty) ?_
      fun _ _ => trivial).bind fun tys => .pure fun _ h hk => .cons (h.2 hk) (h.1 hk)
    exact fun hst h hk => (k.retains hk hst).resolves (h hk)

end

theorem safe_resolveType (e : TypeExpr Mark) :
    Safe k fun i => resolveType src (request i) subst e :=
  (works_resolveType hr e).safe

theorem safe_resolveReturn (kind : FunctionKind) (clause : Option (TypeExpr Mark)) :
    Safe k fun i => resolveReturn src (request i) subst kind clause := by
  have hcases : (∀ i, resolveReturn src (request i) subst kind clause = pure .void) ∨
      ∃ e, ∀ i, resolveReturn src (request i) subst kind clause =
        resolveType src (request i) subst e := by
    cases clause with
    | none => cases kind <;> exact .inl fun _ => rfl
    | some e =>
      cases kind
      case init => exact .inl fun _ => rfl
      all_goals exact .inr ⟨e, fun _ => rfl⟩
  rcases hcases with hvoid | ⟨e, he⟩
  · simp only [hvoid]
    exact .pure fun _ _ => trivial
  · simp only [he]
    exact safe_resolveType hr e

end

end ObjectLang.Check
