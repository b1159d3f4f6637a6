import ObjectLang.Proofs.Outcomes

/-! # Identity of types

A class type is the number of an instance, and types are compared by these numbers.  Written out, a
type is a term: a declaration, applied to the terms of its arguments in the case of a class.  Types
are equal exactly if their terms are, and so it does not matter when, where and under which
substitution a type was met.  The arguments of a protocol are no part of its type.
-/

namespace ObjectLang.Check

open Source Syntax Scope Names Checked

/-- A type in which declarations stand for themselves. -/
inductive TypeTerm where
  | primitive (k : Primitive)
  | cls (struct : StructureId) (args : List TypeTerm)
  | protocol (struct : StructureId)
  | enum (struct : StructureId)
  | unknown

/-- The term of a type, given those of the instances of classes. -/
def termWith (term : ClassId → TypeTerm) : Ty → TypeTerm
  | .primitive k => .primitive k
  | .object c => term c
  | .protocol s => .protocol s
  | .enum s => .enum s
  | .unknown => .unknown

/-- The term of an instance.  Its arguments were made before it. -/
def classTerm (p : Program) (c : ClassId) : TypeTerm :=
  .cls (p.classAt c).struct ((p.classAt c).typeArgs.map
    (termWith fun d => if _h : d < c then classTerm p d else .unknown))
termination_by c

def typeTerm (p : Program) : Ty → TypeTerm := termWith (classTerm p)

theorem typeTerm_object (p : Program) (c : ClassId) : typeTerm p (.object c) = classTerm p c := rfl

section

variable (src : Sources) (p : Program) (subst : Subst)

mutual

/-- What a type expression means under a substitution: a class applied to its arguments, or a
protocol or an enum by itself. -/
def denote : TypeExpr Mark → Option TypeTerm
  | .primitive _ k => some (.primitive k)
  | .named m _ args =>
    match src.names.target m.node with
    | .unknown => none
    | .typeParam name => subst[name]?.map (typeTerm p)
    | .struct s =>
      match (src.tree.structureAt s).decl.kind with
      | .cls => (denoteAll args).map (.cls s)
      | .protocol => some (.protocol s)
      | .enum => some (.enum s)

def denoteAll : List (TypeExpr Mark) → Option (List TypeTerm)
  | [] => some []
  | e :: es =>
    match denote e, denoteAll es with
    | some t, some ts => some (t :: ts)
    | _, _ => none

end

end

/-! ### Terms of types -/

section

variable {p : Program} {c d : ClassId} {ty ty' : Ty}

theorem classTerm_eq (hp : Typed p) (c : ClassId) :
    classTerm p c = .cls (p.classAt c).struct ((p.classAt c).typeArgs.map (typeTerm p)) := by
  rw [classTerm]
  congr 1
  apply List.map_congr_left
  intro ty hty
  cases ty with
  | object d => simp [typeTerm, termWith, hp.founded c d hty]
  | _ => rfl

theorem typeTerm_injective_of (hp : Typed p)
    (hclass : ∀ c d, ty = .object c → ty' = .object d → classTerm p c = classTerm p d → c = d)
    (h : typeTerm p ty = typeTerm p ty') : ty = ty' := by
  cases ty with
  | object c =>
    cases ty' with
    | object d => rw [hclass c d rfl rfl h]
    | _ => simp [typeTerm, termWith, classTerm_eq hp] at h
  | _ =>
    cases ty' with
    | object d => simp [typeTerm, termWith, classTerm_eq hp] at h
    | _ => cases h <;> rfl

theorem eq_of_map_eq {α β : Type} {f : α → β} {xs ys : List α}
    (hf : ∀ x ∈ xs, ∀ y ∈ ys, f x = f y → x = y) (h : xs.map f = ys.map f) : xs = ys := by
  induction xs generalizing ys with
  | nil => simpa using h.symm
  | cons x xs ih =>
    cases ys with
    | nil => simp at h
    | cons y ys =>
      simp only [List.map_cons, List.cons.injEq] at h
      rw [hf x List.mem_cons_self y List.mem_cons_self h.1,
        ih (fun x hx y hy => hf x (List.mem_cons_of_mem _ hx) y (List.mem_cons_of_mem _ hy)) h.2]

/-- There is one instance for each term. -/
theorem classTerm_injective (hp : Typed p)
    (hkey : ∀ {c d}, c < p.classes.size → d < p.classes.size →
      (p.classAt c).key = (p.classAt d).key → c = d)
    (hc : c < p.classes.size) (hd : d < p.classes.size) (h : classTerm p c = classTerm p d) :
    c = d := by
  induction c using Nat.strong_induction_on generalizing d with
  | _ c ih =>
    rw [classTerm_eq hp, classTerm_eq hp, TypeTerm.cls.injEq] at h
    obtain ⟨hstruct, hargs⟩ := h
    have htypeArgs : (p.classAt c).typeArgs = (p.classAt d).typeArgs := by
      apply eq_of_map_eq _ hargs
      intro ty hty ty' hty'
      apply typeTerm_injective_of hp
      rintro a b rfl rfl
      exact ih a (hp.founded c a hty) ((hp.classes c).typeArgs _ hty a rfl)
        ((hp.classes d).typeArgs _ hty' b rfl)
    exact hkey hc hd (by rw [ClassInst.key, hstruct, htypeArgs, ClassInst.key])

end

/-! ### Terms of expressions -/

section

variable {src : Sources} {s : State} {subst : Subst} {ty ty' : Ty}

theorem Recorded.typeTerm_injective (hs : Recorded src s) (hp : Typed s.program)
    (hty : ty.Within s.program)
    (hty' : ty'.Within s.program) : typeTerm s.program ty = typeTerm s.program ty' ↔ ty = ty' := by
  constructor
  · apply typeTerm_injective_of hp
    rintro c d rfl rfl
    apply classTerm_injective hp _ (hty c rfl) (hty' d rfl)
    intro c d hc hd hkey
    exact Option.some.inj ((hs.classes.mpr ⟨hc, hkey⟩).symm.trans (hs.classes.mpr ⟨hd, rfl⟩))
  · rintro rfl
    rfl

theorem Recorded.within_of_typeOf (hs : Recorded src s) (hsubst : subst.Within s.program)
    (e : TypeExpr Mark) (h : typeOf src s.program subst e = some ty) : ty.Within s.program := by
  cases e with
  | primitive m k =>
    cases h
    exact Ty.within_primitive k
  | named m path args =>
    cases typeOf_named.mp h with
    | param _ hty => exact hsubst _ _ hty
    | cls _ _ _ _ hc =>
      rintro _ ⟨⟩
      exact (hs.classes.mp hc).1
    | protocol | enum => exact fun _ hc => by cases hc

mutual

/-- The type that is found for an expression has the term of the expression. -/
theorem Recorded.denote_eq (hs : Recorded src s) (hp : Typed s.program) (e : TypeExpr Mark)
    {ty : Ty} (h : typeOf src s.program subst e = some ty) :
    denote src s.program subst e = some (typeTerm s.program ty) := by
  match e with
  | .primitive _ k =>
    cases h
    rfl
  | .named m path args =>
    rw [denote]
    cases typeOf_named.mp h with
    | param htarget hty => simp [htarget, hty]
    | cls htarget htys _ hkind hc =>
      obtain ⟨hstruct, htypeArgs⟩ := (ClassKey.mk.injEq ..).mp (hs.classes.mp hc).2
      simp only [htarget, hkind]
      rw [hs.denoteAll_eq hp args htys, Option.map_some, typeTerm_object, classTerm_eq hp, hstruct,
        htypeArgs]
    | protocol htarget _ _ hkind | enum htarget _ _ hkind =>
      simp only [htarget, hkind]
      rfl

theorem Recorded.denoteAll_eq (hs : Recorded src s) (hp : Typed s.program)
    (es : List (TypeExpr Mark)) {tys : List Ty} (h : typesOf src s.program subst es = some tys) :
    denoteAll src s.program subst es = some (tys.map (typeTerm s.program)) := by
  match es with
  | [] =>
    cases h
    rfl
  | e :: es =>
    obtain ⟨ty, tys', hty, htys, rfl⟩ := typesOf_cons.mp h
    rw [denoteAll, hs.denote_eq hp e hty, hs.denoteAll_eq hp es htys]
    rfl

end

end

/-! ### Types that were resolved -/

/-- A type expression and the known type that it was resolved to: at any time, in the middle of a
check or between two requests, but before the state `u`, where the classes that were found then are
still found. -/
structure Resolution (src : Sources) (u : State) where
  subst : Subst
  expr : TypeExpr Mark
  type : Ty
  fuel : Nat
  before : State
  after : State
  recorded : Recorded src before
  resolved : resolveType src (requestClass src fuel) subst expr before = some (type, after)
  later : ∀ {key c}, after.program.classFor key = some c → u.program.classFor key = some c
  known : type ≠ .unknown
  within : subst.Within u.program

namespace Resolution

variable {src : Sources} {u : State}

theorem typeOf_eq {n : Nat} (hproper : src.Proper n) (r : Resolution src u) :
    typeOf src u.program r.subst r.expr = some r.type := by
  obtain ⟨-, -, hresolves⟩ := (works_resolveType (requestCourse_serves hproper 1) r.expr).keeps
    ⟨r.recorded, trivial⟩ trivial r.resolved
  exact typeOf_later r.later r.expr ((hresolves trivial).known r.known)

theorem denote_eq (hu : Settled src u) {n : Nat} (hproper : src.Proper n) (r : Resolution src u) :
    denote src u.program r.subst r.expr = some (typeTerm u.program r.type) :=
  hu.recorded.denote_eq (hu.orderly.typed trivial) r.expr (r.typeOf_eq hproper)

theorem exists_of_typeOf (hu : Recorded src u) {subst : Subst} (hsubst : subst.Within u.program)
    {e : TypeExpr Mark} {ty : Ty} (h : typeOf src u.program subst e = some ty) :
    ∃ r : Resolution src u, r.subst = subst ∧ r.expr = e ∧ r.type = ty := by
  obtain ⟨t, hrun, hunmoved⟩ := resolveType_of_typeOf e h Nat.one_pos
  exact ⟨⟨subst, e, ty, 1, u, t, hu, hrun, fun hc => (hunmoved.classFor _).symm.trans hc,
    typeOf_ne_unknown h, hsubst⟩, rfl, rfl, rfl⟩

theorem type_eq_iff (hu : Settled src u) {n : Nat} (hproper : src.Proper n)
    (r1 r2 : Resolution src u) :
    r1.type = r2.type ↔
      denote src u.program r1.subst r1.expr = denote src u.program r2.subst r2.expr := by
  have hwithin (r : Resolution src u) : r.type.Within u.program :=
    hu.recorded.within_of_typeOf r.within r.expr (r.typeOf_eq hproper)
  rw [r1.denote_eq hu hproper, r2.denote_eq hu hproper, Option.some_inj]
  exact (hu.recorded.typeTerm_injective (hu.orderly.typed trivial) (hwithin r1) (hwithin r2)).symm

end Resolution

end ObjectLang.Check

namespace ObjectLang

open Source Syntax Scope Names Checked Check

/-- Two types that were resolved on the way to a state between requests, wherever that was and under
whatever substitutions, are the same exactly if the expressions mean the same: the same primitive,
the same class applied to arguments that mean the same, the same protocol or the same enum. -/
theorem type_identity_structural (name : String) (dependencies : List String)
    (files : List (File Hint)) {u : State} (h : Reached (sourcesOf name dependencies files) u)
    (r1 r2 : Resolution (sourcesOf name dependencies files) u) :
    r1.type = r2.type ↔
      denote (sourcesOf name dependencies files) u.program r1.subst r1.expr =
        denote (sourcesOf name dependencies files) u.program r2.subst r2.expr := by
  obtain ⟨n, hproper⟩ := proper_sources name dependencies files
  exact r1.type_eq_iff (h.settled (regular_sources name dependencies files) ⟨n, hproper⟩) hproper r2

/-- Boxes in boxes: one is made for the field of a shelf, under the substitution of the shelf, and
one is the type of a parameter. -/
def shelves : List (File Hint) := [{
  id := 0
  decls := [
    .cls {
      mark := none, name := "Box", typeParams := ["T"]
      fields := [{ mark := none, name := "item", type := .named none ["T"] [] }] },
    .cls {
      mark := none, name := "Shelf", typeParams := ["T"]
      fields := [
        { mark := none, name := "box", type := .named none ["Box"] [.named none ["T"] []] }] },
    .function {
      mark := none, name := "stack"
      params := [
        { mark := none, name := "shelf"
          type := .named none ["Shelf"] [.named none ["Box"] [.primitive none .i64]] },
        { mark := none, name := "box"
          type := .named none ["Box"] [.named none ["Box"] [.primitive none .i64]] }]
      body := some (.mk none [] none) }] }]

theorem checkAll_shelves :
    ∃ u param field, checkAll (sourcesOf "app" [] shelves) 50 {} = some ((), u) ∧
      ((sourcesOf "app" [] shelves).tree.functionAt 0).decl.params[1]? = some param ∧
      ((sourcesOf "app" [] shelves).tree.structureAt 1).decl.cls?.bind (·.fields.head?) =
      some field ∧ u.program.classes.size = 3 ∧
      typeOf (sourcesOf "app" [] shelves) u.program ∅ param.type = some (.object 2) ∧
      typeOf (sourcesOf "app" [] shelves) u.program (Subst.bind ∅ ["T"] [.object 0]) field.type =
        some (.object 2) := by
  have hrun : ((checkAll (sourcesOf "app" [] shelves) 50 {}).any fun r =>
      ((sourcesOf "app" [] shelves).tree.functionAt 0).decl.params[1]?.any fun param =>
      (((sourcesOf "app" [] shelves).tree.structureAt 1).decl.cls?.bind (·.fields.head?)).any
          fun field =>
      decide (r.2.program.classes.size = 3 ∧
        typeOf (sourcesOf "app" [] shelves) r.2.program ∅ param.type = some (.object 2) ∧
        typeOf (sourcesOf "app" [] shelves) r.2.program (Subst.bind ∅ ["T"] [.object 0])
        field.type =
          some (.object 2))) = true := by
    decide +kernel
  simp only [Option.any_eq_true, decide_eq_true_eq] at hrun
  obtain ⟨⟨_, u⟩, hcheck, param, hparam, field, hfield, hrest⟩ := hrun
  exact ⟨u, param, field, hcheck, hparam, hfield, hrest⟩

/-- The box of the field and that of the parameter are of one type. -/
theorem type_identity_structural_shelves :
    ∃ u, ∃ r1 r2 : Resolution (sourcesOf "app" [] shelves) u,
      Reached (sourcesOf "app" [] shelves) u ∧
      r1.subst = ∅ ∧ r1.type = .object 2 ∧ r2.subst = Subst.bind ∅ ["T"] [.object 0] ∧
      r2.type = .object 2 ∧
      denote (sourcesOf "app" [] shelves) u.program r1.subst r1.expr =
        denote (sourcesOf "app" [] shelves) u.program r2.subst r2.expr := by
  obtain ⟨u, param, field, hcheck, -, -, hsize, hparam, hfield⟩ := checkAll_shelves
  have hreached : Reached (sourcesOf "app" [] shelves) u :=
    .single ⟨.all, 50, none, trivial, bind_of_eq_some hcheck⟩
  have hu := hreached.settled (regular_sources "app" [] shelves) (proper_sources "app" [] shelves)
  have hsubst : (Subst.bind ∅ ["T"] [.object 0]).Within u.program := by
    apply Subst.Within.empty.bind
    intro ty hty c hc
    cases List.mem_singleton.mp hty
    cases hc
    rw [hsize]
    decide
  obtain ⟨r1, hs1, he1, ht1⟩ := Resolution.exists_of_typeOf hu.recorded Subst.Within.empty hparam
  obtain ⟨r2, hs2, he2, ht2⟩ := Resolution.exists_of_typeOf hu.recorded hsubst hfield
  exact ⟨u, r1, r2, hreached, hs1, ht1, hs2, ht2,
    (type_identity_structural "app" [] shelves hreached r1 r2).mp (ht1.trans ht2.symm)⟩

/-- A function that takes a protocol at one type argument and returns it at another. -/
def gauges : List (File Hint) := [{
  id := 0
  decls := [
    .protocol { mark := none, name := "Gauge", typeParams := ["T"] },
    .function {
      mark := none, name := "recast"
      params := [
        { mark := none, name := "x", type := .named none ["Gauge"] [.primitive none .i64] }]
      returnType := some (.named none ["Gauge"] [.primitive none .string])
      body := some (.mk none [] (some (.ident none "x"))) }] }]

/-- The types of the arguments in a type expression. -/
def argumentTypes (src : Sources) (p : Program) : TypeExpr Mark → Option (List Ty)
  | .primitive _ _ => some []
  | .named _ _ args => typesOf src p ∅ args

theorem checkAll_gauges :
    ∃ u param result, checkAll (sourcesOf "app" [] gauges) 50 {} = some ((), u) ∧
      ((sourcesOf "app" [] gauges).tree.functionAt 0).decl.params.head? = some param ∧
      ((sourcesOf "app" [] gauges).tree.functionAt 0).decl.returnType = some result ∧
      u.Clean ∧ argumentTypes (sourcesOf "app" [] gauges) u.program param.type = some [.i64] ∧
      argumentTypes (sourcesOf "app" [] gauges) u.program result = some [.string] ∧
      typeOf (sourcesOf "app" [] gauges) u.program ∅ param.type = some (.protocol 0) ∧
      typeOf (sourcesOf "app" [] gauges) u.program ∅ result = some (.protocol 0) := by
  have hrun : ((checkAll (sourcesOf "app" [] gauges) 50 {}).any fun r =>
      ((sourcesOf "app" [] gauges).tree.functionAt 0).decl.params.head?.any fun param =>
      ((sourcesOf "app" [] gauges).tree.functionAt 0).decl.returnType.any fun result =>
      r.2.errors.isEmpty && r.2.withdrawn.isEmpty &&
      decide (argumentTypes (sourcesOf "app" [] gauges) r.2.program param.type = some [.i64] ∧
        argumentTypes (sourcesOf "app" [] gauges) r.2.program result = some [.string] ∧
        typeOf (sourcesOf "app" [] gauges) r.2.program ∅ param.type = some (.protocol 0) ∧
        typeOf (sourcesOf "app" [] gauges) r.2.program ∅ result = some (.protocol 0))) = true := by
    decide +kernel
  simp only [Option.any_eq_true, Bool.and_eq_true, List.isEmpty_iff, decide_eq_true_eq] at hrun
  obtain ⟨⟨_, u⟩, hcheck, param, hparam, result, hresult, hrest⟩ := hrun
  exact ⟨u, param, result, hcheck, hparam, hresult, hrest⟩

/-- A protocol is the same type at different arguments: the one may be returned for the other. -/
theorem protocol_arguments_ignored :
    ∃ u param result t1 t2, checkAll (sourcesOf "app" [] gauges) 50 {} = some ((), u) ∧ u.Clean ∧
      ((sourcesOf "app" [] gauges).tree.functionAt 0).decl.params.head? = some param ∧
      ((sourcesOf "app" [] gauges).tree.functionAt 0).decl.returnType = some result ∧
      argumentTypes (sourcesOf "app" [] gauges) u.program param.type = some [.i64] ∧
      argumentTypes (sourcesOf "app" [] gauges) u.program result = some [.string] ∧
      resolveType (sourcesOf "app" [] gauges) (requestClass (sourcesOf "app" [] gauges) 1) ∅
      param.type u =
        some (.protocol 0, t1) ∧
      resolveType (sourcesOf "app" [] gauges) (requestClass (sourcesOf "app" [] gauges) 1) ∅
      result u =
        some (.protocol 0, t2) := by
  obtain ⟨u, param, result, hcheck, hparam, hresult, hclean, hargs1, hargs2, htype1, htype2⟩ :=
    checkAll_gauges
  obtain ⟨t1, hrun1, -⟩ := resolveType_of_typeOf param.type htype1 Nat.one_pos
  obtain ⟨t2, hrun2, -⟩ := resolveType_of_typeOf result htype2 Nat.one_pos
  exact ⟨u, param, result, t1, t2, hcheck, hclean, hparam, hresult, hargs1, hargs2, hrun1, hrun2⟩

end ObjectLang
