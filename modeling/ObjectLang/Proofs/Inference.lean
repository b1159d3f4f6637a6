import ObjectLang.Proofs.TypeIdentity

/-! # Inference of type arguments

Inference walks through the types of the parameters beside those of the arguments.  If the type
parameters can stand for types such that every parameter has exactly the type of its argument, then
what is found for a type parameter is what it stands for, in whatever order the arguments are looked
at.
-/

namespace ObjectLang.Check

open Source Syntax Scope Names Checked

section

variable (src : Sources)

mutual

def typeParamsIn : TypeExpr Mark → List String
  | .primitive _ _ => []
  | .named m _ args =>
    match src.names.target m.node with
    | .typeParam name => name :: typeParamsInAll args
    | _ => typeParamsInAll args

def typeParamsInAll : List (TypeExpr Mark) → List String
  | [] => []
  | e :: es => typeParamsIn e ++ typeParamsInAll es

end

def namesClass (node : Nat) : Bool :=
  match src.names.target node with
  | .struct id => (src.tree.structureAt id).decl.kind == .cls
  | _ => false

mutual

/-- Only classes are applied to type arguments. -/
def appliesClasses : TypeExpr Mark → Bool
  | .primitive _ _ => true
  | .named m _ args => (args.isEmpty || namesClass src m.node) && appliesClassesAll args

def appliesClassesAll : List (TypeExpr Mark) → Bool
  | [] => true
  | e :: es => appliesClasses e && appliesClassesAll es

end

/-- If the type parameters of the declaration stand for the chosen types, and those around it for
what the outer substitution says, then each parameter is resolved to the type of its argument. -/
structure ExactMatch (u : State) (decl : Function Mark) (outer : Subst) (chosen args : List Ty) :
    Prop where
  length : chosen.length = decl.typeParams.length
  resolved : List.Forall₂ (fun e arg => ∃ r : Resolution src u,
    r.subst = Subst.bind outer decl.typeParams chosen ∧ r.expr = e ∧ r.type = arg)
    (decl.params.map (·.type)) args

/-- Of the type parameters exactly the named ones are bound, to what they stand for. -/
def Finds (subst : Subst) (params names : List String) (bindings : Subst) : Prop :=
  ∀ name ∈ params, bindings[name]? = if name ∈ names then subst[name]? else none

end

theorem mem_typeParamsInAll {src : Sources} {es : List (TypeExpr Mark)} {name : String} :
    name ∈ typeParamsInAll src es ↔ ∃ e ∈ es, name ∈ typeParamsIn src e := by
  induction es with
  | nil => simp [typeParamsInAll]
  | cons e es ih => simp [typeParamsInAll, ih]

theorem Subst.getElem?_bind_of_not_mem (subst : Subst) {params : List String} (args : List Ty)
    {name : String} (h : name ∉ params) : (Subst.bind subst params args)[name]? = subst[name]? := by
  induction params generalizing subst args with
  | nil => rfl
  | cons p ps ih =>
    rw [List.mem_cons, not_or] at h
    rw [Subst.bind, ih _ _ h.2, Std.TreeMap.getElem?_insert, if_neg]
    simpa using Ne.symm h.1

/-- Type parameters that are distinct stand for the arguments at their places. -/
theorem Subst.getElem?_bind_of_mem_zip (subst : Subst) {params : List String} {args : List Ty}
    {name : String} {ty : Ty} (hdistinct : params.Nodup) (h : (name, ty) ∈ params.zip args) :
    (Subst.bind subst params args)[name]? = some ty := by
  induction params generalizing subst args with
  | nil => simp at h
  | cons p ps ih =>
    cases args with
    | nil => simp at h
    | cons arg rest =>
      rw [List.nodup_cons] at hdistinct
      rw [Subst.bind]
      rcases List.mem_cons.mp h with heq | h
      · cases heq
        rw [getElem?_bind_of_not_mem _ _ hdistinct.1]
        simp
      · exact ih _ hdistinct.2 h

theorem forall₂_typesOf {src : Sources} {p : Program} {subst : Subst} {es : List (TypeExpr Mark)}
    {tys : List Ty} (h : typesOf src p subst es = some tys) :
    List.Forall₂ (fun e ty => typeOf src p subst e = some ty) es tys := by
  induction es generalizing tys with
  | nil =>
    cases h
    exact .nil
  | cons e es ih =>
    obtain ⟨ty, tys', hty, htys, rfl⟩ := typesOf_cons.mp h
    exact .cons hty (ih htys)

/-! ### One parameter -/

section

variable {src : Sources} {s : State} {subst bindings : Subst} {params names : List String}

theorem Finds.insertIfNew {name : String} {ty : Ty} (h : Finds subst params names bindings)
    (hty : subst[name]? = some ty) :
    Finds subst params (names ++ [name])
      (if params.contains name then bindings.insertIfNew name ty else bindings) := by
  intro other hother
  have hfound := h other hother
  by_cases heq : name = other
  · subst heq
    rw [if_pos (List.contains_iff_mem.mpr hother), Std.TreeMap.getElem?_insertIfNew,
      if_pos (List.mem_append_right names List.mem_cons_self), hty]
    by_cases hmem : name ∈ bindings
    · rw [if_neg (by simp [hmem])]
      split at hfound
      · rw [hfound, hty]
      · rw [Std.TreeMap.mem_iff_isSome_getElem?, hfound] at hmem
        cases hmem
    · rw [if_pos ⟨by simp, hmem⟩]
  · have hsame : (if params.contains name then bindings.insertIfNew name ty else bindings)[other]? =
        bindings[other]? := by
      split
      · rw [Std.TreeMap.getElem?_insertIfNew, if_neg]
        simp [heq]
      · rfl
    rw [hsame, hfound]
    simp [List.mem_append, Ne.symm heq]

/-- The class is the first of its own chain. -/
theorem find?_chain_self (p : Program) (c : ClassId) :
    ((p.chain c).find? fun a => (p.classAt a).struct == (p.classAt c).struct) = some c := by
  rw [Program.chain, Program.chainWithin_succ, List.find?_cons_of_pos]
  simp

mutual

/-- Matching a type expression against the type that it stands for binds what occurs in it. -/
theorem Recorded.finds_unify (hs : Recorded src s) (e : TypeExpr Mark)
    (happlies : appliesClasses src e = true) {ty : Ty}
    (hty : typeOf src s.program subst e = some ty) {bindings : Subst} {names : List String}
    (h : Finds subst params names bindings) :
    Finds subst params (names ++ typeParamsIn src e)
    (unify src s.program params bindings e ty) := by
  have hknown : ty.isUnknown = false := by
    cases ty with
    | unknown => exact absurd rfl (typeOf_ne_unknown hty)
    | _ => rfl
  match e with
  | .primitive _ _ => simpa [typeParamsIn, unify] using h
  | .named m path args =>
    rw [appliesClasses, Bool.and_eq_true, Bool.or_eq_true, List.isEmpty_iff, namesClass] at happlies
    rw [unify, typeParamsIn, hknown]
    simp only [Bool.false_eq_true, if_false]
    cases typeOf_named.mp hty with
    | param htarget hty =>
      rw [htarget] at happlies ⊢
      rw [happlies.1.resolve_right Bool.false_ne_true, typeParamsInAll]
      exact h.insertIfNew hty
    | cls htarget htys _ _ hc =>
      obtain ⟨hstruct, htypeArgs⟩ := (ClassKey.mk.injEq ..).mp (hs.classes.mp hc).2
      simp only [htarget]
      rw [← hstruct, find?_chain_self]
      dsimp only
      rw [htypeArgs]
      exact hs.finds_unifyList args happlies.2 htys h
    | protocol htarget _ _ hkind | enum htarget _ _ hkind =>
      simp only [htarget, hkind] at happlies ⊢
      rw [happlies.1.resolve_right (by decide), typeParamsInAll, List.append_nil]
      exact h

theorem Recorded.finds_unifyList (hs : Recorded src s) (es : List (TypeExpr Mark))
    (happlies : appliesClassesAll src es = true) {tys : List Ty}
    (htys : typesOf src s.program subst es = some tys)
    {bindings : Subst} {names : List String} (h : Finds subst params names bindings) :
    Finds subst params (names ++ typeParamsInAll src es)
    (unifyList src s.program params bindings es tys) := by
  match es with
  | [] =>
    cases htys
    rw [typeParamsInAll, List.append_nil, unifyList]
    exact h
    all_goals simp
  | e :: es =>
    rw [appliesClassesAll, Bool.and_eq_true] at happlies
    obtain ⟨ty, tys', hty, hrest, rfl⟩ := typesOf_cons.mp htys
    rw [unifyList, typeParamsInAll, ← List.append_assoc]
    exact hs.finds_unifyList es happlies.2 hrest (hs.finds_unify e happlies.1 hty h)

end

/-! ### All parameters -/

/-- The induction is on the list of pairs: each of them adds what occurs in it. -/
theorem Recorded.finds_foldl (hs : Recorded src s) (pairs : List (TypeExpr Mark × Ty))
    (hpairs : ∀ pair ∈ pairs, appliesClasses src pair.1 = true ∧
      typeOf src s.program subst pair.1 = some pair.2)
    (h : Finds subst params names bindings) :
    Finds subst params (names ++ typeParamsInAll src (pairs.map Prod.fst))
      (pairs.foldl (fun b pair => unify src s.program params b pair.1 pair.2) bindings) := by
  induction pairs generalizing names bindings with
  | nil => simpa [typeParamsInAll] using h
  | cons pair rest ih =>
    obtain ⟨happlies, hty⟩ := hpairs pair List.mem_cons_self
    rw [List.foldl_cons, List.map_cons, typeParamsInAll, ← List.append_assoc]
    exact ih (fun p hp => hpairs p (List.mem_cons_of_mem _ hp))
      (hs.finds_unify pair.1 happlies hty h)

theorem Recorded.inferTypeArgs_eq (hs : Recorded src s) (subst : Subst)
    {pairs : List (TypeExpr Mark × Ty)}
    (hpairs : ∀ pair ∈ pairs, appliesClasses src pair.1 = true ∧
    typeOf src s.program subst pair.1 = some pair.2) :
    inferTypeArgs src s.program params pairs = params.map fun name =>
      if name ∈ typeParamsInAll src (pairs.map Prod.fst) then subst[name]? else none := by
  have hempty : Finds subst params [] ∅ := fun name _ => by simp
  exact List.map_congr_left fun name hname => hs.finds_foldl pairs hpairs hempty name hname

end

namespace ExactMatch

variable {src : Sources} {u : State} {decl : Function Mark} {outer : Subst} {chosen args : List Ty}

/-- For the type parameters that occur inference finds what they stand for. -/
theorem inferTypeArgs_eq (h : ExactMatch src u decl outer chosen args) (hu : Recorded src u)
    {n : Nat} (hproper : src.Proper n) (hdistinct : decl.typeParams.Nodup)
    (happlies : ∀ param ∈ decl.params, appliesClasses src param.type = true)
    {pairs : List (TypeExpr Mark × Ty)}
    (hpairs : pairs.Perm ((decl.params.map (·.type)).zip args)) :
    inferTypeArgs src u.program decl.typeParams pairs = (decl.typeParams.zip chosen).map
    fun entry =>
      if entry.1 ∈ typeParamsInAll src (decl.params.map (·.type)) then some entry.2 else none := by
  obtain ⟨hlength, hresolved⟩ := List.forall₂_iff_zip.mp h.resolved
  have htypes : (pairs.map Prod.fst).Perm (decl.params.map (·.type)) := by
    rw [← List.map_fst_zip hlength.le]
    exact hpairs.map Prod.fst
  rw [hu.inferTypeArgs_eq (Subst.bind outer decl.typeParams chosen)]
  · have hnames : (decl.typeParams.zip chosen).map Prod.fst = decl.typeParams :=
      List.map_fst_zip h.length.ge
    conv_lhs => rw [← hnames, List.map_map]
    refine List.map_congr_left fun entry hentry => ?_
    rw [Function.comp_apply, hnames, Subst.getElem?_bind_of_mem_zip outer hdistinct hentry]
    simp only [mem_typeParamsInAll, htypes.mem_iff]
  · rintro ⟨e, ty⟩ hpair
    have hzip := hpairs.mem_iff.mp hpair
    obtain ⟨param, hparam, rfl⟩ := List.mem_map.mp (List.of_mem_zip hzip).1
    obtain ⟨r, hsubst, hexpr, rfl⟩ := hresolved hzip
    rw [← hsubst, ← hexpr]
    exact ⟨hexpr ▸ happlies param hparam, r.typeOf_eq hproper⟩

end ExactMatch

end ObjectLang.Check

namespace ObjectLang

open Source Syntax Scope Names Checked Check

/-- In any state of a check, between two requests or in the middle of one: if the type parameters of
a declaration, which are distinct, can stand for types such that every parameter is resolved to
exactly the known type of its argument, then inference finds for each type parameter that occurs
what it stands for, and nothing for the others, in whatever order it looks at the arguments.  So
only one choice is possible for those that occur. -/
theorem inference_finds_exact_match (name : String) (dependencies : List String)
    (files : List (File Hint))
    {u : State} (hu : Recorded (sourcesOf name dependencies files) u) (decl : Function Mark)
    (hdistinct : decl.typeParams.Nodup)
    (happlies : ∀ param ∈ decl.params, appliesClasses (sourcesOf name dependencies files)
      param.type = true)
    {outer : Subst} {chosen args : List Ty}
    (hmatch : ExactMatch (sourcesOf name dependencies files) u decl outer chosen args) :
    (∀ pairs : List (TypeExpr Mark × Ty), pairs.Perm ((decl.params.map (·.type)).zip args) →
      inferTypeArgs (sourcesOf name dependencies files) u.program decl.typeParams pairs =
        (decl.typeParams.zip chosen).map fun entry =>
          if entry.1 ∈ typeParamsInAll (sourcesOf name dependencies files)
            (decl.params.map (·.type))
          then some entry.2 else none) ∧
    ∀ outer' chosen', ExactMatch (sourcesOf name dependencies files) u decl outer' chosen' args →
      ∀ (k : Nat) (T : String), decl.typeParams[k]? = some T →
        T ∈ typeParamsInAll (sourcesOf name dependencies files) (decl.params.map (·.type)) →
        chosen'[k]? = chosen[k]? := by
  obtain ⟨n, hproper⟩ := proper_sources name dependencies files
  refine ⟨fun pairs => hmatch.inferTypeArgs_eq hu hproper hdistinct happlies, ?_⟩
  intro outer' chosen' hmatch' k T hT hoccurs
  have hsame := (hmatch'.inferTypeArgs_eq hu hproper hdistinct happlies (.refl _)).symm.trans
    (hmatch.inferTypeArgs_eq hu hproper hdistinct happlies (.refl _))
  have hk := (List.getElem?_eq_some_iff.mp hT).1
  have hchosen' : k < chosen'.length := hmatch'.length ▸ hk
  have hchosen : k < chosen.length := hmatch.length ▸ hk
  have hentry := congrArg (·[k]?) hsame
  simp only [List.getElem?_map, List.zip, List.getElem?_zipWith, hT] at hentry
  simpa [List.getElem?_eq_getElem hchosen, List.getElem?_eq_getElem hchosen', hoccurs] using hentry

/-- Values in boxes, and a function that makes boxes of the types with which the other one is
called. -/
def pairing : List (File Hint) := [{
  id := 0
  decls := [
    .cls { mark := none, name := "Box", typeParams := ["T"] },
    .function {
      mark := none, name := "pair", typeParams := ["A", "B", "C"]
      params := [
        { mark := none, name := "first", type := .named none ["A"] [] },
        { mark := none, name := "second", type := .named none ["Box"] [.named none ["B"] []] },
        { mark := none, name := "third"
          type := .named none ["Box"] [.named none ["Box"] [.named none ["A"] []]] }]
      body := some (.mk none [] none) },
    .function {
      mark := none, name := "main"
      params := [
        { mark := none, name := "x", type := .named none ["Box"] [.primitive none .string] },
        { mark := none, name := "y"
          type := .named none ["Box"] [.named none ["Box"] [.primitive none .i64]] }]
      body := some (.mk none [] none) }] }]

def pairDecl : Function Mark := ((sourcesOf "app" [] pairing).tree.functionAt 0).decl

theorem checkAll_pairing :
    ∃ u, checkAll (sourcesOf "app" [] pairing) 50 {} = some ((), u) ∧
      typesOf (sourcesOf "app" [] pairing) u.program
        (Subst.bind ∅ pairDecl.typeParams [.i64, .string, .bool]) (pairDecl.params.map (·.type)) =
        some [.i64, .object 0, .object 2] := by
  have hrun : ((checkAll (sourcesOf "app" [] pairing) 50 {}).any fun r =>
      decide (typesOf (sourcesOf "app" [] pairing) r.2.program
        (Subst.bind ∅ pairDecl.typeParams [.i64, .string, .bool]) (pairDecl.params.map (·.type)) =
        some [.i64, .object 0, .object 2])) = true := by
    decide +kernel
  simp only [Option.any_eq_true, decide_eq_true_eq] at hrun
  obtain ⟨⟨_, u⟩, hcheck, hrest⟩ := hrun
  exact ⟨u, hcheck, hrest⟩

/-- Called with an integer, a box of a string and a box of a box of an integer, `pair` gets its
first two type arguments, also when the arguments are looked at from right to left; the third cannot
be found. -/
theorem inference_of_pair :
    ∃ u, Reached (sourcesOf "app" [] pairing) u ∧ pairDecl.typeParams = ["A", "B", "C"] ∧
      inferTypeArgs (sourcesOf "app" [] pairing) u.program pairDecl.typeParams
        ((pairDecl.params.map (·.type)).zip [.i64, .object 0, .object 2]).reverse =
        [some .i64, some .string, none] := by
  obtain ⟨u, hcheck, htypes⟩ := checkAll_pairing
  have hreached : Reached (sourcesOf "app" [] pairing) u :=
    .single ⟨.all, 50, none, trivial, bind_of_eq_some hcheck⟩
  have hu := (hreached.settled (regular_sources "app" [] pairing)
    (proper_sources "app" [] pairing)).recorded
  have hsubst : (Subst.bind ∅ pairDecl.typeParams [.i64, .string, .bool]).Within u.program := by
    apply Subst.Within.empty.bind
    simp [Ty.Within]
  have hmatch : ExactMatch (sourcesOf "app" [] pairing) u pairDecl ∅ [.i64, .string, .bool]
      [.i64, .object 0, .object 2] :=
    ⟨by decide +kernel, (forall₂_typesOf htypes).imp fun e ty hty =>
      Resolution.exists_of_typeOf hu hsubst hty⟩
  have hinfer := (inference_finds_exact_match "app" [] pairing hu pairDecl (by decide +kernel)
    (by decide +kernel) hmatch).1 _ (List.reverse_perm _)
  exact ⟨u, hreached, by decide +kernel, hinfer.trans (by decide +kernel)⟩

def guess : List (File Hint) := [{
  id := 0
  decls := [.function {
    mark := none, name := "f", typeParams := ["T"]
    params := [{ mark := none, name := "x", type := .named none ["T"] [] }]
    body := some (.mk none [] none) }] }]

/-- If the type parameter stands for the unknown type, its parameter is resolved to the unknown
type, but inference finds nothing. -/
theorem inference_of_unknown :
    ∃ param, ((sourcesOf "app" [] guess).tree.functionAt 0).decl.params = [param] ∧
      typeParamsIn (sourcesOf "app" [] guess) param.type = ["T"] ∧
      ((resolveType (sourcesOf "app" [] guess) (requestClass (sourcesOf "app" [] guess) 1)
        (Subst.bind ∅ ["T"] [.unknown]) param.type {}).map (·.1)) = some .unknown ∧
      inferTypeArgs (sourcesOf "app" [] guess) {} ["T"] [(param.type, .unknown)] = [none] := by
  obtain ⟨param, hparam⟩ := List.length_eq_one_iff.mp
    (show ((sourcesOf "app" [] guess).tree.functionAt 0).decl.params.length = 1 by decide +kernel)
  have hall : ∀ param ∈ ((sourcesOf "app" [] guess).tree.functionAt 0).decl.params,
      typeParamsIn (sourcesOf "app" [] guess) param.type = ["T"] ∧
      ((resolveType (sourcesOf "app" [] guess) (requestClass (sourcesOf "app" [] guess) 1)
        (Subst.bind ∅ ["T"] [.unknown]) param.type {}).map (·.1)) = some .unknown ∧
      inferTypeArgs (sourcesOf "app" [] guess) {} ["T"] [(param.type, .unknown)] = [none] := by
    decide +kernel
  exact ⟨param, hparam, hall param (hparam ▸ List.mem_cons_self)⟩

end ObjectLang
