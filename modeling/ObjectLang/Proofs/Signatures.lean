import ObjectLang.Proofs.WorkSteps

/-! # Types and signatures

Resolving a type, and instantiating a function with its signature, leaves a state in order and
whatever has been begun alone, as long as the requests for classes do.
-/

namespace ObjectLang.Check

open Source Syntax Scope Names Diagnostic Checked

/-- Requests for classes keep to the rules, and a class is refused only with a report. -/
def Serves (src : Sources) (closed : Trust) (request : ClassRequest) : Prop :=
  ∀ ⦃w s struct typeArgs span r t⦄, Orderly src closed w s →
    (closed → ∀ ty ∈ typeArgs, ty.Within s.program) → (closed.known → .unknown ∉ typeArgs) →
    request struct typeArgs span s = some (r, t) →
    Orderly src closed w t ∧ Advances w s t ∧ (∀ c, r = some c → c < t.program.classes.size) ∧
      (t.Clean → r = none → (src.tree.structureAt struct).decl.cls? = none)

/-- The types that parameters stand for are types of the program. -/
def Subst.Within (p : Program) (subst : Subst) : Prop :=
  ∀ (name : String) ty, subst[name]? = some ty → ty.Within p

namespace Subst.Within

variable {p q : Program} {subst : Subst}

theorem mono (h : subst.Within p) (hsize : p.classes.size ≤ q.classes.size) : subst.Within q :=
  fun name ty hty => (h name ty hty).mono hsize

theorem empty : Subst.Within p ∅ := fun _ _ h => by simp at h

theorem getD (h : subst.Within p) (name : String) : (subst[name]?.getD .unknown).Within p := by
  cases hty : subst[name]? with
  | none => exact Ty.within_unknown
  | some ty => exact h name ty hty

theorem bind (h : subst.Within p) {params : List String} {args : List Ty}
    (hargs : ∀ ty ∈ args, ty.Within p) : (Subst.bind subst params args).Within p := by
  induction params generalizing subst args with
  | nil => exact h
  | cons param params ih =>
    refine ih ?_ fun ty hty => hargs ty (List.mem_of_mem_tail hty)
    intro name ty hty
    rw [Std.TreeMap.getElem?_insert] at hty
    split at hty
    · cases hty
      cases args with
      | nil => exact Ty.within_unknown
      | cons a as => exact hargs a List.mem_cons_self
    · exact h name ty hty

end Subst.Within

/-- The parameters stand for known types. -/
def Subst.Covers (subst : Subst) (params : List String) : Prop :=
  ∀ name ∈ params, ∃ ty, subst[name]? = some ty ∧ ty ≠ .unknown

theorem Subst.Covers.bind {subst : Subst} {bound params : List String} {args : List Ty}
    (h : subst.Covers bound) (hlength : args.length = params.length) (hargs : .unknown ∉ args) :
    (Subst.bind subst params args).Covers (bound ++ params) := by
  induction params generalizing subst bound args with
  | nil => rwa [List.append_nil, Subst.bind]
  | cons param params ih =>
    cases args with
    | nil => cases hlength
    | cons arg args =>
      rw [List.mem_cons, not_or] at hargs
      have hbound : Subst.Covers (subst.insert param arg) (bound ++ [param]) := by
        intro name hname
        rw [Std.TreeMap.getElem?_insert]
        split
        · exact ⟨arg, rfl, fun h => hargs.1 h.symm⟩
        · next hne =>
          rcases List.mem_append.mp hname with hname | hname
          · exact h name hname
          · rw [List.mem_singleton.mp hname] at hne
            simp at hne
      rw [List.append_cons]
      exact ih hbound (Nat.succ.inj hlength) hargs.2

variable {src : Sources} {closed : Trust} {w : Work} {s t : State}

theorem within_classSubst (hs : Orderly src closed w s) (hc : closed) (c : ClassId) :
    (classSubst src s.program c).Within s.program :=
  Subst.Within.empty.bind ((hs.typed hc).classes c).typeArgs

theorem Orderly.lt_of_known (hs : Orderly src closed w s) {c : ClassId} (hc : Known w s c) :
    c < s.program.classes.size :=
  hc.elim And.left (hs.agenda.lt c)

theorem Orderly.built_of_idle (hs : Orderly src closed w s) (hw : w.active = []) (hc : closed)
    {c : ClassId} (hlt : c < s.program.classes.size) : s.program.Built c := by
  refine ⟨hlt, ?_⟩
  by_contra hprogress
  rcases hs.agenda.progress c hlt (by simpa using hprogress) with hmem | hmem
  · rw [hw] at hmem
    exact List.not_mem_nil hmem
  · have hordered := hs.agenda.ordered hc
    rw [hw] at hordered
    rw [hordered.eq_nil] at hmem
    exact List.not_mem_nil hmem

/-! ### Types -/

section

variable {request : ClassRequest} (hr : Serves src closed request)

include hr

variable {key : FunctionKey} {r : Option FuncId} {span : Span}

theorem orderly_applyStructure {struct : StructureId} {args : List Ty} {ty : Ty}
    (hs : Orderly src closed w s) (hargs : closed → ∀ ty ∈ args, ty.Within s.program)
    (h : applyStructure src request struct args span s = some (ty, t)) :
    Orderly src closed w t ∧ Advances w s t ∧ ty.Within t.program ∧
      (.unknown ∉ args → t.Clean → ty ≠ .unknown) := by
  rw [applyStructure] at h
  split at h
  · rcases bind_some h with ⟨_, s1, h1, h2⟩
    cases h2
    rcases (Quiet.report span).orderly hs h1 with ⟨ht, hst⟩
    cases h1
    exact ⟨ht, hst, Ty.within_unknown, fun _ hclean => absurd hclean (Reports.not_clean (.refl _))⟩
  split at h
  · next hunknown =>
    cases h
    refine ⟨hs, .refl w s, Ty.within_unknown, fun hknown => absurd hunknown ?_⟩
    simpa [Ty.isUnknown] using hknown
  next hknown =>
  have hknown : .unknown ∉ args := by simpa [Ty.isUnknown] using hknown
  cases hdecl : (src.tree.structureAt struct).decl <;> rw [hdecl] at h
  · rcases bind_some h with ⟨r, s1, h1, h2⟩
    rcases hr hs hargs (fun _ => hknown) h1 with ⟨hs1, hst, hlt, hgiven⟩
    cases r with
    | none =>
      cases h2
      refine ⟨hs1, hst, Ty.within_unknown, fun _ hclean => ?_⟩
      have := hgiven hclean rfl
      rw [hdecl] at this
      cases this
    | some c =>
      cases h2
      exact ⟨hs1, hst, fun d hd => hlt d (by rw [Ty.object.inj hd]), fun _ _ => by simp⟩
  · cases h
    exact ⟨hs, .refl w s, fun _ h => (by cases h), fun _ _ => by simp⟩
  · cases h
    exact ⟨hs, .refl w s, fun _ h => (by cases h), fun _ _ => by simp⟩

omit hr

mutual

theorem orderly_resolveType (hr : Serves src closed request) {s t : State} {subst : Subst}
    {e : TypeExpr Mark} {ty : Ty} (hs : Orderly src closed w s)
    (hsubst : closed → subst.Within s.program)
    (h : resolveType src request subst e s = some (ty, t)) :
    Orderly src closed w t ∧ Advances w s t ∧ (closed → ty.Within t.program) ∧
      (∀ params, src.names.Means params e → subst.Covers params → t.Clean → ty ≠ .unknown) := by
  match e with
  | .primitive _ p =>
    cases h
    exact ⟨hs, .refl w s, fun _ => Ty.within_primitive p, fun _ _ _ _ => by simp⟩
  | .named m path args =>
    rw [resolveType] at h
    cases htarget : src.names.target m.node <;> rw [htarget] at h
    case unknown =>
      cases h
      refine ⟨hs, .refl w s, fun _ => Ty.within_unknown, fun _ hmeans => ?_⟩
      rw [Resolution.Means, htarget] at hmeans
      exact hmeans.1.elim
    case typeParam name =>
      rcases when_some h with ⟨s1, h1, h2⟩
      cases h2
      rcases (Quiet.ite (.report m.span) (.pure _)).orderly hs h1 with ⟨ht, hst⟩
      refine ⟨ht, hst, fun hc => ((hsubst hc).mono hst.classes).getD name,
        fun _ hmeans hcovers _ => ?_⟩
      rw [Resolution.Means, htarget] at hmeans
      rcases hcovers name hmeans.1 with ⟨ty, hty, hknown⟩
      rw [hty]
      exact hknown
    case struct id =>
      rcases bind_some h with ⟨tys, s1, h1, h2⟩
      rcases orderly_resolveTypes hr hs hsubst h1 with ⟨hs1, hst1, htys, hknown1⟩
      rcases orderly_applyStructure hr hs1 htys h2 with ⟨ht, hst2, hty, hknown2⟩
      refine ⟨ht, hst1.trans hst2, fun _ => hty, fun params hmeans hcovers hclean => ?_⟩
      rw [Resolution.Means] at hmeans
      exact hknown2 (hknown1 params hmeans.2 hcovers (hst2.clean hclean)) hclean

theorem orderly_resolveTypes (hr : Serves src closed request) {s t : State} {subst : Subst}
    {es : List (TypeExpr Mark)} {tys : List Ty} (hs : Orderly src closed w s)
    (hsubst : closed → subst.Within s.program)
    (h : resolveTypes src request subst es s = some (tys, t)) :
    Orderly src closed w t ∧ Advances w s t ∧ (closed → ∀ ty ∈ tys, ty.Within t.program) ∧
      (∀ params, src.names.MeansAll params es → subst.Covers params → t.Clean →
      .unknown ∉ tys) := by
  match es with
  | [] =>
    cases h
    exact ⟨hs, .refl w s, fun _ _ h => (by cases h), fun _ _ _ _ => by simp⟩
  | e :: es =>
    rcases bind_some h with ⟨ty, s1, h1, h⟩
    rcases bind_some h with ⟨tys', s2, h2, h3⟩
    cases h3
    rcases orderly_resolveType hr hs hsubst h1 with ⟨hs1, hst1, hty, hknown1⟩
    rcases orderly_resolveTypes hr hs1 (fun hc => (hsubst hc).mono hst1.classes) h2 with
      ⟨hs2, hst2, htys, hknown2⟩
    refine ⟨hs2, hst1.trans hst2, fun hc x hx => ?_, fun params hmeans hcovers hclean => ?_⟩
    · rcases List.mem_cons.mp hx with rfl | hx
      · exact (hty hc).mono hst2.classes
      · exact htys hc x hx
    · rw [Resolution.MeansAll] at hmeans
      rw [List.mem_cons, not_or]
      exact ⟨(hknown1 params hmeans.1 hcovers (hst2.clean hclean)).symm,
        hknown2 params hmeans.2 hcovers hclean⟩

end

include hr

theorem orderly_mapM_resolveType {subst : Subst} {params : List (Param Mark)} {tys : List Ty}
    (hs : Orderly src closed w s) (hsubst : closed → subst.Within s.program)
    (h : (params.mapM fun p => resolveType src request subst p.type) s = some (tys, t)) :
    Orderly src closed w t ∧ Advances w s t ∧ (closed → ∀ ty ∈ tys, ty.Within t.program) ∧
      (∀ names, (∀ p ∈ params, src.names.Means names p.type) → subst.Covers names → t.Clean →
        .unknown ∉ tys) := by
  induction params generalizing s tys with
  | nil =>
    cases h
    exact ⟨hs, .refl w _, fun _ _ h => (by cases h), fun _ _ _ _ => by simp⟩
  | cons p ps ih =>
    rw [List.mapM_cons] at h
    rcases bind_some h with ⟨ty, s1, h1, h⟩
    rcases bind_some h with ⟨tys', s2, h2, h3⟩
    cases h3
    rcases orderly_resolveType hr hs hsubst h1 with ⟨hs1, hst1, hty, hknown1⟩
    rcases ih hs1 (fun hc => (hsubst hc).mono hst1.classes) h2 with ⟨hs2, hst2, htys, hknown2⟩
    refine ⟨hs2, hst1.trans hst2, fun hc x hx => ?_, fun names hmeans hcovers hclean => ?_⟩
    · rcases List.mem_cons.mp hx with rfl | hx
      · exact (hty hc).mono hst2.classes
      · exact htys hc x hx
    · rw [List.forall_mem_cons] at hmeans
      rw [List.mem_cons, not_or]
      exact ⟨(hknown1 names hmeans.1 hcovers (hst2.clean hclean)).symm,
        hknown2 names hmeans.2 hcovers hclean⟩

/-! ### Function instances -/

/-- The key of a function mentions types of the program only. -/
structure KeyWithin (p : Program) (key : FunctionKey) : Prop where
  typeArgs : ∀ ty ∈ key.typeArgs, ty.Within p
  receiver : ∀ ty, key.receiver = some ty → ty.Within p

omit hr in
theorem KeyWithin.mono {p q : Program} (h : KeyWithin p key)
    (hsize : p.classes.size ≤ q.classes.size) :
    KeyWithin q key :=
  ⟨fun ty hty => (h.typeArgs ty hty).mono hsize, fun ty hty => (h.receiver ty hty).mono hsize⟩

omit hr in
theorem ownerOf_eq_some {c : ClassId} (h : ownerOf src key = some c) :
    key.receiver = some (.object c) := by
  rw [ownerOf] at h
  split at h
  · next hr =>
    rw [hr, Option.some.inj h]
  · cases h

theorem orderly_resolveReturn {subst : Subst} {kind : FunctionKind}
    {clause : Option (TypeExpr Mark)}
    {ty : Ty} (hs : Orderly src closed w s) (hsubst : closed → subst.Within s.program)
    (h : resolveReturn src request subst kind clause s = some (ty, t)) :
    Orderly src closed w t ∧ Advances w s t ∧ (closed → ty.Within t.program) ∧
      (∀ params, (∀ e, clause = some e → src.names.Means params e) → subst.Covers params → t.Clean →
        ty ≠ .unknown) := by
  have hcases : resolveReturn src request subst kind clause = pure .void ∨
      ∃ e, clause = some e ∧ resolveReturn src request subst kind clause =
      resolveType src request subst e := by
    rw [resolveReturn.eq_def]
    split
    · exact .inl rfl
    · exact .inl rfl
    · exact .inr ⟨_, rfl, rfl⟩
  rcases hcases with hvoid | ⟨e, hclause, he⟩
  · rw [hvoid] at h
    cases h
    exact ⟨hs, .refl w s, fun _ => Ty.within_primitive _, fun _ _ _ _ => by simp [Ty.void]⟩
  · rw [he] at h
    rcases orderly_resolveType hr hs hsubst h with ⟨ht, hst, hty, hknown⟩
    exact ⟨ht, hst, hty, fun params hmeans => hknown params (hmeans e hclause)⟩

omit hr in
theorem within_functionSubst (hs : Orderly src closed w s) (hc : closed)
    (hkey : KeyWithin s.program key)
    (owner : Option ClassId) : (functionSubst src s.program key owner).Within s.program := by
  refine Subst.Within.bind ?_ hkey.typeArgs
  cases owner with
  | none => exact .empty
  | some c => exact within_classSubst hs hc c

omit hr in
theorem within_signed {p : Program} {f : FuncInst} {params : List (Param Mark)} {types : List Ty}
    {returnType : Ty} {linkName : String} {exported : Bool} (hf : f.Within p)
    (htypes : ∀ ty ∈ types, ty.Within p) (hreturn : returnType.Within p) :
    (signed params types returnType linkName exported f).Within p := by
  refine ⟨hf.typeArgs, hf.receiver, fun x hx => ?_, fun x hx => ?_, hreturn⟩
  · rcases List.mem_map.mp hx with ⟨⟨⟨param, ty⟩, k⟩, hmem, rfl⟩
    refine ⟨htypes ty (List.of_mem_zip (List.fst_mem_of_mem_zipIdx hmem)).2, ?_⟩
    rw [signed, List.length_map]
    exact List.snd_lt_of_mem_zipIdx hmem
  · rcases List.mem_map.mp hx with ⟨⟨param, ty⟩, hmem, rfl⟩
    exact htypes ty (List.of_mem_zip hmem).2

omit hr in
theorem known_signed {f : FuncInst} {params : List (Param Mark)} {types : List Ty} {returnType : Ty}
    {linkName : String} {exported : Bool} (htypes : .unknown ∉ types)
    (hreturn : returnType ≠ .unknown) :
    (signed params types returnType linkName exported f).Known := by
  refine ⟨fun hmem => ?_, hreturn⟩
  rcases List.mem_map.mp hmem with ⟨x, hx, hty⟩
  rcases List.mem_map.mp hx with ⟨⟨⟨param, ty⟩, k⟩, hmem, rfl⟩
  cases hty
  exact htypes (List.of_mem_zip (List.fst_mem_of_mem_zipIdx hmem)).2

omit hr in
/-- What a function that is not exported has before its number. -/
theorem exists_stem (p : Program) (id : FuncId) {f : FuncInst} (hf : Answers src key f)
    (hdisplays : src.tree.Unmarked → ∀ c, Unmarked (p.classAt c).display)
    (hlocal : (src.tree.functionAt key.symbol).kind = .free → key.typeArgs ≠ []) :
    Stem src f (linkName src p (src.tree.functionAt key.symbol) id key.typeArgs
      (ownerOf src key) true ++
        p.displayTypeArgs src.tree key.typeArgs) ∧
      (src.tree.Unmarked → Unmarked (linkName src p (src.tree.functionAt key.symbol) id key.typeArgs
        (ownerOf src key) true ++ p.displayTypeArgs src.tree key.typeArgs)) := by
  have hargs (ht : src.tree.Unmarked) :=
    Program.unmarked_displayTypeArgs ht (hdisplays ht) key.typeArgs
  have hdot : Unmarked "." := by decide
  have hmember (hns : ∀ ns, (src.tree.functionAt key.symbol).owner ≠ .ns ns) {m : SymbolId}
      {ns : NamespaceId}
      (hsymbol : f.symbol = some m) (howner : (src.tree.functionAt m).owner = .ns ns) : f.typeArgs ≠
      [] := by
    cases hf.symbol.symm.trans hsymbol
    exact absurd howner (hns ns)
  cases hclass : ownerOf src key with
  | some c =>
    rw [linkName_class]
    refine ⟨.compound (.inl (by simp)) (hmember fun ns howner => ?_), fun ht => ?_⟩
    · rw [ownerOf, howner] at hclass
      cases hclass
    · exact (((hdisplays ht c).append hdot).append (ht.functions _)).append (hargs ht)
  | none =>
    cases howner : (src.tree.functionAt key.symbol).owner with
    | struct s =>
      rw [linkName_struct p id _ howner]
      refine ⟨.compound (.inl (by simp)) (hmember fun ns hns => ?_), fun ht => ?_⟩
      · rw [howner] at hns
        cases hns
      · exact (((ht.paths s).append hdot).append (ht.functions _)).append (hargs ht)
    | ns ns =>
      rw [linkName_ns p id _ howner]
      refine ⟨?_, fun ht => (ht.qualified howner).append (hargs ht)⟩
      by_cases hnil : key.typeArgs = []
      · rw [hnil, Program.displayTypeArgs, List.isEmpty_nil, if_pos rfl, String.append_empty]
        exact .own hf.symbol howner (fun hkind => hlocal hkind hnil) (hf.typeArgs.trans hnil)
      · refine .compound (.inr ?_) fun _ _ => hf.typeArgs ▸ hnil
        rw [Program.displayTypeArgs, if_neg (by simpa using hnil)]
        simp

omit hr in
theorem label_signed {p : Program} (id : FuncId) {f : FuncInst} (params : List (Param Mark))
    (types : List Ty) (returnType : Ty) (hf : Answers src key f)
    (hdisplays : src.tree.Unmarked → ∀ c, Unmarked (p.classAt c).display) {exported : Bool}
    (hexported : exported = ((src.tree.functionAt key.symbol).kind == .free &&
      key.typeArgs.isEmpty)) :
    Label src id (signed params types returnType
      (linkName src p (src.tree.functionAt key.symbol) id key.typeArgs (ownerOf src key) exported)
      exported f) := by
  have hsigned (linkName : String) :
      Answers src key (signed params types returnType linkName exported f) :=
    ⟨hf.symbol, hf.name, hf.kind, hf.typeArgs, hf.receiver, hf.owner⟩
  cases exported with
  | true =>
    have hexported := Bool.and_eq_true_iff.mp hexported.symm
    have hkind := eq_of_beq hexported.1
    have hnil := List.isEmpty_iff.mp hexported.2
    refine .exported rfl hf.symbol hkind (hf.typeArgs.trans hnil) fun ns howner => ?_
    have hclass : ownerOf src key = none := by rw [ownerOf, howner]
    rw [hclass]
    exact linkName_ns p id key.typeArgs howner
  | false =>
    have hlocal (hkind : (src.tree.functionAt key.symbol).kind = .free) : key.typeArgs ≠ [] := by
      intro hnil
      rw [hkind, hnil] at hexported
      cases hexported
    obtain ⟨hstem, hunmarked⟩ := exists_stem p id (hsigned _) hdisplays hlocal
    exact .numbered rfl hstem hunmarked (linkName_numbered p _ id _ _)

omit hr in
/-- The names in a method's signature mean something, and stand for known types if they are type
parameters. -/
theorem Orderly.signature_of_method {c : ClassId} (hs : Orderly src closed w s)
    (h : Flawless src closed s) (hc : Known w s c) (hmethod : ∃ n : String,
      (src.tree.structureAt (s.program.classAt c).struct).methods[n]? = some key.symbol)
    (hplain : (src.tree.functionAt key.symbol).decl.typeParams = []) :
    ∃ names, (∀ p ∈ (src.tree.functionAt key.symbol).decl.params, src.names.Means names p.type) ∧
      (∀ e, (src.tree.functionAt key.symbol).decl.returnType = some e → src.names.Means names e) ∧
      (functionSubst src s.program key (some c)).Covers names := by
  rcases hs.catalogue.declared (hs.lt_of_known hc) with ⟨decl, hdecl⟩
  rcases hmethod with ⟨n, hn⟩
  have hmeans := h.named hdecl hn
  have happlied := (hs.uniform h).applied (hs.lt_of_known hc)
  refine ⟨_, hmeans.params, hmeans.returnType, ?_⟩
  rw [functionSubst, hplain, Subst.bind, classSubst,
    ← StructureDecl.typeParams_of_cls? hdecl]
  exact Subst.Covers.bind (fun _ h => absurd h List.not_mem_nil) happlied.length happlied.known

omit hr in
theorem Answers.alike {f g : FuncInst} (h : Answers src key f) (hg : f.Alike g) :
    Answers src key g :=
  ⟨hg.symbol.trans h.symbol, hg.name.trans h.name, hg.kind.trans h.kind,
    hg.typeArgs.trans h.typeArgs, hg.receiver.trans h.receiver, hg.owner.trans h.owner⟩

omit hr in
theorem orderly_sign {params : List (Param Mark)} {types : List Ty} {returnType : Ty}
    {linkName : String} {exported : Bool} {id : FuncId} (hs : Orderly src closed (w.sign id) s)
    (hid : id < s.program.functions.size) (htypes : closed → ∀ ty ∈ types, ty.Within s.program)
    (hreturn : closed → returnType.Within s.program)
    (h : updateFunction id (signed params types returnType linkName exported) s = some ((), t)) :
    Orderly src closed (w.sign id) t ∧ Advances (w.sign id) s t ∧
      t.program.functionAt id =
        signed params types returnType linkName exported (s.program.functionAt id) := by
  cases h
  refine ⟨hs.updateFunction hid ⟨⟨rfl, rfl, rfl, rfl, rfl⟩, rfl, rfl, rfl, rfl⟩
    (.inl List.mem_cons_self) fun hc => ?_,
    .updateFunction hid List.mem_cons_self ⟨rfl, rfl, rfl, rfl, rfl, rfl, rfl, rfl⟩ rfl, ?_⟩
  · exact within_signed ((hs.typed hc).functions id) (htypes hc) (hreturn hc)
  · rw [Program.functionAt_updateFunction _ _ hid, if_pos rfl]

/-- While its signature is being resolved, the function is in the tables already. -/
theorem orderly_instantiateFunction {owner : Option ClassId} {id : FuncId}
    (hs : Orderly src closed w s) (hkey : closed → KeyWithin s.program key)
    (hcount : key.typeArgs.length = (src.tree.functionAt key.symbol).decl.typeParams.length)
    (hbare : closed.known → Bare src key) (howner : owner = ownerOf src key)
    (hclass : closed → ∀ c, owner = some c → Known w s c)
    (h : instantiateFunction src request key owner s = some (id, t)) :
    Orderly src closed w t ∧ Advances w s t ∧ id < t.program.functions.size ∧
      Answers src key (t.program.functionAt id) := by
  rw [instantiateFunction] at h
  rcases bind_some h with ⟨outer, s0, hget, h⟩
  cases hget
  rcases bind_some h with ⟨new, s1, h1, h⟩
  rcases bind_some h with ⟨types, s2, h2, h⟩
  rcases bind_some h with ⟨returnType, s3, h3, h⟩
  rcases bind_some h with ⟨p, s3', hp, h⟩
  cases hp
  rcases bind_some h with ⟨_, s4, h4, h⟩
  rcases bind_some h with ⟨_, s5, h5, h⟩
  rcases when_some h with ⟨s6, h6, h⟩
  cases h
  have hanswer : Answers src key (unsigned src key owner) := ⟨rfl, rfl, rfl, rfl, rfl, howner⟩
  have hwithin (hc : closed) : (unsigned src key owner).Within s.program :=
    ⟨(hkey hc).typeArgs, (hkey hc).receiver, nofun, nofun, Ty.within_unknown⟩
  -- From here on the function is one of those whose signature is being resolved.
  rcases hs.openFunction ⟨rfl, fun _ => rfl⟩ hanswer hbare
    (fun c hc => ownerOf_eq_some (howner ▸ hc))
    hclass hwithin ⟨rfl, nofun⟩ h1 with ⟨hs1, hst1, rfl, hid1, hnew⟩
  have hsub (hc : closed) := within_functionSubst hs hc (hkey hc) owner
  have hsub1 (hc : closed) := (hsub hc).mono hst1.classes
  rcases orderly_mapM_resolveType hr hs1 hsub1 h2 with ⟨hs2, hst2, htypes, hknown2⟩
  rcases orderly_resolveReturn hr hs2 (fun hc => (hsub1 hc).mono hst2.classes) h3 with
    ⟨hs3, hst3, hreturn, hknown3⟩
  have hid3 := Nat.lt_of_lt_of_le hid1 (hst2.trans hst3).functions
  have hkey3 := hanswer.alike (hnew ▸ (hst2.trans hst3).alike hid1)
  rcases orderly_sign hs3 hid3 (fun hc ty hty => (htypes hc ty hty).mono hst3.classes)
    hreturn h4 with ⟨hs4, hst4, hsigned⟩
  have hid4 := Nat.lt_of_lt_of_le hid3 hst4.functions
  have hkey4 := hkey3.alike (hst4.alike hid3)
  rcases hs4.closeFunction hid4 hkey4 h5 with ⟨hs5, hst5⟩
  have hid5 := Nat.lt_of_lt_of_le hid4 hst5.functions
  have hkey5 := hkey4.alike (hst5.alike hid4)
  have hst15 := hst2.trans (hst3.trans (hst4.trans hst5))
  have htask : TaskFits closed s5.program
      (bodyTask src key owner (functionSubst src s.program key owner) s.depth
        s.program.functions.size) := by
    refine ⟨hid5, howner.trans hkey5.owner.symm, ?_, fun hc => (hsub1 hc).mono hst15.classes⟩
    rw [bodyTask, howner, hkey5.kind, hkey5.owner, hkey5.receiver]
  have hst := hst1.trans_sign (Nat.le_refl _) hst15
  have hs5 : Orderly src closed w s5 := by
    have hself : s5.program.functionAt s.program.functions.size =
        s4.program.functionAt s.program.functions.size := by
      cases h5
      rfl
    refine hs5.unsign ?_ fun hflawless c m hm => ?_
    · rw [hself, hsigned, howner]
      exact label_signed _ _ _ _ hkey3 hs3.labels.displays rfl
    obtain rfl : key.symbol = m := Option.some.inj (hkey5.symbol.symm.trans hm.symbol)
    obtain rfl : owner = some c := (howner.trans hkey5.owner.symm).trans hm.owner
    have hc := hclass hflawless.within c rfl
    have hplain : (src.tree.functionAt key.symbol).decl.typeParams = [] := by
      rw [← List.length_eq_zero_iff, ← hcount, ← hkey5.typeArgs, hm.typeArgs, List.length_nil]
    have hdeclared := hm.declared
    rw [(hst.kept hc).1] at hdeclared
    rcases hs.signature_of_method (hflawless.of_clean hst.clean) hc hdeclared hplain with
      ⟨names, hparams, hclause, hcovers⟩
    have hclean3 := (hst4.trans hst5).clean hflawless.clean
    rw [hself, hsigned]
    exact known_signed (hknown2 names hparams hcovers (hst3.clean hclean3))
      (hknown3 names hclause hcovers hclean3)
  split at h6
  · cases h6
    rcases hs5.queueBody htask with ⟨hs6, hst6⟩
    exact ⟨hs6, hst.trans hst6, hid5, hkey5⟩
  · cases h6
    exact ⟨hs5, hst, hid5, hkey5⟩

theorem orderly_instantiateWithin {owner : Option ClassId} (hs : Orderly src closed w s)
    (hkey : closed → KeyWithin s.program key)
    (hcount : key.typeArgs.length = (src.tree.functionAt key.symbol).decl.typeParams.length)
    (hbare : closed.known → Bare src key) (howner : owner = ownerOf src key)
    (hclass : closed → ∀ c, owner = some c → Known w s c)
    (h : instantiateWithin src request key owner span s = some (r, t)) :
    Orderly src closed w t ∧ Advances w s t ∧ ∀ f, r = some f →
      f < t.program.functions.size ∧ Answers src key (t.program.functionAt f) := by
  rw [instantiateWithin] at h
  rcases bind_some h with ⟨_, _, hget, h⟩
  cases hget
  split at h
  · rcases bind_some h with ⟨_, s1, h1, h2⟩
    cases h2
    rcases (Quiet.report span).orderly hs h1 with ⟨ht, hst⟩
    exact ⟨ht, hst, nofun⟩
  · rcases bind_some h with ⟨f, s1, h1, h2⟩
    cases h2
    rcases orderly_instantiateFunction hr hs hkey hcount hbare howner hclass h1 with ⟨ht, hst, hf⟩
    refine ⟨ht, hst, fun g hg => ?_⟩
    cases hg
    exact hf

/-- The function is what a key asks for; for a member of a class that was asked for without a
receiver its only class is filled in. -/
structure Satisfies (src : Sources) (key : FunctionKey) (f : FuncInst) : Prop where
  answers : Answers src { key with receiver := f.receiver } f
  receiver : (∀ s, (src.tree.functionAt key.symbol).owner = .struct s →
    ∃ c, key.receiver = some (.object c)) → f.receiver = key.receiver

omit hr in
theorem Answers.satisfies {f : FuncInst} (h : Answers src key f) : Satisfies src key f := by
  refine ⟨?_, fun _ => h.receiver⟩
  rw [h.receiver]
  exact h

/-- A member is asked for of a class that is being built, or while no class is. -/
def Timely (w : Work) (key : FunctionKey) : Prop :=
  w.active = [] ∨ ∃ c ∈ w.active, key.receiver = some (.object c)

omit hr in
theorem Timely.known {c : ClassId} (h : Timely w key) (hs : Orderly src closed w s) (hc : closed)
    (hkey : KeyWithin s.program key) (hreceiver : key.receiver = some (.object c)) :
    Known w s c := by
  rcases h with hidle | ⟨d, hd, heq⟩
  · exact .inl (hs.built_of_idle hidle hc (hkey.receiver _ hreceiver c rfl))
  · obtain rfl : c = d := Ty.object.inj (Option.some.inj (hreceiver.symm.trans heq))
    exact .inr hd

theorem orderly_requestMember {struct id : StructureId} (hs : Orderly src closed w s)
    (hkey : closed → KeyWithin s.program key)
    (hcount : key.typeArgs.length = (src.tree.functionAt key.symbol).decl.typeParams.length)
    (htimely : closed → Timely w key) (howner : (src.tree.functionAt key.symbol).owner = .struct id)
    (hreceiver : ∀ c, key.receiver ≠ some (.object c))
    (h : requestMember src request key struct span s = some (r, t)) :
    Orderly src closed w t ∧ Advances w s t ∧ ∀ f, r = some f →
      f < t.program.functions.size ∧ Satisfies src key (t.program.functionAt f) := by
  rw [requestMember] at h
  split at h
  · cases h
    exact ⟨hs, .refl w s, nofun⟩
  rcases bind_some h with ⟨found, s1, h1, h⟩
  rcases hr hs (fun _ => by simp) (fun _ => by simp) h1 with ⟨hs1, hst1, hlt, -⟩
  cases found with
  | none =>
    cases h
    exact ⟨hs1, hst1, nofun⟩
  | some c =>
    rcases bind_some h with ⟨found, s2, h2, h⟩
    rcases hs1.findFunction h2 with ⟨hs2, hst2, hfound⟩
    have hanswer {f : FuncInst} (hf : Answers src { key with receiver := some (.object c) } f) :
        Satisfies src key f := by
      refine ⟨?_, fun hobj => ?_⟩
      · rw [hf.receiver]
        exact ⟨hf.symbol, hf.name, hf.kind, hf.typeArgs, hf.receiver, hf.owner⟩
      · rcases hobj id howner with ⟨d, hd⟩
        exact absurd hd (hreceiver d)
    cases found with
    | some f =>
      cases h
      refine ⟨hs2, hst1.trans hst2, fun g hg => ?_⟩
      cases hg
      exact ⟨(hfound f rfl).1, hanswer (hfound f rfl).2⟩
    | none =>
      have hkey2 (hc : closed) :
          KeyWithin s2.program { key with receiver := some (.object c) } := by
        have hst := hst1.trans hst2
        refine ⟨fun ty hty => ((hkey hc).typeArgs ty hty).mono hst.classes, fun ty hty d hd => ?_⟩
        cases hty
        cases hd
        exact Nat.lt_of_lt_of_le (hlt c rfl) hst2.classes
      have hclass (hc : closed) (d : ClassId) (hd : some c = some d) : Known w s2 d := by
        have hidle := (htimely hc).resolve_right fun ⟨d, _, hd⟩ => hreceiver d hd
        cases hd
        exact .inl (hs2.built_of_idle hidle hc (Nat.lt_of_lt_of_le (hlt c rfl) hst2.classes))
      rcases orderly_instantiateWithin hr hs2 hkey2 hcount (fun _ => bare_of_struct howner)
        (by rw [ownerOf, howner]) hclass h with
        ⟨ht, hst3, hf⟩
      exact ⟨ht, hst1.trans (hst2.trans hst3), fun f hr => ⟨(hf f hr).1, hanswer (hf f hr).2⟩⟩

theorem orderly_requestFunction (hs : Orderly src closed w s)
    (hkey : closed → KeyWithin s.program key)
    (htimely : closed → Timely w key) (hbare : closed.known → Bare src key)
    (h : requestFunction src request key span s = some (r, t)) :
    Orderly src closed w t ∧ Advances w s t ∧ ∀ f, r = some f →
      f < t.program.functions.size ∧ Satisfies src key (t.program.functionAt f) := by
  rw [requestFunction] at h
  rcases bind_some h with ⟨found, s1, h1, h⟩
  rcases hs.findFunction h1 with ⟨hs1, hst1, hfound⟩
  have hkey1 (hc : closed) := (hkey hc).mono hst1.classes
  cases found with
  | some f =>
    cases h
    refine ⟨hs1, hst1, fun g hg => ?_⟩
    cases hg
    exact ⟨(hfound f rfl).1, (hfound f rfl).2.satisfies⟩
  | none =>
    dsimp only at h
    split at h
    · cases h
      exact ⟨hs1, hst1, nofun⟩
    split at h
    · rcases bind_some h with ⟨_, s2, h2, h3⟩
      cases h3
      rcases (Quiet.report span).orderly hs1 h2 with ⟨ht, hst2⟩
      exact ⟨ht, hst1.trans hst2, nofun⟩
    next hcount =>
    have hcount := not_not.mp hcount
    have hwithin {owner : Option ClassId} (howner : owner = ownerOf src key)
        (h : instantiateWithin src request key owner span s1 = some (r, t)) :
        Orderly src closed w t ∧ Advances w s t ∧ ∀ f, r = some f →
          f < t.program.functions.size ∧ Satisfies src key (t.program.functionAt f) := by
      have hclass (hc : closed) (c : ClassId) (h : owner = some c) : Known w s1 c :=
        (htimely hc).known hs1 hc (hkey1 hc) (ownerOf_eq_some (howner ▸ h))
      rcases orderly_instantiateWithin hr hs1 hkey1 hcount hbare howner hclass h with ⟨ht, hst2, hf⟩
      exact ⟨ht, hst1.trans hst2, fun f hr => ⟨(hf f hr).1, (hf f hr).2.satisfies⟩⟩
    have hmember {id : StructureId} (howner : (src.tree.functionAt key.symbol).owner = .struct id)
        (hreceiver : ∀ c, key.receiver ≠ some (.object c))
        (h : requestMember src request key id span s1 = some (r, t)) :
        Orderly src closed w t ∧ Advances w s t ∧ ∀ f, r = some f →
          f < t.program.functions.size ∧ Satisfies src key (t.program.functionAt f) := by
      rcases orderly_requestMember hr hs1 hkey1 hcount htimely howner hreceiver
        h with ⟨ht, hst2, hf⟩
      exact ⟨ht, hst1.trans hst2, hf⟩
    cases howner : (src.tree.functionAt key.symbol).owner with
    | ns ns =>
      rw [howner] at h
      exact hwithin (by rw [ownerOf, howner]) h
    | struct id =>
      rw [howner] at h
      cases hreceiver : key.receiver with
      | none =>
        rw [hreceiver] at h
        exact hmember howner (by simp [hreceiver]) h
      | some ty =>
        rw [hreceiver] at h
        cases ty with
        | object c => exact hwithin (by rw [ownerOf, howner, hreceiver]) h
        | primitive _ => exact hmember howner (by simp [hreceiver]) h
        | protocol _ => exact hmember howner (by simp [hreceiver]) h
        | enum _ => exact hmember howner (by simp [hreceiver]) h
        | unknown => exact hmember howner (by simp [hreceiver]) h

omit hr in
/-- A member of a class that has no type parameters of its own is refused only with a report. -/
theorem requestFunction_ne_none {c : ClassId} (hreceiver : key.receiver = some (.object c))
    (htypeArgs : key.typeArgs = []) (hkind : (src.tree.functionAt key.symbol).kind ≠ .requirement)
    (h : requestFunction src request key span s = some (r, t)) (ht : t.Clean) : r ≠ none := by
  have hwithin {owner : Option ClassId} {s : State}
      (h : instantiateWithin src request key owner span s = some (r, t)) : r ≠ none := by
    rw [instantiateWithin] at h
    rcases bind_some h with ⟨_, _, hget, h⟩
    cases hget
    rw [htypeArgs, if_neg (by simp)] at h
    rcases bind_some h with ⟨f, s1, -, h2⟩
    cases h2
    simp
  rw [requestFunction] at h
  rcases bind_some h with ⟨found, s1, -, h⟩
  cases found with
  | some f =>
    cases h
    simp
  | none =>
    dsimp only at h
    rw [if_neg hkind] at h
    split at h
    · rcases bind_some h with ⟨_, s2, h2, h3⟩
      cases h2
      cases h3
      exact absurd ht (Reports.not_clean (.refl _))
    cases howner : (src.tree.functionAt key.symbol).owner <;> rw [howner, hreceiver] at h
    · exact hwithin h
    · exact hwithin h

end

end ObjectLang.Check
