import ObjectLang.Proofs.Signatures

/-! # Building classes

A class that was begun is placed below its ancestor, gets its methods, its initializer and its
table, and ends up among the built ones; then it is the turn of those that waited for it.
-/

namespace ObjectLang.Check

open Source Syntax Scope Names Diagnostic Checked

variable {src : Sources} {closed : Trust} {w : Work} {s t : State} {cls : ClassId}

/-- What the tree of declarations says of members is so. -/
structure Sources.Regular (src : Sources) : Prop where
  nodes : ∀ {s decl}, (src.tree.structureAt s).decl.cls? = some decl →
    (decl.methods.map (·.mark.node)).Nodup
  methods : ∀ {s f} {n : String}, (src.tree.structureAt s).methods[n]? = some f →
    (src.tree.functionAt f).owner = .struct s ∧ (src.tree.functionAt f).name = n
  init : ∀ {s f}, (src.tree.structureAt s).init = some f →
    (src.tree.functionAt f).owner = .struct s ∧ (src.tree.functionAt f).kind = .init
  functions : ∀ {ns f} {n : String}, src.tree.functionIn ns n = some f →
    f < src.tree.functions.size ∧ ∃ ns', (src.tree.functionAt f).owner = .ns ns'
  extensions : ∀ {ns f} {n : String}, f ∈ src.tree.extensionsIn ns n →
    (∃ ns', (src.tree.functionAt f).owner = .ns ns') ∧ (src.tree.functionAt f).kind = .extension

theorem Orderly.not_known (hs : Orderly src closed (w.begin cls) s)
    (h : (s.program.classAt cls).inProgress = true) : ¬Known w s cls := by
  rintro (hbuilt | hactive)
  · rw [hbuilt.2] at h
    cases h
  · exact (List.nodup_cons.mp hs.agenda.nodup).1 (List.mem_append_left _ hactive)

theorem Orderly.lt_of_begin (hs : Orderly src closed (w.begin cls) s) :
    cls < s.program.classes.size :=
  hs.agenda.lt cls List.mem_cons_self

theorem Program.not_built {p : Program} (h : (p.classAt cls).inProgress = true) : ¬p.Built cls :=
  fun hbuilt => by simp [hbuilt.2] at h

/-! ### Fields -/

/-- The fields of a class so far: those of its ancestor and then its own. -/
structure Laying (cls : ClassId) (base fields : List FieldInst) : Prop where
  inherited : base <+: fields
  indexed : ∀ {i} {field : FieldInst}, fields[i]? = some field → field.index = i
  distinct : (fields.map (·.name)).Nodup
  declared : ∀ field ∈ fields, field ∈ base ∨ field.declaredIn = cls

theorem Laying.append {base fields : List FieldInst} {field : FieldInst}
    (h : Laying cls base fields)
    (hindex : field.index = fields.length) (hcls : field.declaredIn = cls)
    (hname : fields.any (·.name == field.name) = false) : Laying cls base (fields ++ [field]) where
  inherited := h.inherited.trans (List.prefix_append _ _)
  indexed {i f} hf := by
    rw [List.getElem?_append] at hf
    split at hf
    · exact h.indexed hf
    · rw [List.getElem?_singleton] at hf
      split at hf
      · cases hf
        omega
      · cases hf
  distinct := by
    rw [List.map_append, List.map_singleton, List.nodup_append]
    refine ⟨h.distinct, List.nodup_singleton _, fun name hmem other hother => ?_⟩
    rcases List.mem_map.mp hmem with ⟨f, hf, rfl⟩
    rw [List.mem_singleton.mp hother]
    simpa using List.any_eq_false.mp hname f hf
  declared f hf := by
    rcases List.mem_append.mp hf with hf | hf
    · exact h.declared f hf
    · rw [List.mem_singleton.mp hf]
      exact .inr hcls

section

variable {request : ClassRequest} (hr : Serves src closed request)

include hr

variable {fields : List FieldInst} {subst : Subst}

theorem orderly_layoutFields {base out : List FieldInst} {decls : List (Syntax.Field Mark)}
    (hs : Orderly src closed w s) (hsubst : closed → subst.Within s.program)
    (hl : Laying cls base fields) (hwithin : closed → ∀ field ∈ fields, field.ty.Within s.program)
    (h : layoutFields src request cls subst fields decls s = some (out, t)) :
    Orderly src closed w t ∧ Advances w s t ∧ Laying cls base out ∧
      (closed → ∀ field ∈ out, field.ty.Within t.program) := by
  induction decls generalizing s fields with
  | nil =>
    cases h
    exact ⟨hs, .refl w _, hl, hwithin⟩
  | cons decl decls ih =>
    rw [layoutFields] at h
    rcases bind_some h with ⟨ty, s1, h1, h⟩
    rcases orderly_resolveType hr hs hsubst h1 with ⟨hs1, hst1, hty, -⟩
    have hsubst1 (hc : closed) := (hsubst hc).mono hst1.classes
    have hwithin1 (hc : closed) (field) (hf : field ∈ fields) :=
      (hwithin hc field hf).mono hst1.classes
    split at h
    · rcases bind_some h with ⟨_, s2, h2, h3⟩
      rcases (Quiet.report _).orderly hs1 h2 with ⟨hs2, hst2⟩
      rcases ih hs2 (fun hc => (hsubst1 hc).mono hst2.classes) hl
        (fun hc field hf => (hwithin1 hc field hf).mono hst2.classes) h3 with ⟨ht, hst3, hrest⟩
      exact ⟨ht, hst1.trans (hst2.trans hst3), hrest⟩
    · next hname =>
      have hl' : Laying cls base
          (fields ++ [⟨decl.name, ty, fields.length, cls, decl.mark.span⟩]) :=
        hl.append rfl rfl (by simpa using hname)
      have hwithin' (hc : closed) (field : FieldInst)
          (hf : field ∈ fields ++ [⟨decl.name, ty, fields.length, cls, decl.mark.span⟩]) :
          field.ty.Within s1.program := by
        rcases List.mem_append.mp hf with hf | hf
        · exact hwithin1 hc field hf
        · rw [List.mem_singleton.mp hf]
          exact hty hc
      rcases ih hs1 hsubst1 hl' hwithin' h with ⟨ht, hst2, hrest⟩
      exact ⟨ht, hst1.trans hst2, hrest⟩

omit hr

/-! ### Placing a class -/

def inheritedFields (p : Program) : Option ClassId → List FieldInst
  | some a => (p.classAt a).fields
  | none => []

def inheritedSlots (p : Program) : Option ClassId → List FuncId
  | some a => (p.classAt a).slotOwners
  | none => []

/-- What is recorded of a class when it is placed. -/
structure Place where
  chainId : Nat
  root : ClassId
  ancestor : Option ClassId
  fields : List FieldInst
  slotOwners : List FuncId

/-- The program with a class put in its place. -/
def placeClass (p : Program) (cls : ClassId) (x : Place) : Program :=
  p.updateClass cls fun c => { c with
    chainId := x.chainId, root := x.root, ancestor := x.ancestor, fields := x.fields
    slotOwners := x.slotOwners }

/-- The place fits below the ancestor. -/
structure Place.Fits (p : Program) (cls : ClassId) (x : Place) : Prop where
  of_none : x.ancestor = none → x.root = cls ∧ x.chainId = 0
  built : ∀ a, x.ancestor = some a → p.Built a
  of_some : ∀ a, x.ancestor = some a →
    x.root = (p.classAt a).root ∧ (p.classAt a).chainId < x.chainId
  free : ∀ d < p.classes.size, d ≠ cls → (p.classAt d).root = x.root →
    (p.classAt d).chainId ≠ x.chainId
  counted : x.chainId < (p.classAt x.root).nextChainId
  fields : Laying cls (inheritedFields p x.ancestor) x.fields
  slotOwners : x.slotOwners = inheritedSlots p x.ancestor

section

variable {p : Program} {x : Place} (hcls : cls < p.classes.size)

include hcls

theorem classAt_placeClass : (placeClass p cls x).classAt cls = { p.classAt cls with
    chainId := x.chainId, root := x.root, ancestor := x.ancestor, fields := x.fields
    slotOwners := x.slotOwners } := by
  rw [placeClass, Program.classAt_updateClass p cls hcls, if_pos rfl]

theorem sameButClass_placeClass : p.SameButClass (placeClass p cls x) cls :=
  Program.sameButClass_updateClass p hcls _

theorem nextChainId_placeClass (c : ClassId) :
    ((placeClass p cls x).classAt c).nextChainId = (p.classAt c).nextChainId := by
  by_cases hc : c = cls
  · rw [hc, classAt_placeClass hcls]
  · rw [(sameButClass_placeClass hcls).other c hc]

variable (hblank : (p.classAt cls).Blank cls) (hx : x.Fits p cls)

include hblank hx

theorem placed_placeClass (hp : p.Placed) : (placeClass p cls x).Placed := by
  refine hp.record (sameButClass_placeClass hcls) (Program.not_built hblank.inProgress) ?_ ?_ ?_ ?_
    <;> rw [classAt_placeClass hcls]
  · exact hx.of_none
  · exact fun a ha => ⟨hx.built a ha, hx.of_some a ha⟩
  · exact hx.free
  · rw [nextChainId_placeClass hcls]
    exact hx.counted

theorem laid_placeClass (hp : p.ClassTable) : (placeClass p cls x).FieldsLaid cls := by
  have hq := placed_placeClass hcls hblank hx hp.placed
  have honly := sameButClass_placeClass (x := x) hcls
  have hunbuilt := Program.not_built hblank.inProgress
  have hrecord := classAt_placeClass (x := x) hcls
  have hl := hx.fields
  constructor
  · intro a ha
    rw [hrecord] at ha ⊢
    rw [honly.of_built hunbuilt (hx.built a ha)]
    have hpre := hl.inherited
    rwa [show x.ancestor = some a from ha] at hpre
  · rw [hrecord]
    exact hl.indexed
  · rw [hrecord]
    exact hl.distinct
  · intro field hfield
    rw [hrecord] at hfield
    rcases hl.declared field hfield with hbase | hown
    · cases ha : x.ancestor with
      | none =>
        rw [ha] at hbase
        cases hbase
      | some a =>
        rw [ha] at hbase
        have hbuilt := hx.built a ha
        refine Program.mem_chain_of_ancestor hq.ranked (a := a) (by rw [hrecord, ha]) ?_
        rw [honly.chain_eq hunbuilt hp.placed hq fun he => hunbuilt (he ▸ hbuilt)]
        exact (hp.laid hbuilt.1).declared field hbase
    · rw [hown]
      exact Program.self_mem_chain _ cls

theorem classTable_placeClass (hp : p.ClassTable) : (placeClass p cls x).ClassTable := by
  have hrecord := classAt_placeClass (x := x) hcls
  refine hp.record (sameButClass_placeClass hcls) (Program.not_built hblank.inProgress) rfl
    (placed_placeClass hcls hblank hx hp.placed) (laid_placeClass hcls hblank hx hp) ?_
    hblank.methods ?_ ?_ ?_ <;> rw [hrecord]
  · exact hblank.inProgress
  · exact hblank.methods
  · intro ha
    dsimp only at ha ⊢
    rw [hx.slotOwners, ha, inheritedSlots]
  · intro a ha
    dsimp only at ha ⊢
    rw [hx.slotOwners, ha, inheritedSlots]
    exact ⟨hx.built a ha, rfl⟩

omit hx in
theorem reserve_placeClass {reserved : List (ClassId × Nat)} (hp : Reserve reserved p)
    (hfree : (x.root, x.chainId) ∉ reserved) : Reserve reserved (placeClass p cls x) := by
  have honly := sameButClass_placeClass (x := x) hcls
  have hunbuilt := Program.not_built hblank.inProgress
  refine ⟨hp.nodup, fun y hy => honly.built hunbuilt (hp.built y hy), fun y hy => ?_,
    fun y hy c hc hroot => ?_⟩
  · rw [nextChainId_placeClass hcls]
    exact hp.lt y hy
  · by_cases hne : c = cls
    · subst hne
      rw [classAt_placeClass hcls] at hroot ⊢
      intro hid
      exact hfree (by rwa [show x.root = y.1 from hroot, show x.chainId = y.2 from hid])
    · rw [honly.other c hne] at hroot ⊢
      exact hp.free y hy c (honly.size ▸ hc) hroot

omit hcls hx in
/-- No method of the class stands in a slot yet. -/
theorem slotsAgree_placeClass (hp : p.ClassTable) : (placeClass p cls x).SlotsAgree cls := by
  intro f k howner hslot
  rcases hp.dispatching.slotted hslot with ⟨c, hc, hentry⟩
  obtain rfl : c = cls := Option.some.inj (hc.symm.trans howner)
  rw [hblank.methods] at hentry
  cases hentry

end

theorem Orderly.place {x : Place} (hs : Orderly src closed w s) (hcls : cls ∈ w.active)
    (hblank : (s.program.classAt cls).Blank cls) (hx : x.Fits s.program cls)
    (hfields : closed → ∀ field ∈ x.fields, field.ty.Within s.program)
    (hfree : (x.root, x.chainId) ∉ w.reserved) :
    Orderly src closed w { s with program := placeClass s.program cls x } := by
  have hlt := hs.agenda.lt cls hcls
  have hrecord := classAt_placeClass (x := x) hlt
  refine hs.rebuild hcls (rebuilds_updateClass hlt rfl rfl rfl)
    (classTable_placeClass hlt hblank hx hs.table)
    (fun hc => (hs.exact hc).record (sameButClass_placeClass hlt) rfl ?_)
    (fun _ => slotsAgree_placeClass hblank hs.table) (fun _ _ _ => rfl) ?_ ?_ ?_ ?_ ?_
    (reserve_placeClass hlt hblank hs.reserve hfree) <;> rw [hrecord]
  · exact hblank.methods
  · intro f hf
    exact absurd (hblank.init.symm.trans hf) nofun
  · intro n f hf
    exact absurd ((hblank.methods n).symm.trans hf) nofun
  · intro _ hbuilt
    exact absurd (hblank.inProgress.symm.trans hbuilt) nofun
  · exact hfields
  · exact fun hc => ((hs.typed hc).classes cls).virtualMethods

theorem Orderly.release {x : ClassId × Nat}
    (hs : Orderly src closed { w with reserved := x :: w.reserved } s) : Orderly src closed w s :=
  { hs with
    agenda := ⟨hs.agenda.nodup, hs.agenda.lt, hs.agenda.progress, hs.agenda.blank,
      hs.agenda.ordered, hs.agenda.unresolved⟩
    reserve := ⟨(List.nodup_cons.mp hs.reserve.nodup).2,
      fun y hy => hs.reserve.built y (List.mem_cons_of_mem x hy),
      fun y hy => hs.reserve.lt y (List.mem_cons_of_mem x hy),
      fun y hy => hs.reserve.free y (List.mem_cons_of_mem x hy)⟩
    signing := fun f hf => (hs.signing f hf).mono fun _ h => h }

/-- What is known of a class once it has been placed. -/
structure Begun (ancestor : Option ClassId) (c d : ClassInst) : Prop where
  struct : d.struct = c.struct
  typeArgs : d.typeArgs = c.typeArgs
  ancestor : d.ancestor = ancestor
  methods : ∀ name : String, d.methods[name]? = none
  init : d.init = none
  inProgress : d.inProgress = true

theorem laying_inherited {p : Program} (hp : p.ClassTable) {ancestor : Option ClassId}
    (hancestor : ∀ a, ancestor = some a → p.Built a) :
    Laying cls (inheritedFields p ancestor) (inheritedFields p ancestor) := by
  cases ancestor with
  | none => exact ⟨List.prefix_rfl, nofun, List.nodup_nil, nofun⟩
  | some a =>
    have hl := hp.laid (hancestor a rfl).1
    exact ⟨List.prefix_rfl, hl.indexed, hl.distinct, fun field hfield => .inl hfield⟩

/-- The class is recorded below nothing: it is the root of a new tree. -/
theorem orderly_placeRoot (hs : Orderly src closed (w.begin cls) s)
    (hblank : (s.program.classAt cls).Blank cls) (hl : Laying cls [] fields)
    (hfields : closed → ∀ field ∈ fields, field.ty.Within s.program) :
    Orderly src closed (w.begin cls)
      { s with program := placeClass s.program cls ⟨0, cls, none, fields, []⟩ } := by
  have hlt := hs.lt_of_begin
  have hunbuilt := Program.not_built hblank.inProgress
  refine hs.place List.mem_cons_self hblank ⟨fun _ => ⟨rfl, rfl⟩, nofun, nofun, ?_,
    hblank.nextChainId, hl, rfl⟩ hfields ?_
  · intro d hd hne hroot
    exact absurd hroot (hs.table.placed.root_ne hunbuilt hd hne)
  · exact fun hmem => hunbuilt (hs.reserve.built _ hmem)

/-- The class is recorded below a class that has been built, under the number that was reserved. -/
theorem orderly_placeBelow {slotOwners : List FuncId} {a root : ClassId} {chainId : Nat}
    (hs : Orderly src closed
      { w.begin cls with reserved := (root, chainId) :: w.reserved } s)
    (hblank : (s.program.classAt cls).Blank cls) (ha : s.program.Built a)
    (hroot : root = (s.program.classAt a).root) (hid : (s.program.classAt a).chainId < chainId)
    (hl : Laying cls (s.program.classAt a).fields fields)
    (hslots : slotOwners = (s.program.classAt a).slotOwners)
    (hfields : closed → ∀ field ∈ fields, field.ty.Within s.program) :
    Orderly src closed (w.begin cls)
      { s with
        program := placeClass s.program cls ⟨chainId, root, some a, fields, slotOwners⟩ } := by
  have hreserve := hs.reserve
  refine Orderly.place (Orderly.release (w := w.begin cls) hs) List.mem_cons_self hblank
    ⟨nofun, ?_, ?_, ?_, hreserve.lt _ List.mem_cons_self, hl, hslots⟩ hfields
    (List.nodup_cons.mp hreserve.nodup).1
  · rintro _ ⟨⟩
    exact ha
  · rintro _ ⟨⟩
    exact ⟨hroot, hid⟩
  · exact fun d hd _ hdroot => hreserve.free _ List.mem_cons_self d hd hdroot

theorem begun_placeClass {p : Program} {c : ClassInst} (x : Place) (hcls : cls < p.classes.size)
    (hblank : c.Blank cls) (hkept : c.Kept (p.classAt cls)) :
    Begun x.ancestor c ((placeClass p cls x).classAt cls) := by
  rw [classAt_placeClass hcls, hkept.1]
  exact ⟨rfl, rfl, rfl, hblank.methods, hblank.init, hblank.inProgress⟩

include hr

/-- While the fields are laid out, the ancestor stays as it is. -/
theorem orderly_inheritingFields (ancestor : Option ClassId) {decls : List (Syntax.Field Mark)}
    (hs : Orderly src closed w s) (hsubst : closed → subst.Within s.program)
    (hancestor : ∀ a, ancestor = some a → s.program.Built a)
    (h : layoutFields src request cls subst (inheritedFields s.program ancestor) decls s =
      some (fields, t)) :
    Orderly src closed w t ∧ Advances w s t ∧
    Laying cls (inheritedFields t.program ancestor) fields ∧
      inheritedSlots s.program ancestor = inheritedSlots t.program ancestor ∧
      (closed → ∀ field ∈ fields, field.ty.Within t.program) := by
  have hwithin (hc : closed) : ∀ field ∈ inheritedFields s.program ancestor,
      field.ty.Within s.program := by
    cases ancestor with
    | none => nofun
    | some a => exact ((hs.typed hc).classes a).fields
  rcases orderly_layoutFields hr hs hsubst (laying_inherited hs.table hancestor) hwithin h with
    ⟨ht, hst, hl, hfields⟩
  cases ancestor with
  | none => exact ⟨ht, hst, hl, rfl, hfields⟩
  | some a =>
    have hkept := (hst.kept (.inl (hancestor a rfl))).1
    rw [inheritedFields] at hl ⊢
    rw [inheritedSlots, inheritedSlots, hkept]
    exact ⟨ht, hst, hl, rfl, hfields⟩

theorem orderly_buildLayout {decl : Class Mark} {ancestor : Option ClassId}
    (hs : Orderly src closed (w.begin cls) s) (hblank : (s.program.classAt cls).Blank cls)
    (hancestor : ∀ a, ancestor = some a → s.program.Built a)
    (hsubst : closed → subst.Within s.program)
    (h : buildLayout src request cls decl subst ancestor s = some ((), t)) :
    Orderly src closed (w.begin cls) t ∧ Advances w s t ∧
      Begun ancestor (s.program.classAt cls) (t.program.classAt cls) := by
  rw [buildLayout] at h
  rcases bind_some h with ⟨⟨root, chainId⟩, s1, h1, h⟩
  rcases bind_some h with ⟨p, s1', hp, h⟩
  cases hp
  cases ancestor with
  | none =>
    cases h1
    rcases bind_some h with ⟨fields, s2, h2, h⟩
    cases h
    rcases orderly_inheritingFields hr none hs hsubst nofun h2 with ⟨hs2, hst2, hl, -, hfields⟩
    have hkept := hst2.kept (c := cls) (.inr List.mem_cons_self)
    have hblank2 := hblank.kept hkept
    refine ⟨orderly_placeRoot hs2 hblank2 hl hfields, ?_,
      begun_placeClass ⟨0, cls, none, fields, []⟩ hs2.lt_of_begin hblank hkept⟩
    exact hst2.of_begin.trans
      (.rebuild (hs2.not_known hblank2.inProgress)
      (rebuilds_updateClass hs2.lt_of_begin rfl rfl rfl))
  | some a =>
    cases h1
    have ha := hancestor a rfl
    have hroot := hs.table.placed.built_root ha
    rcases hs.takeNumber hroot with ⟨hs1, hst1⟩
    rcases bind_some h with ⟨fields, s2, h2, h⟩
    cases h
    have ha1 := hst1.built ha
    rcases orderly_inheritingFields hr (some a) hs1 (fun hc => (hsubst hc).mono hst1.classes)
      (by rintro _ ⟨⟩; exact ha1) h2 with ⟨hs2, hst2, hl, hslots, hfields⟩
    have hst02 : Advances (w.begin cls) s s2 := hst1.trans (hst2.weaken (fun _ h => h) fun _ h => h)
    have hkept := hst02.kept (c := cls) (.inr List.mem_cons_self)
    have hblank2 := hblank.kept hkept
    have ha2 := sameTable_of_kept (hst02.kept (.inl ha))
    have hid : (s2.program.classAt a).chainId <
        (s.program.classAt (s.program.classAt a).root).nextChainId := by
      rw [ha2.chainId]
      exact hs.table.placed.counted ha.1
    have hlt2 := Nat.lt_of_lt_of_le hs.lt_of_begin hst02.classes
    have hplace :=
      orderly_placeBelow hs2 hblank2 (hst02.built ha) ha2.root.symm hid hl hslots hfields
    refine ⟨hplace, ?_, begun_placeClass ⟨_, _, some a, fields, _⟩ hlt2 hblank hkept⟩
    have hunknown := Orderly.not_known (Orderly.release (w := w.begin cls) hs2) hblank2.inProgress
    exact hst02.of_begin.trans
      (.rebuild hunknown (rebuilds_updateClass hlt2 rfl rfl rfl))

end

end ObjectLang.Check
