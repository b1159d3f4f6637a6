import ObjectLang.Proofs.ClassBuilding

/-! # Entering methods

A declared method is instantiated, finds its slot and is entered into its class.  From the rules
that decide about its slot to the entry nothing else is done, so these are one step here.
-/

namespace ObjectLang.Check

open Source Syntax Scope Names Diagnostic Checked

variable {src : Sources} {closed : Trust} {w : Work} {s t : State} {cls : ClassId}

/-- The program with a method in its class. -/
def enterMethod (p : Program) (cls : ClassId) (n : String) (entry : MethodEntry) : Program :=
  p.updateClass cls fun c => { c with methods := c.methods.insert n entry }

/-- The program with a method in the slot that `o` opened. -/
def joinMethod (p : Program) (cls : ClassId) (f : FuncId) (k : Nat) (o : FuncId) : Program :=
  let p' := p.updateFunction f fun x => { x with isOverride := true, slot := some k }
  p'.updateFunction o fun _ => { p'.functionAt o with
    overrides := (p'.functionAt o).overrides.insert (p.classAt cls).chainId f }

/-- The program with one more slot of a class. -/
def addSlot (p : Program) (cls : ClassId) (f : FuncId) : Program :=
  p.updateClass cls fun c => { c with
    slotOwners := c.slotOwners ++ [f], virtualMethods := c.virtualMethods ++ [f] }

/-- The program with a method in the next slot of its class. -/
def openMethod (p : Program) (cls : ClassId) (f : FuncId) : Program :=
  (addSlot p cls f).updateFunction f fun x => { x with
    isVirtual := true, slot := some (p.classAt cls).slotOwners.length
    overrides := x.overrides.insert (p.classAt cls).chainId f }

/-- A method that may be entered: its class is being built and has none of its name. -/
structure Enterable (p : Program) (cls : ClassId) (n : String) (f : FuncId) : Prop where
  ltClass : cls < p.classes.size
  inProgress : (p.classAt cls).inProgress = true
  free : (p.classAt cls).methods[n]? = none
  lt : f < p.functions.size
  owner : (p.functionAt f).owner = some cls
  name : (p.functionAt f).name = n

theorem getElem?_insert_method (methods : Std.TreeMap String MethodEntry) (n m : String)
    (entry : MethodEntry) :
    (methods.insert n entry)[m]? = if n = m then some entry else methods[m]? := by
  rw [Std.TreeMap.getElem?_insert]
  simp

section

variable {p : Program} {n : String} {f o : FuncId} {k : Nat}

/-! ### Without a slot -/

theorem classAt_enterMethod {entry : MethodEntry} (hcls : cls < p.classes.size) :
    (enterMethod p cls n entry).classAt cls =
      { p.classAt cls with methods := (p.classAt cls).methods.insert n entry } := by
  rw [enterMethod, Program.classAt_updateClass p cls hcls, if_pos rfl]

theorem enters_enterMethod (entry : MethodEntry) (hcls : cls < p.classes.size)
    (hprogress : (p.classAt cls).inProgress = true) (hfree : (p.classAt cls).methods[n]? = none) :
    p.Enters (enterMethod p cls n entry) cls n entry where
  toSameButClass := Program.sameButClass_updateClass p hcls _
  lt := hcls
  unbuilt := Program.not_built hprogress
  free := hfree
  place := by
    rw [classAt_enterMethod hcls]
    exact ⟨rfl, rfl, rfl, Nat.le_refl _⟩
  fields := by rw [classAt_enterMethod hcls]
  init := by rw [classAt_enterMethod hcls]
  inProgress := by rw [classAt_enterMethod hcls]
  methods m := by
    rw [classAt_enterMethod hcls]
    exact getElem?_insert_method _ _ _ _
  virtualMethods := by
    rw [classAt_enterMethod hcls]
    exact fun _ h => .inl h
  functions := rfl

/-! ### Joining a slot -/

variable (hf : Enterable p cls n f)

include hf

theorem functionAt_joinMethod (hne : f ≠ o) (ho : o < p.functions.size) (g : FuncId) :
    (joinMethod p cls f k o).functionAt g =
      if g = o then { p.functionAt o with
        overrides := (p.functionAt o).overrides.insert (p.classAt cls).chainId f }
      else if g = f then { p.functionAt f with isOverride := true, slot := some k }
      else p.functionAt g := by
  have ho' : o < (p.updateFunction f fun x =>
      { x with isOverride := true, slot := some k }).functions.size := by
    rw [Program.size_updateFunction]
    exact ho
  have hat : (p.updateFunction f fun x => { x with isOverride := true, slot := some k }).functionAt
      o = p.functionAt o := by
    rw [Program.functionAt_updateFunction p o hf.lt, if_neg (Ne.symm hne)]
  rw [joinMethod, Program.functionAt_updateFunction _ g ho', hat,
    Program.functionAt_updateFunction p g hf.lt]

theorem ne_of_slot (hp : p.Dispatching) (ho : (p.functionAt o).slot = some k) : f ≠ o := by
  rintro rfl
  have henters : p.Enters (enterMethod p cls n (.inst f)) cls n (.inst f) :=
    enters_enterMethod _ hf.ltClass hf.inProgress hf.free
  rw [henters.slot_eq_none hp hf.owner hf.name] at ho
  cases ho

theorem joins_joinMethod (hp : p.ClassTable) (hjoins : (p.classAt cls).slotOwners[k]? = some o)
    (hname : (p.functionAt o).name = n) :
    p.Joins (enterMethod (joinMethod p cls f k o) cls n (.inst f)) cls n f k o := by
  have hslot := (hp.dispatching.opened hjoins).2.1
  have hne := ne_of_slot hf hp.dispatching hslot
  have hat := functionAt_joinMethod (k := k) hf hne (Program.lt_size_of_slot hslot)
  have hrecord : (enterMethod p cls n (.inst f)).classAt cls =
      { p.classAt cls with methods := (p.classAt cls).methods.insert n (.inst f) } :=
    classAt_enterMethod hf.ltClass
  constructor
  · refine (enters_enterMethod _ hf.ltClass hf.inProgress hf.free).of_classes rfl ?_
    simp [enterMethod, joinMethod]
  · change ((enterMethod p cls n (.inst f)).classAt cls).slotOwners = _
    rw [hrecord]
  · exact hf.lt
  · exact hf.owner
  · exact hf.name
  · exact hjoins
  · exact hname
  · change (joinMethod p cls f k o).functionAt f = _
    rw [hat, if_neg hne, if_pos rfl]
  · change (joinMethod p cls f k o).functionAt o = _
    rw [hat, if_pos rfl]
  · intro g hgf hgo
    change (joinMethod p cls f k o).functionAt g = _
    rw [hat, if_neg hgo, if_neg hgf]

theorem rebuilds_joinMethod (hp : p.ClassTable) (hjoins : (p.classAt cls).slotOwners[k]? = some o)
    (hname : (p.functionAt o).name = n) :
    Rebuilds p (enterMethod (joinMethod p cls f k o) cls n (.inst f)) cls := by
  have h := joins_joinMethod hf hp hjoins hname
  have hfun (g : FuncId) : (p.functionAt g).Alike
        ((enterMethod (joinMethod p cls f k o) cls n (.inst f)).functionAt g) ∧
      (p.functionAt g).SameSignature
        ((enterMethod (joinMethod p cls f k o) cls n (.inst f)).functionAt g) := by
    by_cases hgf : g = f
    · rw [hgf, h.self]
      exact ⟨⟨rfl, rfl, rfl, rfl, rfl, rfl, rfl, rfl⟩, ⟨rfl, rfl, rfl, rfl, rfl⟩⟩
    · by_cases hgo : g = o
      · rw [hgo, h.opener]
        exact ⟨⟨rfl, rfl, rfl, rfl, rfl, rfl, rfl, rfl⟩, ⟨rfl, rfl, rfl, rfl, rfl⟩⟩
      · rw [h.otherFunction g hgf hgo]
        exact ⟨.refl _, .refl _⟩
  have hrecord : (enterMethod (joinMethod p cls f k o) cls n (.inst f)).classAt cls =
      { p.classAt cls with methods := (p.classAt cls).methods.insert n (.inst f) } :=
    classAt_enterMethod hf.ltClass
  refine ⟨h.toSameButClass, by rw [hrecord], by rw [hrecord], by rw [hrecord], h.functions,
    fun g => (hfun g).1, fun g => (hfun g).2, fun g hg => ?_, rfl, rfl⟩
  rw [h.slot_eq, if_neg]
  rintro rfl
  exact hg hf.owner

/-! ### Opening a slot -/

omit hf in
theorem sameButClass_openMethod (hcls : cls < p.classes.size) :
    p.SameButClass (enterMethod (openMethod p cls f) cls n (.inst f)) cls := by
  have hslot : p.SameButClass (addSlot p cls f) cls := Program.sameButClass_updateClass p hcls _
  have hopen : p.SameButClass (openMethod p cls f) cls := ⟨hslot.size, hslot.other⟩
  have henter := Program.sameButClass_updateClass (openMethod p cls f) (hopen.size ▸ hcls)
    fun c => { c with methods := c.methods.insert n (.inst f) }
  exact ⟨henter.size.trans hopen.size, fun c hc => (henter.other c hc).trans (hopen.other c hc)⟩

theorem classAt_openMethod :
    (enterMethod (openMethod p cls f) cls n (.inst f)).classAt cls = { p.classAt cls with
      slotOwners := (p.classAt cls).slotOwners ++ [f]
      virtualMethods := (p.classAt cls).virtualMethods ++ [f]
      methods := (p.classAt cls).methods.insert n (.inst f) } := by
  have hrecord : (openMethod p cls f).classAt cls = { p.classAt cls with
      slotOwners := (p.classAt cls).slotOwners ++ [f]
      virtualMethods := (p.classAt cls).virtualMethods ++ [f] } := by
    rw [openMethod, Program.classAt_updateFunction, addSlot,
      Program.classAt_updateClass p cls hf.ltClass, if_pos rfl]
  have hlt : cls < (openMethod p cls f).classes.size := by
    rw [openMethod, Program.classes_updateFunction, addSlot, Program.size_updateClass]
    exact hf.ltClass
  rw [classAt_enterMethod hlt, hrecord]

theorem functionAt_openMethod (g : FuncId) :
    (enterMethod (openMethod p cls f) cls n (.inst f)).functionAt g =
      if g = f then { p.functionAt f with
        isVirtual := true
        slot := some (p.classAt cls).slotOwners.length
        overrides := (p.functionAt f).overrides.insert (p.classAt cls).chainId f }
      else p.functionAt g := by
  rw [enterMethod, Program.functionAt_updateClass, openMethod,
    Program.functionAt_updateFunction (addSlot p cls f) g hf.lt]
  rfl

theorem opens_openMethod : p.Opens (enterMethod (openMethod p cls f) cls n (.inst f)) cls n f := by
  have hrecord := classAt_openMethod hf
  have hat := functionAt_openMethod hf
  refine ⟨⟨sameButClass_openMethod hf.ltClass, hf.ltClass, Program.not_built hf.inProgress, hf.free,
    ?_, ?_, ?_, ?_, ?_, ?_, ?_⟩, ?_, hf.lt, hf.owner, hf.name, ?_, ?_⟩
  · rw [hrecord]
    exact ⟨rfl, rfl, rfl, Nat.le_refl _⟩
  · rw [hrecord]
  · rw [hrecord]
  · rw [hrecord]
  · rw [hrecord]
    exact fun m => getElem?_insert_method _ _ _ _
  · rw [hrecord]
    refine fun g hg => (List.mem_append.mp hg).imp_right fun hg => ?_
    rw [List.mem_singleton.mp hg]
    exact hf.lt
  · simp [enterMethod, openMethod, addSlot]
  · rw [hrecord]
  · rw [hat, if_pos rfl]
  · intro g hg
    rw [hat, if_neg hg]

theorem rebuilds_openMethod :
    Rebuilds p (enterMethod (openMethod p cls f) cls n (.inst f)) cls := by
  have h := opens_openMethod hf
  have hrecord := classAt_openMethod hf
  have hfun (g : FuncId) : (p.functionAt g).Alike
        ((enterMethod (openMethod p cls f) cls n (.inst f)).functionAt g) ∧
      (p.functionAt g).SameSignature
        ((enterMethod (openMethod p cls f) cls n (.inst f)).functionAt g) := by
    by_cases hg : g = f
    · rw [hg, h.self]
      exact ⟨⟨rfl, rfl, rfl, rfl, rfl, rfl, rfl, rfl⟩, ⟨rfl, rfl, rfl, rfl, rfl⟩⟩
    · rw [h.otherFunction g hg]
      exact ⟨.refl _, .refl _⟩
  refine ⟨h.toSameButClass, by rw [hrecord], by rw [hrecord], by rw [hrecord], h.functions,
    fun g => (hfun g).1, fun g => (hfun g).2, fun g hg => ?_, rfl, rfl⟩
  rw [h.otherFunction]
  rintro rfl
  exact hg hf.owner

end

/-! ### Slots that agree -/

/-- Only the method that is entered can stand in a slot that is new to it. -/
theorem slotsAgree_of_entered {p q : Program} {f : FuncId} (hp : p.ClassTable)
    (h : Rebuilds p q cls) (hagree : p.SlotsAgree cls)
    (hslots : ∀ g, g ≠ f → (q.functionAt g).slot = (p.functionAt g).slot)
    (howners : (p.classAt cls).slotOwners <+: (q.classAt cls).slotOwners)
    (hknown : (p.functionAt f).Known)
    (hself : ∀ {k o}, (q.functionAt f).slot = some k → (q.classAt cls).slotOwners[k]? = some o →
      (p.functionAt o).SameTypes (p.functionAt f)) : q.SlotsAgree cls := by
  intro g k howner hslot
  rw [(h.alike g).owner] at howner
  have hsame {o : FuncId} (ho : (p.functionAt o).SameTypes (p.functionAt g)) :
      (q.functionAt o).SameTypes (q.functionAt g) :=
    (h.sameTypes o).symm.trans (ho.trans (h.sameTypes g))
  by_cases hg : g = f
  · subst hg
    exact ⟨hknown.same (h.sameTypes g), fun o ho => hsame (hself hslot ho)⟩
  · rw [hslots g hg] at hslot
    rcases hagree howner hslot with ⟨hknown, hopener⟩
    refine ⟨hknown.same (h.sameTypes g), fun o ho => hsame ?_⟩
    rcases hp.dispatching.slotted hslot with ⟨c, hc, hentry⟩
    obtain rfl : c = cls := Option.some.inj (hc.symm.trans howner)
    rcases hp.dispatching.joined hentry hslot with ⟨o', ho', -⟩
    have hlt := (List.getElem?_eq_some_iff.mp ho').1
    rcases howners with ⟨new, hnew⟩
    rw [← hnew, List.getElem?_append_left hlt] at ho
    exact hopener o ho

theorem sameTypes_of_checkOverrideSignature {base f : FuncId} {span : Span}
    (h : checkOverrideSignature src base f span s = some ((), t)) (ht : t.Clean)
    (hbase : (s.program.functionAt base).Known) (hf : (s.program.functionAt f).Known) :
    (s.program.functionAt base).SameTypes (s.program.functionAt f) := by
  rcases checkOverrideSignature_clean h ht with ⟨hlength, hpairs⟩
  constructor
  · refine List.ext_getElem (by simpa [FuncInst.paramTypes] using hlength.symm) fun i h1 h2 => ?_
    have hzip : i < ((s.program.functionAt base).paramTypes.zip
        (s.program.functionAt f).paramTypes).length := by
      rw [List.length_zip]
      exact Nat.lt_min.mpr ⟨h2, h1⟩
    have hmem := List.getElem_mem hzip
    rw [List.getElem_zip] at hmem
    rcases hpairs _ (List.mem_append_left _ hmem) with heq | hunknown | hunknown
    · exact heq.symm
    · exact absurd (hunknown ▸ List.getElem_mem h2) hbase.params
    · exact absurd (hunknown ▸ List.getElem_mem h1) hf.params
  · rcases hpairs _ (List.mem_append_right _ List.mem_cons_self) with heq | hunknown | hunknown
    · exact heq.symm
    · exact absurd hunknown hbase.returnType
    · exact absurd hunknown hf.returnType

/-! ### The rules -/

/-- The rules for slots have been applied to a method; what they changed is in order once the method
has been entered. -/
structure Dispatched (s t : State) (cls : ClassId) (n : String) (f : FuncId) : Prop where
  reports : ∃ u, Reports s u ∧ t = { u with program := t.program }
  enters : s.program.Enters (enterMethod t.program cls n (.inst f)) cls n (.inst f)
  rebuilds : Rebuilds s.program (enterMethod t.program cls n (.inst f)) cls
  table : (enterMethod t.program cls n (.inst f)).ClassTable
  exact : t.Clean → s.program.Exact → (enterMethod t.program cls n (.inst f)).Exact
  slots : ∀ g, g ≠ f →
    ((enterMethod t.program cls n (.inst f)).functionAt g).slot = (s.program.functionAt g).slot
  agree : t.Clean → (∀ c, s.program.SlotsAgree c) → (s.program.functionAt f).Known →
    (enterMethod t.program cls n (.inst f)).SlotsAgree cls

theorem joinSlot_some {f o : FuncId} {k : Nat} {span : Span}
    (hf : f < s.program.functions.size) (hne : f ≠ o)
    (ho : (s.program.classAt cls).slotOwners[k]? = some o)
    (hvirtual : (s.program.functionAt o).isVirtual = true)
    (h : joinSlot cls f k span s = some ((), t)) :
    t = { s with program := joinMethod s.program cls f k o } := by
  have hat : (s.program.updateFunction f fun x =>
      { x with isOverride := true, slot := some k }).functionAt
      o = s.program.functionAt o := by
    rw [Program.functionAt_updateFunction _ o hf, if_neg (Ne.symm hne)]
  rw [joinSlot] at h
  rcases bind_some h with ⟨_, _, hget, h⟩
  cases hget
  rcases bind_some h with ⟨_, s1, hupdate, h⟩
  cases hupdate
  rw [ho] at h
  rcases bind_some h with ⟨_, _, hget, h⟩
  cases hget
  rw [hat, FuncInst.registerOverride, if_pos hvirtual] at h
  cases h
  rw [joinMethod, hat]

section

variable {method : Function Mark} {f : FuncId} (hp : s.program.ClassTable)
  (hf : Enterable s.program cls method.name f)

include hp hf

theorem dispatched_plain (h : Reports s t)
    (hnone : t.Clean → ∀ a, (s.program.classAt cls).ancestor = some a →
      s.program.findMethod a method.name = none) : Dispatched s t cls method.name f := by
  have henters := enters_enterMethod (.inst f) hf.ltClass hf.inProgress hf.free
  have hslots : ((enterMethod s.program cls method.name (.inst f)).classAt cls).slotOwners =
      (s.program.classAt cls).slotOwners := by
    rw [classAt_enterMethod hf.ltClass]
  constructor
  · exact ⟨t, h, rfl⟩
  · rw [h.program]
    exact henters
  · rw [h.program]
    exact rebuilds_updateClass hf.ltClass rfl rfl rfl
  · rw [h.program]
    refine hp.enter henters hslots rfl fun g hg => ?_
    cases hg
    exact ⟨hf.lt, hf.owner, hf.name⟩
  · rw [h.program]
    exact fun ht he => he.enter hp henters hslots rfl fun _ => hnone ht
  · rw [h.program]
    exact fun _ _ => rfl
  · rw [h.program]
    exact fun _ hagree _ => (hagree cls).congr (.of_eq rfl) hslots

theorem dispatched_refused {cause : ErrorCause} {span : Span} (hc : cause.IsUsual)
    (h : report cause span s = some ((), t)) : Dispatched s t cls method.name f := by
  refine dispatched_plain hp hf ((Quiet.report span hc).reports h) fun ht => ?_
  cases h
  exact absurd ht (Reports.not_clean (.refl _))

theorem dispatched_join {u : State} {a b : ClassId} {base : FuncId} {k : Nat} {span : Span}
    (ha : (s.program.classAt cls).ancestor = some a)
    (hbase : s.program.findMethod a method.name = some (b, .inst base))
    (hk : (s.program.functionAt base).slot = some k) (hu : Reports s u)
    (hsame : u.Clean → (s.program.functionAt base).Known → (s.program.functionAt f).Known →
      (s.program.functionAt base).SameTypes (s.program.functionAt f))
    (h : joinSlot cls f k span u = some ((), t)) : Dispatched s t cls method.name f := by
  have hranked := hp.placed.ranked
  rcases Program.findMethod_some hranked hbase with ⟨hb, hentry, -⟩
  rcases hp.dispatching.joined hentry hk with ⟨o, ho, hname, -⟩
  have hjoins : (s.program.classAt cls).slotOwners[k]? = some o :=
    hp.slotOwner_of_mem_chain (Program.mem_chain_of_ancestor hranked ha hb) ho
  rcases hp.dispatching.opened hjoins with ⟨hvirtual, hslot, -⟩
  have hne := ne_of_slot hf hp.dispatching hslot
  rw [← hu.program] at hjoins hvirtual
  have ht := joinSlot_some (hu.program ▸ hf.lt) hne hjoins hvirtual h
  have hprogram : t.program = joinMethod s.program cls f k o := by
    rw [ht, hu.program]
  rw [hu.program] at hjoins
  have hjoin := joins_joinMethod hf hp hjoins hname
  constructor
  · exact ⟨u, hu, by rw [ht]⟩
  · rw [hprogram]
    exact hjoin.toEnters
  · rw [hprogram]
    exact rebuilds_joinMethod hf hp hjoins hname
  · rw [hprogram]
    exact hjoin.classTable hp
  · rw [hprogram]
    exact fun _ he => hjoin.exact hp he ha hbase hk
  · rw [hprogram]
    intro g hg
    rw [hjoin.slot_eq, if_neg hg]
  · rw [hprogram]
    intro hclean hagree hknown
    rcases hagree b (hp.dispatching.entered hentry).2.1 hk with ⟨hbase, hopener⟩
    refine slotsAgree_of_entered hp (rebuilds_joinMethod hf hp hjoins hname) (hagree cls)
      (fun g hg => by rw [hjoin.slot_eq, if_neg hg]) (by rw [hjoin.slots]) hknown ?_
    intro k' o' hslot ho'
    rw [hjoin.slot_eq, if_pos rfl] at hslot
    cases hslot
    rw [hjoin.slots, hjoins] at ho'
    cases ho'
    rw [ht] at hclean
    exact (hopener o ho).trans (hsame hclean hbase hknown)

/-- The method opens a slot: no method further up bears its name. -/
theorem dispatched_open {u : State} (hu : Reports s u)
    (hnone : ∀ a, (s.program.classAt cls).ancestor = some a →
      s.program.findMethod a method.name = none)
    (h : openSlot cls f u = some ((), t)) : Dispatched s t cls method.name f := by
  have hopen := opens_openMethod hf
  have ht : t = { u with program := openMethod u.program cls f } := by
    cases h
    rfl
  have hprogram : t.program = openMethod s.program cls f := by
    rw [ht, hu.program]
  constructor
  · exact ⟨u, hu, by rw [ht]⟩
  all_goals
    rw [hprogram]
  · exact hopen.toEnters
  · exact rebuilds_openMethod hf
  · exact hopen.classTable hp
  · exact fun _ he => hopen.exact hp he hnone
  · exact fun g hg => by rw [hopen.otherFunction g hg]
  · intro _ hagree hknown
    refine slotsAgree_of_entered hp (rebuilds_openMethod hf) (hagree cls)
      (fun g hg => by rw [hopen.otherFunction g hg]) (hopen.slots ▸ List.prefix_append _ _)
      hknown ?_
    intro k o hslot ho
    rw [hopen.self] at hslot
    cases hslot
    rw [hopen.slots, List.getElem?_concat_length] at ho
    cases ho
    exact .refl _

theorem dispatched_applyDispatchRules (h : applyDispatchRules src cls f method s = some ((), t)) :
    Dispatched s t cls method.name f := by
  rw [applyDispatchRules] at h
  rcases bind_some h with ⟨_, _, hget, h⟩
  cases hget
  cases hfound : (s.program.classAt cls).ancestor.bind
      fun a => s.program.findMethod a method.name with
  | none =>
    have hnone (a) (ha : (s.program.classAt cls).ancestor = some a) :
        s.program.findMethod a method.name = none := by
      rwa [ha] at hfound
    rw [hfound] at h
    rcases when_some h with ⟨s1, h1, h⟩
    have hs1 := (Quiet.ite (.report _) (.pure _)).reports h1
    split at h
    · exact dispatched_open hp hf hs1 hnone h
    · cases h
      exact dispatched_plain hp hf hs1 fun _ => hnone
  | some found =>
    rcases found with ⟨b, entry⟩
    rw [hfound] at h
    cases entry with
    | generic symbol =>
      exact dispatched_refused hp hf (by trivial) h
    | inst base =>
      rcases Option.bind_eq_some_iff.mp hfound with ⟨a, ha, hbase⟩
      dsimp only at h
      cases hk : (s.program.functionAt base).slot with
      | none =>
        rw [hk] at h
        exact dispatched_refused hp hf (by trivial) h
      | some k =>
        rw [hk] at h
        rcases when_some h with ⟨s1, h1, h⟩
        rcases bind_some h with ⟨_, s2, h2, h⟩
        have hs1 := (Quiet.ite (.report _) (.pure _)).reports h1
        refine dispatched_join hp hf ha hbase hk
          (hs1.trans ((Quiet.checkOverrideSignature src _ _ _).reports h2)) (fun hclean => ?_) h
        rw [← hs1.program]
        exact sameTypes_of_checkOverrideSignature h2 hclean

end

/-! ### The methods of a class -/

theorem Orderly.enter {q : Program} {n : String} {entry : MethodEntry}
    (hs : Orderly src closed (w.begin cls) s)
    (hprogress : (s.program.classAt cls).inProgress = true)
    (henters : s.program.Enters q cls n entry)
    (hrebuilds : Rebuilds s.program q cls) (htable : q.ClassTable) (hexact : s.Clean → q.Exact)
    (hagree : Flawless src closed s → q.SlotsAgree cls)
    (hsigning : closed → ∀ f ∈ w.signing, (q.functionAt f).slot = (s.program.functionAt f).slot)
    (hgeneric : ∀ f, entry = .generic f → MemberNamed src n f) :
    Orderly src closed (w.begin cls) { s with program := q } ∧
      Advances w s { s with program := q } := by
  refine ⟨hs.rebuild List.mem_cons_self hrebuilds htable hexact hagree hsigning ?_ ?_ ?_ ?_ ?_
    (hs.reserve.congr henters.size henters.samePlace fun c => (henters.built_iff c).mpr),
    .rebuild (hs.not_known hprogress) hrebuilds⟩
  · rw [henters.init]
    exact fun f hf => hs.catalogue.inits hf
  · intro m f hf
    rw [henters.methods] at hf
    split at hf
    · next heq => exact heq ▸ hgeneric f (Option.some.inj hf)
    · exact hs.catalogue.generics hf
  · rw [henters.inProgress, hprogress]
    nofun
  · rw [henters.fields]
    exact fun hc => ((hs.typed hc).classes cls).fields
  · exact fun hc g hg => (henters.virtualMethods g hg).elim
      (((hs.typed hc).classes cls).virtualMethods g) id

/-- The class is being built, and it has the methods that come of the declarations in `done`. -/
structure Entering (src : Sources) (struct : StructureId) (done : List (Function Mark))
    (c : ClassInst) : Prop where
  declared : c.struct = struct
  init : c.init = none
  inProgress : c.inProgress = true
  methods : ∀ n : String, c.methods[n]? ≠ none → ∃ m ∈ done, ∃ symbol,
    (src.tree.structureAt struct).methods[n]? = some symbol ∧
      (src.tree.functionAt symbol).decl.mark.node = m.mark.node

namespace Entering

variable {struct : StructureId} {done done' : List (Function Mark)} {c d : ClassInst}

theorem kept (h : Entering src struct done c) (hd : c.Kept d) : Entering src struct done d := by
  rw [hd.1]
  exact ⟨h.declared, h.init, h.inProgress, h.methods⟩

theorem mono (h : Entering src struct done c) (hdone : done ⊆ done') :
    Entering src struct done' c := by
  refine ⟨h.declared, h.init, h.inProgress, fun n hn => ?_⟩
  rcases h.methods n hn with ⟨m, hm, hrest⟩
  exact ⟨m, hdone hm, hrest⟩

/-- A declaration whose node has not been met yet finds its name free. -/
theorem free {method : Function Mark} {symbol : SymbolId} (h : Entering src struct done c)
    (hnew : ∀ m ∈ done, m.mark.node ≠ method.mark.node)
    (hsymbol : (src.tree.structureAt struct).methods[method.name]? = some symbol)
    (hnode : (src.tree.functionAt symbol).decl.mark.node = method.mark.node) :
    c.methods[method.name]? = none := by
  by_contra hne
  rcases h.methods method.name hne with ⟨m, hm, symbol', hsymbol', hnode'⟩
  rw [hsymbol, Option.some.injEq] at hsymbol'
  subst hsymbol'
  exact hnew m hm (hnode'.symm.trans hnode)

theorem enter {p q : Program} {entry : MethodEntry} {method : Function Mark} {symbol : SymbolId}
    (h : Entering src struct done (p.classAt cls)) (henters : p.Enters q cls method.name entry)
    (hstruct : (q.classAt cls).struct = (p.classAt cls).struct)
    (hsymbol : (src.tree.structureAt struct).methods[method.name]? = some symbol)
    (hnode : (src.tree.functionAt symbol).decl.mark.node = method.mark.node) :
    Entering src struct (method :: done) (q.classAt cls) := by
  refine ⟨hstruct.trans h.declared, henters.init.trans h.init,
    henters.inProgress.trans h.inProgress, fun n hn => ?_⟩
  rw [henters.methods] at hn
  split at hn
  · next heq =>
    subst heq
    exact ⟨method, List.mem_cons_self, symbol, hsymbol, hnode⟩
  · rcases h.methods n hn with ⟨m, hm, hrest⟩
    exact ⟨m, List.mem_cons_of_mem method hm, hrest⟩

end Entering

section

variable {request : ClassRequest} {struct : StructureId} {done : List (Function Mark)}
  {method : Function Mark} {symbol : SymbolId} (hs : Orderly src closed (w.begin cls) s)
  (he : Entering src struct done (s.program.classAt cls))
  (hnew : ∀ m ∈ done, m.mark.node ≠ method.mark.node)

include hs he hnew

theorem orderly_enterInstance {f : FuncId} (hf : f < s.program.functions.size)
    (howner : (s.program.functionAt f).owner = some cls)
    (hname : (s.program.functionAt f).name = method.name)
    (hsymbol : (src.tree.structureAt struct).methods[method.name]? = some symbol)
    (hnode : (src.tree.functionAt symbol).decl.mark.node = method.mark.node)
    (hsigned : closed → f ∉ w.signing)
    (hknown : Flawless src closed s → (s.program.functionAt f).Known)
    (h : (do
      applyDispatchRules src cls f method
      updateClass cls fun c => { c with methods := c.methods.insert method.name (.inst f) }) s =
        some ((), t)) :
    Orderly src closed (w.begin cls) t ∧ Advances w s t ∧
      Entering src struct (method :: done) (t.program.classAt cls) := by
  rcases bind_some h with ⟨_, s1, h1, h2⟩
  have henterable : Enterable s.program cls method.name f :=
    ⟨hs.lt_of_begin, he.inProgress, he.free hnew hsymbol hnode, hf, howner, hname⟩
  have hd := dispatched_applyDispatchRules hs.table henterable h1
  rcases hd.reports with ⟨u, hu, hs1⟩
  have ht : t = { u with program := enterMethod s1.program cls method.name (.inst f) } := by
    cases h2
    rw [hs1]
    rfl
  rcases hu.orderly hs with ⟨hsu, hst⟩
  have hclean (hc : u.Clean) : s1.Clean := by
    rw [hs1]
    exact hc
  have henters := hd.enters
  have hrebuilds := hd.rebuilds
  rw [← hu.program] at henters hrebuilds
  have hagree (h : Flawless src closed u) := hd.agree (hclean h.clean)
    (hs.uniform (h.of_clean hu.clean)).slots (hknown (h.of_clean hu.clean))
  have hslots (hc : closed) (g : FuncId) (hg : g ∈ w.signing) :
      ((enterMethod s1.program cls method.name (.inst f)).functionAt g).slot =
        (u.program.functionAt g).slot := by
    rw [hu.program]
    exact hd.slots g fun heq => hsigned hc (heq ▸ hg)
  rcases hsu.enter (hu.program ▸ he.inProgress) henters hrebuilds hd.table
    (fun hc => hd.exact (hclean hc) (hs.exact (hu.clean hc))) hagree hslots nofun with ⟨ht', hst'⟩
  rw [ht]
  exact ⟨ht', hst.of_begin.trans hst',
    he.enter hd.enters hd.rebuilds.struct hsymbol hnode⟩

/-- A generic method is entered as it was declared; it stands in no slot. -/
theorem orderly_enterGeneric (hmember : MemberNamed src method.name symbol)
    (hsymbol : (src.tree.structureAt struct).methods[method.name]? = some symbol)
    (hnode : (src.tree.functionAt symbol).decl.mark.node = method.mark.node)
    (ht : t = { s with program := enterMethod s.program cls method.name (.generic symbol) }) :
    Orderly src closed (w.begin cls) t ∧ Advances w s t ∧
      Entering src struct (method :: done) (t.program.classAt cls) := by
  have hlt := hs.lt_of_begin
  have henters := enters_enterMethod (.generic symbol) hlt he.inProgress
    (he.free hnew hsymbol hnode)
  have hslots : ((enterMethod s.program cls method.name (.generic symbol)).classAt cls).slotOwners =
      (s.program.classAt cls).slotOwners := by
    rw [classAt_enterMethod hlt]
  have hrebuilds :
      Rebuilds s.program (enterMethod s.program cls method.name (.generic symbol)) cls :=
    rebuilds_updateClass hlt rfl rfl rfl
  rcases hs.enter he.inProgress henters hrebuilds
    (hs.table.enter henters hslots rfl nofun)
    (fun hc => (hs.exact hc).enter hs.table henters hslots rfl nofun)
    (fun h => ((hs.uniform h).slots cls).congr (.of_eq rfl) hslots) (fun _ _ _ => rfl)
    (by rintro _ ⟨⟩; exact hmember) with ⟨ht', hst⟩
  rw [ht]
  exact ⟨ht', hst, he.enter henters hrebuilds.struct hsymbol hnode⟩

theorem orderly_buildMethod (hr : Serves src closed request) (hreg : src.Regular)
    (hsigning : closed → Spares w s cls)
    (h : buildMethod src request cls struct method s = some ((), t)) :
    Orderly src closed (w.begin cls) t ∧ Advances w s t ∧
      Entering src struct (method :: done) (t.program.classAt cls) := by
  have hskip : Entering src struct (method :: done) (s.program.classAt cls) :=
    he.mono (List.subset_cons_self _ _)
  rw [buildMethod] at h
  cases hsymbol : (src.tree.structureAt struct).methods[method.name]? with
  | none =>
    rw [hsymbol] at h
    cases h
    exact ⟨hs, .refl w s, hskip⟩
  | some symbol =>
    rw [hsymbol] at h
    dsimp only at h
    split at h
    · cases h
      exact ⟨hs, .refl w s, hskip⟩
    · next hnode =>
      have hnode := not_not.mp hnode
      rcases hreg.methods hsymbol with ⟨hstruct, hname⟩
      split at h
      · rcases bind_some h with ⟨r, s1, h1, h⟩
        have hkey (_ : closed) : KeyWithin s.program
            { symbol, typeArgs := [], receiver := some (.object cls) } := by
          refine ⟨nofun, fun ty hty c hc => ?_⟩
          cases hty
          cases hc
          exact hs.lt_of_begin
        rcases orderly_requestFunction hr hs hkey (fun _ => .inr ⟨cls, List.mem_cons_self, rfl⟩)
          (fun _ => bare_of_struct hstruct) h1 with ⟨hs1, hst1, hfound⟩
        have he1 := he.kept (hst1.kept (.inr List.mem_cons_self))
        cases r with
        | none =>
          cases h
          exact ⟨hs1, hst1.of_begin, hskip.kept (hst1.kept (.inr List.mem_cons_self))⟩
        | some f =>
          rcases hfound f rfl with ⟨hf, hsat⟩
          have hreceiver := hsat.receiver fun _ _ => ⟨cls, rfl⟩
          have howner : (s1.program.functionAt f).owner = some cls := by
            rw [hsat.answers.owner, ownerOf, hstruct, hreceiver]
          have hsigned (hc : closed) (hmem : f ∈ w.signing) : False :=
            (hsigning hc).advance hs.signing hst1 f hmem howner
          have hknown (h : Flawless src closed s1) : (s1.program.functionAt f).Known :=
            (hs1.uniform h).methods (hsigned h.within) ⟨hsat.answers.symbol, howner,
              ⟨method.name, he1.declared ▸ hsymbol⟩, hsat.answers.typeArgs⟩
          rcases orderly_enterInstance hs1 he1 hnew hf howner (hsat.answers.name.trans hname)
            hsymbol hnode hsigned hknown h with ⟨ht, hst, het⟩
          exact ⟨ht, hst1.of_begin.trans hst, het⟩
      · exact orderly_enterGeneric hs he hnew ⟨hname, _, hstruct⟩ hsymbol hnode (by cases h; rfl)

omit he hnew in
theorem orderly_buildMethods {decls : List (Function Mark)} (hr : Serves src closed request)
    (hreg : src.Regular) (hnodup : (decls.map (·.mark.node)).Nodup)
    (hsigning : closed → Spares w s cls)
    (he : Entering src struct [] (s.program.classAt cls))
    (h : decls.forM (buildMethod src request cls struct) s = some ((), t)) :
    Orderly src closed (w.begin cls) t ∧ Advances w s t ∧
      (t.program.classAt cls).init = none ∧ (t.program.classAt cls).inProgress = true := by
  -- The methods so far come of declarations that stand before those that remain.
  have hrun := forM_some (fun rest u => Orderly src closed (w.begin cls) u ∧ Advances w s u ∧
    (rest.map (·.mark.node)).Nodup ∧ ∃ done, Entering src struct done (u.program.classAt cls) ∧
      ∀ m ∈ done, ∀ m' ∈ rest, m.mark.node ≠ m'.mark.node) ?_
    ⟨hs, .refl w s, hnodup, [], he, nofun⟩ h
  · rcases hrun with ⟨ht, hst, -, done, het, -⟩
    exact ⟨ht, hst, het.init, het.inProgress⟩
  · rintro method rest u v ⟨hu, hsu, hnodup, done, heu, hnew⟩ hstep
    rw [List.map_cons, List.nodup_cons] at hnodup
    have hsigning' (hc : closed) : Spares w u cls :=
      (hsigning hc).advance hs.signing hsu
    rcases orderly_buildMethod hu heu (fun m hm => hnew m hm method List.mem_cons_self) hr hreg
      hsigning' hstep with ⟨hv, huv, hev⟩
    refine ⟨hv, hsu.trans huv, hnodup.2, method :: done, hev, fun m hm m' hm' => ?_⟩
    rcases List.mem_cons.mp hm with rfl | hm
    · exact fun heq => hnodup.1 (heq ▸ List.mem_map_of_mem hm')
    · exact hnew m hm m' (List.mem_cons_of_mem method hm')

end

end ObjectLang.Check
