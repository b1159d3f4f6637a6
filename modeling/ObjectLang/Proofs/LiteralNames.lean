import Mathlib
import ObjectLang.Proofs.Generation
import ObjectLang.Proofs.StageSteps

/-! # The names of literals

Literals are numbered through the whole module, and nothing but the number tells their names apart.
A new one is numbered only if no function has its name, so in a module that was generated none has.
-/

namespace ObjectLang.Code

open Syntax Checked Std.Do

set_option mvcgen.warning false

/-- No literal has one of the names. -/
def Spared (names : Std.TreeSet String) (literals : Array String) : Prop :=
  ∀ k < literals.size, names.contains (literalName k) = false

theorem Spared.push {names : Std.TreeSet String} {literals : Array String}
    (h : Spared names literals)
    (text : String) (hnew : ¬names.contains (literalName literals.size) = true) :
    Spared names (literals.push text) := by
  intro k hk
  rw [Array.size_push, Nat.lt_succ_iff_lt_or_eq] at hk
  rcases hk with hk | rfl
  · exact h k hk
  · exact Bool.eq_false_iff.mpr hnew

/-- If the emission succeeds, it takes no name of a function for a literal. -/
abbrev Spares (cx : Context) {α : Type} (x : Emit α) : Prop :=
  ⦃fun s => ⌜Spared cx.functionNames s.literals⌝⦄ x ⦃⇓? _ s => ⌜Spared cx.functionNames s.literals⌝⦄

variable {cx : Context} {α β : Type}

theorem spares_iff {x : Emit α} : Spares cx x ↔ ∀ s a s', x s = .ok (a, s') →
    Spared cx.functionNames s.literals → Spared cx.functionNames s'.literals := by
  have hwp (s : Emitter) : (wp⟦x⟧ (⇓? _ s => ⌜Spared cx.functionNames s.literals⌝) s).down ↔
      ∀ a s', x s = .ok (a, s') → Spared cx.functionNames s'.literals := by
    change (wp⟦x s⟧ (fun r => ⌜Spared cx.functionNames r.2.literals⌝, ExceptConds.true)).down ↔ _
    cases x s with
    | error e =>
      refine ⟨fun _ a s' hr => ?_, fun _ => trivial⟩
      cases hr
    | ok r =>
      refine ⟨fun h a s' hr => ?_, fun h => h r.1 r.2 rfl⟩
      cases hr
      exact h
  exact ⟨fun h s a s' hx hs => (hwp s).mp (h s hs) a s' hx,
    fun h s hs => (hwp s).mpr fun a s' hx => h s a s' hx hs⟩

/-! ## Steps -/

-- none of these touches the literals
attribute [spec] isDead setDead fresh emit define newBlock switchTo callBuiltin retain release
    openScope own
  ownAllocation closeDead

@[spec high]
theorem spares_throw (e : Error) : Spares cx (throw e : Emit α) := fun _ _ => trivial

theorem mayThrow (x : Except Error α) : ⦃⌜True⌝⦄ x ⦃⇓? _ => ⌜True⌝⦄ := by
  cases x <;> exact fun _ => trivial

@[spec]
theorem mayThrow_machineType (ptr : MachineType) (ty : Ty) :
    ⦃⌜True⌝⦄ machineType ptr ty ⦃⇓? _ => ⌜True⌝⦄ := mayThrow _

@[spec]
theorem mayThrow_valueType (ptr : MachineType) (ty : Ty) :
    ⦃⌜True⌝⦄ valueType ptr ty ⦃⇓? _ => ⌜True⌝⦄ := mayThrow _

theorem spares_forM {f : β → Emit Unit} (hf : ∀ b, Spares cx (f b)) (bs : List β) :
    Spares cx (bs.forM f) := by
  rw [List.forM_eq_forM]
  induction bs with
  | nil => mvcgen [List.forM_nil]
  | cons b bs ih =>
    rw [List.forM_cons]
    mvcgen [hf, ih]

theorem spares_mapM {f : β → Emit α} (hf : ∀ b, Spares cx (f b)) (bs : List β) :
    Spares cx (bs.mapM f) := by
  induction bs with
  | nil => mvcgen [List.mapM_nil]
  | cons b bs ih =>
    rw [List.mapM_cons]
    mvcgen [hf, ih]

@[spec]
theorem spares_null : Spares cx (null cx) := by mvcgen [null]

@[spec]
theorem spares_releaseAll (ps : List Pending) : Spares cx (releaseAll cx ps) :=
  spares_forM (fun p => by mvcgen [releasePending]) ps

@[spec]
theorem spares_closeScope : Spares cx (closeScope cx) := by mvcgen [closeScope]

@[spec]
theorem spares_emitReturn (v : Option ValueId) : Spares cx (emitReturn cx v) := by
  mvcgen [emitReturn]

/-- The one step that adds a literal. -/
theorem spares_literalNumber (text : String) : Spares cx (literalNumber cx text) := by
  refine spares_iff.mpr fun s k s' hrun hs => ?_
  cases hfind : s.literals.toList.findIdx? (· == text) with
  | some i =>
    rw [literalNumber_found cx hfind] at hrun
    cases hrun
    exact hs
  | none =>
    rw [literalNumber_new cx hfind] at hrun
    split at hrun
    · cases hrun
    · next hnew =>
      cases hrun
      exact hs.push text hnew

/-! ## Trees and functions -/

section

variable {x : Emit α} {condition y : Emit ValueId} {arm arm' : Emit (Option ValueId)}

@[spec]
theorem spares_inScope (hx : Spares cx x) : Spares cx (inScope cx x) := by mvcgen [inScope, hx]

@[spec]
theorem spares_scopedResult (ty : Ty) (harm : Spares cx arm) :
    Spares cx (scopedResult cx ty arm) := by
  mvcgen [scopedResult, inScope, harm]

theorem spares_emitLogical (op : BinaryOp) (hc : Spares cx condition) (hy : Spares cx y) :
    Spares cx (emitLogical cx op condition y) := by
  mvcgen [emitLogical, addParam, hc]

@[spec]
theorem spares_emitArm (ty : Ty) (slot : Option SlotId) (merge : BlockId) (harm : Spares cx arm) :
    Spares cx (emitArm ty slot merge arm) := by
  mvcgen [emitArm, harm]

theorem spares_emitConditional_none (ty ty1 : Ty) (hc : Spares cx condition)
    (harm : Spares cx arm) :
    Spares cx (emitConditional cx ty condition (ty1, arm) none) := by
  mvcgen [emitConditional, Option.mapM, newSlot]

theorem spares_emitConditional_some (ty ty1 ty2 : Ty) (hc : Spares cx condition)
    (harm : Spares cx arm) (harm' : Spares cx arm') :
    Spares cx (emitConditional cx ty condition (ty1, arm) (some (ty2, arm'))) := by
  mvcgen [emitConditional, Option.mapM, newSlot]

theorem spares_emitLoop (ty : Ty) (hc : Spares cx condition) (harm : Spares cx arm) :
    Spares cx (emitLoop cx condition ty arm) := by
  mvcgen [emitLoop, harm]

end

theorem spares_of_composed {bare : Prop} {x : Emit α} (h : Simulation.Composed cx bare x) :
    Spares cx x := by
  induction h with
  | pure a => mvcgen
  | bind _ _ hx hf => mvcgen [hx, hf]
  | lift x =>
    have hx := mayThrow x
    mvcgen [hx]
  | throw e => exact spares_throw e
  | isDead _ hf => mvcgen [hf]
  | emit _ => mvcgen
  | define _ => mvcgen
  | own p => mvcgen
  | literalNumber text => exact spares_literalNumber text
  | inScope _ hx => exact spares_inScope hx
  | emitReturn _ => exact spares_emitReturn _
  | emitLogical op _ _ hx hz => exact spares_emitLogical op hx hz
  | emitConditional ty ty' orElse _ _ _ hx hy he =>
    cases orElse with
    | none => exact spares_emitConditional_none ty ty' hx (spares_scopedResult ty' hy)
    | some arm =>
      exact spares_emitConditional_some ty ty' arm.1 hx (spares_scopedResult ty' hy)
        (spares_scopedResult arm.1 (he arm rfl))
  | emitLoop ty _ _ hx hy => exact spares_emitLoop ty hx (spares_scopedResult ty hy)

theorem spares_emitLocals (locals : List LocalInst) : Spares cx (emitLocals cx locals) :=
  spares_forM (fun l => by mvcgen [newSlot]) locals

theorem spares_emitFunction (sig : Signature) : Spares cx (emitFunction cx sig) := by
  have hentry (b : BlockId) : Spares cx (sig.params.mapM (addParam b)) :=
    spares_mapM (fun t => by mvcgen [addParam]) sig.params
  have hparams (assigned : List LocalId) (params : List (ParamInst × ValueId)) :=
    spares_of_composed (@Simulation.Composed.emitParams cx True assigned params)
  have hinits :=
    spares_of_composed (@Simulation.Composed.emitFieldInits cx True fun _ _ _ => trivial)
  have hbody (body : Checked.Block) :=
    spares_of_composed (@Simulation.lowerBlock_composed cx True body fun _ => trivial)
  mvcgen [emitFunction, hentry, spares_emitLocals, hparams, hinits, hbody]

/-! ## Modules -/

theorem Progress.spared_define {s s' : Progress} (h : s.define cx = .ok s')
    (hs : Spared cx.functionNames s.literals) : Spared cx.functionNames s'.literals := by
  obtain ⟨sig, -, h⟩ := except_bind_ok h
  obtain ⟨⟨⟨⟩, e⟩, hrun, h⟩ := except_bind_ok h
  have hspared := spares_iff.mp (spares_emitFunction sig) _ _ _ (Simulation.mapError_ok hrun) hs
  dsimp only at h
  split at h
  · obtain ⟨_, ht, -⟩ := except_bind_ok h
    cases ht
  · cases h
    exact hspared

theorem Progress.spared_foldlM {names : Std.TreeSet String} (context : FuncInst → Context)
    (hnames : ∀ f, (context f).functionNames = names) {fs : List FuncInst} {s s' : Progress}
    (h : fs.foldlM (fun s f => s.define (context f)) s = .ok s') (hs : Spared names s.literals) :
    Spared names s'.literals := by
  induction fs generalizing s with
  | nil =>
    cases h
    exact hs
  | cons f fs ih =>
    rw [List.foldlM_cons] at h
    obtain ⟨s1, hs1, h⟩ := except_bind_ok h
    have hspared := Progress.spared_define hs1 ((hnames f).symm ▸ hs)
    rw [hnames] at hspared
    exact ih h hspared

namespace Declared

variable {d d' : Declared}

/-- Everything that was declared still is, and so is the name. -/
def Adds (name : String) (d d' : Declared) : Prop :=
  d'.contains name = true ∧ ∀ other, d.contains other = true → d'.contains other = true

theorem adds_function {name : String} {sig : Signature} (h : d.function name sig = .ok d') :
    Adds name d d' := by
  rw [function] at h
  split at h
  · next other hother =>
    split at h
    · cases h
      refine ⟨?_, fun _ => id⟩
      rw [Std.TreeMap.contains_eq_isSome_getElem?, hother]
      rfl
    · cases h
  · cases h
    refine ⟨Std.TreeMap.contains_insert_self, fun other hd => ?_⟩
    rw [Std.TreeMap.contains_insert, hd, Bool.or_true]

theorem adds_foldlM {f : Declared → β → Except Error Declared} {name : β → String}
    (hf : ∀ {d b d'}, f d b = .ok d' → Adds (name b) d d') {bs : List β}
    (h : bs.foldlM f d = .ok d') :
    (∀ b ∈ bs, d'.contains (name b) = true) ∧
      ∀ other, d.contains other = true → d'.contains other = true := by
  induction bs generalizing d with
  | nil =>
    cases h
    exact ⟨by simp, fun _ => id⟩
  | cons b bs ih =>
    rw [List.foldlM_cons] at h
    obtain ⟨d1, hd1, h⟩ := except_bind_ok h
    obtain ⟨hname, hkeep⟩ := hf hd1
    obtain ⟨hnames, hkeeps⟩ := ih h
    exact ⟨List.forall_mem_cons.mpr ⟨hkeeps _ hname, hnames⟩,
      fun other hd => hkeeps other (hkeep other hd)⟩

end Declared

variable {ptr : MachineType} {p : Program}

theorem contains_of_declare {ls : List Layout} {d : Declared} (h : declare ptr p ls = .ok d)
    {f : FuncInst} (hf : f ∈ p.functions.toList) : d.contains f.linkName = true := by
  obtain ⟨d1, -, h⟩ := except_bind_ok h
  obtain ⟨d2, hfunctions, h⟩ := except_bind_ok h
  obtain ⟨d3, hdrops, h⟩ := except_bind_ok h
  obtain ⟨⟨⟩, -, h⟩ := except_bind_ok h
  cases h
  have hdeclared := (Declared.adds_foldlM (fun {d f d'} h => by
    obtain ⟨sig, -, h⟩ := except_bind_ok h
    exact Declared.adds_function (Simulation.mapError_ok h)) hfunctions).1 f hf
  exact (Declared.adds_foldlM (fun h => Declared.adds_function h) hdrops).2 _ hdeclared

/-- In a module that was generated no literal has the name of a function. -/
theorem literalName_ne_of_generate {m : Module} (h : generate ptr p = .ok m) {f : FuncId}
    (hf : f < p.functions.size) {k : Nat} (hk : k < m.literals.size) :
    literalName k ≠ (p.functionAt f).linkName := by
  obtain ⟨ls, -, h⟩ := except_bind_ok h
  obtain ⟨d, hdeclare, h⟩ := except_bind_ok h
  obtain ⟨s, hs, h⟩ := except_bind_ok h
  cases h
  have hspared := Progress.spared_foldlM
    (fun f => { program := p, ptr, layouts := ls, functionNames := _, function := f })
    (fun _ => rfl) hs (by simp [Spared]) k hk
  have hmem : p.functionAt f ∈ p.functions.toList := by simp [Program.functionAt, hf]
  intro heq
  rw [heq, Std.TreeSet.contains_ofList, Std.TreeMap.contains_keys,
    contains_of_declare hdeclare hmem] at hspared
  cases hspared

end ObjectLang.Code
