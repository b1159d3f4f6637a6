import Mathlib.Data.List.Flatten
import Mathlib.Data.List.Forall2
import Mathlib.Data.List.Nodup
import Mathlib.Data.Set.Insert
import ObjectLang.Code.Instr

/-! # Well-formed code

Every block ends, branches pass what their targets take, operands have the types that instructions
ask for, and on every way to an instruction its operands are defined before it.

That code is well formed is read off a chart, which gives for every block values that are at hand
where it starts: each branch has to come with what the chart promises at its target.
-/

namespace ObjectLang.Code

open Checked

/-- Values with their types. -/
abbrev Supply := Set (ValueId × MachineType)

section

variable (p : Program) (ptr : MachineType)

/-- What a callee takes and returns, if there is such a callee. -/
def Callee.signature? : Callee → Option Signature
  | .builtin b => some (b.signature ptr)
  | .function f => if f < p.functions.size then (signature ptr (p.functionAt f)).toOption else none
  | .drop _ => some { params := [ptr], result := none }

namespace Instr

/-- The value that an instruction defines. -/
def result : Instr → Option (ValueId × MachineType)
  | .intConst dst type _ | .intBinary dst _ type _ _ | .intNeg dst type _ | .slotLoad dst type _
  | .load dst type _ _ _ | .dataAddress dst type _ | .codeAddress dst type _ => some (dst, type)
  | .floatConst dst _ | .floatBinary dst _ _ _ | .floatNeg dst _ | .floatTrunc dst _ =>
    some (dst, .f64)
  | .intCompare dst _ _ _ | .isZero dst _ | .floatCompare dst _ _ _ => some (dst, .i8)
  | .call (some dst) callee _ => ((callee.signature? p ptr).bind (·.result)).map (dst, ·)
  | .callIndirect (some dst) sig _ _ => sig.result.map (dst, ·)
  | _ => none

/-- The values that an instruction uses. -/
def operands : Instr → List ValueId
  | .intConst .. | .floatConst .. | .slotLoad .. | .dataAddress .. | .codeAddress .. | .trap => []
  | .intBinary _ _ _ a b | .floatBinary _ _ a b | .intCompare _ _ a b | .floatCompare _ _ a b =>
    [a, b]
  | .intNeg _ _ a | .floatNeg _ a | .floatTrunc _ a | .isZero _ a | .load _ _ _ a _ => [a]
  | .slotStore value _ => [value]
  | .store value address _ => [value, address]
  | .call _ _ args => args
  | .callIndirect _ _ callee args => callee :: args
  | .jump target => target.arg.toList
  | .branch condition yes no => condition :: (yes.arg.toList ++ no.arg.toList)
  | .ret value => value.toList

def targets : Instr → List Target
  | .jump target => [target]
  | .branch _ yes no => [yes, no]
  | _ => []

theorem targets_eq_nil {i : Instr} (h : i.isTerminator = false) : i.targets = [] := by
  cases i <;> first | rfl | cases h

theorem result_eq_none {i : Instr} (h : i.isTerminator = true) : i.result p ptr = none := by
  cases i <;> first | rfl | cases h

end Instr

variable (c : FunctionCode) (T : Supply)

/-- The branch passes as many values as the block has parameters, each of its parameter's type. -/
def Target.Fits (t : Target) : Prop :=
  t.block < c.blocks.size ∧
    List.Forall₂ (fun v d => (v, d.2) ∈ T) t.arg.toList (c.blockAt t.block).params

/-- The values are what the signature takes, and there is a result if it has one. -/
def Signature.Fits (sig : Signature) (dst : Option ValueId) (args : List ValueId) : Prop :=
  List.Forall₂ (fun v t => (v, t) ∈ T) args sig.params ∧ dst.isSome = sig.result.isSome

/-- The operands are among the given values and have the types that the instruction asks for. -/
def Instr.Fits : Instr → Prop
  | .intConst _ type n => type.isFloat = false ∧ type.holds n = true
  | .floatConst .. | .trap => True
  | .intBinary _ _ type a b => type.isFloat = false ∧ (a, type) ∈ T ∧ (b, type) ∈ T
  | .floatBinary _ _ a b | .floatCompare _ _ a b => (a, .f64) ∈ T ∧ (b, .f64) ∈ T
  | .intNeg _ type a => type.isFloat = false ∧ (a, type) ∈ T
  | .floatNeg _ a | .floatTrunc _ a => (a, .f64) ∈ T
  | .intCompare _ _ a b => ∃ type, type.isFloat = false ∧ (a, type) ∈ T ∧ (b, type) ∈ T
  | .isZero _ a => ∃ type, type.isFloat = false ∧ (a, type) ∈ T
  | .slotLoad _ type slot => c.slots[slot]? = some type
  | .slotStore value slot => ∃ type, c.slots[slot]? = some type ∧ (value, type) ∈ T
  | .load _ _ _ address _ => (address, ptr) ∈ T
  | .store value address _ => (∃ type, (value, type) ∈ T) ∧ (address, ptr) ∈ T
  | .dataAddress _ type _ | .codeAddress _ type _ => type = ptr
  | .call dst callee args => ∃ sig, callee.signature? p ptr = some sig ∧ sig.Fits T dst args
  | .callIndirect dst sig callee args => (callee, ptr) ∈ T ∧ sig.Fits T dst args
  | .jump target => target.Fits c T
  | .branch condition yes no => (condition, .i8) ∈ T ∧ yes.Fits c T ∧ no.Fits c T
  | .ret value => Option.Rel (fun v t => (v, t) ∈ T) value c.signature.result

/-- The values that a block defines, its parameters first. -/
def Block.definitions (b : Block) : List (ValueId × MachineType) :=
  b.params ++ b.code.toList.filterMap (Instr.result p ptr)

/-- There is one instruction that ends the block, and it is the last. -/
def Block.Ended (b : Block) : Prop :=
  ∃ body last, b.code.toList = body ++ [last] ∧ last.isTerminator = true ∧
    ∀ i ∈ body, i.isTerminator = false

namespace FunctionCode

def definitions : List (ValueId × MachineType) := c.blocks.toList.flatMap (·.definitions p ptr)

/-- The blocks that were passed on a way from the entry to a block. -/
inductive Path (c : FunctionCode) : List BlockId → BlockId → Prop
  | entry : Path c [] 0
  | step {path : List BlockId} {b : BlockId} {i : Instr} {t : Target} (h : Path c path b)
    (hi : i ∈ (c.blockAt b).code.toList) (ht : t ∈ i.targets) : Path c (path ++ [b]) t.block

structure WellFormed : Prop where
  /-- The entry takes what the function takes. -/
  entry : 0 < c.blocks.size ∧ (c.blockAt 0).params.map (·.2) = c.signature.params
  ended : ∀ b < c.blocks.size, (c.blockAt b).Ended
  fits : ∀ b < c.blocks.size, ∀ i ∈ (c.blockAt b).code.toList,
    i.Fits p ptr c { d | d ∈ c.definitions p ptr }
  /-- No value is defined twice. -/
  once : ((c.definitions p ptr).map (·.1)).Nodup
  /-- What is used in a block that can be reached was defined on every way there. -/
  defined : ∀ path b, c.Path path b → ∀ before i after,
    (c.blockAt b).code.toList = before ++ i :: after → ∀ v ∈ i.operands,
      v ∈ (path.flatMap (fun a => (c.blockAt a).definitions p ptr) ++
        ((c.blockAt b).params ++ before.filterMap (Instr.result p ptr))).map (·.1)

end FunctionCode

end

variable {p : Program} {ptr : MachineType} {c c' : FunctionCode} {T T' : Supply}

/-! ### More values and more code -/

/-- Blocks and slots were added. -/
structure FunctionCode.Extends (c c' : FunctionCode) : Prop where
  signature : c'.signature = c.signature
  slots : c.slots.toList <+: c'.slots.toList
  size : c.blocks.size ≤ c'.blocks.size
  params : ∀ b < c.blocks.size, (c'.blockAt b).params = (c.blockAt b).params

theorem getElem?_of_prefix {α : Type} {xs ys : Array α} (h : xs.toList <+: ys.toList)
    {k : Nat} {a : α} (hk : xs[k]? = some a) : ys[k]? = some a := by
  rw [← Array.getElem?_toList] at hk ⊢
  obtain ⟨more, hmore⟩ := h
  rw [← hmore, List.getElem?_append_left (List.getElem?_eq_some_iff.mp hk).1, hk]

theorem FunctionCode.Extends.refl (c : FunctionCode) : c.Extends c :=
  ⟨rfl, List.prefix_rfl, Nat.le_refl _, fun _ _ => rfl⟩

variable {i : Instr} {t : Target}

theorem Target.Fits.mono (h : t.Fits c T) (hc : c.Extends c') (hT : T ⊆ T') : t.Fits c' T' := by
  refine ⟨Nat.lt_of_lt_of_le h.1 hc.size, ?_⟩
  rw [hc.params _ h.1]
  exact h.2.imp fun _ _ h => hT h

theorem Signature.Fits.mono {sig : Signature} {dst : Option ValueId} {args : List ValueId}
    (h : sig.Fits T dst args) (hT : T ⊆ T') : sig.Fits T' dst args :=
  ⟨h.1.imp fun _ _ h => hT h, h.2⟩

theorem Instr.Fits.mono (h : i.Fits p ptr c T) (hc : c.Extends c') (hT : T ⊆ T') :
    i.Fits p ptr c' T' := by
  cases i with
  | intConst | floatConst | trap | dataAddress | codeAddress => exact h
  | intBinary => exact ⟨h.1, hT h.2.1, hT h.2.2⟩
  | floatBinary | floatCompare => exact ⟨hT h.1, hT h.2⟩
  | intNeg => exact ⟨h.1, hT h.2⟩
  | floatNeg | floatTrunc | load => exact hT h
  | intCompare =>
    obtain ⟨t, ht, ha, hb⟩ := h
    exact ⟨t, ht, hT ha, hT hb⟩
  | isZero =>
    obtain ⟨t, ht, ha⟩ := h
    exact ⟨t, ht, hT ha⟩
  | slotLoad => exact getElem?_of_prefix hc.slots h
  | slotStore =>
    obtain ⟨t, ht, hv⟩ := h
    exact ⟨t, getElem?_of_prefix hc.slots ht, hT hv⟩
  | store => exact ⟨h.1.imp fun _ h => hT h, hT h.2⟩
  | call =>
    obtain ⟨sig, hsig, hargs⟩ := h
    exact ⟨sig, hsig, hargs.mono hT⟩
  | callIndirect => exact ⟨hT h.1, h.2.mono hT⟩
  | jump => exact Target.Fits.mono h hc hT
  | branch => exact ⟨hT h.1, h.2.1.mono hc hT, h.2.2.mono hc hT⟩
  | ret value =>
    rw [Fits] at h ⊢
    rw [hc.signature]
    generalize c.signature.result = r at h
    cases h with
    | some h => exact .some (hT h)
    | none => exact .none

theorem exists_of_mem_forall₂ {α β : Type} {R : α → β → Prop} {as : List α} {bs : List β}
    (h : List.Forall₂ R as bs) {a : α} (ha : a ∈ as) : ∃ b, R a b := by
  induction h with
  | nil => cases ha
  | cons hab _ ih =>
    obtain rfl | ha := List.mem_cons.mp ha
    · exact ⟨_, hab⟩
    · exact ih ha

theorem Target.Fits.exists_of_mem (h : t.Fits c T) {v : ValueId} (hv : v ∈ t.arg.toList) :
    ∃ type, (v, type) ∈ T := by
  obtain ⟨d, hd⟩ := exists_of_mem_forall₂ h.2 hv
  exact ⟨d.2, hd⟩

theorem Instr.Fits.target_lt (h : i.Fits p ptr c T) (ht : t ∈ i.targets) :
    t.block < c.blocks.size := by
  cases i with
  | jump target =>
    obtain rfl := List.mem_singleton.mp ht
    exact h.1
  | branch _ yes no =>
    obtain rfl | rfl := List.mem_pair.mp ht
    · exact h.2.1.1
    · exact h.2.2.1
  | _ => cases ht

theorem Instr.Fits.exists_of_mem (h : i.Fits p ptr c T) {v : ValueId} (hv : v ∈ i.operands) :
    ∃ type, (v, type) ∈ T := by
  have hargs {sig : Signature} {dst : Option ValueId} {args : List ValueId}
      (h : sig.Fits T dst args)
      (hv : v ∈ args) : ∃ type, (v, type) ∈ T := exists_of_mem_forall₂ h.1 hv
  cases i with
  | intConst | floatConst | trap | dataAddress | codeAddress | slotLoad => cases hv
  | intBinary _ _ t =>
    obtain rfl | rfl := List.mem_pair.mp hv
    · exact ⟨t, h.2.1⟩
    · exact ⟨t, h.2.2⟩
  | floatBinary | floatCompare =>
    obtain rfl | rfl := List.mem_pair.mp hv
    · exact ⟨_, h.1⟩
    · exact ⟨_, h.2⟩
  | intNeg _ t =>
    obtain rfl := List.mem_singleton.mp hv
    exact ⟨t, h.2⟩
  | floatNeg | floatTrunc | load =>
    obtain rfl := List.mem_singleton.mp hv
    exact ⟨_, h⟩
  | intCompare =>
    obtain ⟨t, -, ha, hb⟩ := h
    obtain rfl | rfl := List.mem_pair.mp hv
    · exact ⟨t, ha⟩
    · exact ⟨t, hb⟩
  | isZero =>
    obtain rfl := List.mem_singleton.mp hv
    obtain ⟨t, -, ha⟩ := h
    exact ⟨t, ha⟩
  | slotStore =>
    obtain rfl := List.mem_singleton.mp hv
    obtain ⟨t, -, ha⟩ := h
    exact ⟨t, ha⟩
  | store =>
    obtain rfl | rfl := List.mem_pair.mp hv
    · exact h.1
    · exact ⟨_, h.2⟩
  | call =>
    obtain ⟨sig, -, h⟩ := h
    exact hargs h hv
  | callIndirect =>
    obtain rfl | hv := List.mem_cons.mp hv
    · exact ⟨_, h.1⟩
    · exact hargs h.2 hv
  | jump => exact Target.Fits.exists_of_mem h hv
  | branch =>
    rw [operands, List.mem_cons, List.mem_append] at hv
    obtain rfl | hv | hv := hv
    · exact ⟨_, h.1⟩
    · exact h.2.1.exists_of_mem hv
    · exact h.2.2.exists_of_mem hv
  | ret value =>
    obtain rfl := Option.mem_toList.mp hv
    rw [Fits] at h
    generalize c.signature.result = r at h
    cases h with
    | some h => exact ⟨_, h⟩

/-! ### Charts -/

/-- What is promised to be at hand where a block starts. -/
abbrev Chart := BlockId → Supply

variable (p ptr c) in
/-- Each instruction fits where it stands, and brings along what the chart promises at its
targets. -/
def Flows (Γ : Chart) : Supply → List Instr → Prop
  | _, [] => True
  | T, i :: is =>
    (i.Fits p ptr c T ∧ ∀ t ∈ i.targets, Γ t.block ⊆ T) ∧
      Flows Γ (T ∪ { d | i.result p ptr = some d }) is

variable (p ptr) in
/-- The values that some instructions define. -/
def resultsOf (is : List Instr) : Supply := { d | d ∈ is.filterMap (Instr.result p ptr) }

theorem resultsOf_cons (i : Instr) (is : List Instr) :
    resultsOf p ptr (i :: is) = { d | i.result p ptr = some d } ∪ resultsOf p ptr is := by
  ext d
  simp [resultsOf]

theorem flows_append {Γ : Chart} {is js : List Instr} :
    Flows p ptr c Γ T (is ++ js) ↔
      Flows p ptr c Γ T is ∧ Flows p ptr c Γ (T ∪ resultsOf p ptr is) js := by
  induction is generalizing T with
  | nil => simp [Flows, resultsOf]
  | cons i is ih =>
    rw [List.cons_append, Flows, Flows, ih, resultsOf_cons, ← Set.union_assoc]
    simp only [and_assoc]

theorem Flows.at {Γ : Chart} {before after : List Instr}
    (h : Flows p ptr c Γ T (before ++ i :: after)) :
    i.Fits p ptr c (T ∪ resultsOf p ptr before) ∧
      ∀ t ∈ i.targets, Γ t.block ⊆ T ∪ resultsOf p ptr before := (flows_append.mp h).2.1

theorem Flows.mono {Γ Γ' : Chart} {is : List Instr} (h : Flows p ptr c Γ T is) (hc : c.Extends c')
    (hΓ : ∀ b < c.blocks.size, Γ' b = Γ b) : Flows p ptr c' Γ' T is := by
  induction is generalizing T with
  | nil => trivial
  | cons i is ih =>
    refine ⟨⟨h.1.1.mono hc subset_rfl, fun t ht => ?_⟩, ih h.2⟩
    rw [hΓ _ (h.1.1.target_lt ht)]
    exact h.1.2 t ht

/-- The values that are at hand where the block starts. -/
def Chart.start (Γ : Chart) (c : FunctionCode) (b : BlockId) : Supply :=
  Γ b ∪ { d | d ∈ (c.blockAt b).params }

variable (p ptr) in
/-- The chart holds of the code, of which some blocks are not ended yet.  All values are below the
bound. -/
structure Charted (Γ : Chart) (unfinished : Set BlockId) (bound : ValueId) (c : FunctionCode) :
    Prop where
  ended : ∀ b < c.blocks.size, b ∉ unfinished → (c.blockAt b).Ended
  running : ∀ b < c.blocks.size, b ∈ unfinished → ∀ i ∈ (c.blockAt b).code.toList,
    i.isTerminator = false
  flows : ∀ b < c.blocks.size, Flows p ptr c Γ (Γ.start c b) (c.blockAt b).code.toList
  once : ∀ b < c.blocks.size, (((c.blockAt b).definitions p ptr).map (·.1)).Nodup
  apart : ∀ a < c.blocks.size, ∀ b < c.blocks.size, ∀ d ∈ (c.blockAt a).definitions p ptr,
    ∀ e ∈ (c.blockAt b).definitions p ptr, d.1 = e.1 → a = b
  bounded : ∀ b < c.blocks.size, ∀ d ∈ (c.blockAt b).definitions p ptr, d.1 < bound
  known : ∀ b < c.blocks.size, ∀ d ∈ Γ b, ∃ a < c.blocks.size, d ∈ (c.blockAt a).definitions p ptr

/-- The values that are at hand behind the code that a block has. -/
def Chart.behind (Γ : Chart) (p : Program) (ptr : MachineType) (c : FunctionCode) (b : BlockId) :
    Supply :=
  Γ b ∪ { d | d ∈ (c.blockAt b).definitions p ptr }

theorem Chart.behind_eq (Γ : Chart) (b : BlockId) :
    Γ.behind p ptr c b = Γ.start c b ∪ resultsOf p ptr (c.blockAt b).code.toList := by
  ext d
  simp [Chart.behind, Chart.start, resultsOf, Block.definitions, or_assoc]

/-- On the way through a block, no more is at hand than behind it. -/
theorem Chart.start_subset_behind (Γ : Chart) {b : BlockId} {before after : List Instr}
    (h : (c.blockAt b).code.toList = before ++ after) :
    Γ.start c b ∪ resultsOf p ptr before ⊆ Γ.behind p ptr c b := by
  rw [Chart.behind_eq, h]
  refine Set.union_subset_union_right _ fun d hd => ?_
  rw [resultsOf, Set.mem_ofPred_eq, List.filterMap_append]
  exact List.mem_append_left _ hd

namespace FunctionCode

theorem mem_definitions {d : ValueId × MachineType} :
    d ∈ c.definitions p ptr ↔ ∃ b < c.blocks.size, d ∈ (c.blockAt b).definitions p ptr := by
  rw [definitions, List.mem_flatMap]
  constructor
  · rintro ⟨k, hk, hd⟩
    obtain ⟨b, hb, rfl⟩ := List.mem_iff_getElem.mp hk
    have hlt : b < c.blocks.size := hb
    refine ⟨b, hlt, ?_⟩
    simpa [blockAt, hlt] using hd
  · rintro ⟨b, hb, hd⟩
    refine ⟨c.blockAt b, ?_, hd⟩
    simp [blockAt, hb]

end FunctionCode

namespace Charted

variable {Γ : Chart} {U : Set BlockId} {bound : ValueId} {b : BlockId}

theorem behind_subset (h : Charted p ptr Γ U bound c) (hb : b < c.blocks.size) :
    Γ.behind p ptr c b ⊆ { d | d ∈ c.definitions p ptr } := by
  rintro d (hd | hd)
  · exact FunctionCode.mem_definitions.mpr (h.known b hb d hd)
  · exact FunctionCode.mem_definitions.mpr ⟨b, hb, hd⟩

theorem fits (h : Charted p ptr Γ U bound c) (hb : b < c.blocks.size) {i : Instr}
    (hi : i ∈ (c.blockAt b).code.toList) : i.Fits p ptr c { d | d ∈ c.definitions p ptr } := by
  obtain ⟨before, after, hcode⟩ := List.append_of_mem hi
  have hflows := h.flows b hb
  rw [hcode] at hflows
  exact hflows.at.1.mono (.refl c) ((Γ.start_subset_behind hcode).trans (h.behind_subset hb))

theorem nodup (h : Charted p ptr Γ U bound c) : ((c.definitions p ptr).map (·.1)).Nodup := by
  rw [FunctionCode.definitions, List.map_flatMap, List.nodup_flatMap]
  have hget (b : Nat) (hb : b < c.blocks.toList.length) : c.blocks.toList[b] = c.blockAt b := by
    have hlt : b < c.blocks.size := hb
    simp [FunctionCode.blockAt, hlt]
  constructor
  · intro k hk
    obtain ⟨b, hb, rfl⟩ := List.mem_iff_getElem.mp hk
    rw [hget]
    exact h.once b hb
  · refine List.pairwise_iff_getElem.mpr fun a b ha hb hab => ?_
    intro v hva hvb
    rw [hget] at hva hvb
    obtain ⟨d, hd, rfl⟩ := List.mem_map.mp hva
    obtain ⟨e, he, heq⟩ := List.mem_map.mp hvb
    exact Nat.ne_of_lt hab (h.apart a ha b hb d hd e he heq.symm)

/-- Blocks on a way exist, and what the chart promises at its end was defined on it. -/
theorem path (h : Charted p ptr Γ U bound c) (hsize : 0 < c.blocks.size) (hentry : Γ 0 = ∅)
    {path : List BlockId} (hpath : c.Path path b) :
    b < c.blocks.size ∧
      Γ b ⊆ { d | d ∈ path.flatMap fun a => (c.blockAt a).definitions p ptr } := by
  induction hpath with
  | entry =>
    rw [hentry]
    exact ⟨hsize, Set.empty_subset _⟩
  | @step path b i t _ hi ht ih =>
    obtain ⟨hb, hΓ⟩ := ih
    obtain ⟨before, after, hcode⟩ := List.append_of_mem hi
    have hflows := h.flows b hb
    rw [hcode] at hflows
    obtain ⟨hfits, htargets⟩ := hflows.at
    refine ⟨hfits.target_lt ht, fun d hd => ?_⟩
    rw [Set.mem_ofPred_eq, List.flatMap_append, List.flatMap_singleton, List.mem_append]
    exact (Γ.start_subset_behind hcode (htargets t ht hd)).imp (@hΓ d) id

/-- Code with a chart is well formed once all its blocks are ended. -/
theorem wellFormed (h : Charted p ptr Γ ∅ bound c) (hsize : 0 < c.blocks.size) (hentry : Γ 0 = ∅)
    (hparams : (c.blockAt 0).params.map (·.2) = c.signature.params) : c.WellFormed p ptr where
  entry := ⟨hsize, hparams⟩
  ended b hb := h.ended b hb (Set.notMem_empty b)
  fits b hb i := h.fits hb
  once := h.nodup
  defined path b hpath before i after hcode v hv := by
    obtain ⟨hb, hΓ⟩ := h.path hsize hentry hpath
    have hflows := h.flows b hb
    rw [hcode] at hflows
    obtain ⟨type, hmem⟩ := hflows.at.1.exists_of_mem hv
    refine List.mem_map.mpr ⟨(v, type), ?_, rfl⟩
    rw [List.mem_append, List.mem_append]
    obtain (hmem | hmem) | hmem := hmem
    · exact .inl (hΓ hmem)
    · exact .inr (.inl hmem)
    · exact .inr (.inr hmem)

end Charted

end ObjectLang.Code
