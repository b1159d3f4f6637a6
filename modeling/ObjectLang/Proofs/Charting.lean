import ObjectLang.Proofs.WellFormed
import ObjectLang.Proofs.Emission

/-! # Charts of code that is being emitted

What single steps of emission do to code with a chart: an instruction goes behind the current block,
a new block gets a place on the chart.
-/

namespace ObjectLang.Code

open Checked

variable {p : Program} {ptr : MachineType} {sig : Signature} {Γ Γ' : Chart} {U U' : Set BlockId}
  {bound bound' : ValueId} {s s' : Emitter} {i : Instr}

/-- The code that has been emitted so far. -/
def Emitter.code (sig : Signature) (s : Emitter) : FunctionCode :=
  { signature := sig, slots := s.slots, blocks := s.blocks, order := s.order }

def Emitter.withValues (s : Emitter) (n : ValueId) : Emitter := { s with nextValue := n }

theorem Emitter.code_blockAt (b : BlockId) : (s.code sig).blockAt b = s.blockAt b := rfl

theorem Emitter.code_extends_push : (s.code sig).Extends ((s.push i).code sig) where
  signature := rfl
  slots := List.prefix_rfl
  size := Nat.le_of_eq (s.push_blocks_size i).symm
  params b _ := by
    rw [code_blockAt, code_blockAt, push_blockAt]
    split <;> rfl

theorem Block.definitions_push (b : Block) (i : Instr) :
    ({ b with code := b.code.push i } : Block).definitions p ptr =
      b.definitions p ptr ++ (i.result p ptr).toList := by
  rw [Block.definitions, Block.definitions, Array.toList_push, List.filterMap_append,
    List.append_assoc]
  cases h : i.result p ptr <;> simp [h]

theorem Block.ended_push {b : Block} (hi : i.isTerminator = true)
    (hb : ∀ j ∈ b.code.toList, j.isTerminator = false) :
    ({ b with code := b.code.push i } : Block).Ended :=
  ⟨b.code.toList, i, Array.toList_push, hi, hb⟩

namespace Emitter

theorem code_push_current (hs : s.Inside) : ((s.push i).code sig).blockAt s.current =
    { s.blockAt s.current with code := (s.blockAt s.current).code.push i } :=
  s.push_blockAt_current i hs

theorem code_push_ne {b : BlockId} (hb : b ≠ s.current) :
    ((s.push i).code sig).blockAt b = (s.code sig).blockAt b :=
  s.push_blockAt_ne i hb

theorem definitions_push (hs : s.Inside) :
    (((s.push i).code sig).blockAt s.current).definitions p ptr =
      ((s.code sig).blockAt s.current).definitions p ptr ++ (i.result p ptr).toList := by
  rw [code_push_current hs, Block.definitions_push]
  rfl

end Emitter

variable (sig) in
/-- Behind one more instruction its result is at hand as well. -/
theorem Chart.behind_push (hs : s.Inside) :
    Γ.behind p ptr ((s.push i).code sig) s.current =
      Γ.behind p ptr (s.code sig) s.current ∪ { d | i.result p ptr = some d } := by
  ext d
  rw [Chart.behind, Chart.behind, Emitter.definitions_push hs]
  simp [or_assoc]

namespace Charted

section

variable (h : Charted p ptr Γ U bound (s.code sig))

include h

theorem congr (hblocks : s'.blocks = s.blocks)
    (hslots : s.slots.toList <+: s'.slots.toList) (hbound : bound ≤ bound')
    (hΓ : ∀ b < s.blocks.size, Γ' b = Γ b) (hU : ∀ b < s.blocks.size, b ∈ U' ↔ b ∈ U) :
    Charted p ptr Γ' U' bound' (s'.code sig) := by
  have hat (b : BlockId) : (s'.code sig).blockAt b = (s.code sig).blockAt b := by
    simp only [FunctionCode.blockAt, Emitter.code, hblocks]
  have hsize : (s'.code sig).blocks.size = s.blocks.size := congrArg Array.size hblocks
  have hext : (s.code sig).Extends (s'.code sig) :=
    ⟨rfl, hslots, Nat.le_of_eq hsize.symm, fun b _ => by rw [hat]⟩
  exact
    { ended := fun b hb hn => hat b ▸ h.ended b (hsize ▸ hb) (mt (hU b (hsize ▸ hb)).mpr hn)
      running := fun b hb hu => hat b ▸ h.running b (hsize ▸ hb) ((hU b (hsize ▸ hb)).mp hu)
      flows := fun b hb => by
        rw [Chart.start, hat, hΓ b (hsize ▸ hb)]
        exact (h.flows b (hsize ▸ hb)).mono hext hΓ
      once := fun b hb => hat b ▸ h.once b (hsize ▸ hb)
      apart := fun a ha b hb => by
        rw [hat, hat]
        exact h.apart a (hsize ▸ ha) b (hsize ▸ hb)
      bounded := fun b hb d hd =>
        Nat.lt_of_lt_of_le (h.bounded b (hsize ▸ hb) d (hat b ▸ hd)) hbound
      known := fun b hb d hd => by
        obtain ⟨a, ha, hda⟩ := h.known b (hsize ▸ hb) d (hΓ b (hsize ▸ hb) ▸ hd)
        exact ⟨a, hsize ▸ ha, (hat a).symm ▸ hda⟩ }

section

variable (hs : s.Inside)

include hs

/-- A definition is an old one, or the result of the instruction and new. -/
theorem mem_definitions_push {b : BlockId} (hb : b < s.blocks.size) {d : ValueId × MachineType}
    (hd : d ∈ (((s.push i).code sig).blockAt b).definitions p ptr) :
    d ∈ ((s.code sig).blockAt b).definitions p ptr ∧ d.1 < bound ∨
      b = s.current ∧ i.result p ptr = some d := by
  by_cases hne : b = s.current
  · subst hne
    rw [Emitter.definitions_push hs, List.mem_append, Option.mem_toList] at hd
    exact hd.imp (fun hd => ⟨hd, h.bounded _ hb d hd⟩) fun hd => ⟨rfl, hd⟩
  · rw [Emitter.code_push_ne hne] at hd
    exact .inl ⟨hd, h.bounded b hb d hd⟩

theorem ended_push (hcurrent : s.current ∈ U) {b : BlockId} (hb : b < s.blocks.size)
    (hn : b ∉ U ∨ b = s.current ∧ i.isTerminator = true) :
    (((s.push i).code sig).blockAt b).Ended := by
  by_cases hne : b = s.current
  · subst hne
    rw [Emitter.code_push_current hs]
    refine Block.ended_push ?_ (h.running _ hb hcurrent)
    rcases hn with hn | hn
    · exact absurd hcurrent hn
    · exact hn.2
  · rw [Emitter.code_push_ne hne]
    exact h.ended b hb (hn.resolve_right fun hn => hne hn.1)

theorem running_push {b : BlockId} (hb : b < s.blocks.size) (hu : b ∈ U)
    (hterm : b = s.current → i.isTerminator = false) {j : Instr}
    (hj : j ∈ (((s.push i).code sig).blockAt b).code.toList) : j.isTerminator = false := by
  by_cases hne : b = s.current
  · subst hne
    rw [Emitter.code_push_current hs, Array.toList_push, List.mem_append,
      List.mem_singleton] at hj
    rcases hj with hj | rfl
    · exact h.running _ hb hu j hj
    · exact hterm rfl
  · rw [Emitter.code_push_ne hne] at hj
    exact h.running b hb hu j hj

theorem flows_push (hfits : i.Fits p ptr (s.code sig) (Γ.behind p ptr (s.code sig) s.current))
    (htargets : ∀ t ∈ i.targets, Γ t.block ⊆ Γ.behind p ptr (s.code sig) s.current)
    {b : BlockId} (hb : b < s.blocks.size) :
    Flows p ptr ((s.push i).code sig) Γ (Γ.start ((s.push i).code sig) b)
      (((s.push i).code sig).blockAt b).code.toList := by
  have hmono : Flows p ptr ((s.push i).code sig) Γ (Γ.start (s.code sig) b)
      ((s.code sig).blockAt b).code.toList :=
    (h.flows b hb).mono Emitter.code_extends_push fun _ _ => rfl
  by_cases hne : b = s.current
  · subst hne
    rw [Chart.behind_eq] at hfits htargets
    rw [Chart.start, Emitter.code_push_current hs, Array.toList_push, flows_append]
    exact ⟨hmono, ⟨hfits.mono Emitter.code_extends_push subset_rfl, htargets⟩, trivial⟩
  · rw [Chart.start, Emitter.code_push_ne hne]
    exact hmono

theorem once_push (hresult : ∀ d, i.result p ptr = some d → bound ≤ d.1) {b : BlockId}
    (hb : b < s.blocks.size) :
    (((((s.push i).code sig).blockAt b).definitions p ptr).map (·.1)).Nodup := by
  by_cases hne : b = s.current
  · subst hne
    rw [Emitter.definitions_push hs, List.map_append, List.nodup_append]
    refine ⟨h.once _ hb, ?_, fun v hv w hw => ?_⟩
    · cases i.result p ptr <;> simp
    · obtain ⟨d, hd, rfl⟩ := List.mem_map.mp hv
      obtain ⟨e, he, rfl⟩ := List.mem_map.mp hw
      have hle := hresult e (Option.mem_toList.mp he)
      exact Nat.ne_of_lt (Nat.lt_of_lt_of_le (h.bounded _ hb d hd) hle)
  · rw [Emitter.code_push_ne hne]
    exact h.once b hb

/-- An instruction goes behind the current block, which it may end. -/
theorem push (hcurrent : s.current ∈ U)
    (hfits : i.Fits p ptr (s.code sig) (Γ.behind p ptr (s.code sig) s.current))
    (htargets : ∀ t ∈ i.targets, Γ t.block ⊆ Γ.behind p ptr (s.code sig) s.current)
    (hbound : bound ≤ bound')
    (hresult : ∀ d, i.result p ptr = some d → bound ≤ d.1 ∧ d.1 < bound')
    (hU : ∀ b < s.blocks.size, b ∈ U' ↔ b ∈ U ∧ (b = s.current → i.isTerminator = false)) :
    Charted p ptr Γ U' bound' ((s.push i).code sig) := by
  have hsize : ((s.push i).code sig).blocks.size = s.blocks.size := s.push_blocks_size i
  refine ⟨fun b hb hn => ?_, fun b hb hu j hj => ?_, fun b hb => ?_, fun b hb => ?_,
    fun a ha b hb d hd e he heq => ?_, fun b hb d hd => ?_, fun b hb d hd => ?_⟩
  all_goals rw [hsize] at hb
  · refine h.ended_push hs hcurrent hb ?_
    rw [hU b hb, not_and_or] at hn
    exact hn.imp_right fun hn => by simpa using hn
  · obtain ⟨hu, hterm⟩ := (hU b hb).mp hu
    exact h.running_push hs hb hu hterm hj
  · exact h.flows_push hs hfits htargets hb
  · exact h.once_push hs (fun d hd => (hresult d hd).1) hb
  · rw [hsize] at ha
    rcases h.mem_definitions_push hs ha hd with ⟨hd', hdlt⟩ | ⟨rfl, hd'⟩ <;>
      rcases h.mem_definitions_push hs hb he with ⟨he', helt⟩ | ⟨rfl, he'⟩
    · exact h.apart a ha b hb d hd' e he' heq
    · exact absurd heq (Nat.ne_of_lt (Nat.lt_of_lt_of_le hdlt (hresult e he').1))
    · exact absurd heq (Nat.ne_of_gt (Nat.lt_of_lt_of_le helt (hresult d hd').1))
    · rfl
  · rcases h.mem_definitions_push hs hb hd with ⟨-, hlt⟩ | ⟨-, hd⟩
    · exact Nat.lt_of_lt_of_le hlt hbound
    · exact (hresult d hd).2
  · obtain ⟨a, ha, hda⟩ := h.known b hb d hd
    refine ⟨a, hsize.symm ▸ ha, ?_⟩
    by_cases hne : a = s.current
    · rw [hne, Emitter.definitions_push hs]
      exact List.mem_append_left _ (hne ▸ hda)
    · rwa [Emitter.code_push_ne hne]

end

/-- A block without code is added, with new values for its parameters. -/
theorem addBlock (ps : List (ValueId × MachineType))
    (hsize : s'.blocks.size = s.blocks.size + 1)
    (hold : ∀ b < s.blocks.size, s'.blockAt b = s.blockAt b)
    (hnew : s'.blockAt s.blocks.size = { params := ps }) (hslots : s'.slots = s.slots)
    (hΓ : ∀ b < s.blocks.size, Γ' b = Γ b)
    (hpromise : ∀ d ∈ Γ' s.blocks.size, d ∈ (s.code sig).definitions p ptr)
    (hbound : bound ≤ bound') (hnodup : (ps.map (·.1)).Nodup)
    (hps : ∀ d ∈ ps, bound ≤ d.1 ∧ d.1 < bound')
    (hU : ∀ b < s.blocks.size, b ∈ U' ↔ b ∈ U) (hin : s.blocks.size ∈ U') :
    Charted p ptr Γ' U' bound' (s'.code sig) := by
  have hle : s.blocks.size ≤ s'.blocks.size := by omega
  have hslots : s.slots.toList <+: s'.slots.toList := hslots ▸ List.prefix_rfl
  have hext : (s.code sig).Extends (s'.code sig) :=
    ⟨rfl, hslots, hle, fun b hb => congrArg Block.params (hold b hb)⟩
  have hdefs : (s'.blockAt s.blocks.size).definitions p ptr = ps := by
    rw [hnew]
    exact List.append_nil ps
  have hcases {b : BlockId} (hb : b < (s'.code sig).blocks.size) :
      b < s.blocks.size ∨ b = s.blocks.size :=
    Nat.lt_or_eq_of_le (Nat.le_of_lt_succ (Nat.lt_of_lt_of_eq hb hsize))
  have hmem {b : BlockId} (hb : b < s.blocks.size) {d : ValueId × MachineType}
      (hd : d ∈ ((s'.code sig).blockAt b).definitions p ptr) :
      d ∈ ((s.code sig).blockAt b).definitions p ptr ∧ d.1 < bound := by
    rw [Emitter.code_blockAt, hold b hb] at hd
    exact ⟨hd, h.bounded b hb d hd⟩
  have hfresh {d : ValueId × MachineType}
      (hd : d ∈ ((s'.code sig).blockAt s.blocks.size).definitions p ptr) :
      bound ≤ d.1 ∧ d.1 < bound' := by
    rw [Emitter.code_blockAt, hdefs] at hd
    exact hps d hd
  have hknown {d : ValueId × MachineType} (hd : d ∈ (s.code sig).definitions p ptr) :
      ∃ a < (s'.code sig).blocks.size, d ∈ ((s'.code sig).blockAt a).definitions p ptr := by
    obtain ⟨a, ha, hda⟩ := FunctionCode.mem_definitions.mp hd
    have ha : a < s.blocks.size := ha
    refine ⟨a, Nat.lt_of_lt_of_le ha hext.size, ?_⟩
    rw [Emitter.code_blockAt, hold a ha]
    exact hda
  refine ⟨fun b hb hn => ?_, fun b hb hu j hj => ?_, fun b hb => ?_, fun b hb => ?_,
    fun a ha b hb d hd e he heq => ?_, fun b hb d hd => ?_, fun b hb d hd => ?_⟩
  all_goals rcases hcases hb with hb | rfl
  · rw [Emitter.code_blockAt, hold b hb]
    exact h.ended b hb (mt (hU b hb).mpr hn)
  · exact absurd hin hn
  · rw [Emitter.code_blockAt, hold b hb] at hj
    exact h.running b hb ((hU b hb).mp hu) j hj
  · rw [Emitter.code_blockAt, hnew] at hj
    cases hj
  · rw [Chart.start, Emitter.code_blockAt, hold b hb, hΓ b hb]
    exact (h.flows b hb).mono hext hΓ
  · rw [Emitter.code_blockAt, hnew]
    trivial
  · rw [Emitter.code_blockAt, hold b hb]
    exact h.once b hb
  · rw [Emitter.code_blockAt, hdefs]
    exact hnodup
  · obtain ⟨he, helt⟩ := hmem hb he
    rcases hcases ha with ha | rfl
    · exact h.apart a ha b hb d (hmem ha hd).1 e he heq
    · exact absurd heq (Nat.ne_of_gt (Nat.lt_of_lt_of_le helt (hfresh hd).1))
  · rcases hcases ha with ha | rfl
    · exact absurd heq (Nat.ne_of_lt (Nat.lt_of_lt_of_le (hmem ha hd).2 (hfresh he).1))
    · rfl
  · exact Nat.lt_of_lt_of_le (hmem hb hd).2 hbound
  · exact (hfresh hd).2
  · rw [hΓ b hb] at hd
    exact hknown (FunctionCode.mem_definitions.mpr (h.known b hb d hd))
  · exact hknown (hpromise d hd)

/-- A new block may be promised what is at hand behind another. -/
theorem withBlock {a : BlockId} (ha : a < s.blocks.size)
    (hΓ : ∀ b < s.blocks.size, Γ' b = Γ b)
    (hpromise : Γ' s.blocks.size ⊆ Γ.behind p ptr (s.code sig) a)
    (hU : ∀ b < s.blocks.size, b ∈ U' ↔ b ∈ U) (hin : s.blocks.size ∈ U') :
    Charted p ptr Γ' U' bound (s.withBlock.code sig) :=
  h.addBlock [] (by simp [Emitter.withBlock]) (fun b _ => s.withBlock_blockAt b)
    (by rw [s.withBlock_blockAt, s.blockAt_of_size_le (Nat.le_refl _)]) rfl hΓ
    (fun _ hd => h.behind_subset ha (hpromise hd)) (Nat.le_refl _) .nil (by simp) hU hin

end

theorem withBlockParam (h : Charted p ptr Γ U s.nextValue (s.code sig)) {a : BlockId}
    (ha : a < s.blocks.size) (t : MachineType) (hΓ : ∀ b < s.blocks.size, Γ' b = Γ b)
    (hpromise : Γ' s.blocks.size ⊆ Γ.behind p ptr (s.code sig) a)
    (hU : ∀ b < s.blocks.size, b ∈ U' ↔ b ∈ U) (hin : s.blocks.size ∈ U') :
    Charted p ptr Γ' U' (s.nextValue + 1) ((s.withBlock.withParam s.blocks.size t).code sig) := by
  have hat (b : BlockId) : (s.withBlock.withParam s.blocks.size t).blockAt b =
      if b = s.blocks.size then { params := [(s.nextValue, t)] } else s.blockAt b := by
    rw [Emitter.withParam_blockAt, s.withBlock_blockAt]
    by_cases hb : b = s.blocks.size
    · subst hb
      rw [if_pos ⟨rfl, by simp [Emitter.withBlock]⟩, if_pos rfl,
        s.blockAt_of_size_le (Nat.le_refl _)]
      rfl
    · rw [if_neg (fun h => hb h.1), if_neg hb]
  refine h.addBlock [(s.nextValue, t)] (by simp [Emitter.withParam, Emitter.withBlock])
    (fun b hb => ?_) ?_ rfl hΓ (fun _ hd => h.behind_subset ha (hpromise hd)) (Nat.le_succ _)
    (List.nodup_singleton _) (by simp) hU hin
  · rw [hat, if_neg (Nat.ne_of_lt hb)]
  · rw [hat, if_pos rfl]

end Charted

end ObjectLang.Code
