import Mathlib.Order.Interval.Set.Basic
import ObjectLang.Proofs.StageSteps

/-! # Branches at a stage

New blocks are promised what is at hand where the code parts.  So each arm starts with it, and it is
at hand again where the arms come together.
-/

namespace ObjectLang.Code

open Syntax Checked Simulation

variable {cx : Context} {sig : Signature} {base : Array String} {pending : Set BlockId}
  {W W' : World} {α : Type} {i : Instr} {s : Emitter} {b : BlockId} {β : Type}

theorem except_ok_bind {ε γ : Type} {x : Except ε β} {b : β} (h : x = .ok b) (f : β → Except ε γ) :
    (x >>= f) = f b := by
  rw [h]
  rfl

theorem except_error_bind {ε γ : Type} {x : Except ε β} {e : ε} (h : x = .error e)
    (f : β → Except ε γ) :
    (x >>= f) = .error e := by
  rw [h]
  rfl

/-! ### Leaving a block and entering another -/

theorem insert_union_Ico {S : Set Nat} {k m : Nat} (h : k < m) :
    insert k (S ∪ Set.Ico (k + 1) m) = S ∪ Set.Ico k m := by
  ext b
  constructor
  · rintro (rfl | hb | hb)
    · exact .inr ⟨Nat.le_refl _, h⟩
    · exact .inl hb
    · exact .inr ⟨Nat.le_of_succ_le hb.1, hb.2⟩
  · rintro (hb | hb)
    · exact .inr (.inl hb)
    · obtain rfl | hlt := Nat.eq_or_lt_of_le hb.1
      · exact .inl rfl
      · exact .inr (.inr ⟨hlt, hb.2⟩)

theorem Drawn.congr {U U' : Set BlockId} {Γ : Chart} (h : Drawn cx sig base U ⟨Γ, s⟩) {s' : Emitter}
    (hblocks : s'.blocks = s.blocks) (hslots : s'.slots = s.slots)
    (hvalues : s'.nextValue = s.nextValue)
    (hliterals : s'.literals = s.literals) (hU : ∀ b < s.blocks.size, b ∈ U' ↔ b ∈ U) :
    Drawn cx sig base U' ⟨Γ, s'⟩ where
  charted := h.charted.congr hblocks (hslots ▸ List.prefix_rfl) (Nat.le_of_eq hvalues.symm)
    (fun _ _ => rfl) hU
  locals := by simpa only [hslots] using h.locals
  literals := by simpa only [hliterals] using h.literals

namespace Stage

theorem finish (hs : Stage cx sig base pending W) (hterm : i.isTerminator = true)
    (hfits : i.Fits cx.program cx.ptr (W.emitter.code sig) (W.here cx))
    (htargets : ∀ t ∈ i.targets, W.chart t.block ⊆ W.here cx) :
    Drawn cx sig base pending ⟨W.chart, W.emitter.push i⟩ ∧
      Later cx W ⟨W.chart, W.emitter.push i⟩ := by
  have hresult := Instr.result_eq_none cx.program cx.ptr hterm
  have hhere : World.here cx ⟨W.chart, W.emitter.push i⟩ =
      W.here cx ∪ { d | i.result cx.program cx.ptr = some d } :=
    Chart.behind_push sig (s := W.emitter) hs.inside
  refine ⟨⟨?_, hs.drawn.locals, hs.drawn.literals⟩, ⟨?_, fun _ _ => rfl, List.prefix_rfl⟩, ?_⟩
  · refine hs.drawn.charted.push hs.inside (Set.mem_insert _ _) hfits htargets (Nat.le_refl _)
      (by simp [hresult]) fun b _ => ?_
    rw [Set.mem_insert_iff, hterm]
    constructor
    · intro hb
      exact ⟨.inr hb, fun heq => absurd (heq ▸ hb) hs.apart⟩
    · rintro ⟨rfl | hb, hne⟩
      · cases hne rfl
      · exact hb
  · exact Nat.le_of_eq (W.emitter.push_blocks_size i).symm
  · exact hhere ▸ Set.subset_union_left

/-- The emission goes on in a block that is promised all that is at hand.  The pending blocks behind
it are promised it too. -/
theorem enter (hs : Stage cx sig base pending W) {Γ : Chart} {s : Emitter} {m : Nat}
    (h : Drawn cx sig base (pending ∪ Set.Ico s.current m) ⟨Γ, s⟩) (hm : m ≤ s.blocks.size)
    (hcurrent : s.current < m) (hle : W.emitter.blocks.size ≤ s.current)
    (hscopes : s.scopes = W.emitter.scopes) (hslots : W.emitter.slots.toList <+: s.slots.toList)
    (hold : ∀ b < W.emitter.blocks.size, Γ b = W.chart b) (hnew : W.here cx ⊆ Γ s.current) :
    Stage cx sig base (pending ∪ Set.Ico (s.current + 1) m) ⟨Γ, s⟩ ∧ Later cx W ⟨Γ, s⟩ := by
  have hlt : s.Inside := Nat.lt_of_lt_of_le hcurrent hm
  have hl : Later cx W ⟨Γ, s⟩ :=
    ⟨⟨Nat.le_trans hle (Nat.le_of_lt hlt), hold, hslots⟩, hnew.trans Set.subset_union_left⟩
  refine ⟨⟨?_, hlt, ?_, ?_, ?_, ?_, fun v ty hv hty => hl.has (hs.self v ty hv hty)⟩, hl⟩
  · rwa [insert_union_Ico hcurrent]
  · rintro (hb | hb)
    · exact absurd (hs.pending _ hb) (Nat.not_lt.mpr hle)
    · exact absurd hb.1 (Nat.not_succ_le_self _)
  · rintro b (hb | hb)
    · exact Nat.lt_of_lt_of_le (hs.pending b hb) hl.size
    · exact Nat.lt_of_lt_of_le hb.2 hm
  · rw [show World.emitter ⟨Γ, s⟩ = s from rfl, hscopes]
    exact fun scope hscope q hq => hl.keeps (hs.scopes scope hscope q hq)
  · exact hscopes ▸ hs.active

end Stage

/-- The chart on which all new blocks are promised what is at hand. -/
def World.fork (cx : Context) (W : World) : Chart := fun b =>
  if b < W.emitter.blocks.size then W.chart b else W.here cx

theorem World.fork_old (hb : b < W.emitter.blocks.size) : W.fork cx b = W.chart b :=
  if_pos hb

theorem World.fork_new (hb : W.emitter.blocks.size ≤ b) : W.fork cx b = W.here cx :=
  if_neg (Nat.not_lt.mpr hb)

variable (cx sig pending) in
/-- Blocks have been added behind those of the world, and nothing else has changed. -/
structure Forked (W : World) (s : Emitter) : Prop where
  charted : Charted cx.program cx.ptr (W.fork cx)
    (insert W.emitter.current pending ∪ { b | W.emitter.blocks.size ≤ b }) s.nextValue (s.code sig)
  size : W.emitter.blocks.size ≤ s.blocks.size
  current : s.current = W.emitter.current
  same : s.blockAt W.emitter.current = W.emitter.blockAt W.emitter.current

theorem Stage.forked (hs : Stage cx sig base pending W) : Forked cx sig pending W W.emitter where
  charted := by
    refine hs.drawn.charted.congr rfl List.prefix_rfl (Nat.le_refl _)
      (fun b hb => World.fork_old hb) ?_
    intro b hb
    simp [Nat.not_le.mpr hb]
  size := Nat.le_refl _
  current := rfl
  same := rfl

namespace Forked

variable (hin : W.emitter.Inside)

include hin

section

variable (h : Forked cx sig pending W s)

include h

theorem behind :
    (W.fork cx).behind cx.program cx.ptr (s.code sig) s.current = W.here cx := by
  rw [Chart.behind, h.current, World.fork_old hin, Emitter.code_blockAt, h.same]
  rfl

theorem inside : s.current < s.blocks.size :=
  h.current ▸ Nat.lt_of_lt_of_le hin h.size

theorem withBlock : Forked cx sig pending W s.withBlock where
  charted := by
    refine h.charted.withBlock (h.inside hin) (fun _ _ => rfl) ?_ (fun _ _ => Iff.rfl) (.inr h.size)
    rw [h.behind hin, World.fork_new h.size]
  size := Nat.le_trans h.size (by simp [Emitter.withBlock])
  current := h.current
  same := (s.withBlock_blockAt _).trans h.same

theorem withBlockParam (t : MachineType) :
    Forked cx sig pending W (s.withBlock.withParam s.blocks.size t) where
  charted := by
    refine h.charted.withBlockParam (h.inside hin) t (fun _ _ => rfl) ?_ (fun _ _ => Iff.rfl)
      (.inr h.size)
    rw [h.behind hin, World.fork_new h.size]
  size := Nat.le_trans h.size (by simp [Emitter.withParam, Emitter.withBlock])
  current := h.current
  same := by
    have hne : W.emitter.current ≠ s.blocks.size := Nat.ne_of_lt (Nat.lt_of_lt_of_le hin h.size)
    rw [Emitter.withParam_blockAt, if_neg (fun h => hne h.1), s.withBlock_blockAt, h.same]

theorem push (hapart : W.emitter.current ∉ pending)
    (hterm : i.isTerminator = true) (hfits : i.Fits cx.program cx.ptr (s.code sig) (W.here cx))
    (htargets : ∀ t ∈ i.targets, W.emitter.blocks.size ≤ t.block) :
    Charted cx.program cx.ptr (W.fork cx) (pending ∪ { b | W.emitter.blocks.size ≤ b }) s.nextValue
      ((s.push i).code sig) := by
  have hbehind := h.behind hin
  refine h.charted.push (h.inside hin) (.inl (h.current ▸ Set.mem_insert _ _)) (by rwa [hbehind])
    (fun t ht => ?_) (Nat.le_refl _) (by simp [Instr.result_eq_none _ _ hterm]) fun b _ => ?_
  · rw [hbehind, World.fork_new (htargets t ht)]
  · rw [hterm, h.current]
    have hlt : ¬ W.emitter.blocks.size ≤ W.emitter.current := Nat.not_le.mpr hin
    constructor
    · rintro (hb | hb)
      · exact ⟨.inl (.inr hb), fun heq => absurd (heq ▸ hb) hapart⟩
      · exact ⟨.inr hb, fun heq => absurd (heq ▸ hb) hlt⟩
    · rintro ⟨(rfl | hb) | hb, hne⟩
      · cases hne rfl
      · exact .inl hb
      · exact .inr hb

end

end Forked

namespace Stage

/-- The emission goes on in the first of the new blocks. -/
theorem enterNew (hs : Stage cx sig base pending W) {s : Emitter}
    (h : Charted cx.program cx.ptr (W.fork cx) (pending ∪ { b | W.emitter.blocks.size ≤ b })
      s.nextValue (s.code sig))
    (hcurrent : s.current = W.emitter.blocks.size) (hsize : W.emitter.blocks.size < s.blocks.size)
    (hscopes : s.scopes = W.emitter.scopes) (hslots : W.emitter.slots.toList <+: s.slots.toList)
    (hliterals : s.literals = W.emitter.literals) :
    Stage cx sig base (pending ∪ Set.Ico (W.emitter.blocks.size + 1) s.blocks.size) ⟨W.fork cx, s⟩ ∧
      Later cx W ⟨W.fork cx, s⟩ := by
  have hnew : W.fork cx s.current = W.here cx := World.fork_new (Nat.le_of_eq hcurrent.symm)
  rw [← hcurrent]
  refine hs.enter ⟨?_, fun id l hid => ?_, hliterals ▸ hs.drawn.literals⟩ (Nat.le_refl _)
    (hcurrent ▸ hsize) (Nat.le_of_eq hcurrent.symm) hscopes hslots (fun b hb => World.fork_old hb)
    (subset_of_eq hnew.symm)
  · refine h.congr rfl List.prefix_rfl (Nat.le_refl _) (fun _ _ => rfl) fun b hb => ?_
    simp [hcurrent, hb]
  · obtain ⟨t, ht, hslot⟩ := hs.drawn.locals id l hid
    exact ⟨t, ht, getElem?_of_prefix hslots hslot⟩

/-- From a block that has been ended the emission goes on in another one of the new blocks. -/
theorem resume (hs : Stage cx sig base pending W) {e u s : Emitter} {Γ : Chart} {k m : Nat}
    (hnew : Later cx W ⟨W.fork cx, e⟩) (hext : World.Extends ⟨W.fork cx, e⟩ ⟨Γ, u⟩)
    (h : Drawn cx sig base (pending ∪ Set.Ico k m) ⟨Γ, u⟩) (hk : s.current = k)
    (hle : W.emitter.blocks.size ≤ k) (hlt : k < m) (hm : m ≤ e.blocks.size)
    (hblocks : s.blocks = u.blocks) (hslots : s.slots = u.slots)
    (hvalues : s.nextValue = u.nextValue)
    (hliterals : s.literals = u.literals) (hscopes : s.scopes = W.emitter.scopes) :
    Stage cx sig base (pending ∪ Set.Ico (k + 1) m) ⟨Γ, s⟩ ∧ Later cx W ⟨Γ, s⟩ := by
  subst hk
  have hsize : m ≤ u.blocks.size := Nat.le_trans hm hext.size
  have hall := hnew.toExtends.trans hext
  have hchart : Γ s.current = W.here cx :=
    (hext.chart _ (Nat.lt_of_lt_of_le hlt hm)).trans (World.fork_new hle)
  exact hs.enter (h.congr hblocks hslots hvalues hliterals fun _ _ => Iff.rfl) (hblocks ▸ hsize) hlt
    hle hscopes (hslots ▸ hall.slots) hall.chart (subset_of_eq hchart.symm)

/-! ### Returns -/

theorem leave (hs : Stage cx sig base pending W) {value : Option ValueId}
    (hvalue : Option.Rel (fun v t => (v, t) ∈ W.here cx) value sig.result) :
    Builds cx sig base pending (do
        Code.emit (.ret value)
        switchTo (← newBlock)
        Code.setDead true) W fun _ _ => True := by
  have hcharted := hs.forked.push hs.inside hs.apart (i := .ret value) rfl hvalue
    (by simp [Instr.targets])
  have hsize : (W.emitter.push (.ret value)).blocks.size = W.emitter.blocks.size :=
    W.emitter.push_blocks_size _
  have hblock : Charted cx.program cx.ptr (W.fork cx) (pending ∪ { b | W.emitter.blocks.size ≤ b })
      W.emitter.nextValue ((W.emitter.push (.ret value)).withBlock.code sig) := by
    refine hcharted.withBlock (a := W.emitter.current) (hsize ▸ hs.inside) (fun _ _ => rfl) ?_
      (fun _ _ => Iff.rfl) (.inr (Nat.le_of_eq hsize.symm))
    rw [hsize, World.fork_new (Nat.le_refl _), Chart.behind_push sig hs.inside]
    refine Set.Subset.trans ?_ Set.subset_union_left
    rw [Chart.behind, World.fork_old hs.inside]
    rfl
  obtain ⟨hs', hl⟩ := hs.enterNew (s := (W.emitter.push (.ret value)).beyond) hblock hsize
    (by simp [Emitter.beyond, Emitter.withBlock]) rfl List.prefix_rfl rfl
  have hnone : pending ∪ Set.Ico (W.emitter.blocks.size + 1)
      (W.emitter.push (.ret value)).beyond.blocks.size = pending := by
    simp [Emitter.beyond, Emitter.withBlock]
  rw [hnone] at hs'
  exact .of_ok (leave_run _ _) hs' hl trivial

theorem emitReturn (hs : Stage cx sig base pending W) (hr : Ready cx sig) {value : Option ValueId}
    (hvalue : Option.Rel (fun v t => (v, t) ∈ W.here cx) value sig.result) :
    Builds cx sig base pending (Code.emitReturn cx value) W fun _ _ => True := by
  have hrest {W' : World} (hs' : Stage cx sig base pending W') (hl : Later cx W W') :
      Builds cx sig base pending (do
        Code.releaseAll cx (← get).scopes.flatten
        Code.emit (.ret value)
        switchTo (← newBlock)
        Code.setDead true) W' fun _ _ => True := by
    refine .get ((hs'.releaseAll fun q hq => ?_).bind fun _ W1 _ hs1 hl1 _ => hs1.leave ?_)
    · obtain ⟨scope, hscope, hq⟩ := List.mem_flatten.mp hq
      exact hs'.scopes scope hscope q hq
    · generalize sig.result = r at hvalue
      cases hvalue with
      | none => exact .none
      | some h => exact .some (hl1.here (hl.here h))
  cases value with
  | none => exact hrest hs (.refl W)
  | some v =>
    rw [Code.emitReturn]
    refine .ite (fun href => ?_) fun _ => hrest hs (.refl W)
    have hresult : sig.result = some cx.ptr :=
      Except.ok.inj ((signature_ok hr.signature).2.symm.trans (machineType_of_isReference href))
    rw [hresult] at hvalue
    obtain ⟨hv⟩ := hvalue
    exact (hs.retain hv).bind fun _ W1 _ hs1 hl1 _ => hrest hs1 hl1

/-! ### Logical operators -/

end Stage

theorem params_of_grows {s t : Emitter} (h : Grows s t) (hb : b < s.blocks.size) :
    (t.blockAt b).params = (s.blockAt b).params := by
  by_cases hcurrent : b = s.current
  · exact hcurrent ▸ h.params
  · rw [h.kept b hb hcurrent]

variable (sig) in
/-- The branch goes to both new blocks, to the second with the left operand. -/
theorem Shortcut.branch_fits (op : BinaryOp) {a : ValueId} (ha : (a, .i8) ∈ W.here cx) :
    (Shortcut.branch W.emitter op a).isTerminator = true ∧
      (Shortcut.branch W.emitter op a).Fits cx.program cx.ptr ((Shortcut.forked W.emitter).code sig)
        (W.here cx) ∧
      ∀ t ∈ (Shortcut.branch W.emitter op a).targets, W.emitter.blocks.size ≤ t.block := by
  have hmerge := Shortcut.merge_eq W.emitter
  have hsize := Shortcut.forked_size W.emitter
  have hright : Target.Fits ((Shortcut.forked W.emitter).code sig) (W.here cx)
      { block := W.emitter.blocks.size } := by
    refine ⟨?_, ?_⟩
    · change W.emitter.blocks.size < (Shortcut.forked W.emitter).blocks.size
      omega
    · have hne : W.emitter.blocks.size ≠ Shortcut.merge W.emitter := by omega
      rw [Emitter.code_blockAt, Shortcut.forked_blockAt _ hne,
        Emitter.blockAt_of_size_le _ (Nat.le_refl _)]
      exact .nil
  have hdecided : Target.Fits ((Shortcut.forked W.emitter).code sig) (W.here cx)
      { block := Shortcut.merge W.emitter, arg := some a } := by
    refine ⟨?_, ?_⟩
    · change Shortcut.merge W.emitter < (Shortcut.forked W.emitter).blocks.size
      omega
    · rw [Emitter.code_blockAt, Shortcut.forked_merge]
      exact .cons ha .nil
  have hle : W.emitter.blocks.size ≤ Shortcut.merge W.emitter := by omega
  rw [Shortcut.branch]
  split
  · exact ⟨rfl, ⟨ha, hright, hdecided⟩, by simp [Instr.targets, hle]⟩
  · exact ⟨rfl, ⟨ha, hdecided, hright⟩, by simp [Instr.targets, hle]⟩

namespace Stage

theorem shortcut (hs : Stage cx sig base pending W) (op : BinaryOp) {a : ValueId}
    (ha : (a, .i8) ∈ W.here cx) {z : Emit ValueId} (hz : Emits z)
    (hright : ∀ pending' W', Stage cx sig base pending' W' → Later cx W W' →
      Builds cx sig base pending' z W' fun v W' => (v, .i8) ∈ W'.here cx) :
    Builds cx sig base pending (Shortcut.rest cx op a z) W fun v W' => (v, .i8) ∈ W'.here cx := by
  have hmerge := Shortcut.merge_eq W.emitter
  have hsize := Shortcut.right_size W.emitter op a
  have hforked : Forked cx sig pending W (Shortcut.forked W.emitter) :=
    (hs.forked.withBlock hs.inside).withBlockParam hs.inside .i8
  obtain ⟨hterm, hfits, htargets⟩ := Shortcut.branch_fits sig op ha
  obtain ⟨hs1, hl1⟩ := hs.enterNew (s := Shortcut.right W.emitter op a)
    (hforked.push hs.inside hs.apart hterm hfits htargets) rfl (by omega) rfl List.prefix_rfl rfl
  have hbuild := hs1.inScope (Q := fun v W' => (v, MachineType.i8) ∈ W'.here cx) hz
    (fun _ _ _ hl h => hl.here h) fun W' hs' hl' => hright _ W' hs' (hl1.trans hl')
  rw [Builds] at hbuild ⊢
  rw [Shortcut.rest]
  cases hrun : Code.inScope cx z (Shortcut.right W.emitter op a) with
  | error e =>
    rw [hrun] at hbuild
    exact hbuild
  | ok r =>
    obtain ⟨b, t⟩ := r
    rw [hrun] at hbuild
    obtain ⟨Γ, hs2, hl2, hb⟩ := hbuild
    have hin := Shortcut.right_inside W.emitter op a
    have hgrows := (hz.inScope _ _ _ hrun hin).grows
    have hlt : Shortcut.merge W.emitter < (Shortcut.right W.emitter op a).blocks.size := by omega
    have hchart : Γ (Shortcut.merge W.emitter) = W.here cx :=
      (hl2.chart _ hlt).trans (World.fork_new (by omega))
    -- the jump hands the right operand to the block where both ways come together
    have hfit : Target.Fits (t.code sig) (World.here cx ⟨Γ, t⟩)
        { block := Shortcut.merge W.emitter, arg := some b } := by
      refine ⟨Nat.lt_of_lt_of_le hlt hl2.size, ?_⟩
      rw [Emitter.code_blockAt, params_of_grows hgrows hlt, Shortcut.right_merge _ _ _ hs.inside]
      exact .cons hb .nil
    have hkept : Γ (Shortcut.merge W.emitter) ⊆ World.here cx ⟨Γ, t⟩ :=
      hchart ▸ (hl1.trans hl2).here
    obtain ⟨hdrawn, hl3⟩ := hs2.finish (i := .jump ⟨Shortcut.merge W.emitter, some b⟩) rfl hfit
      (by simpa [Instr.targets] using hkept)
    have hjoined := Shortcut.joined_merge hs.inside hgrows b
    have hscopes : t.scopes = W.emitter.scopes :=
      (Kept.inScope hz _ _ _ hrun hin).trans (Shortcut.right_scopes W.emitter op a)
    obtain ⟨hs3, hl4⟩ := hs.resume (s := Shortcut.joined W.emitter t b) hl1
      (hl2.trans hl3).toExtends
      hdrawn hmerge (Nat.le_succ _) (by omega) (Nat.le_refl _) rfl rfl rfl rfl hscopes
    refine ⟨Γ, ?_, hl4, .inr ?_⟩
    · rwa [hsize, Set.Ico_self, Set.union_empty] at hs3
    · change _ ∈ ((Shortcut.joined W.emitter t b).blockAt (Shortcut.merge W.emitter)).definitions _
        _
      rw [hjoined]
      exact List.mem_cons_self

theorem emitLogical (op : BinaryOp) {x z : Emit ValueId} (hz : Emits z)
    (h : Builds cx sig base pending x W fun v W' => (v, .i8) ∈ W'.here cx)
    (hright : ∀ pending' W', Stage cx sig base pending' W' → Later cx W W' →
      Builds cx sig base pending' z W' fun v W' => (v, .i8) ∈ W'.here cx) :
    Builds cx sig base pending (Code.emitLogical cx op x z) W fun v W' =>
    (v, .i8) ∈ W'.here cx := by
  rw [emitLogical_eq]
  exact h.bind fun a W1 _ hs1 hl1 ha => hs1.shortcut op ha hz fun pending' W' hs' hl' =>
    hright pending' W' hs' (hl1.trans hl')

end Stage

/-! ### Arms -/

variable (cx sig base pending) in
/-- Run at `W`, the emission ends the block where it stops, or fails with a clash. -/
def Closes (x : Emit α) (W : World) : Prop :=
  match x W.emitter with
  | .ok (_, s) => ∃ Γ, Drawn cx sig base pending ⟨Γ, s⟩ ∧ Later cx W ⟨Γ, s⟩ ∧ s.scopes ≠ []
  | .error e => Clash cx base e

theorem Closes.bind {x : Emit α} {f : α → Emit β} {Q : α → World → Prop}
    (hx : Builds cx sig base pending x W Q)
    (hf : ∀ a W', x W.emitter = .ok (a, W'.emitter) → Stage cx sig base pending W' → Later cx W W' →
      Q a W' → Closes cx sig base pending (f a) W') : Closes cx sig base pending (x >>= f) W := by
  have hrun : (x >>= f) W.emitter = x W.emitter >>= fun r => f r.1 r.2 := rfl
  rw [Builds] at hx
  rw [Closes, hrun]
  cases h : x W.emitter with
  | error e =>
    rw [h] at hx
    exact hx
  | ok r =>
    rw [h] at hx
    obtain ⟨Γ, hs, hl, hQ⟩ := hx
    have hcont := hf r.1 ⟨Γ, r.2⟩ h hs hl hQ
    rw [Closes] at hcont
    change match f r.1 r.2 with | .ok (_, s) => _ | .error e => _
    cases h' : f r.1 r.2 with
    | error e =>
      rw [h'] at hcont
      exact hcont
    | ok q =>
      rw [h'] at hcont
      obtain ⟨Γ', hd, hl', hactive⟩ := hcont
      exact ⟨Γ', hd, hl.trans hl', hactive⟩

theorem Closes.isDead {f : Bool → Emit α} (h : Closes cx sig base pending (f W.emitter.dead) W) :
    Closes cx sig base pending (Code.isDead >>= f) W := h

theorem Closes.ite {c : Prop} [Decidable c] {x y : Emit α} (hx : c → Closes cx sig base pending x W)
    (hy : ¬c → Closes cx sig base pending y W) :
    Closes cx sig base pending (if c then x else y) W := by
  split
  · next hc => exact hx hc
  · next hc => exact hy hc

/-- The block can be jumped to without an argument. -/
structure Awaits (cx : Context) (W : World) (b : BlockId) : Prop where
  lt : b < W.emitter.blocks.size
  params : (W.emitter.blockAt b).params = []
  chart : W.chart b ⊆ W.here cx

/-- A block that was promised what is at hand when it was new. -/
theorem Later.awaits_new (hl : Later cx W W') {e : Emitter} (hext : World.Extends ⟨W.fork cx, e⟩ W')
    {b : Nat} (hb : W.emitter.blocks.size ≤ b) (hlt : b < e.blocks.size)
    (hparams : (W'.emitter.blockAt b).params = []) : Awaits cx W' b where
  lt := Nat.lt_of_lt_of_le hlt hext.size
  params := hparams
  chart := by
    have hchart : W'.chart b = W.here cx := (hext.chart b hlt).trans (World.fork_new hb)
    exact hchart ▸ hl.here

theorem Awaits.fits (h : Awaits cx W b) :
    Target.Fits (W.emitter.code sig) (W.here cx) { block := b } := by
  refine ⟨h.lt, ?_⟩
  rw [Emitter.code_blockAt, h.params]
  exact .nil

theorem Awaits.later (h : Awaits cx W b) (hl : Later cx W W') (hg : Grows W.emitter W'.emitter) :
    Awaits cx W' b where
  lt := Nat.lt_of_lt_of_le h.lt hl.size
  params := (params_of_grows hg h.lt).trans h.params
  chart := by
    rw [hl.chart b h.lt]
    exact h.chart.trans hl.here

namespace Stage

theorem jump (hs : Stage cx sig base pending W) {b : BlockId} (hb : Awaits cx W b) (a : α) :
    Closes cx sig base pending (do
      Code.emit (.jump { block := b })
      return a) W := by
  obtain ⟨hd, hl⟩ := hs.finish (i := .jump { block := b }) rfl hb.fits
    (by simpa [Instr.targets] using hb.chart)
  exact ⟨W.chart, hd, hl, hs.active⟩

theorem trap (hs : Stage cx sig base pending W) (hdead : W.emitter.dead = true) (a : α) :
    Closes cx sig base pending (do
      closeDead
      return a) W := by
  have hrun : (do closeDead; return a : Emit α) W.emitter = .ok (a, W.emitter.push .trap) := by
    change ((if W.emitter.dead then Code.emit .trap else pure () : Emit Unit) >>= fun _ => pure a)
      W.emitter = _
    rw [if_pos hdead]
    rfl
  obtain ⟨hd, hl⟩ := hs.finish (i := .trap) rfl trivial (by simp [Instr.targets])
  rw [Closes, hrun]
  exact ⟨W.chart, hd, hl, hs.active⟩

theorem emitArm {ty : Ty} {slot : Option SlotId} {merge : BlockId} {x : Emit (Option ValueId)}
    (hx : Emits x) (hs : Stage cx sig base pending W) (hmerge : Awaits cx W merge)
    (h : Builds cx sig base pending x W fun r W' => ∀ v, r = some v → W'.Has cx v ty)
    (hslot : ∀ k, slot = some k →
      Dies x ∨ ∃ t, machineType cx.ptr ty = .ok (some t) ∧ W.emitter.slots[k]? = some t) :
    Closes cx sig base pending (Code.emitArm ty slot merge x) W := by
  refine Closes.bind h fun r W1 hrun hs1 hl1 hr => .isDead (.ite (hs1.trap · true) fun hlive => ?_)
  have hawaits := hmerge.later hl1 (hx _ _ _ hrun hs.inside).grows
  have hjump {y : Emit Unit} (hy : Emits y) (h : Builds cx sig base pending y W1 fun _ _ => True) :
      Closes cx sig base pending (do
        y
        Code.emit (.jump { block := merge })
        return false) W1 :=
    Closes.bind h fun _ W2 hrun2 hs2 hl2 _ =>
      hs2.jump (hawaits.later hl2 (hy _ _ _ hrun2 hs1.inside).grows) false
  match r, slot with
  | none, _ => exact hs1.jump hawaits false
  | some v, some k =>
    obtain hdies | ⟨t, ht, hk⟩ := hslot k rfl
    · exact absurd (hdies _ _ _ hrun hs.inside) hlive
    · exact hjump (.emit _) (hs1.slotStore (hl1.getElem?_slots hk) ((hr v rfl).mem ht))
  | some v, none =>
    refine .ite (fun href => ?_) fun _ => hs1.jump hawaits false
    exact hjump (.emit _) (hs1.release ((hr v rfl).mem_ptr href))

end Stage

theorem Closes.cases {x : Emit α} {Γ : Chart} (h : Closes cx sig base pending x ⟨Γ, s⟩) :
    (∃ e, x s = .error e ∧ Clash cx base e) ∨
      ∃ a s' Γ', x s = .ok (a, s') ∧ Drawn cx sig base pending ⟨Γ', s'⟩ ∧ Later cx ⟨Γ, s⟩ ⟨Γ', s'⟩ ∧
        s'.scopes ≠ [] := by
  rw [Closes] at h
  cases hrun : x s with
  | error e =>
    rw [hrun] at h
    exact .inl ⟨e, rfl, h⟩
  | ok r =>
    rw [hrun] at h
    obtain ⟨Γ', hd, hl, hactive⟩ := h
    exact .inr ⟨r.1, r.2, Γ', rfl, hd, hl, hactive⟩

/-! ### Conditionals -/

/-- A jump to one of three new blocks. -/
theorem Fork.fits {T : Supply} {b : Nat} (hb : s.blocks.size ≤ b) (hlt : b < s.blocks.size + 3) :
    Target.Fits (s.withBlock.withBlock.withBlock.code sig) T { block := b } := by
  have hsize : (s.withBlock.withBlock.withBlock.code sig).blocks.size = s.blocks.size + 3 := by
    simp [Emitter.code, Emitter.withBlock]
  refine ⟨Nat.lt_of_lt_of_eq hlt hsize.symm, ?_⟩
  rw [Emitter.code_blockAt, Emitter.withBlock_blockAt, Emitter.withBlock_blockAt,
    Emitter.withBlock_blockAt, Emitter.blockAt_of_size_le _ hb]
  exact .nil

variable (cx sig base) in
/-- An arm that can be emitted from `W` on.  If its result is stored, it can stand for one of the
type. -/
structure ArmBuilds (W : World) (ty : Ty) (stored : Bool) (arm : Ty × Emit (Option ValueId)) :
    Prop where
  emits : Emits arm.2
  kept : Kept arm.2
  builds : ∀ pending W', Stage cx sig base pending W' → Later cx W W' →
    Builds cx sig base pending arm.2 W' fun r W' => ∀ v, r = some v → W'.Has cx v arm.1
  fits : stored = true → Dies arm.2 ∨ machineType cx.ptr arm.1 = machineType cx.ptr ty

theorem ArmBuilds.later {ty : Ty} {stored : Bool} {arm : Ty × Emit (Option ValueId)}
    (h : ArmBuilds cx sig base W ty stored arm) (hl : Later cx W W') :
    ArmBuilds cx sig base W' ty stored arm :=
  { h with builds := fun pending W'' hs hl' => h.builds pending W'' hs (hl.trans hl') }

theorem ArmBuilds.closes {ty : Ty} {stored : Bool} {arm : Ty × Emit (Option ValueId)}
    {type : Option MachineType} {k : SlotId} (h : ArmBuilds cx sig base W ty stored arm)
    (htype : type.isSome = true → stored = true ∧ machineType cx.ptr ty = .ok type)
    (hs : Stage cx sig base pending W') (hl : Later cx W W')
    (hk : ∀ t, type = some t → W'.emitter.slots[k]? = some t) {merge : BlockId}
    (hmerge : Awaits cx W' merge) :
    Closes cx sig base pending (Code.emitArm arm.1 (type.map fun _ => k) merge arm.2) W' := by
  refine Stage.emitArm h.emits hs hmerge (h.builds pending W' hs hl) fun k' hk' => ?_
  obtain ⟨t, rfl, rfl⟩ := Option.map_eq_some_iff.mp hk'
  obtain ⟨hstored, hty⟩ := htype rfl
  exact (h.fits hstored).imp_right fun heq => ⟨t, heq.trans hty, hk t rfl⟩

theorem Conditional.exists_resultType (cx : Context) {ty : Ty}
    {elseArm : Option (Ty × Emit (Option ValueId))} (hty : elseArm.isSome = true → ty ≠ .unknown) :
    ∃ type, Conditional.resultType cx ty elseArm = .ok type ∧
      (type.isSome = true → elseArm.isSome = true ∧ machineType cx.ptr ty = .ok type) := by
  rw [Conditional.resultType]
  split
  · next hsome =>
    obtain ⟨type, htype⟩ := exists_machineType_of_ne_unknown cx.ptr (hty hsome)
    exact ⟨type, htype, fun _ => ⟨hsome, htype⟩⟩
  · exact ⟨none, rfl, by simp⟩

theorem Conditional.thenAt_slot {c : ValueId} {type : Option MachineType} {t : MachineType}
    (ht : type = some t) : (Conditional.thenAt s c type).slots[s.slots.size]? = some t := by
  subst ht
  simp [Conditional.thenAt, Conditional.slotted, Emitter.withSlot, Fork.forked, Emitter.withBlock,
    Emitter.push]

namespace Stage

variable {c : ValueId}

section

variable (hs : Stage cx sig base pending W)

include hs

theorem thenAt (hc : (c, .i8) ∈ W.here cx) (type : Option MachineType) :
    Stage cx sig base (pending ∪ Set.Ico (W.emitter.blocks.size + 1) (W.emitter.blocks.size + 3))
        ⟨W.fork cx, Conditional.thenAt W.emitter c type⟩ ∧
      Later cx W ⟨W.fork cx, Conditional.thenAt W.emitter c type⟩ := by
  have hsize := Conditional.thenAt_size W.emitter c type
  have hsecond := Fork.second_eq W.emitter
  have hforked := ((hs.forked.withBlock hs.inside).withBlock hs.inside).withBlock hs.inside
  have hcharted := hforked.push hs.inside hs.apart (i := Conditional.branch W.emitter c) rfl
    ⟨hc, Fork.fits (Nat.le_refl _) (by omega), Fork.fits (by omega) (by omega)⟩
    (by simp [Conditional.branch, Instr.targets, hsecond])
  have hslots : W.emitter.slots.toList <+: (Conditional.thenAt W.emitter c type).slots.toList := by
    cases type with
    | none => exact List.prefix_rfl
    | some t =>
      refine ⟨[t], ?_⟩
      simp [Conditional.thenAt, Conditional.slotted, Emitter.withSlot, Fork.forked,
        Emitter.withBlock, Emitter.push]
  have hvalues : (Conditional.thenAt W.emitter c type).nextValue = W.emitter.nextValue := by
    cases type <;> rfl
  rw [← hsize]
  refine hs.enterNew ?_ rfl (by omega) (Conditional.thenAt_scopes _ _ _) hslots
    (Conditional.thenAt_literals _ _ _)
  exact hcharted.congr (Conditional.thenAt_blocks _ _ _) hslots (Nat.le_of_eq hvalues.symm)
    (fun _ _ => rfl) fun _ _ => Iff.rfl

theorem readResult {ty : Ty} {type : Option MachineType} {k : SlotId}
    (htype : type.isSome = true → machineType cx.ptr ty = .ok type)
    (hk : ∀ t, type = some t → W.emitter.slots[k]? = some t) :
    Builds cx sig base pending (Conditional.finish ty type (type.map fun _ => k)) W
      fun r W' => ∀ v, r = some v → W'.Has cx v ty := by
  cases type with
  | none => exact .pure hs (by simp)
  | some t =>
    refine (hs.slotLoad (hk t rfl)).bind fun v W1 _ hs1 _ hv => .isDead ?_
    have hhas {W' : World} (hl : Later cx W1 W') : ∀ v', some v = some v' → W'.Has cx v' ty := by
      rintro _ ⟨⟩
      exact ⟨t, htype rfl, hl.here hv⟩
    refine .ite (fun href => ?_) fun _ => .pure hs1 (hhas (.refl _))
    have hptr : t = cx.ptr := by
      rw [Bool.and_eq_true] at href
      cases (htype rfl).symm.trans (machineType_of_isReference href.1)
      rfl
    subst hptr
    exact (hs1.own (q := .value v) hv).bind fun _ W2 _ hs2 hl2 _ => .pure hs2 (hhas hl2)

/-- From the end of the then-arm the emission goes on with the else-arm. -/
theorem elseAt {type : Option MachineType} {u : Emitter} {Γ : Chart}
    (hnew : Later cx W ⟨W.fork cx, Conditional.thenAt W.emitter c type⟩)
    (hl : Later cx ⟨W.fork cx, Conditional.thenAt W.emitter c type⟩ ⟨Γ, u⟩) (hd : Drawn cx sig base
      (pending ∪ Set.Ico (W.emitter.blocks.size + 1) (W.emitter.blocks.size + 3)) ⟨Γ, u⟩)
    (hgrows : Grows (Conditional.thenAt W.emitter c type) u)
    (hscopes : u.scopes = W.emitter.scopes) :
    Stage cx sig base (pending ∪ Set.Ico (W.emitter.blocks.size + 2) (W.emitter.blocks.size + 3))
        ⟨Γ, Conditional.elseAt W.emitter u⟩ ∧
      Later cx W ⟨Γ, Conditional.elseAt W.emitter u⟩ ∧
      Awaits cx ⟨Γ, Conditional.elseAt W.emitter u⟩ (Fork.third W.emitter) := by
  have hthird := Fork.third_eq W.emitter
  have hsize := Conditional.thenAt_size W.emitter c type
  obtain ⟨hs', hl'⟩ := hs.resume (s := Conditional.elseAt W.emitter u) hnew hl.toExtends hd
    (Fork.second_eq W.emitter) (by omega) (by omega) (Nat.le_of_eq hsize.symm)
    rfl rfl rfl rfl hscopes
  refine ⟨hs', hl', hl'.awaits_new ⟨hl.size, hl.chart, hl.slots⟩ (by omega) (by omega) ?_⟩
  exact congrArg Block.params
    (Conditional.then_new hs.inside hgrows (b := Fork.third W.emitter) (by omega) (by omega))

theorem conditional (hc : (c, .i8) ∈ W.here cx) {ty : Ty}
    {thenArm : Ty × Emit (Option ValueId)} {elseArm : Option (Ty × Emit (Option ValueId))}
    (hty : elseArm.isSome = true → ty ≠ .unknown)
    (hthen : ArmBuilds cx sig base W ty elseArm.isSome thenArm)
    (helse : ∀ arm, elseArm = some arm → ArmBuilds cx sig base W ty true arm) :
    Builds cx sig base pending (Conditional.rest cx ty c thenArm elseArm) W
      fun r W' => ∀ v, r = some v → W'.Has cx v ty := by
  obtain ⟨type, hresult, htype⟩ := Conditional.exists_resultType cx hty
  have hthird := Fork.third_eq W.emitter
  have hsize := Conditional.thenAt_size W.emitter c type
  have hslot : ∀ t, type = some t →
      (Conditional.thenAt W.emitter c type).slots[W.emitter.slots.size]? = some t := fun _ =>
    Conditional.thenAt_slot
  obtain ⟨hs1, hl1⟩ := hs.thenAt hc type
  have hawaits1 :
      Awaits cx ⟨W.fork cx, Conditional.thenAt W.emitter c type⟩ (Fork.third W.emitter) :=
    hl1.awaits_new ⟨Nat.le_refl _, fun _ _ => rfl, List.prefix_rfl⟩ (by omega) (by omega)
      (congrArg Block.params (Conditional.thenAt_new W.emitter c type hs.inside (by omega)))
  obtain ⟨e, hrun, hclash⟩ | ⟨d, u, Γ, hrun, hd, hl2, -⟩ :=
    (hthen.closes htype hs1 hl1 hslot hawaits1).cases
  · refine .of_error ?_ hclash
    rw [Conditional.rest, except_ok_bind hresult, except_error_bind hrun]
  have hscopes : u.scopes = W.emitter.scopes :=
    (emitArm_scopes hthen.kept hrun hs1.inside).trans (Conditional.thenAt_scopes W.emitter c type)
  obtain ⟨hs2, hl3, hawaits2⟩ :=
    hs.elseAt hl1 hl2 hd (emitArm_grows hthen.emits hrun hs1.inside) hscopes
  have hcloses : Closes cx sig base
      (pending ∪ Set.Ico (W.emitter.blocks.size + 2) (W.emitter.blocks.size + 3))
      (Conditional.emitElse (type.map fun _ => W.emitter.slots.size) (Fork.third W.emitter) elseArm)
      ⟨Γ, Conditional.elseAt W.emitter u⟩ := by
    cases elseArm with
    | none => exact hs2.jump hawaits2 false
    | some arm =>
      exact (helse arm rfl).closes htype hs2 hl3 (fun t ht => hl2.getElem?_slots (hslot t ht))
        hawaits2
  obtain ⟨e, hrun', hclash⟩ | ⟨d', w, Γ', hrun', hd', hl4, -⟩ := hcloses.cases
  · refine .of_error ?_ hclash
    rw [Conditional.rest, except_ok_bind hresult, except_ok_bind hrun]
    exact except_error_bind hrun' _
  have hscopes' : w.scopes = W.emitter.scopes :=
    (Conditional.emitElse_scopes (fun arm harm => (helse arm harm).kept) hrun' hs2.inside).trans
      hscopes
  have hext : World.Extends ⟨W.fork cx, Conditional.thenAt W.emitter c type⟩ ⟨Γ', w⟩ :=
    hl2.toExtends.trans ⟨hl4.size, hl4.chart, hl4.slots⟩
  obtain ⟨hs3, hl5⟩ := hs.resume (s := Conditional.joined W.emitter w (d && d')) hl1 hext hd'
    hthird (by omega) (by omega) (Nat.le_of_eq hsize.symm) rfl rfl rfl rfl hscopes'
  rw [Set.Ico_self, Set.union_empty] at hs3
  refine .of_run hl5 ?_ (hs3.readResult (fun h => (htype h).2) fun t ht =>
    hext.getElem?_slots (hslot t ht))
  rw [Conditional.rest, except_ok_bind hresult, except_ok_bind hrun]
  exact except_ok_bind hrun' _

theorem emitConditional {condition : Emit ValueId}
    (hx : Emits condition)
    (hc : ∀ W', Stage cx sig base pending W' → Later cx W W' →
      Builds cx sig base pending condition W' fun v W' => (v, .i8) ∈ W'.here cx) {ty : Ty}
    {thenArm : Ty × Emit (Option ValueId)} {elseArm : Option (Ty × Emit (Option ValueId))}
    (hty : elseArm.isSome = true → ty ≠ .unknown)
    (hthen : ArmBuilds cx sig base W ty elseArm.isSome thenArm)
    (helse : ∀ arm, elseArm = some arm → ArmBuilds cx sig base W ty true arm) :
    Builds cx sig base pending (Code.emitConditional cx ty condition thenArm elseArm) W
      fun r W' => ∀ v, r = some v → W'.Has cx v ty := by
  rw [emitConditional_eq]
  refine (hs.inScope (Q := fun v W' => (v, MachineType.i8) ∈ W'.here cx) hx
    (fun _ _ _ hl h => hl.here h) hc).bind fun c W1 _ hs1 hl1 hc => ?_
  exact hs1.conditional hc hty (hthen.later hl1) fun arm harm => (helse arm harm).later hl1

/-! ### Loops -/

theorem headAt :
    Stage cx sig base (pending ∪ Set.Ico (W.emitter.blocks.size + 1) (W.emitter.blocks.size + 3))
        ⟨W.fork cx, Loop.headAt W.emitter⟩ ∧
      Later cx W ⟨W.fork cx, Loop.headAt W.emitter⟩ := by
  have hsize := Loop.headAt_size W.emitter
  have hforked := ((hs.forked.withBlock hs.inside).withBlock hs.inside).withBlock hs.inside
  have hcharted := hforked.push hs.inside hs.apart (i := Loop.jump W.emitter) rfl
    (Fork.fits (Nat.le_refl _) (by omega)) (by simp [Loop.jump, Instr.targets])
  rw [← hsize]
  exact hs.enterNew hcharted rfl (by omega) rfl List.prefix_rfl rfl

/-- From the end of the condition `c` the emission goes on with the body, which jumps back to the
header. -/
theorem bodyAt {u : Emitter} {Γ : Chart}
    (hnew : Later cx W ⟨W.fork cx, Loop.headAt W.emitter⟩) (hs' : Stage cx sig base
      (pending ∪ Set.Ico (W.emitter.blocks.size + 1) (W.emitter.blocks.size + 3)) ⟨Γ, u⟩)
    (hl : Later cx ⟨W.fork cx, Loop.headAt W.emitter⟩ ⟨Γ, u⟩) (hc : (c, .i8) ∈ World.here cx ⟨Γ, u⟩)
    (hgrows : Grows (Loop.headAt W.emitter) u) (hscopes : u.scopes = W.emitter.scopes) :
    Stage cx sig base (pending ∪ Set.Ico (W.emitter.blocks.size + 2) (W.emitter.blocks.size + 3))
        ⟨Γ, Loop.bodyAt W.emitter c u⟩ ∧
      Later cx W ⟨Γ, Loop.bodyAt W.emitter c u⟩ ∧
      Awaits cx ⟨Γ, Loop.bodyAt W.emitter c u⟩ W.emitter.blocks.size ∧
      World.Extends ⟨W.fork cx, Loop.headAt W.emitter⟩ ⟨Γ, Loop.bodyAt W.emitter c u⟩ := by
  have hsecond := Fork.second_eq W.emitter
  have hthird := Fork.third_eq W.emitter
  have hsize := Loop.headAt_size W.emitter
  -- all three new blocks were promised what is at hand before the loop
  have hawaits {b : Nat} (hb : W.emitter.blocks.size ≤ b) (hlt : b < W.emitter.blocks.size + 3) :
      Awaits cx ⟨Γ, u⟩ b := by
    have hlt' : b < (Loop.headAt W.emitter).blocks.size := by omega
    refine (hnew.trans hl).awaits_new hl.toExtends hb hlt' ?_
    exact (params_of_grows hgrows hlt').trans
      (congrArg Block.params (Loop.headAt_new W.emitter hs.inside hb))
  have hbody := hawaits (b := Fork.second W.emitter) (by omega) (by omega)
  have hexit := hawaits (b := Fork.third W.emitter) (by omega) (by omega)
  obtain ⟨hd, hl1⟩ := hs'.finish (i := Loop.branch W.emitter c) rfl ⟨hc, hbody.fits, hexit.fits⟩
    (by simpa [Loop.branch, Instr.targets] using ⟨hbody.chart, hexit.chart⟩)
  obtain ⟨hs2, hl2⟩ := hs.resume (s := Loop.bodyAt W.emitter c u) hnew (hl.trans hl1).toExtends
    hd hsecond (by omega) (by omega) (Nat.le_of_eq hsize.symm) rfl rfl rfl rfl hscopes
  have hext : World.Extends ⟨W.fork cx, Loop.headAt W.emitter⟩ ⟨Γ, Loop.bodyAt W.emitter c u⟩ :=
    hl.toExtends.trans ⟨hl1.size, hl1.chart, hl1.slots⟩
  have hhead := hawaits (Nat.le_refl _) (Nat.lt_add_of_pos_right (by decide))
  refine ⟨hs2, hl2, hl2.awaits_new hext (Nat.le_refl _) (by omega) ?_, hext⟩
  exact (params_of_grows ((Grows.refl hs'.inside).push hs'.inside _) hhead.lt).trans hhead.params

theorem emitLoop {condition : Emit ValueId} (hx : Emits condition)
    (hc : ∀ pending' W', Stage cx sig base pending' W' → Later cx W W' →
      Builds cx sig base pending' condition W' fun v W' => (v, .i8) ∈ W'.here cx)
    {ty : Ty} {body : Emit (Option ValueId)}
    (hbody : ArmBuilds cx sig base W .void false (ty, body)) :
    Builds cx sig base pending (Code.emitLoop cx condition ty body) W fun _ _ => True := by
  have hsize := Loop.headAt_size W.emitter
  obtain ⟨hs1, hl1⟩ := hs.headAt
  have hbuild := hs1.inScope (Q := fun v W' => (v, MachineType.i8) ∈ W'.here cx) hx
    (fun _ _ _ hl h => hl.here h) fun W' hs' hl' => hc _ W' hs' (hl1.trans hl')
  obtain ⟨e, hrun, hclash⟩ | ⟨c, u, Γ, hrun, hs2, hl2, hcond⟩ := hbuild.cases
  · refine .of_error ?_ hclash
    rw [emitLoop_eq, except_error_bind hrun]
  have hscopes := Kept.inScope hx _ _ _ hrun hs1.inside
  obtain ⟨hs3, hl3, hhead, hext⟩ :=
    hs.bodyAt hl1 hs2 hl2 hcond (hx.inScope _ _ _ hrun hs1.inside).grows hscopes
  have harm : Closes cx sig base _ (Code.emitArm ty none W.emitter.blocks.size body) _ :=
    Stage.emitArm hbody.emits hs3 hhead (hbody.builds _ _ hs3 hl3) (by simp)
  obtain ⟨e, hrun', hclash⟩ | ⟨d, w, Γ', hrun', hd, hl4, -⟩ := harm.cases
  · refine .of_error ?_ hclash
    rw [emitLoop_eq, except_ok_bind hrun]
    exact except_error_bind hrun' _
  have hscopes' := (emitArm_scopes hbody.kept hrun' hs3.inside).trans hscopes
  obtain ⟨hs4, hl5⟩ := hs.resume (s := Loop.exitAt W.emitter u w) hl1 (hext.trans hl4.toExtends) hd
    (Fork.third_eq W.emitter) (by omega) (by omega) (Nat.le_of_eq hsize.symm)
    rfl rfl rfl rfl hscopes'
  rw [Set.Ico_self, Set.union_empty] at hs4
  have hok : Code.emitLoop cx condition ty body W.emitter =
      .ok ((), Loop.exitAt W.emitter u w) := by
    rw [emitLoop_eq, except_ok_bind hrun]
    exact except_ok_bind hrun' _
  exact .of_ok hok hs4 hl5 trivial

end

end Stage

end ObjectLang.Code
