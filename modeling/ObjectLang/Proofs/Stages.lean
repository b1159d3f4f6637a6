import ObjectLang.Proofs.Charting
import ObjectLang.Proofs.CheckSoundness
import ObjectLang.Proofs.Divergence
import ObjectLang.Proofs.Layouts

/-! # Stages of emission

An emitter is taken together with a chart of the code so far.  An emission that is run at a good
stage arrives at a good stage, where more values are at hand; it fails only where the name of a new
literal is already taken.
-/

namespace ObjectLang.Checked

/-- The function is there, takes values and returns something known. -/
def Program.isSigned (p : Program) (g : FuncId) : Bool :=
  decide (g < p.functions.size) && (Code.passedTypes (p.functionAt g)).all (·.isValue) &&
    !(p.functionAt g).returnType.isUnknown

/-- The type is known, and what the node refers to is there. -/
def Node.isGrounded (p : Program) : Node → Bool
  | .expr e =>
    !e.ty.isUnknown &&
      match e with
      | .call _ g .. => p.isSigned g
      | .new _ c init _ => decide (c < p.classes.size) && init.all p.isSigned
      | _ => true
  | _ => true

def Node.text? : Node → Option String
  | .expr (.str _ text) => some text
  | _ => none

/-- The string literals of a function. -/
def FuncInst.texts (f : FuncInst) : List String := f.nodes.filterMap Node.text?

end ObjectLang.Checked

namespace ObjectLang.Code

open Syntax Checked Simulation

/-! ### Machine types -/

section

variable {p : Program} {ptr t : MachineType} {ty source target : Ty}

theorem valueType_eq_ok : valueType ptr ty = .ok t ↔ machineType ptr ty = .ok (some t) := by
  rw [valueType]
  cases machineType ptr ty with
  | error e => constructor <;> rintro ⟨⟩
  | ok r =>
    cases r with
    | none => constructor <;> rintro ⟨⟩
    | some t' =>
      constructor
      · rintro ⟨⟩
        rfl
      · rintro ⟨⟩
        rfl

theorem exists_machineType (ptr : MachineType) (h : ty.isValue = true) :
    ∃ t, machineType ptr ty = .ok (some t) := by
  cases ty with
  | primitive q => cases q <;> first | exact ⟨_, rfl⟩ | cases h
  | unknown => cases h
  | _ => exact ⟨_, rfl⟩

theorem exists_machineType_of_ne_unknown (ptr : MachineType) (h : ty ≠ .unknown) :
    ∃ t, machineType ptr ty = .ok t := by
  cases ty with
  | primitive q => cases q <;> exact ⟨_, rfl⟩
  | unknown => exact absurd rfl h
  | _ => exact ⟨_, rfl⟩

theorem machineType_of_fits (h : p.fits source target) :
    machineType ptr source = machineType ptr target := by
  simp only [Program.fits, Bool.or_eq_true, beq_iff_eq] at h
  obtain rfl | h := h
  · rfl
  · cases source with
    | object c => cases target <;> first | rfl | cases h
    | _ => cases h

theorem machineType_of_isReference (h : ty.isReference = true) :
    machineType ptr ty = .ok (some ptr) := by
  cases ty with
  | primitive q => cases q <;> first | rfl | cases h
  | object c | protocol c => rfl
  | _ => cases h

theorem isValue_of_fits (h : p.fits source target) (ht : target.isValue = true) :
    source.isValue = true := by
  simp only [Program.fits, Bool.or_eq_true, beq_iff_eq] at h
  obtain rfl | h := h
  · exact ht
  · cases source with
    | object c => rfl
    | _ => cases h

end

/-! ### Stages -/

/-- An emitter with a chart of the code that it has emitted. -/
structure World where
  chart : Chart
  emitter : Emitter

namespace World

variable (cx : Context) (W : World)

/-- The values that are at hand. -/
def here : Supply :=
  W.chart W.emitter.current ∪
    { d | d ∈ (W.emitter.blockAt W.emitter.current).definitions cx.program cx.ptr }

/-- The value is at hand and can stand for one of the type. -/
def Has (v : ValueId) (ty : Ty) : Prop :=
  ∃ t, machineType cx.ptr ty = .ok (some t) ∧ (v, t) ∈ W.here cx

/-- What waits for its release can be released. -/
def Keeps : Pending → Prop
  | .value v => (v, cx.ptr) ∈ W.here cx
  | .slot k => W.emitter.slots[k]? = some cx.ptr

end World

/-- Blocks and slots were added. -/
structure World.Extends (W W' : World) : Prop where
  size : W.emitter.blocks.size ≤ W'.emitter.blocks.size
  chart : ∀ b < W.emitter.blocks.size, W'.chart b = W.chart b
  slots : W.emitter.slots.toList <+: W'.emitter.slots.toList

theorem World.Extends.trans {W W' W'' : World} (h : W.Extends W') (h' : W'.Extends W'') :
    W.Extends W'' where
  size := Nat.le_trans h.size h'.size
  chart b hb := (h'.chart b (Nat.lt_of_lt_of_le hb h.size)).trans (h.chart b hb)
  slots := h.slots.trans h'.slots

theorem World.Extends.getElem?_slots {W W' : World} (h : W.Extends W') {k : SlotId}
    {t : MachineType} (hk : W.emitter.slots[k]? = some t) :
    W'.emitter.slots[k]? = some t := getElem?_of_prefix h.slots hk

/-- The emission goes on from the one world to the other. -/
structure Later (cx : Context) (W W' : World) : Prop extends W.Extends W' where
  here : W.here cx ⊆ W'.here cx

namespace Later

variable {cx : Context} {W W' W'' : World}

theorem refl (W : World) : Later cx W W :=
  ⟨⟨Nat.le_refl _, fun _ _ => rfl, List.prefix_rfl⟩, subset_rfl⟩

theorem trans (h : Later cx W W') (h' : Later cx W' W'') : Later cx W W'' :=
  ⟨h.toExtends.trans h'.toExtends, h.here.trans h'.here⟩

theorem keeps (h : Later cx W W') {q : Pending} (hq : W.Keeps cx q) : W'.Keeps cx q := by
  cases q with
  | value v => exact h.here hq
  | slot k => exact h.getElem?_slots hq

theorem has (h : Later cx W W') {v : ValueId} {ty : Ty} (hv : W.Has cx v ty) : W'.Has cx v ty := by
  obtain ⟨t, ht, hmem⟩ := hv
  exact ⟨t, ht, h.here hmem⟩

end Later

namespace World.Has

variable {cx : Context} {W : World} {v : ValueId} {ty ty' : Ty}

theorem mem (h : W.Has cx v ty) {t : MachineType} (ht : machineType cx.ptr ty = .ok (some t)) :
    (v, t) ∈ W.here cx := by
  obtain ⟨t', ht', hmem⟩ := h
  cases ht.symm.trans ht'
  exact hmem

theorem mem_ptr (h : W.Has cx v ty) (hty : ty.isReference = true) : (v, cx.ptr) ∈ W.here cx :=
  h.mem (machineType_of_isReference hty)

theorem fits (h : W.Has cx v ty) {p : Program} (hfits : p.fits ty ty') : W.Has cx v ty' := by
  obtain ⟨t, ht, hmem⟩ := h
  exact ⟨t, (machineType_of_fits hfits).symm.trans ht, hmem⟩

end World.Has

section

variable (cx : Context) (sig : Signature) (base : Array String)

/-- What does not depend on where the emitter stands: the chart holds, the locals have their slots,
and the literals behind those of other functions are literals of this one. -/
structure Drawn (unfinished : Set BlockId) (W : World) : Prop where
  charted : Charted cx.program cx.ptr W.chart unfinished W.emitter.nextValue (W.emitter.code sig)
  locals : ∀ (id : LocalId) l, cx.function.locals[id]? = some l →
    ∃ t, machineType cx.ptr l.ty = .ok (some t) ∧ W.emitter.slots[id]? = some t
  literals : ∃ new, W.emitter.literals.toList = base.toList ++ new ∧ new.Nodup ∧
    ∀ text ∈ new, text ∈ cx.function.texts

/-- The emitter is in a block that is not ended, and all that waits for its release is at hand.  The
pending blocks will be entered later. -/
structure Stage (pending : Set BlockId) (W : World) : Prop where
  drawn : Drawn cx sig base (insert W.emitter.current pending) W
  inside : W.emitter.Inside
  apart : W.emitter.current ∉ pending
  pending : ∀ b ∈ pending, b < W.emitter.blocks.size
  scopes : ∀ scope ∈ W.emitter.scopes, ∀ q ∈ scope, W.Keeps cx q
  active : W.emitter.scopes ≠ []
  self : ∀ v ty, cx.receiver? = some v → cx.function.receiver = some ty → W.Has cx v ty

/-- The name for a new literal of the function is that of a function. -/
def Clash (e : Error) : Prop :=
  e = .clash ∧ ∃ k, base.size ≤ k ∧ k < base.size + cx.function.texts.length ∧
    cx.functionNames.contains (literalName k) = true

/-- Run at `W`, the emission arrives at a good stage where `Q` holds, or fails with a clash. -/
def Builds {α : Type} (pending : Set BlockId) (x : Emit α) (W : World) (Q : α → World → Prop) :
    Prop :=
  match x W.emitter with
  | .ok (a, s) =>
    ∃ Γ, Stage cx sig base pending ⟨Γ, s⟩ ∧ Later cx W ⟨Γ, s⟩ ∧ Q a ⟨Γ, s⟩
  | .error e => Clash cx base e

/-- What holds for every emission of a typed function. -/
structure Ready : Prop where
  ptr : cx.ptr = .i32 ∨ cx.ptr = .i64
  layouts : layouts cx.ptr cx.program = .ok cx.layouts
  signature : signature cx.ptr cx.function = .ok sig
  grounded : ∀ n ∈ cx.function.nodes, n.isGrounded cx.program = true

end

variable {cx : Context} {sig : Signature} {base : Array String} {pending : Set BlockId} {W : World}
  {α β : Type}

theorem Ready.ptr_isFloat (h : Ready cx sig) : cx.ptr.isFloat = false := by
  rcases h.ptr with h | h <;> rw [h] <;> rfl

namespace Builds

variable {x : Emit α} {f : α → Emit β} {Q : α → World → Prop} {R : β → World → Prop}

theorem of_ok {a : α} {W' : World} (hx : x W.emitter = .ok (a, W'.emitter))
    (hs : Stage cx sig base pending W') (hl : Later cx W W') (hQ : Q a W') :
    Builds cx sig base pending x W Q := by
  rw [Builds, hx]
  exact ⟨W'.chart, hs, hl, hQ⟩

theorem of_error {e : Error} (hx : x W.emitter = .error e) (h : Clash cx base e) :
    Builds cx sig base pending x W Q := by
  rw [Builds, hx]
  exact h

/-- The emission goes on as the other one does at a later world. -/
theorem of_run {y : Emit α} {W' : World} (hl : Later cx W W') (hx : x W.emitter = y W'.emitter)
    (h : Builds cx sig base pending y W' Q) : Builds cx sig base pending x W Q := by
  rw [Builds] at h ⊢
  rw [hx]
  cases hy : y W'.emitter with
  | error e =>
    rw [hy] at h
    exact h
  | ok r =>
    rw [hy] at h
    obtain ⟨Γ, hs, hl', hQ⟩ := h
    exact ⟨Γ, hs, hl.trans hl', hQ⟩

theorem pure {a : α} (hs : Stage cx sig base pending W) (hQ : Q a W) :
    Builds cx sig base pending (Pure.pure a) W Q := of_ok rfl hs (.refl W) hQ

theorem cases {Γ : Chart} {s : Emitter} (h : Builds cx sig base pending x ⟨Γ, s⟩ Q) :
    (∃ e, x s = .error e ∧ Clash cx base e) ∨
      ∃ a s' Γ', x s = .ok (a, s') ∧ Stage cx sig base pending ⟨Γ', s'⟩ ∧ Later cx ⟨Γ, s⟩ ⟨Γ', s'⟩ ∧
        Q a ⟨Γ', s'⟩ := by
  rw [Builds] at h
  cases hrun : x s with
  | error e =>
    rw [hrun] at h
    exact .inl ⟨e, rfl, h⟩
  | ok r =>
    rw [hrun] at h
    obtain ⟨Γ', hs, hl, hQ⟩ := h
    exact .inr ⟨r.1, r.2, Γ', rfl, hs, hl, hQ⟩

theorem bind (hx : Builds cx sig base pending x W Q)
    (hf : ∀ a W', x W.emitter = .ok (a, W'.emitter) → Stage cx sig base pending W' → Later cx W W' →
      Q a W' → Builds cx sig base pending (f a) W' R) :
    Builds cx sig base pending (x >>= f) W R := by
  have hrun : (x >>= f) W.emitter = x W.emitter >>= fun r => f r.1 r.2 := rfl
  rw [Builds] at hx ⊢
  rw [hrun]
  cases h : x W.emitter with
  | error e =>
    rw [h] at hx
    exact hx
  | ok r =>
    rw [h] at hx
    obtain ⟨Γ, hs, hl, hQ⟩ := hx
    have hcont := hf r.1 ⟨Γ, r.2⟩ h hs hl hQ
    rw [Builds] at hcont
    change match f r.1 r.2 with | .ok (a, s) => _ | .error e => _
    cases h' : f r.1 r.2 with
    | error e =>
      rw [h'] at hcont
      exact hcont
    | ok q =>
      rw [h'] at hcont
      obtain ⟨Γ', hs', hl', hR⟩ := hcont
      exact ⟨Γ', hs', hl.trans hl', hR⟩

theorem mono {Q' : α → World → Prop} (hx : Builds cx sig base pending x W Q)
    (h : ∀ a W', Later cx W W' → Q a W' → Q' a W') : Builds cx sig base pending x W Q' := by
  rw [Builds] at hx ⊢
  cases hrun : x W.emitter with
  | error e =>
    rw [hrun] at hx
    exact hx
  | ok r =>
    rw [hrun] at hx
    obtain ⟨Γ, hs, hl, hQ⟩ := hx
    exact ⟨Γ, hs, hl, h _ _ hl hQ⟩

theorem map {g : α → β} (hx : Builds cx sig base pending x W fun a => R (g a)) :
    Builds cx sig base pending (g <$> x) W R :=
  hx.bind (f := fun a => Pure.pure (g a)) fun _ _ _ hs _ hR => .pure hs hR

theorem lift {y : Except Error α} {a : α} (hy : y = .ok a)
    (h : Builds cx sig base pending (f a) W R) :
    Builds cx sig base pending (liftM y >>= f) W R := by
  subst hy
  exact h

theorem isDead {f : Bool → Emit α} (h : Builds cx sig base pending (f W.emitter.dead) W Q) :
    Builds cx sig base pending (isDead >>= f) W Q := h

theorem get {f : Emitter → Emit α} (h : Builds cx sig base pending (f W.emitter) W Q) :
    Builds cx sig base pending (MonadState.get >>= f) W Q := h

theorem ite {c : Prop} [Decidable c] {x y : Emit α} (hx : c → Builds cx sig base pending x W Q)
    (hy : ¬c → Builds cx sig base pending y W Q) :
    Builds cx sig base pending (if c then x else y) W Q := by
  split
  · next hc => exact hx hc
  · next hc => exact hy hc

/-- What follows a choice is emitted behind either part of it. -/
theorem ite_bind {c : Prop} [Decidable c] {x y : Emit α}
    (h : Builds cx sig base pending (if c then x else y) W Q)
    (hf : ∀ a W', Stage cx sig base pending W' → Later cx W W' → Q a W' →
      Builds cx sig base pending (f a) W' R) :
    Builds cx sig base pending (if c then x >>= f else y >>= f) W R := by
  split at h
  · next hc =>
    rw [if_pos hc]
    exact h.bind fun a W' _ => hf a W'
  · next hc =>
    rw [if_neg hc]
    exact h.bind fun a W' _ => hf a W'

end Builds

/-! ### Single steps -/

theorem get_bind_run (f : Emitter → Emit α) (s : Emitter) : (get >>= f) s = f s s := rfl

theorem own_run (q : Pending) {s : Emitter} {scope : List Pending} {outer : List (List Pending)}
    (h : s.scopes = scope :: outer) :
    own q s = .ok ((), { s with scopes := (q :: scope) :: outer }) := by
  rw [own, get_bind_run, h]
  rfl

namespace Stage

section

variable (hs : Stage cx sig base pending W)

include hs

/-- An instruction that does not end the block, and whose result is a new value. -/
theorem push {i : Instr} {n : ValueId}
    (hn : W.emitter.nextValue ≤ n) (hterm : i.isTerminator = false)
    (hresult : ∀ d, i.result cx.program cx.ptr = some d → W.emitter.nextValue ≤ d.1 ∧ d.1 < n)
    (hfits : i.Fits cx.program cx.ptr (W.emitter.code sig) (W.here cx)) :
    Stage cx sig base pending ⟨W.chart, (W.emitter.withValues n).push i⟩ ∧
      Later cx W ⟨W.chart, (W.emitter.withValues n).push i⟩ ∧
      ∀ d, i.result cx.program cx.ptr = some d →
        d ∈ World.here cx ⟨W.chart, (W.emitter.withValues n).push i⟩ := by
  have hhere : World.here cx ⟨W.chart, (W.emitter.withValues n).push i⟩ =
      W.here cx ∪ { d | i.result cx.program cx.ptr = some d } :=
    Chart.behind_push sig (s := W.emitter.withValues n) hs.inside
  have hcharted : Charted cx.program cx.ptr W.chart (insert W.emitter.current pending) n
      (Emitter.code sig ((W.emitter.withValues n).push i)) :=
    hs.drawn.charted.push (s := W.emitter.withValues n) hs.inside (Set.mem_insert _ _) hfits
      (by simp [Instr.targets_eq_nil hterm]) hn hresult (by simp [hterm])
  have hsize : ((W.emitter.withValues n).push i).blocks.size = W.emitter.blocks.size :=
    Emitter.push_blocks_size _ i
  have hlater : Later cx W ⟨W.chart, (W.emitter.withValues n).push i⟩ :=
    ⟨⟨Nat.le_of_eq hsize.symm, fun _ _ => rfl, List.prefix_rfl⟩, hhere ▸ Set.subset_union_left⟩
  refine ⟨⟨⟨hcharted, hs.drawn.locals, hs.drawn.literals⟩, ?_, hs.apart, ?_, ?_, hs.active, ?_⟩,
    hlater, fun d hd => hhere ▸ .inr hd⟩
  · exact Nat.lt_of_lt_of_eq hs.inside hsize.symm
  · exact fun b hb => Nat.lt_of_lt_of_eq (hs.pending b hb) hsize.symm
  · exact fun scope hscope q hq => hlater.keeps (hs.scopes scope hscope q hq)
  · exact fun v ty hv hty => hlater.has (hs.self v ty hv hty)

theorem emit {i : Instr} (hterm : i.isTerminator = false)
    (hresult : i.result cx.program cx.ptr = none)
    (hfits : i.Fits cx.program cx.ptr (W.emitter.code sig) (W.here cx)) :
    Builds cx sig base pending (Code.emit i) W fun _ _ => True := by
  obtain ⟨hs', hl, -⟩ := hs.push (Nat.le_refl _) hterm (by simp [hresult]) hfits
  exact .of_ok rfl hs' hl trivial

theorem define {f : ValueId → Instr} {t : MachineType}
    (hterm : ∀ v, (f v).isTerminator = false)
    (hresult : ∀ v, (f v).result cx.program cx.ptr = some (v, t))
    (hfits : ∀ v, (f v).Fits cx.program cx.ptr (W.emitter.code sig) (W.here cx)) :
    Builds cx sig base pending (Code.define f) W fun v W' => (v, t) ∈ W'.here cx := by
  obtain ⟨hs', hl, hmem⟩ := hs.push (i := f W.emitter.nextValue) (Nat.le_succ _) (hterm _)
    (by
      rintro d hd
      cases (hresult _).symm.trans hd
      exact ⟨Nat.le_refl _, Nat.lt_succ_self _⟩) (hfits _)
  exact .of_ok rfl hs' hl (hmem _ (hresult _))

/-- Scopes, literals and whether the path is dead may change. -/
theorem update {s : Emitter} (hblocks : s.blocks = W.emitter.blocks)
    (hcurrent : s.current = W.emitter.current) (hslots : s.slots = W.emitter.slots)
    (hvalues : s.nextValue = W.emitter.nextValue)
    (hscopes : ∀ scope ∈ s.scopes, ∀ q ∈ scope, W.Keeps cx q) (hactive : s.scopes ≠ [])
    (hliterals : ∃ new, s.literals.toList = base.toList ++ new ∧ new.Nodup ∧
      ∀ text ∈ new, text ∈ cx.function.texts) :
    Stage cx sig base pending ⟨W.chart, s⟩ ∧ Later cx W ⟨W.chart, s⟩ := by
  have hat (b : BlockId) : s.blockAt b = W.emitter.blockAt b := by
    simp only [Emitter.blockAt, hblocks]
  have hlater : Later cx W ⟨W.chart, s⟩ := by
    refine ⟨⟨Nat.le_of_eq (congrArg Array.size hblocks.symm), fun _ _ => rfl, ?_⟩, ?_⟩
    · exact hslots ▸ List.prefix_rfl
    · simp only [World.here, hcurrent, hat, subset_rfl]
  refine ⟨⟨⟨?_, ?_, hliterals⟩, ?_, ?_, ?_, ?_, hactive, ?_⟩, hlater⟩
  · refine hs.drawn.charted.congr hblocks (hslots ▸ List.prefix_rfl) (Nat.le_of_eq hvalues.symm)
      (fun _ _ => rfl) ?_
    simp [hcurrent]
  · simpa only [hslots] using hs.drawn.locals
  · simpa only [Emitter.Inside, hblocks, hcurrent] using hs.inside
  · simpa only [hcurrent] using hs.apart
  · simpa only [hblocks] using hs.pending
  · exact fun scope hscope q hq => hlater.keeps (hscopes scope hscope q hq)
  · exact fun v ty hv hty => hlater.has (hs.self v ty hv hty)

theorem own {q : Pending} (hq : W.Keeps cx q) :
    Builds cx sig base pending (Code.own q) W fun _ _ => True := by
  obtain ⟨scope, outer, hscopes⟩ := List.exists_cons_of_ne_nil hs.active
  have hkeeps := hs.scopes
  rw [hscopes, List.forall_mem_cons] at hkeeps
  obtain ⟨hs', hl⟩ := hs.update (s := { W.emitter with scopes := (q :: scope) :: outer })
    rfl rfl rfl rfl
    (List.forall_mem_cons.mpr ⟨List.forall_mem_cons.mpr ⟨hq, hkeeps.1⟩, hkeeps.2⟩) (by simp)
    hs.drawn.literals
  exact .of_ok (own_run q hscopes) hs' hl trivial

end

end Stage

end ObjectLang.Code
