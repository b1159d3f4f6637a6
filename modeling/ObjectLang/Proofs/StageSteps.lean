import ObjectLang.Proofs.Stages

/-! # Parts of trees at a stage

The emissions for scopes, strings, operators, calls, objects and fields arrive at a good stage, and
their results are of the types that they should have.
-/

namespace ObjectLang.Code

open Syntax Checked Simulation

theorem MachineType.holds_wrap (t : MachineType) (n : Int) : t.holds (t.wrap n) = true := by
  simp [holds, wrap, Int.bmod_bmod]

theorem MachineType.holds_zero (t : MachineType) : t.holds 0 = true := by cases t <;> decide

variable {cx : Context} {sig : Signature} {base : Array String} {pending : Set BlockId} {W : World}
  {α : Type}

/-- Operands of an operator have one machine type. -/
theorem machineType_of_takes {p : Program} {ptr : MachineType} {op : BinaryOp} {left right : Ty}
    (h : p.takes op left right = true) : machineType ptr left = machineType ptr right := by
  simp only [Program.takes] at h
  split at h
  · simp only [Bool.or_eq_true, Bool.and_eq_true, beq_iff_eq] at h
    obtain ⟨⟨-, rfl⟩, rfl⟩ | ⟨-, rfl⟩ := h <;> rfl
  · split at h
    · simp only [Bool.and_eq_true, beq_iff_eq] at h
      rw [h.2]
    · split at h
      · simp only [Bool.and_eq_true, Bool.or_eq_true] at h
        obtain hfits | hfits := h.1.1
        · exact machineType_of_fits hfits
        · exact (machineType_of_fits hfits).symm
      · simp only [Bool.and_eq_true, beq_iff_eq] at h
        rw [h.1, h.2]

/-- What a signature says of the types of the function. -/
theorem signature_ok {ptr : MachineType} {f : FuncInst} {sig : Signature}
    (h : signature ptr f = .ok sig) :
    List.Forall₂ (fun ty t => machineType ptr ty = .ok (some t)) (passedTypes f) sig.params ∧
      machineType ptr f.returnType = .ok sig.result := by
  obtain ⟨params, hparams, h⟩ := except_bind_ok h
  obtain ⟨result, hresult, h⟩ := except_bind_ok h
  cases h
  exact ⟨(forall₂_of_mapM_ok hparams).imp fun _ _ => valueType_eq_ok.mp, hresult⟩

theorem exists_signature (ptr : MachineType) {f : FuncInst}
    (hvalues : ∀ ty ∈ passedTypes f, ty.isValue = true) (hreturn : f.returnType ≠ .unknown) :
    ∃ sig, signature ptr f = .ok sig := by
  have hty : ∀ ty ∈ passedTypes f, ∃ t, valueType ptr ty = .ok t := by
    intro ty hty
    obtain ⟨t, ht⟩ := exists_machineType ptr (hvalues ty hty)
    exact ⟨t, valueType_eq_ok.mpr ht⟩
  obtain ⟨params, hparams⟩ := exists_mapM_ok hty
  obtain ⟨result, hresult⟩ := exists_machineType_of_ne_unknown ptr hreturn
  exact ⟨⟨params, result⟩, by rw [signature, hparams, hresult]; rfl⟩

theorem signature_of_isSigned {p : Program} (ptr : MachineType) {g : FuncId}
    (h : p.isSigned g = true) :
    g < p.functions.size ∧ ∃ sig, signature ptr (p.functionAt g) = .ok sig := by
  simp only [Program.isSigned, Bool.and_eq_true, decide_eq_true_eq, List.all_eq_true] at h
  obtain ⟨⟨hlt, hvalues⟩, hreturn⟩ := h
  refine ⟨hlt, exists_signature ptr hvalues (by simpa [Ty.isUnknown] using hreturn)⟩

/-- Values of the types that a function takes are what its signature takes. -/
theorem has_params {W : World} {vs : List ValueId} {tys : List Ty} {ts : List MachineType}
    (hvs : List.Forall₂ (W.Has cx) vs tys)
    (hts : List.Forall₂ (fun ty t => machineType cx.ptr ty = .ok (some t)) tys ts) :
    List.Forall₂ (fun v t => (v, t) ∈ W.here cx) vs ts := by
  induction hvs generalizing ts with
  | nil =>
    cases hts
    exact .nil
  | cons hv _ ih =>
    cases hts with
    | cons ht hts => exact .cons (hv.mem ht) (ih hts)

variable (cx sig) in
/-- With a destination if there is a result, it is a call that fits and has the result. -/
structure IsCall (W : World) (t : Option MachineType) (call : Option ValueId → Instr) : Prop where
  isTerminator : ∀ dst, (call dst).isTerminator = false
  result : ∀ dst, dst.isSome = t.isSome →
    (call dst).result cx.program cx.ptr = dst.bind fun v => t.map (v, ·)
  fits : ∀ dst, dst.isSome = t.isSome →
    (call dst).Fits cx.program cx.ptr (W.emitter.code sig) (W.here cx)

theorem getElem?_of_forall₂ {β γ : Type} {R : β → γ → Prop} {bs : List β} {cs : List γ}
    (h : List.Forall₂ R bs cs) {i : Nat} {b : β} (hb : bs[i]? = some b) :
    ∃ c, cs[i]? = some c ∧ R b c := by
  induction h generalizing i with
  | nil => cases hb
  | cons hbc _ ih =>
    cases i with
    | zero =>
      cases hb
      exact ⟨_, rfl, hbc⟩
    | succ i => exact ih hb

theorem Ready.field (hr : Ready cx sig) {c : ClassId} {index : Nat} {ty : Ty}
    (h : cx.program.fieldType c index = some ty) :
    ∃ field, cx.field c index = .ok field ∧ machineType cx.ptr ty = .ok (some field.type) ∧
      field.isReference = ty.isReference := by
  rw [Program.fieldType, Option.map_eq_some_iff] at h
  obtain ⟨f, hf, rfl⟩ := h
  have hc : c < cx.program.classes.size := by
    by_contra hc
    have hnone : cx.program.classAt c = default := by simp [Program.classAt, hc]
    rw [hnone] at hf
    cases hf
  obtain ⟨layout, hlayout, hof⟩ := layouts_getElem? hr.layouts hc
  obtain ⟨field, hfield, hsuits⟩ := getElem?_of_forall₂ (Layout.suits_ofClass hof) hf
  refine ⟨field, ?_, valueType_eq_ok.mp hsuits.type, hsuits.isReference⟩
  rw [Context.field, Context.layout, hlayout]
  change layout.fieldAt index = _
  rw [Layout.fieldAt, hfield]

/-! ### Runs of single steps -/

section

variable (cx) {s : Emitter} {text : String}

theorem closeScope_run {scope : List Pending} {outer : List (List Pending)}
    (h : s.scopes = scope :: outer) :
    closeScope cx s = (if s.dead = true then Pure.pure () else Code.releaseAll cx scope : Emit Unit)
      { s with scopes := outer } := by
  rw [closeScope, get_bind_run, h]
  rfl

theorem literals_findIdx? :
    s.literals.findIdx? (· == text) = s.literals.toList.findIdx? (· == text) := by
  rw [← List.findIdx?_toArray]

theorem literalNumber_found {k : Nat} (h : s.literals.toList.findIdx? (· == text) = some k) :
    literalNumber cx text s = .ok (k, s) := by
  rw [literalNumber, get_bind_run]
  dsimp only
  rw [literals_findIdx?, h]
  rfl

theorem literalNumber_new (h : s.literals.toList.findIdx? (· == text) = none) :
    literalNumber cx text s =
      if cx.functionNames.contains (literalName s.literals.size) = true then .error .clash
      else .ok (s.literals.size, { s with literals := s.literals.push text }) := by
  rw [literalNumber, get_bind_run]
  dsimp only
  rw [literals_findIdx?, h]
  dsimp only
  split <;> rfl

end

namespace Stage

/-! ### Values and scopes -/

variable {ty : Ty} {a : ValueId} {args : List ValueId} {v b : ValueId} {id : LocalId}
  {op : BinaryOp} {c : ClassId} {g : FuncId}

section

variable (hs : Stage cx sig base pending W)

include hs

theorem callBuiltin (b : Builtin) {t : MachineType}
    (hresult : (b.signature cx.ptr).result = some t)
    (hargs : List.Forall₂ (fun v t => (v, t) ∈ W.here cx) args (b.signature cx.ptr).params) :
    Builds cx sig base pending (Code.callBuiltin b args) W fun v W' => (v, t) ∈ W'.here cx := by
  refine hs.define (fun _ => rfl) (fun v => ?_) fun v => ⟨_, rfl, hargs, by rw [hresult]; rfl⟩
  simp [Instr.result, Callee.signature?, hresult]

theorem retain (hv : (v, cx.ptr) ∈ W.here cx) :
    Builds cx sig base pending (Code.retain v) W fun _ _ => True :=
  hs.emit rfl rfl ⟨_, rfl, .cons hv .nil, rfl⟩

theorem release (hv : (v, cx.ptr) ∈ W.here cx) :
    Builds cx sig base pending (Code.release v) W fun _ _ => True :=
  hs.emit rfl rfl ⟨_, rfl, .cons hv .nil, rfl⟩

theorem intConst {t : MachineType} {n : Int}
    (ht : t.isFloat = false) (hn : t.holds n = true) :
    Builds cx sig base pending (Code.define (.intConst · t n)) W fun v W' => (v, t) ∈ W'.here cx :=
  hs.define (fun _ => rfl) (fun _ => rfl) fun _ => ⟨ht, hn⟩

theorem floatConst (bits : UInt64) :
    Builds cx sig base pending (Code.define (.floatConst · bits)) W fun v W' =>
    (v, .f64) ∈ W'.here cx :=
  hs.define (fun _ => rfl) (fun _ => rfl) fun _ => trivial

theorem slotLoad {t : MachineType} {k : SlotId}
    (hk : W.emitter.slots[k]? = some t) :
    Builds cx sig base pending (Code.define (.slotLoad · t k)) W fun v W' => (v, t) ∈ W'.here cx :=
  hs.define (fun _ => rfl) (fun _ => rfl) fun _ => hk

theorem slotStore {t : MachineType} {k : SlotId}
    (hk : W.emitter.slots[k]? = some t) (hv : (v, t) ∈ W.here cx) :
    Builds cx sig base pending (Code.emit (.slotStore v k)) W fun _ _ => True :=
  hs.emit rfl rfl ⟨t, hk, hv⟩

theorem load (t : MachineType) (readonly : Bool) {address : ValueId}
    (offset : Nat) (ha : (address, cx.ptr) ∈ W.here cx) :
    Builds cx sig base pending (Code.define (.load · t readonly address offset)) W
      fun v W' => (v, t) ∈ W'.here cx :=
  hs.define (fun _ => rfl) (fun _ => rfl) fun _ => ha

theorem dataAddress (d : Datum) :
    Builds cx sig base pending (Code.define (.dataAddress · cx.ptr d)) W
      fun v W' => (v, cx.ptr) ∈ W'.here cx :=
  hs.define (fun _ => rfl) (fun _ => rfl) fun _ => rfl

theorem codeAddress (c : Callee) :
    Builds cx sig base pending (Code.define (.codeAddress · cx.ptr c)) W
      fun v W' => (v, cx.ptr) ∈ W'.here cx :=
  hs.define (fun _ => rfl) (fun _ => rfl) fun _ => rfl

theorem null (hr : Ready cx sig) :
    Builds cx sig base pending (Code.null cx) W fun v W' => (v, cx.ptr) ∈ W'.here cx :=
  hs.intConst hr.ptr_isFloat cx.ptr.holds_zero

theorem zero (hty : ty.isValue = true) :
    Builds cx sig base pending (Code.zero cx ty) W fun v W' => W'.Has cx v ty := by
  obtain ⟨t, ht⟩ := exists_machineType cx.ptr hty
  refine .lift (valueType_eq_ok.mpr ht) (.ite (fun hf => ?_) fun hf => ?_)
  · obtain rfl : t = .f64 := by simpa [MachineType.isFloat] using hf
    exact (hs.floatConst 0).mono fun v W' _ hv => ⟨_, ht, hv⟩
  · exact (hs.intConst (by simpa using hf) t.holds_zero).mono fun v W' _ hv => ⟨t, ht, hv⟩

theorem ownAllocation (hv : (v, cx.ptr) ∈ W.here cx) :
    Builds cx sig base pending (Code.ownAllocation v) W fun _ _ => True :=
  (hs.retain hv).bind fun _ _ _ hs1 hl1 _ => hs1.own (hl1.here hv)

theorem releasePending {q : Pending} (hq : W.Keeps cx q) :
    Builds cx sig base pending (Code.releasePending cx q) W fun _ _ => True := by
  cases q with
  | value v => exact hs.release hq
  | slot k =>
    exact (hs.slotLoad hq).bind fun v W1 _ hs1 _ hv => hs1.release hv

theorem releaseAll {qs : List Pending}
    (hqs : ∀ q ∈ qs, W.Keeps cx q) :
    Builds cx sig base pending (Code.releaseAll cx qs) W fun _ _ => True := by
  induction qs generalizing W with
  | nil => exact .pure hs trivial
  | cons q qs ih =>
    rw [List.forall_mem_cons] at hqs
    refine (hs.releasePending hqs.1).bind fun _ W1 _ hs1 hl1 _ => ih hs1 fun r hr => ?_
    exact hl1.keeps (hqs.2 r hr)

/-- A scope that is left has been entered, so the scopes around it are there. -/
theorem closeScope {scope : List Pending}
    {outer : List (List Pending)} (hscopes : W.emitter.scopes = scope :: outer)
    (houter : outer ≠ []) :
    Builds cx sig base pending (Code.closeScope cx) W fun _ _ => True := by
  have hkeeps := hs.scopes
  rw [hscopes, List.forall_mem_cons] at hkeeps
  obtain ⟨hs1, hl1⟩ := hs.update (s := { W.emitter with scopes := outer }) rfl rfl rfl rfl hkeeps.2
    houter hs.drawn.literals
  refine .of_run hl1 (closeScope_run cx hscopes) ?_
  exact .ite (fun _ => .pure hs1 trivial) fun _ => hs1.releaseAll fun q hq =>
    hl1.keeps (hkeeps.1 q hq)

/-- What is known of the result of an emission in a scope of its own stays so when the scope is
left. -/
theorem inScope {x : Emit α} {Q : α → World → Prop} (hx : Emits x)
    (hQ : ∀ a W1 W2, Later cx W1 W2 → Q a W1 → Q a W2)
    (h : ∀ W', Stage cx sig base pending W' → Later cx W W' → Builds cx sig base pending x W' Q) :
    Builds cx sig base pending (Code.inScope cx x) W Q := by
  obtain ⟨hs1, hl1⟩ := hs.update (s := { W.emitter with scopes := [] :: W.emitter.scopes })
    rfl rfl rfl rfl (List.forall_mem_cons.mpr ⟨by simp, hs.scopes⟩) (by simp) hs.drawn.literals
  have hopen : Builds cx sig base pending openScope W fun _ W' =>
      W'.emitter.scopes = [] :: W.emitter.scopes := .of_ok rfl hs1 hl1 rfl
  refine hopen.bind fun _ W1 _ hs1 hl1 hscopes => ?_
  refine (h W1 hs1 hl1).bind fun a W2 hrun hs2 hl2 ha => ?_
  have htail := (hx _ _ _ hrun hs1.inside).scopes
  rw [hscopes, List.tail_cons] at htail
  obtain ⟨scope, outer, houter⟩ := List.exists_cons_of_ne_nil hs2.active
  rw [houter, List.tail_cons] at htail
  subst htail
  refine (hs2.closeScope houter hs.active).bind fun _ W3 _ hs3 hl3 _ => ?_
  exact .pure hs3 (hQ a _ _ hl3 ha)

omit hs in
/-- What has to have a value has one, of its type. -/
theorem needed {e : Expr} (hty : e.ty.isValue = true) {x : Emit (Option ValueId)} (hx : Yields x)
    (hs : Stage cx sig base pending W)
    (h : Builds cx sig base pending x W fun r W' => ∀ v, r = some v → W'.Has cx v e.ty) :
    Builds cx sig base pending (Code.needed cx e x) W fun v W' => W'.Has cx v e.ty := by
  refine h.bind fun r W1 hrun hs1 _ hr => ?_
  cases r with
  | some v => exact .pure hs1 (hr v rfl)
  | none =>
    refine .isDead (.ite (fun _ => hs1.zero hty) fun hlive => ?_)
    have := hx _ _ _ hrun hs.inside (by simpa using hlive)
    cases this

/-! ### Strings and operators -/

theorem literalNumber {text : String}
    (htext : text ∈ cx.function.texts) :
    Builds cx sig base pending (Code.literalNumber cx text) W fun _ _ => True := by
  obtain ⟨new, hnew, hnodup, hmem⟩ := hs.drawn.literals
  cases hk : W.emitter.literals.toList.findIdx? (· == text) with
  | some k => exact .of_ok (literalNumber_found cx hk) hs (.refl W) trivial
  | none =>
    have hrun := literalNumber_new cx hk
    have hfresh : text ∉ W.emitter.literals.toList := fun hmem => by
      simpa using List.findIdx?_eq_none_iff.mp hk text hmem
    rw [hnew, List.mem_append, not_or] at hfresh
    have hnodup' : (new ++ [text]).Nodup := by
      rw [← List.concat_eq_append]
      exact hnodup.concat hfresh.2
    have hmem' : ∀ t ∈ new ++ [text], t ∈ cx.function.texts := by
      simpa [or_imp, forall_and] using ⟨hmem, htext⟩
    by_cases hname : cx.functionNames.contains (literalName W.emitter.literals.size) = true
    · have hsize : W.emitter.literals.size = base.size + new.length := by
        rw [← Array.length_toList, hnew, List.length_append, Array.length_toList]
      have hlength : (new ++ [text]).length ≤ cx.function.texts.length :=
        (List.subperm_of_subset hnodup' hmem').length_le
      rw [if_pos hname] at hrun
      refine .of_error hrun ⟨rfl, _, ?_, ?_, hname⟩
      · omega
      · rw [List.length_append, List.length_singleton] at hlength
        omega
    · rw [if_neg hname] at hrun
      obtain ⟨hs1, hl1⟩ := hs.update
        (s := { W.emitter with literals := W.emitter.literals.push text }) rfl rfl rfl rfl hs.scopes
        hs.active ⟨new ++ [text], by rw [Array.toList_push, hnew, List.append_assoc],
        hnodup', hmem'⟩
      exact .of_ok hrun hs1 hl1 trivial

theorem emitText (hr : Ready cx sig) {text : String}
    (htext : text ∈ cx.function.texts) :
    Builds cx sig base pending (Code.emitText cx text) W fun v W' => W'.Has cx v .string := by
  refine (hs.literalNumber htext).bind fun k W1 _ hs1 _ _ => ?_
  refine (hs1.dataAddress _).bind fun data W2 _ hs2 _ hdata => ?_
  refine (hs2.intConst hr.ptr_isFloat (cx.ptr.holds_wrap _)).bind
    fun length W3 _ hs3 hl3 hlength => ?_
  refine (hs3.callBuiltin .stringNew rfl (.cons (hl3.here hdata) (.cons hlength .nil))).bind
    fun v W4 _ hs4 _ hv => ?_
  exact (hs4.ownAllocation hv).bind fun _ W5 _ hs5 hl5 _ => .pure hs5 ⟨_, rfl, hl5.here hv⟩

/-- What defines a value from the operands gives one of the operator's type. -/
theorem operate {f : ValueId → Instr} {t : MachineType}
    (ht : machineType cx.ptr ty = .ok (some t)) (hterm : ∀ v, (f v).isTerminator = false)
    (hresult : ∀ v, (f v).result cx.program cx.ptr = some (v, t))
    (hfits : ∀ v, (f v).Fits cx.program cx.ptr (W.emitter.code sig) (W.here cx)) :
    Builds cx sig base pending (Code.define f) W fun v W' => W'.Has cx v ty :=
  (hs.define hterm hresult hfits).mono fun _ _ _ hv => ⟨t, ht, hv⟩

theorem emitStringOp {right : Ty}
    (htakes : cx.program.takes op .string right = true) (ha : W.Has cx a .string)
    (hb : W.Has cx b right) :
    Builds cx sig base pending (Code.emitStringOp op a b) W
      fun v W' => W'.Has cx v (operatorType op .string) := by
  have ha := ha.mem rfl
  have hb : (b, cx.ptr) ∈ W.here cx := hb.mem ((machineType_of_takes htakes).symm.trans rfl)
  cases op with
  | add =>
    refine (hs.callBuiltin .stringConcat rfl (.cons ha (.cons hb .nil))).bind
      fun v W1 _ hs1 _ hv => ?_
    exact (hs1.ownAllocation hv).bind fun _ W2 _ hs2 hl2 _ => .pure hs2 ⟨_, rfl, hl2.here hv⟩
  | eq =>
    exact (hs.callBuiltin .stringEq rfl (.cons ha (.cons hb .nil))).mono fun v W' _ hv =>
      ⟨_, rfl, hv⟩
  | ne =>
    refine (hs.callBuiltin .stringEq rfl (.cons ha (.cons hb .nil))).bind fun v W1 _ hs1 _ hv => ?_
    exact hs1.operate rfl (fun _ => rfl) (fun _ => rfl) fun _ => ⟨.i8, rfl, hv⟩
  | _ => cases htakes

theorem floatBinary (op : FloatOp) (ha : (a, .f64) ∈ W.here cx)
    (hb : (b, .f64) ∈ W.here cx) :
    Builds cx sig base pending (Code.define (.floatBinary · op a b)) W
      fun v W' => (v, .f64) ∈ W'.here cx :=
  hs.define (fun _ => rfl) (fun _ => rfl) fun _ => ⟨ha, hb⟩

theorem emitFloatOp (hop : op.isLogical = false)
    (hty : machineType cx.ptr ty = .ok (some .f64)) (ha : (a, .f64) ∈ W.here cx)
    (hb : (b, .f64) ∈ W.here cx) :
    Builds cx sig base pending (Code.emitFloatOp op a b) W
      fun v W' => W'.Has cx v (operatorType op ty) := by
  cases op with
  | and | or => cases hop
  | rem =>
    refine (hs.floatBinary .div ha hb).bind fun q W1 _ hs1 hl1 hq => ?_
    have htrunc : Builds cx sig base pending (Code.define (.floatTrunc · q)) W1 fun v W' =>
        (v, .f64) ∈ W'.here cx := hs1.define (fun _ => rfl) (fun _ => rfl) fun _ => hq
    refine htrunc.bind fun w W2 _ hs2 hl2 hw => ?_
    refine (hs2.floatBinary .mul hw (hl2.here (hl1.here hb))).bind fun m W3 _ hs3 hl3 hm => ?_
    exact (hs3.floatBinary .sub (hl3.here (hl2.here (hl1.here ha))) hm).mono
      fun v W' _ hv => ⟨_, hty, hv⟩
  | add | sub | mul | div => exact hs.operate hty (fun _ => rfl) (fun _ => rfl) fun _ => ⟨ha, hb⟩
  | _ => exact hs.operate rfl (fun _ => rfl) (fun _ => rfl) fun _ => ⟨ha, hb⟩

theorem emitIntOp (hop : op.isLogical = false) {t : MachineType}
    (hty : machineType cx.ptr ty = .ok (some t)) (ht : t.isFloat = false) (ha : (a, t) ∈ W.here cx)
    (hb : (b, t) ∈ W.here cx) :
    Builds cx sig base pending (Code.emitIntOp t op a b) W
      fun v W' => W'.Has cx v (operatorType op ty) := by
  cases op with
  | and | or => cases hop
  | add | sub | mul | div | rem =>
    exact hs.operate hty (fun _ => rfl) (fun _ => rfl) fun _ => ⟨ht, ha, hb⟩
  | _ => exact hs.operate rfl (fun _ => rfl) (fun _ => rfl) fun _ => ⟨t, ht, ha, hb⟩

theorem emitBinary (hop : op.isLogical = false) {left right : Ty}
    (htakes : cx.program.takes op left right = true) (ha : W.Has cx a left)
    (hb : W.Has cx b right) :
    Builds cx sig base pending (Code.emitBinary cx left op a b) W
      fun v W' => W'.Has cx v (operatorType op left) := by
  refine .ite (fun hstring => ?_) fun _ => ?_
  · subst hstring
    exact hs.emitStringOp htakes ha hb
  · obtain ⟨t, ht, hmem⟩ := ha
    have hb := hb.mem ((machineType_of_takes htakes).symm.trans ht)
    refine .lift (valueType_eq_ok.mpr ht) (.ite (fun hf => ?_) fun hf => ?_)
    · obtain rfl : t = .f64 := by simpa [MachineType.isFloat] using hf
      exact hs.emitFloatOp hop ht hmem hb
    · exact hs.emitIntOp hop ht (by simpa using hf) hmem hb

theorem emitUnary {op : UnaryOp} (ha : W.Has cx a ty)
    (hnot : op = .not → ty = .bool) :
    Builds cx sig base pending (Code.emitUnary cx ty op a) W fun v W' => W'.Has cx v ty := by
  obtain ⟨t, ht, hmem⟩ := ha
  refine .lift (valueType_eq_ok.mpr ht) ?_
  cases op with
  | neg =>
    refine .ite (fun hf => ?_) fun hf => ?_
    · obtain rfl : t = .f64 := by simpa [MachineType.isFloat] using hf
      exact hs.operate ht (fun _ => rfl) (fun _ => rfl) fun _ => hmem
    · exact hs.operate ht (fun _ => rfl) (fun _ => rfl) fun _ => ⟨by simpa using hf, hmem⟩
  | not =>
    obtain rfl := hnot rfl
    cases ht
    exact hs.operate rfl (fun _ => rfl) (fun _ => rfl) fun _ => ⟨_, rfl, hmem⟩

/-! ### Calls and objects -/

theorem callTarget {dispatch : Dispatch} {t : Option MachineType}
    (hg : cx.program.isSigned g = true)
    (hargs : List.Forall₂ (W.Has cx) args (passedTypes (cx.program.functionAt g)))
    (hvirtual : dispatch ≠ .static → ∃ v rest, args = v :: rest ∧ (v, cx.ptr) ∈ W.here cx)
    (ht : machineType cx.ptr (cx.program.functionAt g).returnType = .ok t) :
    Builds cx sig base pending (Simulation.callTarget cx g dispatch args) W
      fun call W' => IsCall cx sig W' t call := by
  obtain ⟨hlt, gsig, hgsig⟩ := signature_of_isSigned cx.ptr hg
  obtain ⟨hparams, hresult⟩ := signature_ok hgsig
  obtain rfl : t = gsig.result := by
    cases ht.symm.trans hresult
    rfl
  cases dispatch with
  | static =>
    have hsig : (Callee.function g).signature? cx.program cx.ptr = some gsig := by
      rw [Callee.signature?, if_pos hlt, hgsig]
      rfl
    refine .lift (show cx.callee g = .ok (.function g) from if_pos hlt)
      (.pure hs ⟨fun _ => rfl, ?_, ?_⟩)
    · intro dst hdst
      cases dst with
      | none => rfl
      | some v => simp [Instr.result, hsig]
    · exact fun dst hdst => ⟨gsig, hsig, has_params hargs hparams, hdst⟩
  | virtual slot =>
    obtain ⟨v, rest, rfl, hv⟩ := hvirtual (by simp)
    refine (hs.load cx.ptr false _ hv).bind fun vtable W1 _ hs1 hl1 hvtable => ?_
    refine (hs1.load cx.ptr true _ hvtable).bind fun target W2 _ hs2 hl2 htarget => ?_
    refine .lift hgsig (.pure hs2 ⟨fun _ => rfl, ?_, ?_⟩)
    · intro dst hdst
      cases dst <;> rfl
    · refine fun dst hdst => ⟨htarget, has_params (hargs.imp fun _ _ h => ?_) hparams, hdst⟩
      exact hl2.has (hl1.has h)

theorem callResult {call : Option ValueId → Instr} {t : Option MachineType}
    (ht : machineType cx.ptr ty = .ok t) (hcall : IsCall cx sig W t call) :
    Builds cx sig base pending (Simulation.callResult cx.ptr ty call) W
      fun r W' => ∀ v, r = some v → W'.Has cx v ty := by
  refine .lift ht ?_
  cases t with
  | none =>
    refine (hs.emit (hcall.isTerminator _) (hcall.result none rfl) (hcall.fits none rfl)).bind ?_
    exact fun _ W1 _ hs1 _ _ => .pure hs1 (by simp)
  | some t =>
    refine (hs.define (fun _ => hcall.isTerminator _) (fun v => hcall.result (some v) rfl)
      fun v => hcall.fits (some v) rfl).bind fun v W1 _ hs1 _ hv => ?_
    have hvalue {W' : World} (hl : Later cx W1 W') : ∀ w, some v = some w → W'.Has cx w ty := by
      rintro w ⟨⟩
      exact ⟨t, ht, hl.here hv⟩
    refine .ite (fun href => ?_) fun _ => .pure hs1 (hvalue (.refl _))
    obtain rfl : t = cx.ptr :=
      Option.some.inj (Except.ok.inj (ht.symm.trans (machineType_of_isReference href)))
    exact (hs1.own (q := .value v) hv).bind fun _ W2 _ hs2 hl2 _ => .pure hs2 (hvalue hl2)

theorem emitCall (hg : cx.program.isSigned g = true) {dispatch : Dispatch}
    (hargs : List.Forall₂ (W.Has cx) args (passedTypes (cx.program.functionAt g)))
    (hvirtual : dispatch ≠ .static → ∃ v rest, args = v :: rest ∧ (v, cx.ptr) ∈ W.here cx) :
    Builds cx sig base pending (Code.emitCall cx g dispatch args) W
      fun r W' => ∀ v, r = some v → W'.Has cx v (cx.program.functionAt g).returnType := by
  obtain ⟨-, gsig, hgsig⟩ := signature_of_isSigned cx.ptr hg
  have ht := (signature_ok hgsig).2
  rw [emitCall_eq]
  exact (hs.callTarget hg hargs hvirtual ht).bind fun call W1 _ hs1 _ hcall =>
    hs1.callResult ht hcall

theorem callVoid (hg : cx.program.isSigned g = true)
    (hvoid : (cx.program.functionAt g).returnType.isVoid = true)
    (hargs : List.Forall₂ (W.Has cx) args (passedTypes (cx.program.functionAt g))) :
    Builds cx sig base pending (Code.emit (.call none (.function g) args)) W fun _ _ => True := by
  obtain ⟨hlt, gsig, hgsig⟩ := signature_of_isSigned cx.ptr hg
  obtain ⟨hparams, hresult⟩ := signature_ok hgsig
  have hnone : none = gsig.result := by
    have hty : (cx.program.functionAt g).returnType = .void := by simpa [Ty.isVoid] using hvoid
    rw [hty] at hresult
    exact Except.ok.inj hresult
  have hsig : (Callee.function g).signature? cx.program cx.ptr = some gsig := by
    rw [Callee.signature?, if_pos hlt, hgsig]
    rfl
  exact hs.emit rfl rfl ⟨gsig, hsig, has_params hargs hparams, by rw [← hnone]; rfl⟩

/-- The initializer runs on an object that waits for its release from the start. -/
theorem emitNew (hr : Ready cx sig) (hc : c < cx.program.classes.size)
    {init : Option FuncId} {args : Emit (List ValueId)}
    (hinit : ∀ g, init = some g → cx.program.isSigned g = true ∧
      (cx.program.functionAt g).receiver = some (.object c) ∧
      (cx.program.functionAt g).returnType.isVoid = true)
    (hargs : ∀ g, init = some g → ∀ W', Stage cx sig base pending W' → Later cx W W' →
      Builds cx sig base pending args W'
        fun vs W' => List.Forall₂ (W'.Has cx) vs (cx.program.functionAt g).paramTypes) :
    Builds cx sig base pending (Code.emitNew cx c init args) W
      fun v W' => W'.Has cx v (.object c) := by
  obtain ⟨layout, hlayout, -⟩ := layouts_getElem? hr.layouts hc
  refine .lift (show cx.layout c = .ok layout by rw [Context.layout, hlayout]) ?_
  refine (hs.intConst rfl (MachineType.i32.holds_wrap _)).bind fun size W1 _ hs1 hl1 hsize => ?_
  have hvtable :
      Builds cx sig base pending (if (cx.program.classAt c).vtable.isEmpty then Code.null cx
      else Code.define (.dataAddress · cx.ptr (.vtable c))) W1 fun v W' =>
        (v, cx.ptr) ∈ W'.here cx :=
    .ite (fun _ => hs1.null hr) fun _ => hs1.dataAddress _
  refine hvtable.ite_bind fun vtable W2 hs2 hl2 hvtable => ?_
  have hdrop : Builds cx sig base pending (if layout.referenceOffsets.isEmpty then Code.null cx
      else Code.define (.codeAddress · cx.ptr (.drop c))) W2 fun v W' => (v, cx.ptr) ∈ W'.here cx :=
    .ite (fun _ => hs2.null hr) fun _ => hs2.codeAddress _
  refine hdrop.ite_bind fun drop W3 hs3 hl3 hdrop => ?_
  refine (hs3.callBuiltin .objectNew rfl (.cons (hl3.here (hl2.here hsize))
    (.cons (hl3.here hvtable) (.cons hdrop .nil)))).bind fun object W4 _ hs4 hl4 hobject => ?_
  refine (hs4.ownAllocation hobject).bind fun _ W5 _ hs5 hl5 _ => ?_
  have hobject5 := hl5.here hobject
  cases init with
  | none => exact .pure hs5 ⟨_, rfl, hobject5⟩
  | some g =>
    obtain ⟨hg, hreceiver, hvoid⟩ := hinit g rfl
    have hl := hl1.trans (hl2.trans (hl3.trans (hl4.trans hl5)))
    refine (hargs g rfl W5 hs5 hl).bind fun values W6 _ hs6 hl6 hvalues => ?_
    have hobject6 : W6.Has cx object (.object c) := ⟨_, rfl, hl6.here hobject5⟩
    have hpassed : List.Forall₂ (W6.Has cx) (object :: values)
        (passedTypes (cx.program.functionAt g)) := by
      rw [passedTypes, hreceiver]
      exact .cons hobject6 hvalues
    refine .lift (if_pos (signature_of_isSigned cx.ptr hg).1) ?_
    refine (hs6.callVoid hg hvoid hpassed).bind fun _ W7 _ hs7 hl7 _ => ?_
    exact .pure hs7 (hl7.has hobject6)

/-! ### Fields and locals -/

theorem storeField (hr : Ready cx sig) {object value : ValueId}
    {index : Nat} (hfield : cx.program.fieldType c index = some ty)
    (hobject : (object, cx.ptr) ∈ W.here cx) (hvalue : W.Has cx value ty) :
    Builds cx sig base pending (Code.storeField cx object c index value) W fun _ _ => True := by
  obtain ⟨field, hlayout, htype, href⟩ := hr.field hfield
  refine .lift hlayout ?_
  have hstore {W' : World} (hs' : Stage cx sig base pending W') (hl : Later cx W W') :
      Builds cx sig base pending (Code.emit (.store value object field.offset)) W'
      fun _ _ => True :=
    hs'.emit rfl rfl ⟨⟨_, hl.here (hvalue.mem htype)⟩, hl.here hobject⟩
  refine .ite (fun hf => ?_) fun _ => hstore hs (.refl W)
  rw [href] at hf
  have hptr : field.type = cx.ptr :=
    Option.some.inj (Except.ok.inj (htype.symm.trans (machineType_of_isReference hf)))
  refine (hs.retain (hvalue.mem_ptr hf)).bind fun _ W1 _ hs1 hl1 _ => ?_
  refine (hs1.load _ _ _ (hl1.here hobject)).bind fun old W2 _ hs2 hl2 hold => ?_
  rw [hptr] at hold
  refine (hs2.release hold).bind fun _ W3 _ hs3 hl3 _ => ?_
  exact hstore hs3 (hl1.trans (hl2.trans hl3))

theorem loadField (hr : Ready cx sig) {object : ValueId} {index : Nat}
    (hfield : cx.program.fieldType c index = some ty) (hobject : (object, cx.ptr) ∈ W.here cx) :
    Builds cx sig base pending (do
        let field ← cx.field c index
        some <$> Code.define (.load · field.type false object field.offset)) W
      fun r W' => ∀ v, r = some v → W'.Has cx v ty := by
  obtain ⟨field, hlayout, htype, -⟩ := hr.field hfield
  refine .lift hlayout (.map ((hs.load _ _ _ hobject).mono fun v W' _ hv => ?_))
  rintro _ ⟨⟩
  exact ⟨_, htype, hv⟩

theorem slot (hid : cx.function.localType id = some ty) :
    cx.slot id = .ok id ∧ cx.localType id = .ok ty ∧
      ∃ t, machineType cx.ptr ty = .ok (some t) ∧ W.emitter.slots[id]? = some t := by
  rw [FuncInst.localType, Option.map_eq_some_iff] at hid
  obtain ⟨l, hl, rfl⟩ := hid
  refine ⟨if_pos (List.getElem?_eq_some_iff.mp hl).1, ?_, hs.drawn.locals id l hl⟩
  rw [Context.localType, hl]

theorem slot_ptr (hid : cx.function.localType id = some ty)
    (href : ty.isReference = true) : W.emitter.slots[id]? = some cx.ptr := by
  obtain ⟨-, -, t, ht, hslot⟩ := hs.slot hid
  cases ht.symm.trans (machineType_of_isReference href)
  exact hslot

theorem setLocal (hid : cx.function.localType id = some ty)
    (hv : W.Has cx v ty) :
    Builds cx sig base pending (Code.emit (.slotStore v id)) W fun _ _ => True := by
  obtain ⟨-, -, t, ht, hslot⟩ := hs.slot hid
  exact hs.slotStore hslot (hv.mem ht)

theorem emitBind (hr : Ready cx sig)
    (hid : cx.function.localType id = some ty) {init : Option (Emit ValueId)}
    (hinit : ∀ x, init = some x → Builds cx sig base pending x W fun v W' => W'.Has cx v ty) :
    Builds cx sig base pending (Code.emitBind cx id init) W fun _ _ => True := by
  obtain ⟨hslot, hlocal, -⟩ := hs.slot hid
  refine .lift hslot (.lift hlocal ?_)
  have hown {W' : World} (hs' : Stage cx sig base pending W') (href : ty.isReference = true) :
      Builds cx sig base pending (Code.own (.slot id)) W' fun _ _ => True :=
    hs'.own (q := .slot id) (hs'.slot_ptr hid href)
  cases init with
  | none =>
    refine .ite (fun href => ?_) fun _ => .pure hs trivial
    refine (hs.null hr).bind fun v W1 _ hs1 _ hv => (hs1.retain hv).bind fun _ W2 _ hs2 hl2 _ => ?_
    refine (hs2.slotStore (hs2.slot_ptr hid href) (hl2.here hv)).bind fun _ W3 _ hs3 _ _ => ?_
    exact hown hs3 href
  | some x =>
    refine (hinit x rfl).bind fun v W1 _ hs1 _ hv => ?_
    have hstore {W' : World} (hs' : Stage cx sig base pending W') (hl : Later cx W1 W') :
        Builds cx sig base pending (do
          Code.emit (.slotStore v id)
          if ty.isReference then Code.own (.slot id)) W' fun _ _ => True := by
      refine (hs'.setLocal hid (hl.has hv)).bind fun _ W2 _ hs2 _ _ => ?_
      exact .ite (hown hs2) fun _ => .pure hs2 trivial
    refine .ite (fun href => ?_) fun _ => hstore hs1 (.refl W1)
    exact (hs1.retain (hv.mem_ptr href)).bind fun _ W2 _ hs2 hl2 _ => hstore hs2 hl2

theorem emitSetVar (hid : cx.function.localType id = some ty)
    {x : Emit ValueId} (hx : Builds cx sig base pending x W fun v W' => W'.Has cx v ty) :
    Builds cx sig base pending (Code.emitSetVar cx id x) W fun _ _ => True := by
  obtain ⟨hslot, hlocal, -⟩ := hs.slot hid
  refine .lift hslot (.lift hlocal (hx.bind fun v W1 _ hs1 _ hv => ?_))
  refine .ite (fun href => ?_) fun _ => hs1.setLocal hid hv
  refine (hs1.retain (hv.mem_ptr href)).bind fun _ W2 _ hs2 hl2 _ => ?_
  refine (hs2.slotLoad (hs2.slot_ptr hid href)).bind fun old W3 _ hs3 hl3 hold => ?_
  refine (hs3.release hold).bind fun _ W4 _ hs4 hl4 _ => ?_
  exact hs4.setLocal hid (hl4.has (hl3.has (hl2.has hv)))

/-! ### Results of blocks -/

/-- On a live path something may be done with a reference, which stays the result. -/
theorem withResult {r : Option ValueId}
    (hr : ∀ v, r = some v → W.Has cx v ty) {act : ValueId → Emit Unit}
    (hact : ∀ v, (v, cx.ptr) ∈ W.here cx → Builds cx sig base pending (act v) W fun _ _ => True) :
    Builds cx sig base pending (do
        if let some v := r then
          if ty.isReference && !(← Code.isDead) then act v
        return r) W fun r W' => ∀ v, r = some v → W'.Has cx v ty := by
  cases r with
  | none => exact .pure hs hr
  | some v =>
    refine .isDead (.ite (fun href => ?_) fun _ => .pure hs hr)
    rw [Bool.and_eq_true] at href
    refine (hact v ((hr v rfl).mem_ptr href.1)).bind fun _ W1 _ hs1 hl1 _ => .pure hs1 ?_
    exact fun w hw => hl1.has (hr w hw)

theorem scopedResult {x : Emit (Option ValueId)} (hx : Emits x)
    (h : ∀ W', Stage cx sig base pending W' → Later cx W W' →
      Builds cx sig base pending x W' fun r W' => ∀ v, r = some v → W'.Has cx v ty) :
    Builds cx sig base pending (Code.scopedResult cx ty x) W
      fun r W' => ∀ v, r = some v → W'.Has cx v ty := by
  refine hs.inScope ?_ (fun r W1 W2 hl h v hv => hl.has (h v hv)) fun W1 hs1 hl1 => ?_
  · refine hx.bind fun r => ?_
    cases r with
    | none => exact .pure _
    | some v => exact .isDead fun d => .ite ((Emits.emit _).bind fun _ => .pure _) (.pure _)
  · exact (h W1 hs1 hl1).bind fun r W2 _ hs2 _ hr => hs2.withResult hr fun v hv => hs2.retain hv

end

end Stage

end ObjectLang.Code
