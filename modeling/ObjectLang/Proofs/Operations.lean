import ObjectLang.Proofs.Scopes

/-! # Parts of trees

The emissions for operators, strings, calls, objects and fields follow the operations of the
evaluation.
-/

namespace ObjectLang.Simulation

open Syntax Checked Code Memory Execution Evaluation

/-- The emission is for the function and the program that are evaluated, with pointers of 64
bits. -/
structure SameProgram (cx : Context) (sc : Scene) : Prop where
  ptr : cx.ptr = .i64
  function : cx.function = sc.function
  program : cx.program = sc.module.program
  layouts : cx.layouts = sc.module.layouts

variable {cx : Context} {sc : Scene} {fn : FuncId} {Γ : Nat → Values → Prop}

theorem Emits.zero (ty : Ty) : Emits (Code.zero cx ty) :=
  (Emits.lift _).bind fun _ => .ite (.define _) (.define _)

variable {x : Emit (Option ValueId)} {y : Eval Managed (Option Value)}

theorem Emits.needed (e : Expr) (h : Emits x) : Emits (Code.needed cx e x) := by
  refine h.bind fun r => ?_
  cases r with
  | some v => exact .pure v
  | none => exact .isDead fun d => .ite (.zero _) (.throw _)

/-- On a live path, what has to have a value has one. -/
theorem Sim.needed [Stable Γ] (e : Expr) (h : Sim cx sc fn Γ x y IsOption) :
    Sim cx sc fn Γ (Code.needed cx e x) (Evaluation.needed y) IsValue := by
  refine h.bind fun r b => ?_
  match r, b with
  | none, _ => exact .isDead .throw (.zero _)
  | some v, some x => exact .pure fun _ _ h => h.2
  | some v, none => exact .absurd (.pure _) fun _ _ h => h.2

/-! ## Strings -/

theorem literalNumber_ok {text : String} {s s' : Emitter} {k : Nat}
    (h : literalNumber cx text s = .ok (k, s')) :
    ∃ literals, s' = { s with literals } ∧ s.literals.toList <+: literals.toList ∧
      text ∈ literals.toList ∧ literals.toList.idxOf text = k := by
  rw [literalNumber] at h
  obtain ⟨s1, s2, hg, h⟩ := Emit.bind_ok h
  cases hg
  dsimp only at h
  have hfind : s.literals.findIdx? (· == text) = s.literals.toList.findIdx? (· == text) := by
    rw [← List.findIdx?_toArray]
  cases hk : s.literals.toList.findIdx? (· == text) with
  | some i =>
    rw [hfind, hk] at h
    cases h
    obtain ⟨hlt, hidx⟩ := List.findIdx?_eq_some_iff_findIdx_eq.mp hk
    rw [← hidx] at hlt
    exact ⟨s.literals, rfl, List.prefix_rfl, List.idxOf_lt_length_iff.mp hlt, hidx⟩
  | none =>
    rw [hfind, hk] at h
    dsimp only at h
    have hnew : text ∉ s.literals.toList := fun hmem => by
      simpa using List.findIdx?_eq_none_iff.mp hk text hmem
    split at h
    · obtain ⟨_, _, ht, -⟩ := Emit.bind_ok h
      exact (Emit.throw_ok ht).elim
    · cases h
      refine ⟨s.literals.push text, rfl, ?_, by simp, ?_⟩
      · simp
      · simp [List.idxOf_append_of_notMem hnew]

theorem Emits.literalNumber (text : String) : Emits (Code.literalNumber cx text) := by
  intro s k s' hk hs
  obtain ⟨literals, rfl, hp, -, -⟩ := literalNumber_ok hk
  exact ⟨(Grows.refl hs).congr rfl rfl (Nat.le_refl _) (Nat.le_refl _) hp, id, rfl⟩

/-- The number of a literal is its place among the literals of the whole module. -/
theorem Sim.literalNumber {α β : Type} {R : α → β → Nat → Values → Prop} {f : Nat → Emit α}
    {y : Eval Managed β} (text : String) (he : ∀ k, Emits (f k))
    (h : Sim cx sc fn Γ (f (sc.module.literals.toList.idxOf text)) y R) :
    Sim cx sc fn Γ (Code.literalNumber cx text >>= f) y R := by
  have hemits : Emits (Code.literalNumber cx text) := .literalNumber text
  refine .intro (hemits.bind he) ?_
  intro s r s' hx hs hd hfin n a t hm ha
  obtain ⟨k, s1, hk, hx⟩ := Emit.bind_ok hx
  have hfin1 := hfin.of_grows (he k s1 r s' hx (hemits s k s1 hk hs).grows.inside).grows
  obtain ⟨literals, rfl, -, hmem, hidx⟩ := literalNumber_ok hk
  obtain ⟨later, hlater⟩ := hfin1.literals
  have hplace : sc.module.literals.toList.idxOf text = k := by
    rw [← hlater, List.idxOf_append_of_mem hmem, hidx]
  rw [hplace] at h
  exact (h _ _ _ hx hs).2 hd hfin n a t
    ⟨hm.function, hm.code, hm.store, hm.slots, hm.scopes, hm.self⟩ ha

theorem IsList.pair {v w : ValueId} {x y : Value} {n : Nat} {vs : Values} (hv : IsValue v x n vs)
    (hw : IsValue w y n vs) : IsList [v, w] [x, y] n vs := .cons hv (.cons hw .nil)

theorem Sim.emitText [Stable Γ] (hp : SameProgram cx sc) (text : String) :
    Sim cx sc fn Γ (Code.emitText cx text) (Managed.newText sc text) IsValue := by
  rw [Code.emitText, hp.ptr]
  refine .literalNumber text (fun k => ?_) ?_
  · refine (Emits.define _).bind fun _ => (Emits.define _).bind fun _ =>
      (Emits.define _).bind fun _ => ?_
    exact ((Emits.emit _).bind fun _ => .own _).bind fun _ => .pure _
  refine .prepare (.dataAddress _ _) fun d => ?_
  refine .prepare (.intConst _ _) fun l => ?_
  refine (Sim.ask _ fun _ _ h => .pair h.1.2 h.2).bind fun v x => ?_
  exact (Sim.ownAllocation fun _ _ h => h.2).bind fun _ _ => .pure fun _ _ h => h.1.2

/-! ## Operators -/

theorem Sim.emitStringOp [Stable Γ] (op : BinaryOp) {a b : ValueId} {x y : Value}
    (ha : ∀ n vs, Γ n vs → IsValue a x n vs) (hb : ∀ n vs, Γ n vs → IsValue b y n vs) :
    Sim cx sc fn Γ (Code.emitStringOp op a b) (Managed.operate sc .string op x y) IsValue := by
  have hask (c : Builtin) : Sim cx sc fn Γ (callBuiltin c [a, b])
      (Managed.lift (Evaluation.ask sc (.builtin c) [x, y])) IsValue :=
    .ask _ fun n vs h => .pair (ha n vs h) (hb n vs h)
  cases op with
  | add =>
    refine (hask .stringConcat).bind fun v z => ?_
    exact (Sim.ownAllocation fun _ _ h => h.2).bind fun _ _ => .pure fun _ _ h => h.1.2
  | eq =>
    rw [Managed.operate_of_not_join sc (by decide)]
    exact hask .stringEq
  | ne =>
    rw [Managed.operate_of_not_join sc (by decide)]
    change Sim cx sc fn Γ _ (Managed.lift (_ >>= fun z => Eval.ofExcept (negated z))) _
    rw [Managed.lift_bind]
    simp only [Managed.lift_ofExcept]
    exact (hask .stringEq).bind fun v z => .isZero fun _ _ h => h.2
  | _ => exact .throw

theorem Sim.emitBinary [Stable Γ] (hp : SameProgram cx sc) (ty : Ty) (op : BinaryOp)
    {a b : ValueId} {x y : Value} (ha : ∀ n vs, Γ n vs → IsValue a x n vs)
    (hb : ∀ n vs, Γ n vs → IsValue b y n vs) :
    Sim cx sc fn Γ (Code.emitBinary cx ty op a b) (Managed.operate sc ty op x y) IsValue := by
  rw [Code.emitBinary, hp.ptr]
  by_cases hty : ty = .string
  · subst hty
    exact .emitStringOp op ha hb
  · rw [if_neg hty, Managed.operate_of_not_join sc (by simp [hty])]
    refine .lift fun t ht => ?_
    simp only [Evaluation.operate, if_neg hty, ht, Managed.lift_ofExcept]
    cases t.isFloat with
    | true => exact .floatOperator ha hb op
    | false => exact .intOperator ha hb t op

/-! ## Calls and objects -/

theorem isVoid_of_machineType {ptr : MachineType} {ty : Ty} {t : Option MachineType}
    (h : machineType ptr ty = .ok t) : ty.isVoid = t.isNone := by
  cases ty with
  | primitive p => cases p <;> cases h <;> rfl
  | _ => cases h <;> rfl

/-- The call itself, once its target is known; a reference that it results in is owned. -/
def callResult (ptr : MachineType) (ty : Ty) (call : Option ValueId → Instr) :
    Emit (Option ValueId) := do
  match ← machineType ptr ty with
  | none =>
    emit (call none)
    return none
  | some _ =>
    let v ← define fun v => call (some v)
    if ty.isReference then own (.value v)
    return some v

/-- The target of a call: a function, or the entry of the receiver's table. -/
def callTarget (cx : Context) (f : FuncId) (dispatch : Dispatch) (ids : List ValueId) :
    Emit (Option ValueId → Instr) :=
  match dispatch with
  | .static => do
    let target ← cx.callee f
    return fun v => .call v target ids
  | .virtual slot => do
    let some receiver := ids.head? | throw (.internal "virtual call without receiver")
    let vtable ← define (.load · cx.ptr false receiver Layout.vtableOffset)
    let target ← define (.load · cx.ptr true vtable (slot * cx.ptr.bytes))
    let sig ← signature cx.ptr (cx.program.functionAt f)
    return fun v => .callIndirect v sig target ids

theorem emitCall_eq (f : FuncId) (dispatch : Dispatch) (ids : List ValueId) :
    emitCall cx f dispatch ids =
      callTarget cx f dispatch ids >>= callResult cx.ptr (cx.program.functionAt f).returnType := by
  cases dispatch with
  | static =>
    simp only [emitCall, callTarget, bind_assoc, pure_bind]
    rfl
  | virtual slot =>
    cases ids with
    | nil => rfl
    | cons v ids =>
      simp only [emitCall, callTarget, List.head?_cons, bind_assoc, pure_bind]
      rfl

theorem Emits.callResult (ptr : MachineType) (ty : Ty) (call : Option ValueId → Instr) :
    Emits (Simulation.callResult ptr ty call) := by
  refine (Emits.lift _).bind fun t => ?_
  cases t with
  | none => exact (Emits.emit _).bind fun _ => .pure _
  | some t =>
    refine (Emits.define _).bind fun v => ?_
    exact .ite ((Emits.own _).bind fun _ => .pure _) (.pure _)

theorem Emits.callTarget (f : FuncId) (dispatch : Dispatch) (ids : List ValueId) :
    Emits (Simulation.callTarget cx f dispatch ids) := by
  cases dispatch with
  | static => exact (Emits.lift _).bind fun _ => .pure _
  | virtual slot =>
    cases ids with
    | nil => exact .throw _
    | cons v ids =>
      refine (Emits.define _).bind fun _ => (Emits.define _).bind fun _ => ?_
      exact (Emits.lift _).bind fun _ => .pure _

theorem Sim.callResult [Stable Γ] (call : Option ValueId → Instr) (callee : Except Fault Callee)
    {xs : List Value} {ptr : MachineType} (ty : Ty)
    (h : ∀ (fr : Frame) (heap : Heap) (dst : Option ValueId) (bound : Nat), Γ bound fr.values →
      fr.execute sc.module heap (call dst) = (Action.call dst · xs) <$> callee) :
    Sim cx sc fn Γ (Simulation.callResult ptr ty call)
      (do
        let c ← Eval.ofExcept callee
        let value ← Managed.lift (Evaluation.callFor sc ty c xs)
        Managed.ownResult ty value
        Pure.pure value) IsOption := by
  refine .lift fun t ht => ?_
  simp only [Evaluation.callFor, isVoid_of_machineType ht]
  cases t with
  | none =>
    simp only [Option.isNone_none, if_true, Managed.lift_bind, Managed.lift_pure, bind_assoc,
      pure_bind]
    rw [← bind_assoc]
    refine (Sim.performBy fun fr heap bound hΓ => h fr heap none bound hΓ).bind fun _ _ => ?_
    exact .pure fun _ _ _ => trivial
  | some t =>
    simp only [Option.isNone_some, Bool.false_eq_true, if_false, map_eq_pure_bind,
      Managed.lift_bind, Managed.lift_pure, bind_assoc, pure_bind]
    rw [← bind_assoc]
    refine (Sim.askBy fun fr heap v bound hΓ => h fr heap (some v) bound hΓ).bind fun v x => ?_
    simp only [Managed.ownResult, Managed.onResult, Managed.ownIf]
    cases ty.isReference with
    | false => exact .pure fun _ _ h => h.2
    | true => exact (Sim.own fun _ _ h => h.2).bind fun _ _ => .pure fun _ _ h => h.1.2

section

variable (hp : SameProgram cx sc)

include hp

theorem Sim.emitCall [Stable Γ] (f : FuncId) (dispatch : Dispatch)
    {ids : List ValueId} {xs : List Value} (hl : ∀ n vs, Γ n vs → IsList ids xs n vs) :
    Sim cx sc fn Γ (Code.emitCall cx f dispatch ids) (Managed.callFunction sc f dispatch xs)
      IsOption := by
  rw [emitCall_eq, hp.program, hp.ptr]
  cases dispatch with
  | static =>
    simp only [callTarget, Managed.callFunction, Evaluation.callFunction, bind_assoc, pure_bind]
    refine .lift fun c hc => ?_
    rw [Context.callee] at hc
    split at hc
    · cases hc
      refine .callResult (.call · (.function f) ids) (.ok (.function f)) _
        fun fr heap dst bound hΓ => ?_
      exact execute_call sc.module heap dst (.function f) (hl bound fr.values hΓ)
    · cases hc
  | virtual slot =>
    match ids, xs, hl with
    | [], _, _ =>
      intro _ _ _ h _
      obtain ⟨_, _, ht, -⟩ := Emit.bind_ok h
      exact (Emit.throw_ok ht).elim
    | _ :: _, [], hl =>
      exact .absurd ((Emits.callTarget f _ _).bind fun call => .callResult _ _ call)
          fun n vs h => by
        cases hl n vs h
    | v :: ids, x :: xs, hl =>
      simp only [callTarget, Managed.callFunction, Evaluation.callFunction, hp.program, hp.ptr,
        List.head?_cons, Evaluation.calleeOf, Managed.lift_bind, Managed.lift_ofExcept, bind_assoc,
        pure_bind]
      refine (Sim.load _ _ _ fun n vs h => (List.forall₂_cons.mp (hl n vs h)).1).bind
        fun t table => ?_
      refine (Sim.load _ _ _ fun _ _ h => h.2).bind fun e entry => ?_
      refine .lift fun sig _ => ?_
      refine .callResult (.callIndirect · sig e (v :: ids)) _ _ fun fr heap dst bound hΓ => ?_
      exact execute_callIndirect sc.module heap dst sig hΓ.2 (hl bound fr.values hΓ.1.1)

theorem Sim.null :
    Sim cx sc fn Γ (Code.null cx) (Pure.pure Value.null) IsValue := by
  rw [Code.null, hp.ptr]
  exact .intConst _ _

theorem Sim.emitNew [Stable Γ] (c : ClassId) (init : Option FuncId)
    {args : Emit (List ValueId)} {values : Eval Managed (List Value)}
    (hargs : ∀ {Δ : Nat → Values → Prop} [Stable Δ], Sim cx sc fn Δ args values IsList) :
    Sim cx sc fn Γ (Code.emitNew cx c init args)
      (construct (Managed.newObject sc c) init values fun f xs =>
        Managed.lift (Evaluation.perform sc (.function f) xs)) IsValue := by
  simp only [Code.emitNew, hp.program]
  refine .lift fun layout hlayout => ?_
  have hfound : sc.module.layouts[c]? = some layout := by
    rw [← hp.layouts]
    rw [Context.layout] at hlayout
    split at hlayout <;> simp_all
  simp only [construct, Managed.newObject, Evaluation.newObject, hfound, bind_assoc, pure_bind]
  refine .prepare (.intConst _ _) fun size => ?_
  refine .prepareIf (.null hp) (.dataAddress _ _) fun vtable => ?_
  refine .prepareIf (.null hp) (.codeAddress _ _) fun drop => ?_
  refine (Sim.ask _ fun _ _ h => .cons h.1.1.2 (IsList.pair h.1.2 h.2)).bind fun v object => ?_
  refine (Sim.ownAllocation fun _ _ h => h.2).bind fun _ _ => ?_
  cases init with
  | none => exact .pure fun _ _ h => h.1.2
  | some f =>
    refine hargs.bind fun ids xs => ?_
    refine .lift fun callee hcallee => ?_
    rw [Context.callee] at hcallee
    split at hcallee <;> cases hcallee
    refine (Sim.perform _ fun _ _ h => .cons h.1.1.2 h.2).bind fun _ _ => ?_
    exact .pure fun _ _ h => h.1.1.1.2

theorem fieldPlace_of_field {c : ClassId} {index : Nat}
    {field : FieldLayout} (h : cx.field c index = .ok field) :
    fieldPlace sc c index = .ok field := by
  simp only [Context.field, Context.layout, hp.layouts] at h
  rw [fieldPlace]
  cases hl : sc.module.layouts[c]? with
  | none => simp [hl, bind, Except.bind] at h
  | some layout =>
    simp only [hl, bind, Except.bind, Layout.fieldAt] at h
    cases hf : layout.fields[index]? with
    | none => simp [hf] at h
    | some f =>
      simp only [hf, Except.ok.injEq] at h
      simp [hf, h]

theorem Sim.storeField [Stable Γ] (c : ClassId) (index : Nat)
    {v w : ValueId} {x y : Value} (hv : ∀ n vs, Γ n vs → IsValue v x n vs)
    (hw : ∀ n vs, Γ n vs → IsValue w y n vs) :
    Sim cx sc fn Γ (Code.storeField cx v c index w) (Managed.storeField sc x c index y)
    Nothing := by
  rw [Code.storeField]
  refine .lift fun field hfield => ?_
  rw [Managed.storeField, fieldPlace_of_field hp hfield]
  change Sim cx sc fn Γ _ (if field.isReference then _ else _) _
  cases field.isReference with
  | false => exact .storeAt _ hv hw
  | true =>
    refine (Sim.retain hw).bind fun _ _ => ?_
    refine (Sim.load _ _ _ fun n vs h => hv n vs h.1).bind fun o old => ?_
    refine (Sim.release fun _ _ h => h.2).bind fun _ _ => ?_
    exact .storeAt _ (fun n vs h => hv n vs h.1.1.1) fun n vs h => hw n vs h.1.1.1

/-! ## Locals -/

omit hp in
theorem slot_ok {id : LocalId} {slot : SlotId} (h : cx.slot id = .ok slot) :
    slot = id ∧ id < cx.function.locals.length := by
  rw [Context.slot] at h
  split at h <;> cases h
  exact ⟨rfl, ‹_›⟩

theorem isReference_of_localType {id : LocalId} {ty : Ty}
    (h : cx.localType id = .ok ty) : Managed.isReference sc id = ty.isReference := by
  rw [Context.localType, hp.function] at h
  rw [Managed.isReference]
  split at h <;> cases h
  simp [*]

theorem Sim.emitBind [Stable Γ] (id : LocalId) {value : Emit ValueId}
    {y : Eval Managed Value} (h : Sim cx sc fn Γ value y IsValue) :
    Sim cx sc fn Γ (Code.emitBind cx id (some value)) (y >>= Managed.bind sc id) Nothing := by
  simp only [Code.emitBind]
  refine .lift fun slot hslot => .lift fun ty hty => ?_
  obtain ⟨rfl, hlt⟩ := slot_ok hslot
  refine h.bind fun v x => ?_
  simp only [Managed.bind, isReference_of_localType hp hty, Managed.retainIf, Managed.ownIf]
  cases ty.isReference with
  | false => exact (Sim.writeLocal _ fun _ _ h => h.2).bind fun _ _ => .unit
  | true =>
    refine (Sim.retain fun _ _ h => h.2).bind fun _ _ => ?_
    refine (Sim.writeLocal _ fun _ _ h => h.1.2).bind fun _ _ => ?_
    exact .own fun _ _ _ => ⟨rfl, hlt⟩

/-- A local without an initial value is bound to null if it holds references. -/
theorem Sim.emitBind_none [Stable Γ] (id : LocalId) :
    Sim cx sc fn Γ (Code.emitBind cx id none)
      (if Managed.isReference sc id then Managed.bind sc id .null else Pure.pure ()) Nothing := by
  simp only [Code.emitBind]
  refine .lift fun slot hslot => .lift fun ty hty => ?_
  obtain ⟨rfl, hlt⟩ := slot_ok hslot
  simp only [Managed.bind, isReference_of_localType hp hty, Managed.retainIf, Managed.ownIf]
  cases ty.isReference with
  | false => exact .unit
  | true =>
    refine .prepare (.null hp) fun v => ?_
    refine (Sim.retain fun _ _ h => h.2).bind fun _ _ => ?_
    refine (Sim.writeLocal _ fun _ _ h => h.1.2).bind fun _ _ => ?_
    exact .own fun _ _ _ => ⟨rfl, hlt⟩

theorem Sim.emitSetVar [Stable Γ] (id : LocalId) {value : Emit ValueId}
    {y : Eval Managed Value} (h : Sim cx sc fn Γ value y IsValue) :
    Sim cx sc fn Γ (Code.emitSetVar cx id value) (y >>= Managed.setVar sc id) Nothing := by
  simp only [Code.emitSetVar]
  refine .lift fun slot hslot => .lift fun ty hty => ?_
  obtain ⟨rfl, hlt⟩ := slot_ok hslot
  refine h.bind fun v x => ?_
  simp only [Managed.setVar, isReference_of_localType hp hty]
  cases ty.isReference with
  | false => exact .writeLocal _ fun _ _ h => h.2
  | true =>
    refine (Sim.retain fun _ _ h => h.2).bind fun _ _ => ?_
    refine (Sim.readLocal _ hlt).bind fun o old => ?_
    refine (Sim.release fun _ _ h => h.2).bind fun _ _ => ?_
    exact .writeLocal _ fun _ _ h => h.1.1.1.2

end

/-! ## Results of blocks -/

/-- On a live path something is done with a result that is a reference; it stays the result. -/
theorem Sim.withResult [Stable Γ] (isReference : Bool) {act : ValueId → Emit Unit}
    {act' : Value → Eval Managed Unit} (hact : ∀ v x {Δ : Nat → Values → Prop} [Stable Δ],
      (∀ n vs, Δ n vs → IsValue v x n vs) →
      Sim cx sc fn Δ (if isReference then act v else Pure.pure ()) (act' x) Nothing)
    {r : Option ValueId} {b : Option Value} (hr : ∀ n vs, Γ n vs → IsOption r b n vs) :
    Sim cx sc fn Γ
      (do
        if let some v := r then
          if isReference && !(← Code.isDead) then act v
        return r)
      (do
        Managed.onResult b act'
        Pure.pure b) IsOption := by
  have hpure (d : Bool) (v : ValueId) :
      (if isReference && !d then act v >>= fun _ => Pure.pure r else Pure.pure r : Emit _) =
        (if d then Pure.pure () else if isReference then act v else Pure.pure ()) >>= fun _ =>
          Pure.pure r := by
    cases d <;> cases isReference <;> simp
  match r, b, hr with
  | none, none, hr => exact .pure hr
  | some v, some x, hr =>
    simp only [hpure]
    exact .isDead ((hact v x hr).bind fun _ _ => .pure fun n vs h => hr n vs h.1)
      ((Emits.pure _).bind fun _ => .pure _)
  | none, some x, hr => exact .absurd (.pure _) hr
  | some v, none, hr =>
    have he := (hact v default (Δ := IsValue v default) fun _ _ h => h).emits
    simp only [hpure]
    exact .absurd (.isDead fun _ => (Emits.ite (.pure _) he).bind fun _ => .pure _) hr

theorem Sim.scopedResult [Stable Γ] (ty : Ty) (h : Sim cx sc fn Γ x y IsOption) :
    Sim cx sc fn Γ (Code.scopedResult cx ty x) (Managed.scopedResult sc ty y) IsOption := by
  refine .inScope (h.bind fun r b => ?_)
  exact .withResult ty.isReference (fun _ _ _ _ hv => .retainIf _ hv) fun _ _ h => h.2

/-- The result of a block comes back owned. -/
theorem Sim.ownedResult [Stable Γ] (ty : Ty) (h : Sim cx sc fn Γ x y IsOption) :
    Sim cx sc fn Γ
      (do
        let value ← x
        if let some v := value then
          if ty.isReference && !(← Code.isDead) then Code.own (.value v)
        return value)
      (do
        let value ← y
        Managed.ownResult ty value
        Pure.pure value) IsOption := by
  refine h.bind fun r b => ?_
  exact .withResult ty.isReference
    (fun v x _ _ hv => Sim.ownIf (p := .value v) (x := .value x) ty.isReference hv) fun _ _ h => h.2

end ObjectLang.Simulation
