import ObjectLang.Proofs.Functions

/-! # Generated modules

Every function of a program has its code in the module, and what was written for it is the final
code.
-/

namespace ObjectLang.Simulation

open Syntax Checked Code Memory Execution Evaluation

/-- The code is what was written in the context; more literals may have been added since. -/
def Written (cx : Context) (code : FunctionCode) (literals : Array String) : Prop :=
  ∃ before e, signature cx.ptr cx.function = .ok code.signature ∧
    emitFunction cx code.signature { literals := before } = .ok ((), e) ∧ code.blocks = e.blocks ∧
    e.literals.toList <+: literals.toList

variable {cx : Context} {p : Program} {m : Module}

theorem Written.mono {code : FunctionCode} {literals later : Array String}
    (h : Written cx code literals)
    (hl : literals.toList <+: later.toList) : Written cx code later := by
  obtain ⟨before, e, hsig, hrun, hb, hle⟩ := h
  exact ⟨before, e, hsig, hrun, hb, hle.trans hl⟩

theorem emitFunction_literals {sig : Signature} {literals : Array String} {u : Unit} {e : Emitter}
    (h : emitFunction cx sig { literals } = .ok (u, e)) :
    literals.toList <+: e.literals.toList := by
  obtain ⟨body, s1, -, hlocals, hrest⟩ := emitFunction_ok h
  have hsl := emitLocals_slotted hlocals (entry_inside _ _)
  have he := Emits.emitBody body _ _ _ _ hrest hsl.grows.inside
  exact hsl.grows.literals.trans he.grows.literals

theorem mapError_ok {α ε ε' : Type} {f : ε → ε'} {x : Except ε α} {a : α}
    (h : x.mapError f = .ok a) : x = .ok a := by
  cases x with
  | error e => cases h
  | ok b =>
    cases h
    rfl

theorem define_ok {s s' : Progress} (h : s.define cx = .ok s') :
    ∃ code, s'.code = s.code.push code ∧ s.literals.toList <+: s'.literals.toList ∧
      Written cx code s'.literals := by
  obtain ⟨sig, hsig, h⟩ := except_bind_ok h
  obtain ⟨⟨⟨⟩, e⟩, he, h⟩ := except_bind_ok h
  have hrun := mapError_ok he
  dsimp only at h
  split at h
  · obtain ⟨_, ht, -⟩ := except_bind_ok h
    cases ht
  · cases h
    exact ⟨_, rfl, emitFunction_literals hrun, _, e, mapError_ok hsig, hrun, rfl, List.prefix_rfl⟩

/-- The functions have their code in their order, behind what was there. -/
theorem foldlM_define_ok (context : FuncInst → Context) {fs : List FuncInst} {s s' : Progress}
    (h : fs.foldlM (fun s f => s.define (context f)) s = .ok s') :
    s.literals.toList <+: s'.literals.toList ∧ ∃ codes, s'.code.toList = s.code.toList ++ codes ∧
      List.Forall₂ (fun f code => Written (context f) code s'.literals) fs codes := by
  induction fs generalizing s with
  | nil =>
    cases h
    exact ⟨List.prefix_rfl, [], by simp, .nil⟩
  | cons f fs ih =>
    rw [List.foldlM_cons] at h
    obtain ⟨s1, hs1, h⟩ := except_bind_ok h
    obtain ⟨code, hcode, hlit, hwritten⟩ := define_ok hs1
    obtain ⟨hlit', codes, hcodes, hall⟩ := ih h
    refine ⟨hlit.trans hlit', code :: codes, ?_, .cons (hwritten.mono hlit') hall⟩
    rw [hcodes, hcode]
    simp

/-- The context in which the code of a function of the module was written. -/
def contextOf (ptr : MachineType) (m : Module) (names : Std.TreeSet String) (f : FuncInst) :
    Context where
  program := m.program
  ptr
  layouts := m.layouts
  functionNames := names
  function := f

theorem generate_ok {ptr : MachineType} (h : generate ptr p = .ok m) :
    m.program = p ∧ ∃ names, List.Forall₂
      (fun f code => Written (contextOf ptr m names f) code m.literals) p.functions.toList
      m.code.toList := by
  obtain ⟨layouts, -, h⟩ := except_bind_ok h
  obtain ⟨declared, -, h⟩ := except_bind_ok h
  obtain ⟨s, hs, h⟩ := except_bind_ok h
  cases h
  obtain ⟨-, codes, hcodes, hall⟩ := foldlM_define_ok
    (fun f => { program := p, ptr, layouts, functionNames := _, function := f }) hs
  refine ⟨rfl, Std.TreeSet.ofList declared.keys, ?_⟩
  rw [hcodes]
  exact hall

theorem written_of_generate {ptr : MachineType} (h : generate ptr p = .ok m) {f : FuncId}
    (hf : f < p.functions.size) :
    m.program = p ∧ ∃ names,
      Written (contextOf ptr m names (p.functionAt f)) (m.codeAt f) m.literals := by
  obtain ⟨hp, names, hall⟩ := generate_ok h
  refine ⟨hp, names, ?_⟩
  have hlen : m.code.size = p.functions.size := by simpa using hall.length_eq.symm
  have hget := hall.get (i := f) (by simpa using hf) (by simpa [hlen] using hf)
  simpa [Program.functionAt, Module.codeAt, hf, hlen] using hget

/-- The call of a generated function follows its evaluation with counted references. -/
theorem follows_of_generate (h : generate .i64 p = .ok m) {f : FuncId} (hf : f < p.functions.size)
    (htyped : functionTyped p (p.functionAt f)) (calls : Calls) {args : List Value}
    (hargs : args.length = (passedTypes (p.functionAt f)).length) (heap : Heap) (n : Nat) :
    ∃ cx s e body, cx.function = p.functionAt f ∧ (p.functionAt f).body = some body ∧
      Follows cx (.ofCall m (p.functionAt f) calls args) f (Nothing (α := Unit) (β := Empty)) n s e
        (Activation.start m f args heap) ()
        (Managed.evalFunction (.ofCall m (p.functionAt f) calls args) body
          (passedArgs (p.functionAt f) args) n { heap }) := by
  obtain ⟨rfl, names, before, e, hsig, hrun, hblocks, hlit⟩ := written_of_generate h hf
  have hblocks : blocks (.ofCall m (m.program.functionAt f) calls args) f = e.blocks := hblocks
  have hfin : Final (.ofCall m (m.program.functionAt f) calls args) f e := by
    refine ⟨fun b _ => ?_, hlit⟩
    rw [hblocks]
    exact ⟨rfl, List.prefix_rfl⟩
  have hp : SameProgram (contextOf .i64 m names (m.program.functionAt f))
      (.ofCall m (m.program.functionAt f) calls args) := ⟨rfl, rfl, rfl, rfl⟩
  obtain ⟨body, hbody, hfol⟩ := emitFunction_follows hp htyped hsig hrun hfin
    (hargs.trans (signature_length hsig).symm) rfl heap n
  exact ⟨_, _, e, body, rfl, hbody, hfol⟩

end ObjectLang.Simulation
