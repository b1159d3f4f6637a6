import ObjectLang.Proofs.PublicRequests

/-! # The numbers in a program

Classes, functions, locals, fields, slots and variants are found by their numbers, in tables that
grow while the numbers are handed out.  In the end every number in a record or in a body lies in its
table.
-/

namespace ObjectLang.Checked

/-- The record of a class has numbers of classes and functions of the program only, and each of its
fields knows a position among them. -/
structure ClassInst.InRange (p : Program) (c : ClassInst) : Prop where
  root : c.root < p.classes.size
  ancestor : ∀ a, c.ancestor = some a → a < p.classes.size
  typeArgs : ∀ ty ∈ c.typeArgs, ty.Within p
  fields : ∀ field ∈ c.fields,
    field.ty.Within p ∧ field.index < c.fields.length ∧ field.declaredIn < p.classes.size
  methods : ∀ (n : String) f, c.methods[n]? = some (.inst f) → f < p.functions.size
  virtualMethods : ∀ f ∈ c.virtualMethods, f < p.functions.size
  slotOwners : ∀ f ∈ c.slotOwners, f < p.functions.size
  vtable : ∀ f ∈ c.vtable, f < p.functions.size
  init : ∀ f, c.init = some f → f < p.functions.size

/-- The record of a function has numbers of classes and functions of the program only, its
parameters are among its locals, and its slot is one of the table of its class. -/
structure FuncInst.InRange (p : Program) (f : FuncInst) : Prop extends f.Within p where
  owner : ∀ c, f.owner = some c → c < p.classes.size
  slot : ∀ k, f.slot = some k → ∃ c, f.owner = some c ∧ k < (p.classAt c).vtable.length
  overrides : ∀ (i : Nat) g, f.overrides[i]? = some g → g < p.functions.size

namespace Program

variable {p : Program} {c : ClassId} {f : FuncId} {k : Nat}

theorem slotOwners_lt_functions (hp : p.ClassTable) (h : f ∈ (p.classAt c).slotOwners) :
    f < p.functions.size := by
  rcases List.getElem?_of_mem h with ⟨k, hk⟩
  exact lt_size_of_slot (hp.dispatching.opened hk).2.1

/-- A method with a slot is found in its own class, which has the slot in its table. -/
theorem slot_lt_vtable_of_owner (hp : p.ClassTable) (hbuilt : ∀ c < p.classes.size, p.Built c)
    (h : (p.functionAt f).slot = some k) :
    ∃ c, (p.functionAt f).owner = some c ∧ k < (p.classAt c).vtable.length := by
  rcases hp.dispatching.slotted h with ⟨c, howner, hentry⟩
  rcases hp.dispatching.joined hentry h with ⟨o, ho, -⟩
  refine ⟨c, howner, ?_⟩
  rw [hp.filled (hbuilt c (lt_size_of_methods hentry)), List.length_map]
  exact (List.getElem?_eq_some_iff.mp ho).1

end Program

end ObjectLang.Checked

namespace ObjectLang.Check

open Scope Checked

variable {src : Sources} {s : State}

theorem Settled.class_inRange (hs : Settled src s) {c : ClassId} (hc : c < s.program.classes.size) :
    (s.program.classAt c).InRange s.program := by
  have htable := hs.orderly.table
  have hbuilt := hs.orderly.built trivial hc
  have htyped := (hs.orderly.typed trivial).classes c
  have hlaid := htable.laid hc
  refine ⟨(htable.placed.built_root hbuilt).1, fun a ha => (htable.placed.built ha).1,
    htyped.typeArgs,
    fun field hfield => ⟨htyped.fields field hfield, ?_, ?_⟩, fun n f hf => ?_,
    htyped.virtualMethods,
    fun f hf => Program.slotOwners_lt_functions htable hf, fun f hf => ?_, fun f hf => ?_⟩
  · rcases List.getElem?_of_mem hfield with ⟨i, hi⟩
    rw [hlaid.indexed hi]
    exact (List.getElem?_eq_some_iff.mp hi).1
  · exact htable.placed.mem_chain_lt hc (hlaid.declared field hfield)
  · exact (htable.dispatching.entered hf).1
  · rcases List.getElem?_of_mem hf with ⟨k, hk⟩
    exact Program.vtable_lt_functions htable hk hbuilt
  · exact (hs.orderly.catalogue.inits hf).1

theorem Settled.function_inRange (hs : Settled src s) (f : FuncId) :
    (s.program.functionAt f).InRange s.program := by
  have htable := hs.orderly.table
  have htyped := (hs.orderly.typed trivial).functions f
  refine ⟨htyped, fun c howner => ?_, fun k hk => ?_, fun i g hg => ?_⟩
  · exact htyped.receiver _ (hs.orderly.catalogue.owned howner) c rfl
  · exact Program.slot_lt_vtable_of_owner htable (fun c hc => hs.orderly.built trivial hc) hk
  · rcases htable.dispatching.registered hg with ⟨_, _, _, -, -, -, -, -, hslot, -⟩
    exact Program.lt_size_of_slot hslot

end ObjectLang.Check

namespace ObjectLang

open Source Syntax Scope Checked Check

/-- Whatever was asked for and whatever was reported: all numbers in the records of classes and
functions, in the defaults of fields and in bodies are numbers of what is there.  So every local is
one of its function, every field is one of its class, every slot is one of the table of the
receiver's class, every variant is one of its enum, and a function that takes a receiver is called
on one. -/
theorem ids_in_range (name : String) (dependencies : List String) (files : List (File Hint))
    {s : State} (h : Reached (sourcesOf name dependencies files) s) :
    (∀ c < s.program.classes.size, (s.program.classAt c).InRange s.program) ∧
    ∀ f < s.program.functions.size, (s.program.functionAt f).InRange s.program ∧
      FunctionRange (sourcesOf name dependencies files) s (s.program.functionAt f) := by
  have hs := h.settled (regular_sources name dependencies files)
    (proper_sources name dependencies files)
  exact ⟨fun c hc => hs.class_inRange hc,
    fun f hf => ⟨hs.function_inRange f, hs.judged.ranges trivial f hf⟩⟩

/-- The shapes, and a function that uses a name that is not there. -/
def misshapen : List (File Hint) := shapes ++ [{
  id := 1
  decls := [
    .function {
      mark := none, name := "lost",
      params := [{ mark := none, name := "s", type := .named none ["Shape"] [] }]
      body := some (.mk none [
        .bind none "n" none (some (.methodCall none (.ident none "s") "area" [] [])),
        .expr none (.ident none "missing")] none) }] }]

theorem checkAll_misshapen :
    ∃ s, checkAll (sourcesOf "app" [] misshapen) 50 {} = some ((), s) ∧ s.errors.length = 1 ∧
      s.program.classes.size = 2 ∧ s.program.functions.size = 6 ∧
      (s.program.functionAt 5).name = "lost" ∧ (s.program.functionAt 5).locals.length = 2 ∧
      (s.program.functionAt 5).body.isSome = true := by
  have hrun : ((checkAll (sourcesOf "app" [] misshapen) 50 {}).any fun r =>
      decide (r.2.errors.length = 1 ∧ r.2.program.classes.size = 2 ∧
        r.2.program.functions.size = 6 ∧
        (r.2.program.functionAt 5).name = "lost" ∧ (r.2.program.functionAt 5).locals.length = 2 ∧
        (r.2.program.functionAt 5).body.isSome = true)) = true := by
    decide +kernel
  match h : checkAll (sourcesOf "app" [] misshapen) 50 {}, hrun with
  | some ((), s), hs =>
    simp only [Option.any_some, decide_eq_true_eq] at hs
    exact ⟨s, rfl, hs⟩

/-- The function with the error calls a method that is found by its slot. -/
theorem ids_in_range_misshapen :
    ∃ s, Reached (sourcesOf "app" [] misshapen) s ∧ s.errors.length = 1 ∧
      (s.program.functionAt 5).name = "lost" ∧ (s.program.functionAt 5).locals.length = 2 ∧
      (s.program.functionAt 5).body.isSome = true ∧ (s.program.classAt 1).InRange s.program ∧
      (s.program.functionAt 5).InRange s.program ∧
      FunctionRange (sourcesOf "app" [] misshapen) s (s.program.functionAt 5) := by
  obtain ⟨s, h, herrors, hclasses, hfunctions, hname, hlocals, hbody⟩ := checkAll_misshapen
  have hreached : Reached (sourcesOf "app" [] misshapen) s :=
    .single ⟨.all, 50, none, trivial, bind_of_eq_some h⟩
  obtain ⟨hcls, hfunction⟩ := ids_in_range "app" [] misshapen hreached
  exact ⟨s, hreached, herrors, hname, hlocals, hbody, hcls 1 (by rw [hclasses]; decide),
    hfunction 5 (by rw [hfunctions]; decide)⟩

end ObjectLang
