import Std.Data.TreeMap
import ObjectLang.Code.Lowering

/-! # Modules

The code of a whole program.  All names of a module share one table: a function may be declared
again with the same signature, but is defined only once, and data never shares a name with a
function.
-/

namespace ObjectLang.Code

open Checked

abbrev Declared := Std.TreeMap String Signature

namespace Declared

def function (d : Declared) (name : String) (sig : Signature) : Except Error Declared :=
  match d[name]? with
  | some other => if other = sig then .ok d else .error .clash
  | none => .ok (d.insert name sig)

def datum (d : Declared) (name : String) : Except Error Unit :=
  if d.contains name then .error .clash else .ok ()

end Declared

structure Module where
  program : Program
  layouts : List Layout
  code : Array FunctionCode
  literals : Array String
  /-- The builtin functions that the program defines itself. -/
  redefined : List (Builtin × FuncId)
  deriving Inhabited

def droppedClasses (layouts : List Layout) : List (ClassId × List Nat) :=
  (layouts.map (·.referenceOffsets)).zipIdx.filterMap fun (offsets, c) =>
    if offsets.isEmpty then none else some (c, offsets)

def virtualClasses (p : Program) : List ClassId :=
  p.classes.toList.zipIdx.filterMap fun (c, id) => if c.vtable.isEmpty then none else some id

/-- Declares the builtin functions, the program's functions and the drop functions, and checks the
names of virtual tables. -/
def declare (ptr : MachineType) (p : Program) (layouts : List Layout) : Except Error Declared := do
  let d ← Builtin.all.foldlM (fun (d : Declared) b => d.function b.name (b.signature ptr)) ∅
  let d ← p.functions.toList.foldlM (fun (d : Declared) f => do
    let sig ← (signature ptr f).mapError (·.locate f.span)
    (d.function f.linkName sig).mapError (·.locate f.span)) d
  let d ← (droppedClasses layouts).foldlM (fun (d : Declared) (c, _) =>
    d.function (dropName p c) { params := [ptr], result := none }) d
  (virtualClasses p).forM fun c => d.datum (vtableName p c)
  return d

structure Progress where
  code : Array FunctionCode := #[]
  literals : Array String := #[]
  defined : Std.TreeSet String
  deriving Inhabited

def Progress.define (s : Progress) (cx : Context) : Except Error Progress := do
  let f := cx.function
  let sig ← (signature cx.ptr f).mapError (·.locate f.span)
  let (_, e) ←
    ((emitFunction cx sig).run { literals := s.literals }).mapError (·.within f.span)
  if s.defined.contains f.linkName then throw (Error.redefinition.locate f.span)
  return {
    code := s.code.push { signature := sig, slots := e.slots, blocks := e.blocks, order := e.order }
    literals := e.literals, defined := s.defined.insert f.linkName }

def generate (ptr : MachineType) (p : Program) : Except Error Module := do
  let layouts ← layouts ptr p
  let declared ← declare ptr p layouts
  let names := Std.TreeSet.ofList declared.keys
  let drops := Std.TreeSet.ofList ((droppedClasses layouts).map fun (c, _) => dropName p c)
  let s ← p.functions.toList.foldlM
    (fun (s : Progress) f =>
      s.define { program := p, ptr, layouts, functionNames := names, function := f })
    { defined := drops }
  return {
    program := p, layouts, code := s.code, literals := s.literals
    redefined := Builtin.all.filterMap fun b => (p.functionNamed b.name).map (b, ·) }

namespace Module

def codeAt (m : Module) (f : FuncId) : FunctionCode := m.code.getD f default

def dropOffsets (m : Module) (c : ClassId) : List Nat :=
  match m.layouts[c]? with
  | some l => l.referenceOffsets
  | none => []

/-- Every name that the module defines; the flag says whether it can be linked from outside. -/
def symbols (m : Module) : List (String × Bool) :=
  let p := m.program
  p.functions.toList.map (fun f => (f.linkName, f.exported)) ++
    (droppedClasses m.layouts).map (fun (c, _) => (dropName p c, false)) ++
    (virtualClasses p).map (fun c => (vtableName p c, false)) ++
    (List.range m.literals.size).map (fun k => (literalName k, false))

def sortedSymbols (m : Module) : List (String × Bool) :=
  (m.symbols.foldl (fun (t : Std.TreeMap String Bool) (name, flag) => t.insert name flag) ∅).toList

end Module

end ObjectLang.Code
