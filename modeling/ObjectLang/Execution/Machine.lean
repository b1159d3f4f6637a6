import ObjectLang.Code.Module
import ObjectLang.Memory.Counting
import ObjectLang.Execution.Arithmetic

/-! # Running code

A machine with explicit frames: one step executes one instruction of the topmost frame.
-/

namespace ObjectLang.Execution

open Checked Code Memory

structure Frame where
  function : FuncId
  values : Std.TreeMap ValueId Value := ∅
  slots : Std.TreeMap SlotId Value := ∅
  /-- The rest of the current block. -/
  code : List Instr
  deriving Inhabited

namespace Frame

def get (f : Frame) (v : ValueId) : Except Fault Value :=
  match f.values[v]? with
  | some x => .ok x
  | none => .error .mismatch

def getInt (f : Frame) (v : ValueId) : Except Fault Int := do
  match ← f.get v with
  | .int n => return n
  | _ => throw .mismatch

def getFloat (f : Frame) (v : ValueId) : Except Fault Float := do
  match ← f.get v with
  | .float bits => return .ofBits bits
  | _ => throw .mismatch

def set (f : Frame) (v : ValueId) (x : Value) : Frame := { f with values := f.values.insert v x }

def enter (f : Frame) (b : Code.Block) (args : List Value) : Frame :=
  { f with
    values := (b.params.zip args).foldl (fun vs (p, x) => vs.insert p.1 x) f.values
    code := b.code.toList }

def start (m : Module) (f : FuncId) (args : List Value) : Frame :=
  ({ function := f, code := [] } : Frame).enter ((m.codeAt f).blockAt 0) args

def jump (m : Module) (f : Frame) (t : Target) : Except Fault Frame := do
  let args ← t.arg.toList.mapM f.get
  return f.enter ((m.codeAt f.function).blockAt t.block) args

def receive (f : Frame) (dst : Option ValueId) (x : Option Value) : Except Fault Frame :=
  match dst, x with
  | none, _ => .ok f
  | some v, some x => .ok (f.set v x)
  | some _, none => .error .mismatch

end Frame

def vtableEntry (m : Module) (c : ClassId) (offset : Nat) : Except Fault Value :=
  match (m.program.classAt c).vtable[offset / 8]? with
  | some f => .ok (.code (.function f))
  | none => .error .mismatch

def loadWord (m : Module) (h : Heap) (t : MachineType) (address : Value) (offset : Nat) :
    Except Fault Value :=
  match address with
  | .datum (.vtable c) => vtableEntry m c offset
  | _ => h.load t address offset

/-- What an instruction does, as far as its frame can tell. -/
inductive Action where
  | next (f : Frame) (h : Heap)
  | call (dst : Option ValueId) (callee : Callee) (args : List Value)
  | ret (result : Option Value)
  deriving Inhabited

namespace Frame

def define (f : Frame) (h : Heap) (v : ValueId) (x : Value) : Action := .next (f.set v x) h

/-- Executes one instruction, after which the frame goes on with the rest. -/
def execute (m : Module) (f : Frame) (h : Heap) (i : Instr) : Except Fault Action := do
  match i with
  | .intConst v _ n => return f.define h v (.int n)
  | .floatConst v bits => return f.define h v (.float bits)
  | .intBinary v op t a b => return f.define h v (.int (← intOp op t (← f.getInt a) (← f.getInt b)))
  | .floatBinary v op a b =>
    return f.define h v (.float (floatOp op (← f.getFloat a) (← f.getFloat b)).toBits)
  | .intNeg v t a => return f.define h v (.int (t.wrap (-(← f.getInt a))))
  | .floatNeg v a => return f.define h v (.float (-(← f.getFloat a)).toBits)
  | .floatTrunc v a => return f.define h v (.float (truncate (← f.getFloat a)).toBits)
  | .intCompare v c a b =>
    return f.define h v (.ofBool (← compareWords c (← f.get a) (← f.get b)))
  | .isZero v a => return f.define h v (.ofBool ((← f.getInt a) == 0))
  | .floatCompare v c a b =>
    return f.define h v (.ofBool (compareFloats c (← f.getFloat a) (← f.getFloat b)))
  | .slotLoad v _ slot =>
    match f.slots[slot]? with
    | some x => return f.define h v x
    | none => throw .unsetSlot
  | .slotStore v slot => return .next { f with slots := f.slots.insert slot (← f.get v) } h
  | .load v t _ a offset => return f.define h v (← loadWord m h t (← f.get a) offset)
  | .store v a offset => return .next f (← h.store (← f.get a) offset (← f.get v))
  | .dataAddress v _ d => return f.define h v (.datum d)
  | .codeAddress v _ c => return f.define h v (.code c)
  | .call dst callee args => return .call dst callee (← args.mapM f.get)
  | .callIndirect dst _ callee args =>
    match ← f.get callee with
    | .code c => return .call dst c (← args.mapM f.get)
    | _ => throw .mismatch
  | .jump t => return .next (← f.jump m t) h
  | .branch c t e => return .next (← f.jump m (if (← f.getInt c) = 0 then e else t)) h
  | .ret v => return .ret (← v.mapM f.get)
  | .trap => throw .trap

end Frame

structure State where
  frame : Frame
  /-- The frames that wait for a result, innermost first, with the value that it defines. -/
  callers : List (Frame × Option ValueId) := []
  heap : Heap
  deriving Inhabited

inductive Step where
  | next (s : State)
  /-- The outermost function returned. -/
  | done (result : Option Value) (h : Heap)
  deriving Inhabited

namespace State

def start (m : Module) (f : FuncId) (args : List Value) (h : Heap) : State :=
  { frame := Frame.start m f args, heap := h }

def call (m : Module) (s : State) (dst : Option ValueId) (f : FuncId) (args : List Value) : State :=
  { start m f args s.heap with callers := (s.frame, dst) :: s.callers }

end State

/-- The text that a literal's data and length stand for. -/
def literalText (m : Module) : Value → Value → Except Fault String
  | .int 0, _ | _, .int 0 => .ok ""
  | .datum (.literal k), .int _ => .ok (m.literals.getD k "")
  | _, _ => .error .mismatch

/-- The offsets that the drop function at an address releases; null is no function. -/
def dropAt (m : Module) : Value → Except Fault (Option (List Nat))
  | .int 0 => .ok none
  | .code (.drop c) => .ok (some (m.dropOffsets c))
  | _ => .error .mismatch

def runBuiltin (m : Module) (h : Heap) (b : Builtin) (args : List Value) :
    Except Fault (Option Value × Heap) :=
  match b, args with
  | .retain, [v] => return (none, ← h.retain v)
  | .release, [v] => return (none, ← h.release v)
  | .objectNew, [.int size, vtable, drop] => do
    let (a, h) := h.newObject (size % MachineType.i32.modulus).toNat vtable (← dropAt m drop)
    return (some (.ref a), h)
  | .stringNew, [data, length] => do
    let (a, h) := h.newText (← literalText m data length)
    return (some (.ref a), h)
  | .stringConcat, [x, y] => do
    let (a, h) ← h.concat x y
    return (some (.ref a), h)
  | .stringEq, [x, y] => return (some (.ofBool (← h.sameText x y)), h)
  | .stringLen, [x] => return (some (.int (← h.textLength x)), h)
  | _, _ => .error .mismatch

/-- Calls a named function.  A builtin function that the program defines itself is the program's. -/
def callNamed (m : Module) (s : State) (dst : Option ValueId) (callee : Callee)
    (args : List Value) :
    Except Fault State :=
  match callee with
  | .function f => .ok (s.call m dst f args)
  | .builtin b =>
    match m.redefined.lookup b with
    | some f => .ok (s.call m dst f args)
    | none => do
      let (x, h) ← runBuiltin m s.heap b args
      return { s with frame := ← s.frame.receive dst x, heap := h }
  | .drop _ => .error .mismatch

/-- One step: an instruction of the topmost frame.  A block without an end cannot be run. -/
def step (m : Module) (s : State) : Except Fault Step :=
  match s.frame.code with
  | [] => .error .mismatch
  | i :: rest => do
    let f := { s.frame with code := rest }
    match ← f.execute m s.heap i with
    | .next f h => return .next { s with frame := f, heap := h }
    | .call dst callee args => return .next (← callNamed m { s with frame := f } dst callee args)
    | .ret x =>
      match s.callers with
      | [] => return .done x s.heap
      | (caller, dst) :: callers =>
        return .next { frame := ← caller.receive dst x, callers, heap := s.heap }

def run (m : Module) : Nat → State → Except Fault (Option Value × Heap)
  | 0, _ => .error .outOfFuel
  | fuel + 1, s => do
    match ← step m s with
    | .next s => run m fuel s
    | .done x h => return (x, h)

end ObjectLang.Execution
