import ObjectLang.Execution.Machine

/-! # Activations

One call of a function as the function itself sees it: its own frame runs instruction by
instruction, and what it calls answers at once.  What an answer is, is a parameter.
-/

namespace ObjectLang.Execution

open Checked Code Memory

/-- What calls give back and do to the heap. -/
abbrev Calls := Callee → List Value → Heap → Except Fault (Option Value × Heap)

/-- The frame at another place of the code. -/
def Frame.withCode (f : Frame) (code : List Instr) : Frame := { f with code }

/-- A frame that runs, and the calls that it has made so far. -/
structure Activation where
  frame : Frame
  heap : Heap
  made : List (Callee × List Value) := []
  deriving Inhabited

namespace Activation

def goTo (a : Activation) (code : List Instr) : Activation :=
  { a with frame := a.frame.withCode code }

theorem goTo_values (a : Activation) (code : List Instr) :
    (a.goTo code).frame.values = a.frame.values := rfl

def set (a : Activation) (v : ValueId) (x : Value) : Activation :=
  { a with frame := a.frame.set v x }

def put (a : Activation) (id : SlotId) (x : Value) : Activation :=
  { a with frame := { a.frame with slots := a.frame.slots.insert id x } }

inductive Progress where
  | next (a : Activation)
  | done (x : Option Value)
  deriving Inhabited

/-- Carries out what an instruction does; the frame then goes on as `f`.  A call is answered at
once. -/
def act (calls : Calls) (a : Activation) (f : Frame) : Action → Except Fault Progress
  | .next f h => .ok (.next { a with frame := f, heap := h })
  | .call dst callee args => do
    let (x, h) ← calls callee args a.heap
    return .next { frame := ← f.receive dst x, heap := h, made := a.made ++ [(callee, args)] }
  | .ret x => .ok (.done x)

def step (m : Module) (calls : Calls) (a : Activation) : Except Fault Progress :=
  match a.frame.code with
  | [] => .error .mismatch
  | i :: rest =>
    (a.frame.withCode rest).execute m a.heap i >>= a.act calls (a.frame.withCode rest)

variable {a : Activation} {m : Module} {calls : Calls} {rest : List Instr}

theorem step_cons {i : Instr} (h : a.frame.code = i :: rest) :
    a.step m calls =
      ((a.frame.withCode rest).execute m a.heap i >>= a.act calls (a.frame.withCode rest)) := by
  rw [step, h]

theorem step_call {i : Instr} {dst : Option ValueId} {callee : Callee} {args : List Value}
    (h : a.frame.code = i :: rest)
    (hi : (a.frame.withCode rest).execute m a.heap i = .ok (.call dst callee args)) :
    a.step m calls = (do
      let (x, heap) ← calls callee args a.heap
      let frame ← (a.frame.withCode rest).receive dst x
      return .next { frame, heap, made := a.made ++ [(callee, args)] }) := by
  rw [step_cons h, hi]
  rfl

theorem step_slotStore {v : ValueId} {id : SlotId} {x : Value}
    (h : a.frame.code = .slotStore v id :: rest) (hv : (a.frame.withCode rest).get v = .ok x) :
    a.step m calls = .ok (.next ((a.goTo rest).put id x)) := by
  rw [step_cons h, Frame.execute, hv]
  rfl

theorem step_slotLoad {v : ValueId} {t : MachineType} {id : SlotId} {x : Value}
    (h : a.frame.code = .slotLoad v t id :: rest) (hx : a.frame.slots[id]? = some x) :
    a.step m calls = .ok (.next ((a.goTo rest).set v x)) := by
  have hx : (a.frame.withCode rest).slots[id]? = some x := hx
  rw [step_cons h, Frame.execute, hx]
  rfl

/-- How a run of an activation ends; the activation is the one before the last step. -/
inductive End where
  | returned (x : Option Value) (a : Activation)
  | fault (e : Fault) (a : Activation)
  deriving Inhabited

/-- Runs until the function returns or cannot go on; `none` when that takes more steps. -/
def run (m : Module) (calls : Calls) : Nat → Activation → Option End
  | 0, _ => none
  | fuel + 1, a =>
    match a.step m calls with
    | .ok (.next b) => run m calls fuel b
    | .ok (.done x) => some (.returned x a)
    | .error e => some (.fault e a)

def start (m : Module) (f : FuncId) (args : List Value) (h : Heap) : Activation :=
  { frame := Frame.start m f args, heap := h }

/-! ### Runs -/

section

variable (m : Module) (calls : Calls)

/-- So many steps lead from one activation to the other. -/
inductive Steps : Nat → Activation → Activation → Prop where
  | refl (a : Activation) : Steps 0 a a
  | step {k : Nat} {a b c : Activation} :
      a.step m calls = .ok (.next b) → Steps k b c → Steps (k + 1) a c

end

namespace Steps

variable {m : Module} {calls : Calls} {a b c : Activation} {j k : Nat}

theorem trans (hab : Steps m calls j a b) (hbc : Steps m calls k b c) :
    Steps m calls (j + k) a c := by
  induction hab with
  | refl => simpa using hbc
  | @step i _ _ _ h _ ih =>
    rw [show i + 1 + k = i + k + 1 by omega]
    exact .step h (ih hbc)

theorem one (h : a.step m calls = .ok (.next b)) : Steps m calls 1 a b := .step h (.refl b)

theorem first (h : Steps m calls k a c) (hj : j ≤ k) : ∃ b, Steps m calls j a b := by
  induction h generalizing j with
  | refl a => exact ⟨a, by rw [Nat.le_zero.mp hj]; exact .refl a⟩
  | @step i a _ _ hs _ ih =>
    cases j with
    | zero => exact ⟨a, .refl a⟩
    | succ j =>
      obtain ⟨b, hb⟩ := ih (Nat.le_of_succ_le_succ hj)
      exact ⟨b, .step hs hb⟩

/-- The steps that lead up to an end are not counted by the fuel that is left. -/
theorem run_add (h : Steps m calls k a b) (n : Nat) : run m calls (k + n) a = run m calls n b := by
  induction h with
  | refl => simp
  | @step i _ _ _ hs _ ih =>
    rw [show i + 1 + n = i + n + 1 by omega, run, hs]
    exact ih

theorem run_eq_none (h : Steps m calls k a b) : run m calls k a = none := by
  simpa [run] using h.run_add 0

end Steps

/-- More fuel does not change how a run ends. -/
theorem run_mono {n : Nat} {r : End} (h : run m calls n a = some r) :
    ∀ {k : Nat}, n ≤ k → run m calls k a = some r := by
  induction n generalizing a with
  | zero => simp [run] at h
  | succ n ih =>
    intro k hk
    obtain ⟨k, rfl⟩ : ∃ j, k = j + 1 := ⟨k - 1, by omega⟩
    rw [run] at h ⊢
    split at h
    · exact ih h (by omega)
    · exact h
    · exact h

theorem run_unique {n k : Nat} {r r' : End} (h : run m calls n a = some r)
    (h' : run m calls k a = some r') :
    r = r' := by
  have hmax := run_mono h (Nat.le_max_left n k)
  rw [run_mono h' (Nat.le_max_right n k)] at hmax
  exact (Option.some.inj hmax).symm

end Activation

end ObjectLang.Execution
