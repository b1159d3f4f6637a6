import ObjectLang.Checked.Ty

/-! # Instances by key

One instance for each choice of a declaration and its type arguments.  An entry is made before the
instance is built, so a request that comes back to it on the way finds the instance in progress.
-/

namespace ObjectLang.Checked

open Scope

inductive CacheEntry where
  | inProgress (id : Nat)
  | done (id : Nat)
  deriving DecidableEq, Repr, Inhabited

def CacheEntry.id : CacheEntry → Nat
  | inProgress id | done id => id

structure ClassKey where
  struct : StructureId
  typeArgs : List Ty
  deriving DecidableEq, Repr, Inhabited

structure FunctionKey where
  symbol : SymbolId
  typeArgs : List Ty
  /-- The class of a method, or the type that an extension function is called on. -/
  receiver : Option Ty
  deriving DecidableEq, Repr, Inhabited

/-- Entries in the order in which their keys first arrived, and how often look-up succeeded and
failed. -/
structure InstanceCache (κ : Type) where
  entries : List (κ × CacheEntry) := []
  hits : Nat := 0
  misses : Nat := 0
  deriving Repr, Inhabited

namespace InstanceCache

variable {κ : Type} [DecidableEq κ]

def get? (c : InstanceCache κ) (key : κ) : Option CacheEntry :=
  (c.entries.find? (·.1 = key)).map (·.2)

def lookup (c : InstanceCache κ) (key : κ) : Option CacheEntry × InstanceCache κ :=
  match c.get? key with
  | some entry => (some entry, { c with hits := c.hits + 1 })
  | none => (none, { c with misses := c.misses + 1 })

/-- The list with `entry` under `key`, in place of an older one or at the end. -/
def setEntry (key : κ) (entry : CacheEntry) : List (κ × CacheEntry) → List (κ × CacheEntry)
  | [] => [(key, entry)]
  | e :: es => if e.1 = key then (key, entry) :: es else e :: setEntry key entry es

def set (c : InstanceCache κ) (key : κ) (entry : CacheEntry) : InstanceCache κ :=
  { c with entries := setEntry key entry c.entries }

/-- Reserves a key before its instance is built. -/
def begin (c : InstanceCache κ) (key : κ) (id : Nat) : InstanceCache κ := c.set key (.inProgress id)

def finish (c : InstanceCache κ) (key : κ) (id : Nat) : InstanceCache κ := c.set key (.done id)

def size (c : InstanceCache κ) : Nat := c.entries.length

end InstanceCache

/-- Puts a pair into a list that is ordered by the second part, after those that are not greater. -/
def insertById {α : Type} (x : α × Nat) : List (α × Nat) → List (α × Nat)
  | [] => [x]
  | y :: ys => if x.2 < y.2 then x :: y :: ys else y :: insertById x ys

def classInstances (c : InstanceCache ClassKey) (s : StructureId) : List (List Ty × ClassId) :=
  let found := c.entries.filter fun e => e.1.struct == s
  (found.map fun e => (e.1.typeArgs, e.2.id)).foldl (fun out x => insertById x out) []

end ObjectLang.Checked
