import ObjectLang.Check.Types

/-! # Locals

The names that a body binds.  Every binding gets a number of its own; a stack of blocks says which
number a name stands for.
-/

namespace ObjectLang.Check

open Source Checked

structure Frame where
  locals : List LocalInst
  /-- What the names of the open blocks stand for, innermost block first. -/
  blocks : List (Std.TreeMap String LocalId)
  deriving Inhabited

namespace Frame

/-- The parameters in a block of their own; of two parameters of one name the later counts. -/
def ofParams (params : List LocalInst) : Frame where
  locals := params
  blocks := [params.zipIdx.foldl (fun names (p, k) => names.insert p.name k) ∅]

def openBlock (f : Frame) : Frame := { f with blocks := ∅ :: f.blocks }

def closeBlock (f : Frame) : Frame := { f with blocks := f.blocks.tail }

def lookup (f : Frame) (name : String) : Option LocalId := f.blocks.findSome? fun b => b[name]?

def typeOf (f : Frame) (id : LocalId) : Ty :=
  match f.locals[id]? with
  | some l => l.ty
  | none => .unknown

/-- What a new binding does to older ones of its name. -/
inductive Clash where
  | none
  | shadows
  | repeats
  deriving DecidableEq, Repr, Inhabited

def clash (f : Frame) (name : String) : Clash :=
  match f.blocks with
  | [] => .none
  | inner :: outer =>
    if inner.contains name then .repeats
    else if outer.any (·.contains name) then .shadows
    else .none

def declare (f : Frame) (l : LocalInst) : LocalId × Frame :=
  let id := f.locals.length
  (id, {
    locals := f.locals ++ [l]
    blocks := match f.blocks with
      | [] => []
      | inner :: outer => inner.insert l.name id :: outer })

end Frame

abbrev BodyCheck := StateT Frame Checking

end ObjectLang.Check
