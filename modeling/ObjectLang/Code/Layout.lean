import ObjectLang.Code.MachineType

/-! # Layout of objects

Behind a header of 32 bytes stand the fields in their order, inherited ones first, each at the next
offset that its size divides.
-/

namespace ObjectLang.Code

open Checked

structure FieldLayout where
  /-- In bytes from the start of the object. -/
  offset : Nat
  type : MachineType
  /-- Retained when stored, released with the object. -/
  isReference : Bool
  deriving DecidableEq, Repr, Inhabited

structure Layout where
  /-- In bytes, with the header. -/
  size : Nat
  fields : List FieldLayout
  deriving DecidableEq, Repr, Inhabited

def alignUp (n align : Nat) : Nat := (n + align - 1) / align * align

namespace Layout

def headerSize : Nat := 32

/-- Where an object keeps the address of its virtual table. -/
def vtableOffset : Nat := 16

/-- Places fields from `cursor` on; also gives the end of the last one. -/
def place (ptr : MachineType) (cursor : Nat) :
    List FieldInst → Except Error (List FieldLayout × Nat)
  | [] => .ok ([], cursor)
  | f :: fs => do
    let type ← (valueType ptr f.ty).mapError (·.locate f.span)
    let offset := alignUp cursor type.bytes
    let (rest, stop) ← place ptr (offset + type.bytes) fs
    return ({ offset, type, isReference := f.ty.isReference } :: rest, stop)

def ofClass (ptr : MachineType) (c : ClassInst) : Except Error Layout := do
  if c.inProgress then
    throw (.internal "placeholder class reached codegen" (some c.display))
  let (fields, stop) ← place ptr headerSize c.fields
  return { size := alignUp stop 8, fields }

def fieldAt (l : Layout) (index : Nat) : Except Error FieldLayout :=
  match l.fields[index]? with
  | some f => .ok f
  | none => .error (.internal "field index out of range" (some (toString index)))

def referenceOffsets (l : Layout) : List Nat :=
  (l.fields.filter (·.isReference)).map (·.offset)

end Layout

def layouts (ptr : MachineType) (p : Program) : Except Error (List Layout) :=
  p.classes.toList.mapM (Layout.ofClass ptr)

end ObjectLang.Code
