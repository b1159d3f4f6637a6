import ObjectLang.Code.MachineType

/-! # Builtin functions

Allocation, counting and strings: what generated code calls and does not define.
-/

namespace ObjectLang.Code

/-- The types that builtin functions pass; a pointer's width is chosen later. -/
inductive PassedType where
  | ptr | i8 | i32 | i64
  deriving DecidableEq, Repr, Inhabited

namespace PassedType

def text : PassedType → String
  | ptr => "ptr"
  | i8 => "i8"
  | i32 => "i32"
  | i64 => "i64"

def machineType (width : MachineType) : PassedType → MachineType
  | ptr => width
  | i8 => .i8
  | i32 => .i32
  | i64 => .i64

end PassedType

inductive Builtin where
  | retain
  | release
  | objectNew
  | stringNew
  | stringConcat
  | stringEq
  | stringLen
  deriving DecidableEq, Repr, Inhabited

namespace Builtin

def all : List Builtin :=
  [retain, release, objectNew, stringNew, stringConcat, stringEq, stringLen]

def name : Builtin → String
  | retain => "cinder_retain"
  | release => "cinder_release"
  | objectNew => "cinder_object_new"
  | stringNew => "cinder_string_new"
  | stringConcat => "cinder_string_concat"
  | stringEq => "cinder_string_eq"
  | stringLen => "cinder_string_len"

def ofName? (s : String) : Option Builtin := all.find? (·.name == s)

def params : Builtin → List PassedType
  | retain | release | stringLen => [.ptr]
  | objectNew => [.i32, .ptr, .ptr]
  | stringNew | stringConcat | stringEq => [.ptr, .ptr]

def result : Builtin → Option PassedType
  | retain | release => none
  | objectNew | stringNew | stringConcat => some .ptr
  | stringEq => some .i8
  | stringLen => some .i64

def signature (ptr : MachineType) (b : Builtin) : Signature where
  params := b.params.map (·.machineType ptr)
  result := b.result.map (·.machineType ptr)

end Builtin

end ObjectLang.Code
