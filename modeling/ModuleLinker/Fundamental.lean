import ModuleLinker.Layout
import ModuleLinker.ObjectModel

/-!
# Built-in types

The types that every module has without declaring them. Two of them, `none` and `array`,
describe no storage and cannot be the type of a field.
-/
namespace ModuleLinker

/-- The built-in types. -/
inductive Fundamental where
  | none
  | int
  | long
  | single
  | double
  | pointer
  | gcPointer
  | array
  deriving DecidableEq

namespace Fundamental

/-- Name of a built-in type. -/
def name : Fundamental → String
  | none => "none"
  | int => "int"
  | long => "long"
  | single => "single"
  | double => "double"
  | pointer => "pointer"
  | gcPointer => "gcpointer"
  | array => "array"

/-- Whether values of the type take storage, so that a field can have it. -/
def isStorable : Fundamental → Bool
  | none | array => false
  | _ => true

/-- Bytes of a value, which are also its alignment; zero for a type without storage. -/
def width : Fundamental → Nat
  | none | array => 0
  | int | single => 4
  | long | double => 8
  | pointer | gcPointer => wordBytes

/-- Layout of a built-in type. -/
def layout (t : Fundamental) : Layout :=
  if t.isStorable then ⟨alignUp (t.width + headerBytes) wordBytes, t.width, t.width⟩ else ⟨0, 0, 1⟩

/-- The code that an image uses for a built-in type. -/
def code : Fundamental → Nat
  | none => 0
  | int => 3
  | long => 4
  | single => 5
  | double => 6
  | pointer => 7
  | gcPointer => 8
  | array => 9

end Fundamental

/-- The built-in types in the order of their codes. -/
def Fundamental.all : List Fundamental :=
  [.none, .int, .long, .single, .double, .pointer, .gcPointer, .array]

end ModuleLinker
