import ModuleLinker.Fundamental

/-!
# Type codes

An image writes a type as a number of 31 bits. Small numbers are built-in types, two of them
reserved and without support; from `firstStruct` on a number counts structures; what lies
between means nothing.
-/
namespace ModuleLinker

/-- What a type code of an image stands for. -/
inductive TypeCode where
  /-- Reserved for bytes, not supported. -/
  | byte
  /-- Reserved for short integers, not supported. -/
  | short
  | fundamental (type : Fundamental)
  /-- A structure, or past the end of the structure table a structure mapping. -/
  | struct (index : Nat)
  deriving DecidableEq

namespace TypeCode

/-- The code of the first structure. -/
def firstStruct : Nat := 20

/-- Codes are written in 31 bits. -/
def limit : Nat := 0x80000000

/-- The number of a code. -/
def number : TypeCode → Nat
  | byte => 1
  | short => 2
  | fundamental t => t.code
  | struct index => firstStruct + index

/-- The code with a given number; numbers between the built-in types and the structures have
none, nor have those that need more than 31 bits. -/
def ofNumber? (n : Nat) : Option TypeCode :=
  match n with
  | 0 => some (fundamental .none)
  | 1 => some byte
  | 2 => some short
  | 3 => some (fundamental .int)
  | 4 => some (fundamental .long)
  | 5 => some (fundamental .single)
  | 6 => some (fundamental .double)
  | 7 => some (fundamental .pointer)
  | 8 => some (fundamental .gcPointer)
  | 9 => some (fundamental .array)
  | n => if firstStruct ≤ n ∧ n < limit then some (struct (n - firstStruct)) else Option.none

/-- Whether the code is in the range of structures. -/
def isStruct : TypeCode → Bool
  | struct _ => true
  | _ => false

/-- The built-in type a code stands for, if any. -/
def fundamental? : TypeCode → Option Fundamental
  | fundamental t => some t
  | _ => Option.none

theorem ofNumber?_of_firstStruct_le {n : Nat} (h : firstStruct ≤ n) :
    ofNumber? n = if n < limit then some (struct (n - firstStruct)) else Option.none := by
  have : 20 ≤ n := h
  unfold ofNumber?
  split <;> simp_all

theorem ofNumber?_code (t : Fundamental) : ofNumber? t.code = some (fundamental t) := by
  cases t <;> rfl

end TypeCode

end ModuleLinker
