import ModuleLinker.Fundamental

/-!
# Constant pools

The literals of a module, in four tables: integers, long integers, single and double floats.
A flat index runs through the four tables in that order. Adding never looks for an equal entry;
finding compares floats by bit pattern, so that payloads of NaN and the signs of zero count.
-/
namespace ModuleLinker

/-- A 32-bit float, known by its bit pattern. -/
structure Single where
  bits : UInt32
  deriving DecidableEq

/-- A 64-bit float, known by its bit pattern. -/
structure Double where
  bits : UInt64
  deriving DecidableEq

namespace Single

/-- All exponent bits are set and the fraction is not zero. -/
def isNaN (x : Single) : Bool := 0x7f800000 < x.bits &&& 0x7fffffff

/-- Both signs of zero. -/
def isZero (x : Single) : Bool := x.bits &&& 0x7fffffff = 0

/-- Equality as numbers: a NaN equals nothing, the two zeros are equal. -/
def sameNumber (x y : Single) : Bool :=
  !x.isNaN && !y.isNaN && (x = y || (x.isZero && y.isZero))

end Single

namespace Double

/-- All exponent bits are set and the fraction is not zero. -/
def isNaN (x : Double) : Bool := 0x7ff0000000000000 < x.bits &&& 0x7fffffffffffffff

/-- Both signs of zero. -/
def isZero (x : Double) : Bool := x.bits &&& 0x7fffffffffffffff = 0

/-- Equality as numbers: a NaN equals nothing, the two zeros are equal. -/
def sameNumber (x y : Double) : Bool :=
  !x.isNaN && !y.isNaN && (x = y || (x.isZero && y.isZero))

end Double

/-- A literal. -/
inductive Constant where
  | int (value : UInt32)
  | long (value : UInt64)
  | single (value : Single)
  | double (value : Double)
  deriving DecidableEq

/-- The type of a literal. -/
def Constant.type : Constant → Fundamental
  | int _ => .int
  | long _ => .long
  | single _ => .single
  | double _ => .double

/-- The four tables of literals. -/
structure ConstantPool where
  ints : List UInt32 := []
  longs : List UInt64 := []
  singles : List Single := []
  doubles : List Double := []
  deriving DecidableEq

namespace ConstantPool

/-- The pool without literals. -/
def empty : ConstantPool := {}

/-- Append an integer; gives its position among the integers. -/
def addInt (p : ConstantPool) (value : UInt32) : Nat × ConstantPool :=
  (p.ints.length, { p with ints := p.ints ++ [value] })

/-- Append a long integer; gives its position among the long integers. -/
def addLong (p : ConstantPool) (value : UInt64) : Nat × ConstantPool :=
  (p.longs.length, { p with longs := p.longs ++ [value] })

/-- Append a single float; gives its position among the single floats. -/
def addSingle (p : ConstantPool) (value : Single) : Nat × ConstantPool :=
  (p.singles.length, { p with singles := p.singles ++ [value] })

/-- Append a double float; gives its position among the double floats. -/
def addDouble (p : ConstantPool) (value : Double) : Nat × ConstantPool :=
  (p.doubles.length, { p with doubles := p.doubles ++ [value] })

/-- Position of the first equal integer. -/
def findInt? (p : ConstantPool) (value : UInt32) : Option Nat := p.ints.findIdx? (· == value)

/-- Position of the first equal long integer. -/
def findLong? (p : ConstantPool) (value : UInt64) : Option Nat := p.longs.findIdx? (· == value)

/-- Position of the first single float with the same bits. -/
def findSingle? (p : ConstantPool) (value : Single) : Option Nat :=
  p.singles.findIdx? (· == value)

/-- Position of the first double float with the same bits. -/
def findDouble? (p : ConstantPool) (value : Double) : Option Nat :=
  p.doubles.findIdx? (· == value)

/-- Flat index of the first long integer. -/
def longOffset (p : ConstantPool) : Nat := p.ints.length

/-- Flat index of the first single float. -/
def singleOffset (p : ConstantPool) : Nat := p.longOffset + p.longs.length

/-- Flat index of the first double float. -/
def doubleOffset (p : ConstantPool) : Nat := p.singleOffset + p.singles.length

/-- Number of literals. -/
def size (p : ConstantPool) : Nat := p.doubleOffset + p.doubles.length

/-- The literal at a flat index, found through the offsets of the tables. -/
def get? (p : ConstantPool) (index : Nat) : Option Constant :=
  if index < p.longOffset then p.ints[index]?.map .int
  else if index < p.singleOffset then p.longs[index - p.longOffset]?.map .long
  else if index < p.doubleOffset then p.singles[index - p.singleOffset]?.map .single
  else p.doubles[index - p.doubleOffset]?.map .double

/-- The type of the literal at a flat index. -/
def constantType? (p : ConstantPool) (index : Nat) : Option Fundamental :=
  (p.get? index).map Constant.type

/-- The four tables one after the other. -/
def toList (p : ConstantPool) : List Constant :=
  p.ints.map .int ++ p.longs.map .long ++ p.singles.map .single ++ p.doubles.map .double

/-- Equality of pools whose floats are compared as numbers. -/
def sameNumbers (p q : ConstantPool) : Bool :=
  p.ints = q.ints && p.longs = q.longs &&
    p.singles.length = q.singles.length &&
    (p.singles.zip q.singles).all (fun (x, y) => x.sameNumber y) &&
    p.doubles.length = q.doubles.length &&
    (p.doubles.zip q.doubles).all (fun (x, y) => x.sameNumber y)

@[simp] theorem length_toList (p : ConstantPool) : p.toList.length = p.size := by
  simp [toList, size, doubleOffset, singleOffset, longOffset, Nat.add_assoc]

end ConstantPool
end ModuleLinker
