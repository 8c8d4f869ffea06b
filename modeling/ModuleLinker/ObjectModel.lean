/-!
# Object sizes

An object starts with a one-word header and an inline array with a one-word element count.
Sizes and offsets are byte counts below `addressLimit`; a size beyond it does not exist.
Rounding itself is done on unbounded numbers, so that a bound is checked once, on the result.
-/
namespace ModuleLinker

/-- Bytes in a machine word, which is also the width of a pointer. -/
def wordBytes : Nat := 8

/-- Bytes of the header in front of an object's payload. -/
def headerBytes : Nat := wordBytes

/-- Bytes of the element count in front of an inline array. -/
def countWordBytes : Nat := wordBytes

/-- Every size and offset lies below this bound. -/
def addressLimit : Nat := 0x10000000000000000

/-- The least multiple of `a` that is not below `n`; alignment zero leaves `n` as it is. -/
def alignUp (n a : Nat) : Nat := if n % a = 0 then n else n + (a - n % a)

/-- A number that is a size, if it lies below the address limit. -/
def bounded? (n : Nat) : Option Nat := if n < addressLimit then some n else none

/-- `n` rounded up to a multiple of `a`, if that is still a size. -/
def roundUp? (n a : Nat) : Option Nat := bounded? (alignUp n a)

/-- Size of an object whose payload has the given size: header included, whole words. -/
def objectSize? (payload : Nat) : Option Nat :=
  bounded? (alignUp (payload + headerBytes) wordBytes)

theorem le_alignUp (n a : Nat) : n ≤ alignUp n a := by
  simp only [alignUp]
  split <;> omega

theorem alignUp_lt {n a : Nat} (h : 0 < a) : alignUp n a < n + a := by
  have := Nat.mod_lt n h
  simp only [alignUp]
  split <;> omega

theorem alignUp_mod {n a : Nat} (h : 0 < a) : alignUp n a % a = 0 := by
  have hlt := Nat.mod_lt n h
  simp only [alignUp]
  split
  · assumption
  · have hsum : n + (a - n % a) = a * (n / a + 1) := by
      have := Nat.div_add_mod n a
      rw [Nat.mul_add]
      omega
    rw [hsum, Nat.mul_mod_right]

@[simp] theorem bounded?_eq_some {n m : Nat} :
    bounded? n = some m ↔ n < addressLimit ∧ n = m := by
  simp [bounded?]

end ModuleLinker
