import ModuleLinker.Image.Bytes
import ModuleLinker.Image.Error

/-!
# Reading an image

A reader consumes bytes at a cursor and fails with the offset at which bytes are missing. A
count is refused at once when the elements it announces could not fit into the bytes that are
left, however small each of them is.
-/
namespace ModuleLinker

/-- The bytes not read yet, and how many were read before them. -/
structure Cursor where
  offset : Nat
  rest : List UInt8
  deriving DecidableEq

/-- A computation that reads bytes. -/
abbrev Reader := StateT Cursor (Except DecodeError)

namespace Reader

/-- Number of bytes read so far. -/
def position : Reader Nat := do return (← get).offset

/-- Number of bytes left. -/
def remaining : Reader Nat := do return (← get).rest.length

/-- The next `n` bytes. -/
def bytes (n : Nat) : Reader (List UInt8) := fun c =>
  let head := c.rest.take n
  if head.length = n then .ok (head, ⟨c.offset + n, c.rest.drop n⟩)
  else .error (.unexpectedEnd c.offset n)

/-- A number of `width` bytes. -/
def number (width : Nat) : Reader Nat := do return ofLittleEndian (← bytes width)

/-- An 8-bit word. -/
def word8 : Reader UInt8 := do return UInt8.ofNat (← number 1)

/-- A 16-bit word. -/
def word16 : Reader UInt16 := do return UInt16.ofNat (← number 2)

/-- A 32-bit word. -/
def word32 : Reader UInt32 := do return UInt32.ofNat (← number 4)

/-- A 64-bit word. -/
def word64 : Reader UInt64 := do return UInt64.ofNat (← number 8)

/-- A byte that is zero or one. -/
def flag : Reader Bool := do
  let offset ← position
  let value ← word8
  if value = 0 then return false
  else if value = 1 then return true
  else throw (.invalidFlag value offset)

/-- A number of `width` bytes that counts elements of at least `least` bytes each. -/
def count (width least : Nat) : Reader Nat := do
  let n ← number width
  if (← remaining) < n * least then throw (.unexpectedEnd (← position) (n * least))
  return n

/-- A text behind the number of its bytes. -/
def text : Reader String := do
  let length ← count 4 1
  let offset ← position
  match textOfBytes? (← bytes length) with
  | some s => return s
  | none => throw (.invalidText offset)

/-- `n` elements one after the other, each told its position, the first being at `first`. -/
def elementsFrom (item : Nat → Reader α) (first : Nat) : Nat → Reader (List α)
  | 0 => return []
  | n + 1 => do
    let x ← item first
    return x :: (← elementsFrom item (first + 1) n)

/-- A table: a count of elements of at least `least` bytes, and the elements. -/
def table (least : Nat) (item : Nat → Reader α) : Reader (List α) := do
  elementsFrom item 0 (← count 4 least)

theorem run_bytes_append (xs rest : List UInt8) (offset : Nat) :
    (bytes xs.length).run ⟨offset, xs ++ rest⟩ = .ok (xs, ⟨offset + xs.length, rest⟩) := by
  simp [bytes, StateT.run]

theorem run_bytes_eq_ok {n : Nat} {c d : Cursor} {xs : List UInt8}
    (h : (bytes n).run c = .ok (xs, d)) :
    xs.length = n ∧ c.rest = xs ++ d.rest ∧ d.offset = c.offset + n := by
  simp only [bytes, StateT.run] at h
  split at h
  · next hn =>
    simp only [Except.ok.injEq, Prod.mk.injEq] at h
    obtain ⟨rfl, rfl⟩ := h
    exact ⟨hn, (List.take_append_drop n c.rest).symm, rfl⟩
  · cases h

end Reader
end ModuleLinker
