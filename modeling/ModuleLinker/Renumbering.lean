import ModuleLinker.Opcode

/-!
# Opcode renumbering

Opcode bytes of an older instruction set are brought to the canonical numbering step by step,
each step being a list of shifts; writing undoes the shifts in the opposite order. Numbers are
16-bit words.
-/
namespace ModuleLinker

/-- One renumbering: every number from the threshold on moves up by `delta`. -/
structure Shift where
  threshold : UInt8
  delta : UInt8
  deriving DecidableEq

namespace Shift

/-- The number after the shift. -/
def apply (s : Shift) (n : UInt16) : UInt16 :=
  if s.threshold.toUInt16 ≤ n then n + s.delta.toUInt16 else n

/-- The number before the shift; a number inside the gap that the shift opens has none. -/
def undo? (s : Shift) (n : UInt16) : Option UInt16 :=
  if s.threshold.toUInt16 + s.delta.toUInt16 ≤ n then some (n - s.delta.toUInt16)
  else if s.threshold.toUInt16 ≤ n then none
  else some n

end Shift

/-- The canonical opcode of a byte, after the steps in order. -/
def upgrade? (steps : List (List Shift)) (byte : UInt8) : Option Opcode :=
  Opcode.ofCanonical? (steps.flatten.foldl (fun n s => s.apply n) byte.toUInt16).toNat

/-- The byte of a canonical opcode before the steps, which are undone from the last to the first. -/
def downgrade? (steps : List (List Shift)) (o : Opcode) : Option UInt8 := do
  let n ← steps.flatten.reverse.foldlM (fun n s => s.undo? n) o.canonical.toUInt16
  if n.toNat < 256 then some n.toUInt8 else none

end ModuleLinker
