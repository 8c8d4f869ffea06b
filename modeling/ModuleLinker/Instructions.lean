import ModuleLinker.Opcode

/-!
# Instruction streams

A stream is a list of instructions with a table of labels. Each instruction carries its byte
offset in the canonical encoding, stamped when it is appended. A label names an instruction by
its position and may name one that does not exist yet.
-/
namespace ModuleLinker

/-- One instruction of a stream. -/
structure Instruction where
  opcode : Opcode
  /-- Zero for an opcode without operand. -/
  operand : UInt32
  /-- Bytes of the stream before the opcode. -/
  offset : Nat
  deriving DecidableEq

/-- Instructions in order, the targets of the labels, and the length of the encoding. -/
structure Instructions where
  labels : List UInt64 := []
  code : List Instruction := []
  byteLength : Nat := 0
  deriving DecidableEq

namespace Instructions

/-- The stream without instructions and labels. -/
def empty : Instructions := {}

/-- Number of instructions. -/
def size (s : Instructions) : Nat := s.code.length

/-- Append an instruction at the end, dropping the operand of an opcode that has none; gives
its position. -/
def push (s : Instructions) (opcode : Opcode) (operand : UInt32) : Nat × Instructions :=
  (s.size,
    { s with
      code := s.code ++ [⟨opcode, if opcode.hasOperand then operand else 0, s.byteLength⟩]
      byteLength := s.byteLength + opcode.encodedLength })

/-- Add a label for an instruction position; gives the label's number. -/
def addLabel (s : Instructions) (target : UInt64) : Nat × Instructions :=
  (s.labels.length, { s with labels := s.labels ++ [target] })

/-- Retarget a label; tells whether there is such a label. -/
def setLabel (s : Instructions) (label : Nat) (target : UInt64) : Bool × Instructions :=
  (label < s.labels.length, { s with labels := s.labels.set label target })

/-- The instruction position that a label names. -/
def label? (s : Instructions) (label : Nat) : Option UInt64 := s.labels[label]?

/-- The instruction at a position. -/
def get? (s : Instructions) (position : Nat) : Option Instruction := s.code[position]?

/-- Byte offset of the instruction that a label names. -/
def labelOffset? (s : Instructions) (label : Nat) : Option Nat := do
  let target ← s.label? label
  let instruction ← s.get? target.toNat
  some instruction.offset

/-- The stream of the given instructions and labels. -/
def ofCode (labels : List UInt64) (code : List (Opcode × UInt32)) : Instructions :=
  { code.foldl (fun s i => (s.push i.1 i.2).2) empty with labels }

@[simp] theorem labels_push (s : Instructions) (o : Opcode) (x : UInt32) :
    (s.push o x).2.labels = s.labels := rfl

end Instructions
end ModuleLinker
