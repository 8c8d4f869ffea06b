import ModuleLinker.Image.Bytes
import ModuleLinker.Image.Decode

/-!
# Encoding an image

A description is written for a pair of versions, in the order in which an image is read. Every
known version can be written, also one that is not read any more. A description has no image if
it holds what only a registry or a host can know: structures of registered modules, types
without storage, functions of the host.
-/
namespace ModuleLinker

/-- Bytes, or the first part of a description that has none. -/
abbrev Encoded := Except EncodeError (List UInt8)

namespace Encoded

/-- Parts one after the other. -/
def concat : List Encoded → Encoded
  | [] => .ok []
  | part :: parts => do return (← part) ++ (← concat parts)

/-- A 32-bit count of the entries of a table. -/
def count (kind : CountedTable) (n : Nat) : Encoded :=
  if n < 0x100000000 then .ok (littleEndian 4 n) else .error (.tooLarge kind)

/-- A text behind the number of its bytes. -/
def text (s : String) : Encoded := do
  let bytes := textBytes s
  return (← count .textBytes bytes.length) ++ bytes

/-- A table: the count of its entries, and the entries. -/
def table (kind : CountedTable) (item : α → Encoded) (xs : List α) : Encoded := do
  return (← count kind xs.length) ++ (← concat (xs.map item))

/-- A mapping. -/
def mapping (m : Mapping) : Encoded := do
  return littleEndian 4 m.dependency.toNat ++ (← text m.name)

/-- The four tables of literals. -/
def constants (p : ConstantPool) : Encoded :=
  concat [
    table .constants (fun x => .ok (littleEndian 4 x.toNat)) p.ints,
    table .constants (fun x => .ok (littleEndian 8 x.toNat)) p.longs,
    table .constants (fun x => .ok (littleEndian 4 x.bits.toNat)) p.singles,
    table .constants (fun x => .ok (littleEndian 8 x.bits.toNat)) p.doubles]

end Encoded

/-- The number of a field's type code in a module with the given number of structures: mapped
structures are counted behind the module's own. Registered structures have none. -/
def FieldType.code? (structures : Nat) : FieldType → Option Nat
  | .fundamental t => if t.isStorable then some t.code else none
  | .struct ⟨.pending, index⟩ => some (TypeCode.struct index).number
  | .struct _ => none
  | .mapped index => some (TypeCode.struct (structures + index)).number

/-- The word of a field: its type code, and the array bit for an inline array. -/
def Field.word? (structures : Nat) (f : Field) : Option Nat := do
  let code ← f.type.code? structures
  if code < TypeCode.limit then some (if f.isArray then code + arrayBit else code) else none

namespace Encoded

/-- A field: its word, and behind it the length of an inline array. -/
def field (structures : Nat) (owner : String) (position : Nat) (f : Field) : Encoded :=
  match f.word? structures with
  | none => .error (.unencodableType owner position)
  | some word =>
    .ok (littleEndian 4 word ++ if f.isArray then littleEndian 8 f.count.toNat else [])

/-- A structure: its name and its fields. -/
def structureOf (structures : Nat) (s : Structure) : Encoded := do
  return (← text s.name) ++ (← count .fields s.fields.length) ++
    (← concat (s.fields.mapIdx (field structures s.name)))

/-- An instruction: the byte of its opcode, and its operand if it has one. -/
def instruction (v : Version) (i : Instruction) : Encoded :=
  match v.encodeOpcode? i.opcode with
  | none => .error (.opcodeUnavailable i.opcode v)
  | some byte =>
    .ok (byte :: if i.opcode.hasOperand then littleEndian 4 i.operand.toNat else [])

/-- The instructions of a stream, without its labels and its count. -/
def code (v : Version) (code : List Instruction) : Encoded := concat (code.map (instruction v))

/-- A stream: labels, a 64-bit count of instructions, and the instructions. -/
def instructions (v : Version) (s : Instructions) : Encoded := do
  return (← table .labels (fun target => .ok (littleEndian 8 target.toNat)) s.labels) ++
    littleEndian 8 s.size ++ (← code v s.code)

/-- A function: its name, arity and flag, and its stream. -/
def function (v : Version) (f : Function) : Encoded :=
  match f.body with
  | .host => .error (.hostFunction f.name)
  | .bytecode stream => do
    return (← text f.name) ++ littleEndian 2 f.arity.toNat ++ [if f.hasResult then 1 else 0] ++
      (← instructions v stream)

end Encoded

/-- The image of a description for a file version and an instruction set. -/
def encode (fileVersion instructionSet : Version) (d : Descriptor) : Encoded :=
  .concat [
    .ok (magic ++ littleEndian 2 fileVersion.ordinal.toNat ++
      littleEndian 2 instructionSet.ordinal.toNat),
    .table .dependencies (fun dependency => .text dependency.spec) d.dependencies,
    .table .mappings .mapping d.mappings.structures,
    .table .mappings .mapping d.mappings.functions,
    .constants d.constants,
    .table .structures (.structureOf d.structures.length) d.structures,
    .table .functions (.function instructionSet) d.functions,
    .instructions instructionSet d.entry]

/-- Write the image of a description to a file. -/
def writeImage (fs : FileSystem) (path : String) (fileVersion instructionSet : Version)
    (d : Descriptor) : Except EncodeError FileSystem := do
  let bytes ← encode fileVersion instructionSet d
  match fs.write path bytes with
  | .ok fs => return fs
  | .error cause => throw (.unwritable path cause)

end ModuleLinker
