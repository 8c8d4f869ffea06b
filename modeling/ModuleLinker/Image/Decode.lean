import ModuleLinker.Image.Descriptor
import ModuleLinker.Image.Reader

/-!
# Decoding an image

An image holds, in this order: the magic, the two versions, dependencies, structure mappings,
function mappings, the four tables of literals, structures, functions and the entry stream.
Nothing may follow. A field's type code counts through the built-in types, then the structures
of the module, then its structure mappings.
-/
namespace ModuleLinker

/-- The bytes with which every image starts. -/
def magic : List UInt8 := [0x74, 0x68, 0x74, 0x68]

/-- The bit of a field word that marks an inline array; the other bits are the type code. -/
def arrayBit : Nat := 0x80000000

/-- The type that a code means in a module with the given numbers of structures and structure
mappings; `offset` is where the code was read. -/
def resolveTypeCode (code offset structures mappings : Nat) : Except DecodeError FieldType :=
  match TypeCode.ofNumber? code with
  | some (.struct index) =>
    if index < structures then .ok (.struct ⟨.pending, index⟩)
    else if index - structures < mappings then .ok (.mapped (index - structures))
    else .error (.danglingMapping code (index - structures) mappings offset)
  | some (.fundamental t) =>
    if t.isStorable then .ok (.fundamental t) else .error (.invalidTypeCode code offset)
  | _ => .error (.invalidTypeCode code offset)

namespace Reader

/-- A version that images may have. -/
def version (field : VersionField) : Reader Version := do
  let found ← word16
  match Version.ofOrdinal? found with
  | some v => if v.isSupported then return v else throw (.unsupportedVersion field found)
  | none => throw (.unsupportedVersion field found)

/-- A declared dependency, not resolved yet. -/
def dependency : Reader Dependency := do return ⟨← text, none⟩

/-- A mapping into one of the declared dependencies. -/
def mapping (dependencies : Nat) : Reader Mapping := do
  let dependency ← word32
  let name ← text
  if dependency.toNat < dependencies then return ⟨dependency, name⟩
  else throw (.danglingDependency name dependency.toNat dependencies)

/-- The two mapping tables. -/
def mappings (dependencies : Nat) : Reader Mappings := do
  let structures ← table 8 fun _ => mapping dependencies
  let functions ← table 8 fun _ => mapping dependencies
  return ⟨structures, functions⟩

/-- The four tables of literals. -/
def constants : Reader ConstantPool := do
  let ints ← table 4 fun _ => word32
  let longs ← table 8 fun _ => word64
  let singles ← table 4 fun _ => Single.mk <$> word32
  let doubles ← table 8 fun _ => Double.mk <$> word64
  return ⟨ints, longs, singles, doubles⟩

/-- A field of a module with the given numbers of structures and structure mappings. -/
def field (structures mappings : Nat) : Reader Field := do
  let offset ← position
  let word ← number 4
  let type ← liftM (resolveTypeCode (word % arrayBit) offset structures mappings)
  if word < arrayBit then return { type }
  else
    let offset ← position
    let count ← word64
    if count = 0 then throw (.emptyArrayField offset)
    else return { type, count }

/-- The structure at a position of the table. -/
def structureAt (structures mappings index : Nat) : Reader Structure := do
  let name ← text
  let fields ← table 4 fun _ => field structures mappings
  return { name, owner := .pending, index, fields }

/-- The structure table. -/
def structures (mappings : Nat) : Reader (List Structure) := do
  let n ← count 4 8
  elementsFrom (fun index => structureAt n mappings index) 0 n

/-- An opcode of an instruction set with its operand, zero if it has none. -/
def instruction (v : Version) : Reader (Opcode × UInt32) := do
  let offset ← position
  let byte ← word8
  match v.decodeOpcode? byte with
  | none => throw (.invalidOpcode byte v offset)
  | some opcode => if opcode.hasOperand then return (opcode, ← word32) else return (opcode, 0)

/-- The first label that names no instruction of a stream of the given size. -/
def strayLabel? (labels : List UInt64) (size : Nat) : Option DecodeError := do
  let label ← labels.findIdx? fun target => size ≤ target.toNat
  let target ← labels[label]?
  some (.labelOutOfRange label target.toNat size)

/-- A stream of instructions, the targets of its labels in front. -/
def instructions (v : Version) : Reader Instructions := do
  let labels ← table 8 fun _ => word64
  let code ← elementsFrom (fun _ => instruction v) 0 (← count 8 1)
  match strayLabel? labels code.length with
  | some e => throw e
  | none => return .ofCode labels code

/-- The function at a position of the table. -/
def functionAt (v : Version) (index : Nat) : Reader Function := do
  let name ← text
  let arity ← word16
  let hasResult ← flag
  let stream ← instructions v
  return { name, owner := .pending, index, arity, hasResult, body := .bytecode stream }

/-- The beginning of an image: its first bytes are the magic. -/
def header : Reader Unit := fun c =>
  if c.rest.take magic.length = magic then
    .ok ((), ⟨c.offset + magic.length, c.rest.drop magic.length⟩)
  else .error (.invalidMagic (c.rest.take magic.length))

/-- The end of an image: nothing is left. -/
def finish : Reader Unit := do
  let left ← remaining
  if left = 0 then return () else throw (.trailingBytes left)

/-- A whole image. -/
def image : Reader Descriptor := do
  header
  let fileVersion ← version .fileFormat
  let instructionSet ← version .instructionSet
  let dependencies ← table 4 fun _ => dependency
  let mappings ← mappings dependencies.length
  let constants ← constants
  let structures ← structures mappings.structures.length
  let functions ← table 19 fun index => functionAt instructionSet index
  let entry ← instructions instructionSet
  finish
  return { fileVersion, instructionSet, dependencies, mappings, constants, structures,
           functions, entry }

end Reader

/-- The description that the bytes of an image hold. -/
def decode (bytes : List UInt8) : Except DecodeError Descriptor :=
  (Reader.image.run ⟨0, bytes⟩).map Prod.fst

end ModuleLinker
