import ModuleLinker.FileSystem
import ModuleLinker.Version

/-!
# Image errors

Why bytes are not an image, and why a description has no image. Offsets are positions in the
bytes; a message names the first fault that reading or writing meets.
-/
namespace ModuleLinker

/-- A byte in two hexadecimal digits. -/
def hexByte (b : UInt8) : String :=
  String.ofList [Nat.digitChar (b.toNat / 16), Nat.digitChar (b.toNat % 16)]

/-- Which version of an image is meant. -/
inductive VersionField where
  | fileFormat
  | instructionSet
  deriving DecidableEq

/-- A version field in words. -/
def VersionField.text : VersionField → String
  | fileFormat => "file format"
  | instructionSet => "instruction set"

/-- Why bytes are not an image. -/
inductive DecodeError where
  | unreadable (path : String) (cause : FileError)
  | invalidMagic (found : List UInt8)
  | unsupportedVersion (field : VersionField) (found : UInt16)
  | unexpectedEnd (offset needed : Nat)
  | invalidText (offset : Nat)
  | invalidTypeCode (code offset : Nat)
  | danglingMapping (code index count offset : Nat)
  | danglingDependency (name : String) (index count : Nat)
  | invalidOpcode (byte : UInt8) (version : Version) (offset : Nat)
  | invalidFlag (value : UInt8) (offset : Nat)
  | emptyArrayField (offset : Nat)
  | labelOutOfRange (label target count : Nat)
  | trailingBytes (count : Nat)
  | notParsed
  deriving DecidableEq

/-- Coarse class of a decode error. -/
inductive DecodeErrorKind where
  /-- The file could not be read. -/
  | unreadable
  /-- The bytes are not an image at all. -/
  | format
  /-- The image is of a version that is not read. -/
  | version
  /-- The image is malformed behind its header. -/
  | malformed
  deriving DecidableEq

namespace DecodeError

/-- The class of a decode error. -/
def kind : DecodeError → DecodeErrorKind
  | unreadable .. => .unreadable
  | invalidMagic .. => .format
  | unsupportedVersion .. => .version
  | _ => .malformed

/-- Wording of a decode error. -/
def message : DecodeError → String
  | unreadable path cause => s!"cannot read `{path}`: {cause.message}"
  | invalidMagic found =>
    "not a module file (magic [" ++ ", ".intercalate (found.map hexByte) ++ "])"
  | unsupportedVersion field found =>
    s!"unsupported {field.text} version ordinal {found.toNat} " ++
      s!"(supported {Version.least.text}..={Version.latest.text})"
  | unexpectedEnd offset needed =>
    s!"unexpected end of data at offset {offset}: {needed} more bytes required"
  | invalidText offset => s!"invalid UTF-8 in string at offset {offset}"
  | invalidTypeCode code offset => s!"invalid field type code {code} at offset {offset}"
  | danglingMapping code index count offset =>
    s!"type code {code} at offset {offset} names structure mapping {index}, " ++
      s!"but only {count} exist"
  | danglingDependency name index count =>
    s!"mapping `{name}` names dependency {index}, but only {count} are declared"
  | invalidOpcode byte version offset =>
    s!"invalid opcode byte 0x{hexByte byte} for instruction set {version.text} " ++
      s!"at offset {offset}"
  | invalidFlag value offset => s!"invalid flag byte {value.toNat} at offset {offset}"
  | emptyArrayField offset => s!"array field with zero elements at offset {offset}"
  | labelOutOfRange label target count =>
    s!"label {label} targets instruction {target}, but the stream has {count}"
  | trailingBytes count => s!"{count} trailing bytes after the entry point"
  | notParsed => "no module has been parsed"

end DecodeError

/-- What an image has a 32-bit count of. -/
inductive CountedTable where
  | dependencies
  | mappings
  | constants
  | structures
  | fields
  | functions
  | labels
  | textBytes
  deriving DecidableEq

/-- The entries of a table in words. -/
def CountedTable.text : CountedTable → String
  | dependencies => "dependencies"
  | mappings => "mappings"
  | constants => "constants"
  | structures => "structures"
  | fields => "fields"
  | functions => "functions"
  | labels => "labels"
  | textBytes => "string bytes"

/-- Why a description has no image. -/
inductive EncodeError where
  | unwritable (path : String) (cause : FileError)
  | opcodeUnavailable (opcode : Opcode) (version : Version)
  | unencodableType (owner : String) (field : Nat)
  | hostFunction (name : String)
  | tooLarge (table : CountedTable)
  deriving DecidableEq

/-- Wording of an encode error. -/
def EncodeError.message : EncodeError → String
  | unwritable path cause => s!"cannot write `{path}`: {cause.message}"
  | opcodeUnavailable opcode version =>
    s!"opcode `{opcode.mnemonic}` does not exist in instruction set {version.text}"
  | unencodableType owner field =>
    s!"field {field} of structure `{owner}` has a type with no on-disk code"
  | hostFunction name => s!"function `{name}` is host-implemented and has no bytecode"
  | tooLarge table => s!"too many {table.text} to encode"

end ModuleLinker
