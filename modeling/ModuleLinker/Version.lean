import ModuleLinker.Renumbering

/-!
# Versions

An image names a version of the file format and one of the instruction set. Both are taken from
one list of versions; the last one numbers the opcodes canonically, and only the newest ones are
read.
-/
namespace ModuleLinker

/-- A version of the file format or of the instruction set. -/
inductive Version where
  | v1
  | v2
  | v3
  | v4
  | v5
  deriving DecidableEq

namespace Version

/-- Every version, oldest first. -/
def all : List Version := [v1, v2, v3, v4, v5]

/-- The number that an image holds for a version. -/
def ordinal (v : Version) : UInt16 := UInt16.ofNat v.ctorIdx

/-- The version with a given number. -/
def ofOrdinal? (n : UInt16) : Option Version := all[n.toNat]?

/-- The oldest version that is read. -/
def least : Version := v4

/-- The newest version; its opcode numbering is the canonical one. -/
def latest : Version := v5

/-- Major, minor and patch number of a version. -/
def triple (v : Version) : Nat × Nat × Nat := (0, v.ctorIdx + 1, 0)

/-- A version as it is written. -/
def text (v : Version) : String :=
  let (major, minor, patch) := v.triple
  s!"{major}.{minor}.{patch}"

/-- Versions are ordered by age. -/
def order (v w : Version) : Ordering := compare v.ordinal w.ordinal

/-- Whether images of the version are read. -/
def isSupported (v : Version) : Bool := least.ordinal ≤ v.ordinal && v.ordinal ≤ latest.ordinal

/-- The shifts from a version's opcode numbering to the next one's; so far every version numbers
its opcodes alike. -/
def upgradeShifts : Version → List Shift
  | _ => []

/-- The steps from a version's opcode numbering to the canonical one. -/
def upgradeSteps (v : Version) : List (List Shift) :=
  ((all.take latest.ctorIdx).drop v.ctorIdx).map upgradeShifts

/-- The opcode that a byte stands for in an instruction set. -/
def decodeOpcode? (v : Version) (byte : UInt8) : Option Opcode := upgrade? v.upgradeSteps byte

/-- The byte of an opcode in an instruction set, if it has the opcode. -/
def encodeOpcode? (v : Version) (o : Opcode) : Option UInt8 := downgrade? v.upgradeSteps o

@[simp] theorem ofOrdinal?_ordinal (v : Version) : ofOrdinal? v.ordinal = some v := by
  cases v <;> rfl

end Version
end ModuleLinker
