/-!
# Identities of modules, structures and functions

A registry numbers its modules in order of registration and never gives a number twice.
Structures and functions are named by their module and a position in one of its tables. A
module that is not registered yet is `pending`; registration replaces every occurrence.
-/
namespace ModuleLinker

/-- A module of a registry: the number of its slot, or a module not registered yet. -/
inductive ModuleId where
  | pending
  | slot (number : Nat)
  deriving DecidableEq

namespace ModuleId

/-- The word that stands for a pending module. -/
def pendingWord : Nat := 0xffffffff

/-- The identity that a 32-bit word stands for. -/
def ofWord (word : Nat) : ModuleId := if word = pendingWord then .pending else .slot word

/-- The word that stands for an identity; pending comes after every slot. -/
def word : ModuleId → Nat
  | pending => pendingWord
  | slot number => number

/-- Whether a registry has given the identity. -/
def isAssigned : ModuleId → Bool
  | pending => false
  | slot _ => true

/-- The slot number, if there is one. -/
def number? : ModuleId → Option Nat
  | pending => none
  | slot number => some number

/-- Identities are ordered by their words. -/
def order (a b : ModuleId) : Ordering := compare a.word b.word

/-- An identity as it appears in messages. -/
def text : ModuleId → String
  | pending => "#pending"
  | slot number => s!"#{number}"

@[simp] theorem number?_eq_some {id : ModuleId} {n : Nat} : id.number? = some n ↔ id = slot n := by
  cases id <;> simp [number?]

end ModuleId

/-- A structure: its module and its position in that module's structure table. -/
structure StructureId where
  owner : ModuleId
  index : Nat
  deriving DecidableEq

namespace StructureId

/-- The structure at the same position of another module. -/
def ownedBy (id : StructureId) (owner : ModuleId) : StructureId := { id with owner }

/-- A structure as it appears in messages. -/
def text (id : StructureId) : String := s!"{id.owner.text}:{id.index}"

/-- Structures are ordered by module, then by position. -/
def order (a b : StructureId) : Ordering := (a.owner.order b.owner).then (compare a.index b.index)

end StructureId

/-- A function: its module and its position in that module's function table. -/
structure FunctionId where
  owner : ModuleId
  index : Nat
  deriving DecidableEq

end ModuleLinker
