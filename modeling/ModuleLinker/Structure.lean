import ModuleLinker.FieldType

/-!
# Structures

A structure is a named list of fields. It carries its own identity, so that it can be found
again from a copy, and the state of its layout; the offsets of its fields mean something once
that state is done.
-/
namespace ModuleLinker

/-- A field: one value, or with a positive count an inline array of that many. -/
structure Field where
  type : FieldType
  /-- Zero for a single value, otherwise the number of elements. -/
  count : UInt64 := 0
  /-- Byte offset inside the payload. -/
  offset : Nat := 0
  deriving DecidableEq

namespace Field

/-- Whether the field is an inline array. -/
def isArray (f : Field) : Bool := f.count ≠ 0

/-- The field with its type given to the module if it was pending. -/
def assign (owner : ModuleId) (f : Field) : Field := { f with type := f.type.assign owner }

end Field

/-- A structure of some module. -/
structure Structure where
  name : String
  owner : ModuleId
  /-- Position in the module's structure table. -/
  index : Nat
  fields : List Field
  layout : LayoutState := .notComputed
  deriving DecidableEq

namespace Structure

/-- Identity of a structure. -/
def id (s : Structure) : StructureId := ⟨s.owner, s.index⟩

/-- Descriptor of a structure type. -/
def descriptor (s : Structure) : TypeDescriptor := ⟨s.name, some s.owner, .struct s.index, s.layout⟩

/-- The structure owned by a module, with its pending fields owned by that module too. -/
def assign (owner : ModuleId) (s : Structure) : Structure :=
  { s with owner, fields := s.fields.map (Field.assign owner) }

variable (owner : ModuleId) (s : Structure)

@[simp] theorem assign_name : (s.assign owner).name = s.name := rfl
@[simp] theorem assign_id : (s.assign owner).id = ⟨owner, s.index⟩ := rfl
@[simp] theorem assign_layout : (s.assign owner).layout = s.layout := rfl

end Structure
end ModuleLinker
