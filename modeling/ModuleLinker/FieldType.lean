import ModuleLinker.Ident
import ModuleLinker.TypeCode

/-!
# Types of fields

A field has a built-in type, the type of a structure, or an entry of the module's structure
mappings, which linking replaces by a structure. A descriptor collects what is known of a type
that is not mapped any more.
-/
namespace ModuleLinker

/-- The type of a field. -/
inductive FieldType where
  | fundamental (type : Fundamental)
  | struct (id : StructureId)
  /-- An entry of the owning module's structure mappings; linking replaces it. -/
  | mapped (index : Nat)
  deriving DecidableEq

namespace FieldType

/-- A type as it appears in listings. -/
def text : FieldType → String
  | fundamental t => t.name
  | struct id => s!"struct {id.text}"
  | mapped index => s!"mapping[{index}]"

/-- Whether it is a built-in type with storage. -/
def isStorableFundamental : FieldType → Bool
  | fundamental t => t.isStorable
  | _ => false

/-- Whether it is one of the two pointer types. -/
def isPointer : FieldType → Bool
  | fundamental .pointer | fundamental .gcPointer => true
  | _ => false

/-- Whether it is the built-in array type. -/
def isArray : FieldType → Bool
  | fundamental .array => true
  | _ => false

/-- Whether it is anything but the type `none`. -/
def isValid : FieldType → Bool
  | fundamental .none => false
  | _ => true

/-- Whether it needs no linking. -/
def isResolved : FieldType → Bool
  | mapped _ => false
  | _ => true

/-- The structure it is, if it is one. -/
def structureId? : FieldType → Option StructureId
  | struct id => some id
  | _ => none

/-- The built-in type it is, if it is one. -/
def fundamental? : FieldType → Option Fundamental
  | fundamental t => some t
  | _ => none

/-- A pending structure becomes one of the given module; other types stay. -/
def assign (owner : ModuleId) : FieldType → FieldType
  | struct id => if id.owner.isAssigned then struct id else struct (id.ownedBy owner)
  | t => t

@[simp] theorem structureId?_eq_some {t : FieldType} {id : StructureId} :
    t.structureId? = some id ↔ t = struct id := by
  cases t <;> simp [structureId?]

end FieldType

/-- What is known of a type: its name, its module unless it is built in, its code and layout. -/
structure TypeDescriptor where
  name : String
  owner : Option ModuleId
  code : TypeCode
  layout : LayoutState
  deriving DecidableEq

/-- Descriptor of a built-in type. -/
def Fundamental.descriptor (t : Fundamental) : TypeDescriptor :=
  ⟨t.name, Option.none, .fundamental t, .done t.layout⟩

end ModuleLinker
