import ModuleLinker.ConstantPool
import ModuleLinker.Dependency
import ModuleLinker.Function
import ModuleLinker.Mapping
import ModuleLinker.Structure
import ModuleLinker.Version

/-!
# Module descriptions

All that an image says about a module. Structures and functions are owned by nobody yet, and
fields that mean structures of other modules are still mapped.
-/
namespace ModuleLinker

/-- The contents of an image. -/
structure Descriptor where
  /-- Canonical path of the file, if the image was read from one. -/
  path : Option String := none
  fileVersion : Version := .latest
  instructionSet : Version := .latest
  dependencies : List Dependency := []
  mappings : Mappings := {}
  constants : ConstantPool := {}
  structures : List Structure := []
  functions : List Function := []
  entry : Instructions := {}
  deriving DecidableEq

namespace Descriptor

/-- Declare a dependency. -/
def addDependency (d : Descriptor) (spec : String) : Descriptor :=
  { d with dependencies := d.dependencies ++ [⟨spec, none⟩] }

/-- Append a structure at the next position. -/
def addStructure (d : Descriptor) (name : String) (fields : List Field) : Descriptor :=
  let s : Structure := { name, owner := .pending, index := d.structures.length, fields }
  { d with structures := d.structures ++ [s] }

/-- Append a function at the next position. -/
def addFunction (d : Descriptor) (name : String) (arity : UInt16) (hasResult : Bool)
    (body : FunctionBody) : Descriptor :=
  { d with
    functions := d.functions ++ [⟨name, .pending, d.functions.length, arity, hasResult, body⟩] }

/-- The first structure of a name. -/
def structure? (d : Descriptor) (name : String) : Option Structure :=
  d.structures.find? fun s => s.name = name

/-- The first function of a name. -/
def function? (d : Descriptor) (name : String) : Option Function :=
  d.functions.find? fun f => f.name = name

/-- Equality of descriptions whose floats are compared as numbers. -/
def sameNumbers (d e : Descriptor) : Bool :=
  { d with constants := e.constants } = e && d.constants.sameNumbers e.constants

end Descriptor
end ModuleLinker
