import ModuleLinker.Image.Descriptor
import ModuleLinker.Path.ModulePath

/-!
# Registered modules

A registered module is either read from a file, with everything its image says, or made by the
host, who adds to it and then builds it. A successful build records how long the tables are, so
that a later build that fails can cut off what was added since.
-/
namespace ModuleLinker

/-- Table lengths at the last successful build. -/
structure Checkpoint where
  dependencies : Nat
  structureMappings : Nat
  functionMappings : Nat
  structures : Nat
  functions : Nat
  deriving DecidableEq

/-- Where a module comes from, with what only modules of that origin have. -/
inductive Origin where
  | file (fileVersion instructionSet : Version) (constants : ConstantPool) (entry : Instructions)
  /-- Made by the host: whether it is built, and its last successful build. -/
  | host (built : Bool) (checkpoint : Option Checkpoint)
  deriving DecidableEq

/-- A registered module. -/
structure Module where
  id : ModuleId
  path : ModulePath
  origin : Origin
  dependencies : List Dependency := []
  mappings : Mappings := {}
  structures : List Structure := []
  functions : List Function := []
  /-- What the mapped functions were linked to. -/
  functionLinks : List FunctionId := []
  deriving DecidableEq

namespace Module

/-- The module that a description makes when it is registered under an identity and a path. -/
def ofDescriptor (id : ModuleId) (path : ModulePath) (d : Descriptor) : Module where
  id := id
  path := path
  origin := .file d.fileVersion d.instructionSet d.constants d.entry
  dependencies := d.dependencies
  mappings := d.mappings
  structures := d.structures.map (Structure.assign id)
  functions := d.functions.map (Function.assign id)

/-- A new module of the host. -/
def hosted (id : ModuleId) (path : ModulePath) : Module where
  id := id
  path := path
  origin := .host false none

/-- Whether the host made the module. -/
def isHosted (m : Module) : Bool :=
  match m.origin with
  | .file .. => false
  | .host .. => true

/-- Whether the module is one of the host's that has to be built before others may use it. -/
def needsBuild (m : Module) : Bool :=
  match m.origin with
  | .host built _ => !built
  | .file .. => false

/-- The first structure of a name. -/
def structureNamed? (m : Module) (name : String) : Option Structure :=
  m.structures.find? fun s => s.name = name

/-- The first function of a name. -/
def functionNamed? (m : Module) (name : String) : Option Function :=
  m.functions.find? fun f => f.name = name

/-- A module of the host that has to be built again; other modules stay. -/
def unbuilt (m : Module) : Module :=
  match m.origin with
  | .host _ checkpoint => { m with origin := .host false checkpoint }
  | .file .. => m

/-- A module of the host that is built, its table lengths recorded; other modules stay. -/
def markBuilt (m : Module) : Module :=
  match m.origin with
  | .host .. =>
    { m with
      origin := .host true (some
        { dependencies := m.dependencies.length
          structureMappings := m.mappings.structures.length
          functionMappings := m.mappings.functions.length
          structures := m.structures.length
          functions := m.functions.length }) }
  | .file .. => m

/-- The module with its tables cut to the lengths of its last successful build, if it had one. -/
def restored? (m : Module) : Option Module :=
  match m.origin with
  | .host _ (some c) =>
    some
      { m with
        origin := .host true (some c)
        dependencies := m.dependencies.take c.dependencies
        mappings := m.mappings.truncate c.structureMappings c.functionMappings
        functionLinks := m.functionLinks.take c.functionMappings
        structures := m.structures.take c.structures
        functions := m.functions.take c.functions }
  | _ => none

/-- Record the module that a dependency was resolved to. -/
def resolveDependency (m : Module) (position : Nat) (target : ModuleId) : Module :=
  { m with
    dependencies := m.dependencies.modify position fun d => { d with target := some target } }

/-- Declare a dependency; gives its position. -/
def addDependency (m : Module) (spec : String) : Nat × Module :=
  (m.dependencies.length, { m.unbuilt with dependencies := m.dependencies ++ [⟨spec, none⟩] })

/-- Map a structure of a dependency; gives the mapping's position. -/
def addStructureMapping (m : Module) (dependency : UInt32) (name : String) : Nat × Module :=
  let (position, mappings) := m.mappings.addStructure dependency name
  (position, { m.unbuilt with mappings })

/-- Map a function of a dependency; gives the mapping's position. -/
def addFunctionMapping (m : Module) (dependency : UInt32) (name : String) : Nat × Module :=
  let (position, mappings) := m.mappings.addFunction dependency name
  (position, { m.unbuilt with mappings })

/-- Add a structure, its pending fields being of the module's own structures; gives its
identity. -/
def addStructure (m : Module) (name : String) (fields : List Field) : StructureId × Module :=
  let s : Structure := Structure.assign m.id
    { name, owner := m.id, index := m.structures.length, fields }
  (s.id, { m.unbuilt with structures := m.structures ++ [s] })

/-- Add a function; gives its identity. -/
def addFunction (m : Module) (name : String) (arity : UInt16) (hasResult : Bool)
    (body : FunctionBody) : FunctionId × Module :=
  let f : Function := { name, owner := m.id, index := m.functions.length, arity, hasResult, body }
  (f.id, { m.unbuilt with functions := m.functions ++ [f] })

@[simp] theorem markBuilt_id (m : Module) : m.markBuilt.id = m.id := by
  simp only [markBuilt]; split <;> rfl
@[simp] theorem markBuilt_path (m : Module) : m.markBuilt.path = m.path := by
  simp only [markBuilt]; split <;> rfl

end Module
end ModuleLinker
