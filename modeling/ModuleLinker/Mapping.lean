/-!
# Mappings

A mapping names a symbol of one of the module's dependencies. A module has one table of mapped
structures and one of mapped functions.
-/
namespace ModuleLinker

/-- A symbol that a dependency defines. -/
structure Mapping where
  /-- Position in the module's list of dependencies. -/
  dependency : UInt32
  name : String
  deriving DecidableEq

/-- The mapping tables of a module. -/
structure Mappings where
  structures : List Mapping := []
  functions : List Mapping := []
  deriving DecidableEq

namespace Mappings

/-- Append a mapped structure; gives its position. -/
def addStructure (m : Mappings) (dependency : UInt32) (name : String) : Nat × Mappings :=
  (m.structures.length, { m with structures := m.structures ++ [⟨dependency, name⟩] })

/-- Append a mapped function; gives its position. -/
def addFunction (m : Mappings) (dependency : UInt32) (name : String) : Nat × Mappings :=
  (m.functions.length, { m with functions := m.functions ++ [⟨dependency, name⟩] })

/-- Keep the first entries of each table. -/
def truncate (m : Mappings) (structures functions : Nat) : Mappings :=
  ⟨m.structures.take structures, m.functions.take functions⟩

@[simp] theorem truncate_length (m : Mappings) :
    m.truncate m.structures.length m.functions.length = m := by simp [truncate]

end Mappings
end ModuleLinker
