import ModuleLinker.Ident
import ModuleLinker.Path.Lexical

/-!
# Dependencies

A module names the modules it depends on by specs. Resolution finds the module that a spec
means and records it beside the spec.
-/
namespace ModuleLinker

/-- A declared dependency and the module it was resolved to. -/
structure Dependency where
  spec : String
  target : Option ModuleId := none
  deriving DecidableEq

namespace Dependency

/-- Whether the spec is looked for in the library directories. -/
def isAbsolute (d : Dependency) : Bool := Lexical.isAbsolute d.spec

/-- Whether the dependency has been resolved. -/
def isResolved (d : Dependency) : Bool := d.target.isSome

end Dependency
end ModuleLinker
