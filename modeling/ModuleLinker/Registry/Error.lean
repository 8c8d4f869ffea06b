import ModuleLinker.Image.Error
import ModuleLinker.Ident
import ModuleLinker.Path.ModulePath

/-!
# Load errors

Why a module cannot be loaded, created or built. A call fails with the first fault it meets; the
message names the module and the symbol that are at fault.
-/
namespace ModuleLinker

/-- Why a dependency spec leads to no module. -/
inductive UnresolvedReason where
  | emptySpec
  | noFile
  | noModule
  | notBuilt
  | notResolved
  deriving DecidableEq

/-- A reason in words. -/
def UnresolvedReason.text : UnresolvedReason → String
  | emptySpec => "empty dependency path"
  | noFile => "no such module file"
  | noModule => "no module file or virtual module with this path"
  | notBuilt => "virtual module has not been built"
  | notResolved => "dependency was not resolved"

/-- What a mapping refers to. -/
inductive SymbolKind where
  | struct
  | function
  deriving DecidableEq

/-- A kind of symbol in words. -/
def SymbolKind.text : SymbolKind → String
  | .struct => "structure"
  | .function => "function"

/-- A structure on a cycle. -/
structure CycleEntry where
  id : StructureId
  name : String
  deriving DecidableEq

/-- A cycle as it appears in messages: the names in order, and the first again. -/
def cycleText (cycle : List CycleEntry) : String :=
  " -> ".intercalate ((cycle ++ cycle.take 1).map CycleEntry.name)

/-- Why a module cannot be loaded, created or built. -/
inductive LoadError where
  | decode (cause : DecodeError)
  | dependency (spec : String) (requester : ModulePath) (reason : UnresolvedReason)
  | structureCycle (path : List CycleEntry)
  | link (owner : ModulePath) (spec : String) (kind : SymbolKind) (symbol : String)
  | layoutOverflow (owner : ModulePath) (name : String)
  | unknownModule (id : ModuleId)
  | notVirtual (id : ModuleId)
  | danglingDependency (owner : ModulePath) (index count : Nat)
  | danglingMapping (owner : ModulePath) (index count : Nat)
  | danglingStructure (id : StructureId)
  | invalidFieldType (name : String) (field : Nat)
  | invalidVirtualPath (path : String)
  | duplicateModule (path : ModulePath)
  deriving DecidableEq

/-- Coarse class of a load error. -/
inductive LoadErrorKind where
  | unreadable
  | format
  | version
  | malformed
  | dependency
  | structureCycle
  | link
  | overflow
  /-- The registry was asked for something that its state does not allow. -/
  | usage
  deriving DecidableEq

namespace LoadError

/-- The class of a load error. -/
def kind : LoadError → LoadErrorKind
  | decode cause =>
    match cause.kind with
    | .unreadable => .unreadable
    | .format => .format
    | .version => .version
    | .malformed => .malformed
  | dependency .. => .dependency
  | structureCycle .. => .structureCycle
  | link .. => .link
  | layoutOverflow .. => .overflow
  | unknownModule .. | notVirtual .. | danglingDependency .. | danglingMapping ..
  | danglingStructure .. | invalidFieldType .. | invalidVirtualPath ..
  | duplicateModule .. => .usage

/-- Wording of a load error. -/
def message : LoadError → String
  | decode cause => cause.message
  | dependency spec requester reason =>
    s!"cannot resolve dependency `{spec}` of {requester.text}: {reason.text}"
  | structureCycle path => s!"structure contains itself: {cycleText path}"
  | link owner spec kind symbol =>
    s!"{kind.text} `{symbol}` mapped by {owner.text} not found in dependency `{spec}`"
  | layoutOverflow owner name => s!"structure `{name}` in {owner.text} is too large to lay out"
  | unknownModule id => s!"no module with id {id.text}"
  | notVirtual id => s!"module {id.text} is not a virtual module"
  | danglingDependency owner index count =>
    s!"{owner.text} refers to dependency {index}, but only {count} are declared"
  | danglingMapping owner index count =>
    s!"{owner.text} refers to structure mapping {index}, but only {count} are declared"
  | danglingStructure id => s!"field type refers to missing structure {id.text}"
  | invalidFieldType name field =>
    s!"field {field} of structure `{name}` has a type with no storage"
  | invalidVirtualPath path => s!"virtual module path `{path}` must start with `/`"
  | duplicateModule path => s!"a module is already registered at {path.text}"

/-- The cycle that an error reports, if it reports one. -/
def cycle? : LoadError → Option (List CycleEntry)
  | structureCycle path => some path
  | _ => none

end LoadError
end ModuleLinker
