import ModuleLinker.Registry.Loader

/-!
# Adding to modules of the host

The host fills a module of its own before it builds it, and may add to it later. Whatever is
added, the module has to be built again. Nothing can be added to a module from a file.
-/
namespace ModuleLinker
namespace Loader

/-- Add to a module of the host; nothing for any other identity. -/
def author (l : Loader) (id : ModuleId) (add : Module → α × Module) : Option (α × Loader) :=
  match l.module? id with
  | none => none
  | some m =>
    if m.isHosted then some ((add m).1, l.update id fun _ => (add m).2) else none

/-- Declare a dependency. -/
def addDependency (l : Loader) (id : ModuleId) (spec : String) : Option (Nat × Loader) :=
  l.author id fun m => m.addDependency spec

/-- Map a structure of a dependency. -/
def addStructureMapping (l : Loader) (id : ModuleId) (dependency : UInt32) (name : String) :
    Option (Nat × Loader) :=
  l.author id fun m => m.addStructureMapping dependency name

/-- Map a function of a dependency. -/
def addFunctionMapping (l : Loader) (id : ModuleId) (dependency : UInt32) (name : String) :
    Option (Nat × Loader) :=
  l.author id fun m => m.addFunctionMapping dependency name

/-- Add a structure. -/
def addStructure (l : Loader) (id : ModuleId) (name : String) (fields : List Field) :
    Option (StructureId × Loader) :=
  l.author id fun m => m.addStructure name fields

/-- Add a function. -/
def addFunction (l : Loader) (id : ModuleId) (name : String) (arity : UInt16) (hasResult : Bool)
    (body : FunctionBody) : Option (FunctionId × Loader) :=
  l.author id fun m => m.addFunction name arity hasResult body

end Loader
end ModuleLinker
