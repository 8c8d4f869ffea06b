import ModuleLinker.Image.Source
import ModuleLinker.Registry.Arena
import ModuleLinker.Registry.Attempt
import ModuleLinker.Registry.PathIndex

/-!
# The registry

A loader keeps the modules in an arena, the index of their paths, and the library directories in
which absolute specs are looked for. This module holds its state, what can be asked of it, and
how modules enter and leave it.
-/
namespace ModuleLinker

/-- The directories named in a list that separates them by colons; empty names do not count. -/
def directoryList (list : String) : List String :=
  ((Lexical.pieces ':' list.toList).map String.ofList).filter (· ≠ "")

/-- A registry of modules. -/
structure Loader where
  libraryDirectories : List String := []
  arena : Arena := []
  index : PathIndex := []

namespace Loader

/-- A registry without modules that searches the given directories. -/
def ofDirectories (libraryDirectories : List String) : Loader := { libraryDirectories }

/-- The identity that the next module gets. -/
def nextId (l : Loader) : ModuleId := .slot l.arena.length

/-- The module of an identity. -/
def module? (l : Loader) (id : ModuleId) : Option Module := l.arena.module? id

/-- Modules in the order of their registration. -/
def modules (l : Loader) : List Module := l.arena.live

/-- Number of paths under which a module is registered. -/
def moduleCount (l : Loader) : Nat := l.index.length

/-- The module under a path. A path that is not registered as it stands is looked up again in
its one canonical form. -/
def find? (fs : FileSystem) (l : Loader) (path : ModulePath) : Option ModuleId :=
  match l.index.find? path with
  | some id => some id
  | none =>
    match path with
    | .file text =>
      match fs.canonicalize text with
      | .ok canonical => l.index.find? (.file canonical)
      | .error _ => none
    | .hosted text => l.index.find? (.virtual text)

/-- The structure of an identity. -/
def structure? (l : Loader) (id : StructureId) : Option Structure := l.arena.structure? id

/-- The function of an identity. -/
def function? (l : Loader) (id : FunctionId) : Option Function := l.arena.function? id

/-- What is known of a type; nothing of a mapped type and of a structure that is not there. -/
def descriptor? (l : Loader) : FieldType → Option TypeDescriptor
  | .fundamental t => some t.descriptor
  | .struct id => (l.structure? id).map Structure.descriptor
  | .mapped _ => none

/-- The layout of a type, once it is known. -/
def layout? (l : Loader) (type : FieldType) : Option Layout :=
  (l.descriptor? type).bind fun d => d.layout.layout?

/-- Put a module into the next slot and under its path. -/
def register (l : Loader) (m : Module) : Loader :=
  { l with arena := l.arena ++ [some m], index := l.index.insert m.path m.id }

/-- Empty the slots with the given numbers and take the paths of their modules out. -/
def discard (l : Loader) : List Nat → Loader
  | [] => l
  | n :: ns =>
    match l.module? (.slot n) with
    | none => l.discard ns
    | some m =>
      discard { l with arena := l.arena.set n none, index := l.index.remove m.path } ns

/-- Give up every slot from `mark` on, and after them the given one. -/
def rollback (l : Loader) (mark : Nat) (also : Option ModuleId) : Loader :=
  l.discard ((List.range' mark (l.arena.length - mark)) ++ (also.bind ModuleId.number?).toList)

/-- Change the module of an identity. -/
def update (l : Loader) (id : ModuleId) (change : Module → Module) : Loader :=
  { l with arena := l.arena.update id change }

/-- Decode the file at a canonical path and register its module. -/
def registerFile (fs : FileSystem) (l : Loader) (path : String) :
    Except LoadError (ModuleId × Loader) :=
  match (do (← Source.ofFile fs path).descriptor) with
  | .error e => .error (.decode e)
  | .ok d => .ok (l.nextId, l.register (.ofDescriptor l.nextId (.file path) d))

@[simp] theorem length_register (l : Loader) (m : Module) :
    (l.register m).arena.length = l.arena.length + 1 := by simp [register]

@[simp] theorem find?_register (l : Loader) (m : Module) :
    (l.register m).index.find? m.path = some m.id := by simp [register]

end Loader
end ModuleLinker
