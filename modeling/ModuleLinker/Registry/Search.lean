import ModuleLinker.FileSystem
import ModuleLinker.Path.ModulePath
import ModuleLinker.Registry.Error

/-!
# What a dependency spec means

A spec that starts with a slash is looked for in the library directories, in order, and means a
virtual module if no directory has a file for it. Any other spec is read from the directory of
the module that holds it: on disk for a module from a file, where the file has to exist, and by
name alone for a virtual module.
-/
namespace ModuleLinker

open Lexical

/-- The text behind the slash that an absolute spec starts with. -/
def librarySpec (spec : String) : String := String.ofList (spec.toList.drop 1)

/-- The canonical path of the file that an absolute spec means in the first directory that has
one. -/
def libraryFile? (fs : FileSystem) (directories : List String) (spec : String) : Option String :=
  directories.findSome? fun d => fs.file? (FilePath.join d (librarySpec spec))

/-- The path of the module that a spec means for the module at the path `requester`. -/
def resolveSpec (fs : FileSystem) (directories : List String) (requester : ModulePath)
    (spec : String) : Except LoadError ModulePath :=
  if spec = "" then .error (.dependency spec requester .emptySpec)
  else if isAbsolute spec then
    match libraryFile? fs directories spec with
    | some path => .ok (.file path)
    | none => .ok (.virtual spec)
  else
    match requester.parent.join spec with
    | .hosted text => .ok (.hosted text)
    | .file text =>
      match fs.canonicalize text with
      | .ok path => .ok (.file path)
      | .error _ => .error (.dependency spec requester .noFile)

end ModuleLinker
