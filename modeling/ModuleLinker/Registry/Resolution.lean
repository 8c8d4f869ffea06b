import ModuleLinker.Registry.Loader
import ModuleLinker.Registry.Search

/-!
# Resolving dependencies

Starting from one module, every declared dependency is resolved to a registered module. A file
that is not registered yet is decoded, registered and waits to have its own dependencies
resolved, so that the registry grows by all that the first module needs. A virtual module can be
depended on only when it is built, or when it is the module that is just being built.
-/
namespace ModuleLinker
namespace Loader

/-- The module that a spec of `requester` means, and the module registered for it on the spot,
if it was not there before. -/
def resolveTarget (fs : FileSystem) (l : Loader) (requester : ModulePath) (spec : String) :
    Except LoadError (ModuleId × Option ModuleId × Loader) := do
  let path ← resolveSpec fs l.libraryDirectories requester spec
  match l.index.find? path, path with
  | some target, _ => return (target, none, l)
  | none, .file text =>
    let (target, l) ← l.registerFile fs text
    return (target, some target, l)
  | none, .hosted _ => throw (.dependency spec requester .noModule)

/-- Whether `root` may not be made to depend on `target`: a virtual module that waits for a
build of its own. -/
def isUnbuilt (l : Loader) (root target : ModuleId) : Bool :=
  match l.module? target with
  | some m => m.needsBuild && target ≠ root
  | none => false

/-- Resolve the specs of the module `id` from a position on; gives the modules registered on
the way. -/
def resolveSpecs (fs : FileSystem) (root id : ModuleId) (requester : ModulePath) :
    Loader → Nat → List String → Attempt Loader (List ModuleId)
  | l, _, [] => (.ok [], l)
  | l, position, spec :: specs =>
    match l.resolveTarget fs requester spec with
    | .error e => (.error e, l)
    | .ok (target, added, l) =>
      if l.isUnbuilt root target then (.error (.dependency spec requester .notBuilt), l)
      else
        match resolveSpecs fs root id requester
            (l.update id fun m => m.resolveDependency position target) (position + 1) specs with
        | (.error e, l) => (.error e, l)
        | (.ok rest, l) => (.ok (added.toList ++ rest), l)

/-- Resolve the dependencies of the modules that wait and of every module registered on the
way; gives all of them in order. The fuel bounds their number. -/
def resolveWaiting (fs : FileSystem) (root : ModuleId) :
    Nat → Loader → List ModuleId → Attempt Loader (List ModuleId)
  | _, l, [] => (.ok [], l)
  | 0, l, id :: _ => (.error (.unknownModule id), l)
  | fuel + 1, l, id :: waiting =>
    match l.module? id with
    | none => (.error (.unknownModule id), l)
    | some m =>
      match l.resolveSpecs fs root id m.path 0 (m.dependencies.map Dependency.spec) with
      | (.error e, l) => (.error e, l)
      | (.ok added, l) =>
        match resolveWaiting fs root fuel l (waiting ++ added) with
        | (.error e, l) => (.error e, l)
        | (.ok rest, l) => (.ok (id :: rest), l)

/-- Resolve the dependencies of a module and of every module registered on its behalf; gives
all of them, the module first. Each but the first comes from a file of its own. -/
def resolveFrom (fs : FileSystem) (l : Loader) (root : ModuleId) : Attempt Loader (List ModuleId) :=
  l.resolveWaiting fs root (fs.entries.length + 1) [root]

end Loader
end ModuleLinker
