import ModuleLinker.Registry.Link
import ModuleLinker.Registry.Placement
import ModuleLinker.Registry.Resolution

/-!
# Loading and building

Loading a file and building a module of the host complete a module and all that it newly needs:
dependencies are resolved, names linked, cycles refused and structures laid out. A call that
fails gives up every module that it registered. A module of the host that was built before goes
back to the tables of that build; one that never was is given up as well.
-/
namespace ModuleLinker
namespace Loader

/-- Link and lay out the given modules, then count those of the host as built. -/
def settle (l : Loader) (targets : List ModuleId) : Attempt Loader Unit :=
  match l.arena.linkAll targets with
  | (.error e, arena) => (.error e, { l with arena })
  | (.ok (), arena) =>
    match arena.checkCycles targets with
    | .error e => (.error e, { l with arena })
    | .ok () =>
      match arena.computeLayouts targets with
      | (.error e, arena) => (.error e, { l with arena })
      | (.ok (), arena) =>
        (.ok (), { l with arena := targets.foldl (fun a id => a.update id Module.markBuilt) arena })

/-- Complete a registered module with all that it newly needs. -/
def complete (fs : FileSystem) (l : Loader) (root : ModuleId) : Attempt Loader Unit :=
  match l.resolveFrom fs root with
  | (.error e, l) => (.error e, l)
  | (.ok targets, l) => l.settle targets

/-- Load the module in a file with everything it depends on. A file that is registered already
is not read again. -/
def load (fs : FileSystem) (l : Loader) (path : String) : Attempt Loader ModuleId :=
  match fs.canonicalize path with
  | .error cause => (.error (.decode (.unreadable path cause)), l)
  | .ok canonical =>
    match l.index.find? (.file canonical) with
    | some id => (.ok id, l)
    | none =>
      match l.registerFile fs canonical with
      | .error e => (.error e, l)
      | .ok (id, registered) =>
        match registered.complete fs id with
        | (.error e, left) => (.error e, left.rollback l.arena.length none)
        | (.ok (), done) => (.ok id, done)

/-- Register an empty module of the host under a virtual path that starts with a slash. -/
def create (l : Loader) (path : String) : Attempt Loader ModuleId :=
  if !Lexical.isAbsolute path then (.error (.invalidVirtualPath path), l)
  else
    match l.index.find? (.virtual path) with
    | some _ => (.error (.duplicateModule (.virtual path)), l)
    | none => (.ok l.nextId, l.register (.hosted l.nextId (.virtual path)))

/-- Take a module of the host back to its last successful build after a build that failed, and
give up the slots from `mark` on; without such a build give the module up. -/
def revert (l : Loader) (mark : Nat) (id : ModuleId) : Loader :=
  match (l.module? id).bind Module.restored? with
  | some restored => (l.update id fun _ => restored).rollback mark none
  | none => l.rollback mark (some id)

/-- Build a module of the host. -/
def build (fs : FileSystem) (l : Loader) (id : ModuleId) : Attempt Loader Unit :=
  match l.module? id with
  | none => (.error (.unknownModule id), l)
  | some m =>
    if !m.isHosted then (.error (.notVirtual id), l)
    else
      match l.complete fs id with
      | (.error e, left) => (.error e, left.revert l.arena.length id)
      | (.ok (), done) => (.ok (), done)

/-- Forget every module; the library directories stay. -/
def clear (l : Loader) : Loader := { l with arena := [], index := [] }

/-- Search one more library directory, after the others. A directory that does not exist is
kept in the normal form of its path. -/
def addLibraryDirectory (fs : FileSystem) (l : Loader) (path : String) : Loader :=
  let directory := match fs.canonicalize path with
    | .ok canonical => canonical
    | .error _ => Lexical.normalize path
  { l with libraryDirectories := l.libraryDirectories ++ [directory] }

end Loader
end ModuleLinker
