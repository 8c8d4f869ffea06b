import ModuleLinker.Path.ModulePath
import ModuleLinker.Ident

/-!
# Path indexes

A path index tells which module is registered under a path. Paths that have the same identity
are the same key, and a key has at most one module.
-/
namespace ModuleLinker

/-- Paths and the modules registered under them. -/
abbrev PathIndex := List (ModulePath × ModuleId)

namespace PathIndex

/-- The module under a path. -/
def find? (index : PathIndex) (path : ModulePath) : Option ModuleId :=
  (List.find? (fun e => e.1.identity = path.identity) index).map Prod.snd

/-- Take a path out. -/
def remove (index : PathIndex) (path : ModulePath) : PathIndex :=
  index.filter fun e => e.1.identity ≠ path.identity

/-- Put a module under a path. -/
def insert (index : PathIndex) (path : ModulePath) (id : ModuleId) : PathIndex :=
  (path, id) :: remove index path

@[simp] theorem find?_insert (index : PathIndex) (path : ModulePath) (id : ModuleId) :
    find? (insert index path id) path = some id := by
  simp [find?, insert]

theorem find?_remove_of_ne (index : PathIndex) {path other : ModulePath}
    (h : other.identity ≠ path.identity) :
    find? (remove index path) other = find? index other := by
  simp only [find?, remove, List.find?_filter]
  congr 2
  funext e
  by_cases he : e.1.identity = other.identity <;> simp [he, h]

theorem find?_insert_of_ne (index : PathIndex) {path other : ModulePath} (id : ModuleId)
    (h : other.identity ≠ path.identity) :
    find? (insert index path id) other = find? index other := by
  rw [← find?_remove_of_ne index h, insert, find?, List.find?_cons_of_neg (by simpa using h.symm)]
  rfl

end PathIndex
end ModuleLinker
