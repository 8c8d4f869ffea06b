import ModuleLinker.Path.FilePath

/-!
# Paths of modules

A module is known by the path of its file or, if a host made it, by a virtual path, a text of
steps between slashes that no file system knows. A relative spec is read from the directory of
the module that holds it, and leads to a path of the same kind.
-/
namespace ModuleLinker

/-- Where a module is: in a file, or under a virtual name. -/
inductive ModulePath where
  | file (text : String)
  | hosted (text : String)
  deriving DecidableEq

namespace ModulePath

open Lexical

/-- The virtual path of a text, in normal form. -/
def virtual (text : String) : ModulePath := .hosted (normalize text)

/-- Whether the path is a virtual one. -/
def isVirtual : ModulePath → Bool
  | file _ => false
  | hosted _ => true

/-- The directory from which relative specs are read. A virtual path loses the text from its
last slash on, but the root keeps its own. -/
def parent : ModulePath → ModulePath
  | file text => .file (FilePath.parent text)
  | hosted text =>
    match (split text).dropLast with
    | [""] => .hosted "/"
    | names => .hosted ("/".intercalate names)

/-- The path of a spec seen from a directory, in normal form. In the virtual world a leading
slash of the spec does not lead back to the root. -/
def join (directory : ModulePath) (spec : String) : ModulePath :=
  match directory with
  | file text => .file (normalize (FilePath.join text spec))
  | hosted "" => virtual spec
  | hosted text => virtual (text ++ "/" ++ spec)

/-- A path as it appears in messages. -/
def text : ModulePath → String
  | file text => text
  | hosted text => "virtual:" ++ text

/-- What makes two paths the same: the components of a file path, the text of a virtual one. -/
inductive Identity where
  | file (components : List FilePath.Component)
  | hosted (text : String)
  deriving DecidableEq

/-- The identity of a path. -/
def identity : ModulePath → Identity
  | file text => .file (FilePath.components text)
  | hosted text => .hosted text

end ModulePath
end ModuleLinker
