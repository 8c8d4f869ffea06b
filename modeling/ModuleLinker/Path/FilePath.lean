import ModuleLinker.Path.Lexical

/-!
# Paths of files

The path of a file is kept as it was written. Two texts are the same path when they have the
same components: doubled and trailing slashes do not count, nor does `.` behind the start.
-/
namespace ModuleLinker.FilePath

open Lexical

/-- A component of a path. -/
inductive Component where
  | root
  /-- A leading `.`. -/
  | here
  | parent
  | child (name : String)
  deriving DecidableEq

/-- Whether a relative path starts with the step `.`. -/
def startsHere (path : String) : Bool := (split path).head? = some "."

/-- The components of a path in order. -/
def components (path : String) : List Component :=
  (if isAbsolute path then [.root] else if startsHere path then [.here] else []) ++
    (steps path).map fun s => if s = ".." then .parent else .child s

/-- The pieces up to the last one that moves. -/
def trimEnd (pieces : List String) : List String :=
  (pieces.reverse.dropWhile fun p => !isStep p).reverse

/-- The path without its last component, kept as written otherwise; empty if there is nothing
in front of that component. -/
def parent (path : String) : String :=
  let start := if isAbsolute path then "/" else if startsHere path then "." else ""
  let body := split (String.ofList (path.toList.drop start.length))
  match trimEnd body with
  | [] => ""
  | steps => start ++ "/".intercalate (trimEnd steps.dropLast)

/-- The path `spec` seen from a directory; an absolute one replaces the directory. -/
def join (directory spec : String) : String :=
  if isAbsolute spec then spec
  else if directory = "" || directory.toList.getLast? = some '/' then directory ++ spec
  else directory ++ "/" ++ spec

end ModuleLinker.FilePath
