import ModuleLinker.Path.Lexical

/-!
# File systems

A file system is a finite tree without symbolic links: directories and files at places, a place
being the names on the way from the root. A path leads to a place through directories that all
have to exist; what follows a file, be it only a slash, leads nowhere. A relative path is read from
the current directory.
-/
namespace ModuleLinker

/-- What is at a place. -/
inductive Node where
  | directory
  | file (bytes : List UInt8)
  deriving DecidableEq

/-- Why a file operation fails. -/
inductive FileError where
  | notFound
  | notADirectory
  | isADirectory
  deriving DecidableEq

/-- Wording of a file error. -/
def FileError.message : FileError → String
  | notFound => "No such file or directory (os error 2)"
  | notADirectory => "Not a directory (os error 20)"
  | isADirectory => "Is a directory (os error 21)"

/-- A tree of files: its entries by place, the root left out, and the path of the directory from
which relative paths are read. -/
structure FileSystem where
  entries : List (List String × Node) := []
  current : String := "/"

namespace FileSystem

open Lexical

/-- What is at a place; the root is always a directory. -/
def node? (fs : FileSystem) (place : List String) : Option Node :=
  if place = [] then some .directory
  else (fs.entries.find? fun e => e.1 = place).map Prod.snd

/-- Follow the pieces of a path from a place where there is the given node. -/
def walk (fs : FileSystem) (place : List String) (node : Node) :
    List String → Except FileError (List String × Node)
  | [] => .ok (place, node)
  | piece :: rest =>
    match node with
    | .file _ => .error .notADirectory
    | .directory =>
      if !isStep piece then fs.walk place .directory rest
      else if piece = ".." then fs.walk place.dropLast .directory rest
      else match fs.node? (place ++ [piece]) with
        | none => .error .notFound
        | some next => fs.walk (place ++ [piece]) next rest

/-- The pieces along which a path leads from the root. -/
def route (fs : FileSystem) (path : String) : List String :=
  (if isAbsolute path then [] else split fs.current) ++ split path

/-- The place that a path leads to, and what is there. The empty path leads nowhere. -/
def resolve (fs : FileSystem) (path : String) : Except FileError (List String × Node) :=
  if path = "" then .error .notFound else fs.walk [] .directory (fs.route path)

/-- The one absolute path in normal form of the place that a path leads to. -/
def canonicalize (fs : FileSystem) (path : String) : Except FileError String :=
  (fs.resolve path).map fun found => render true found.1

/-- A path that is looked up as a whole has to be shorter than this many bytes. -/
def pathLimit : Nat := 4096

/-- The canonical path of a regular file that a path leads to. Unlike canonicalization, which
goes name by name, this looks the path up as a whole. -/
def file? (fs : FileSystem) (path : String) : Option String :=
  if path.utf8ByteSize < pathLimit then
    match fs.resolve path with
    | .ok (place, .file _) => some (render true place)
    | _ => none
  else none

/-- The contents of a file. -/
def read (fs : FileSystem) (path : String) : Except FileError (List UInt8) :=
  match fs.resolve path with
  | .error e => .error e
  | .ok (_, .directory) => .error .isADirectory
  | .ok (_, .file bytes) => .ok bytes

/-- Put a node at a place, in the stead of what was there. -/
def put (fs : FileSystem) (place : List String) (node : Node) : FileSystem :=
  { fs with entries := (place, node) :: fs.entries.filter fun e => e.1 ≠ place }

/-- Take away what is at a place and below. -/
def removeTree (fs : FileSystem) (place : List String) : FileSystem :=
  { fs with entries := fs.entries.filter fun e => !place.isPrefixOf e.1 }

/-- Write a file. The directory above it has to exist, and the path has to end in its name: a
path that ends in a slash, `.` or `..` asks for a directory, whatever is there. -/
def write (fs : FileSystem) (path : String) (bytes : List UInt8) : Except FileError FileSystem := do
  if path = "" then .error .notFound
  let pieces := fs.route path
  let names := (pieces.reverse.dropWhile (· = "")).reverse
  match names.getLast? with
  | none => .error .isADirectory
  | some last =>
    match ← fs.walk [] .directory names.dropLast with
    | (_, .file _) => .error .notADirectory
    | (place, .directory) =>
      if !isStep last || last = ".." || names.length < pieces.length
          || fs.node? (place ++ [last]) = some .directory then
        .error .isADirectory
      else .ok (fs.put (place ++ [last]) (.file bytes))

/-- Create the missing directories on the way along some pieces, as far as no file is in it. -/
def makeDirectories (fs : FileSystem) (place : List String) : List String → FileSystem
  | [] => fs
  | piece :: rest =>
    if !isStep piece then fs.makeDirectories place rest
    else if piece = ".." then fs.makeDirectories place.dropLast rest
    else match fs.node? (place ++ [piece]) with
      | none => (fs.put (place ++ [piece]) .directory).makeDirectories (place ++ [piece]) rest
      | some .directory => fs.makeDirectories (place ++ [piece]) rest
      | some (.file _) => fs

/-- Create the directories of a path. -/
def createDirectory (fs : FileSystem) (path : String) : FileSystem :=
  fs.makeDirectories [] (fs.route path)

/-- Write a file after creating the directories above it. -/
def writeBelow (fs : FileSystem) (path : String) (bytes : List UInt8) :
    Except FileError FileSystem :=
  (fs.makeDirectories [] (fs.route path).dropLast).write path bytes

/-- Remove a file, or a directory with all that is below. -/
def remove (fs : FileSystem) (path : String) : FileSystem :=
  match fs.resolve path with
  | .ok (place, _) => fs.removeTree place
  | .error _ => fs

end FileSystem
end ModuleLinker
