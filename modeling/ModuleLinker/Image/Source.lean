import ModuleLinker.Image.Decode

/-!
# Sources of images

A source holds the bytes of one image, from a file or from memory, and the description once it
has been parsed. A description read from a file carries the canonical path of the file.
-/
namespace ModuleLinker

/-- The bytes of an image and what they were found to say. -/
structure Source where
  /-- Canonical path of the file that holds the bytes, if one does. -/
  path : Option String
  bytes : List UInt8
  parsed : Option Descriptor := none

namespace Source

/-- The source in a file; an error names the path as it was given. -/
def ofFile (fs : FileSystem) (path : String) : Except DecodeError Source :=
  match fs.canonicalize path with
  | .error cause => .error (.unreadable path cause)
  | .ok canonical =>
    match fs.read canonical with
    | .error cause => .error (.unreadable path cause)
    | .ok bytes => .ok { path := some canonical, bytes }

/-- The source in memory. -/
def ofBytes (bytes : List UInt8) : Source := { path := none, bytes }

/-- The description in the bytes, with the path of the file. -/
def descriptor (s : Source) : Except DecodeError Descriptor :=
  (decode s.bytes).map fun d => { d with path := s.path }

/-- Decode the bytes and keep the description; a failure keeps what was there. -/
def parse (s : Source) : Except DecodeError Unit × Source :=
  match s.descriptor with
  | .error e => (.error e, s)
  | .ok d => (.ok (), { s with parsed := some d })

/-- The description found by parsing. -/
def result (s : Source) : Except DecodeError Descriptor :=
  match s.parsed with
  | none => .error .notParsed
  | some d => .ok d

end Source
end ModuleLinker
