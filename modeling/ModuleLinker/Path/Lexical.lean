/-!
# Paths as text

A path is a text of steps between slashes. An empty step and `.` stay in place, `..` goes to the
parent and stays in place at the top, any other step is the name of a child. The normal form
names the place that a path leads to, without reading a file system.
-/
namespace ModuleLinker.Lexical

/-- The texts between the separators of a text; there is always at least one. -/
def pieces (separator : Char) : List Char → List (List Char)
  | [] => [[]]
  | c :: cs =>
    if c = separator then [] :: pieces separator cs
    else match pieces separator cs with
      | [] => [[c]]
      | p :: ps => (c :: p) :: ps

/-- The texts between the slashes of a path. -/
def split (path : String) : List String := (pieces '/' path.toList).map String.ofList

/-- Whether a path starts at the root. -/
def isAbsolute (path : String) : Bool := path.toList.head? = some '/'

/-- Whether a piece moves: it is neither empty nor `.`. -/
def isStep (piece : String) : Bool := piece ≠ "" && piece ≠ "."

/-- The pieces of a path that move. -/
def steps (path : String) : List String := (split path).filter isStep

/-- The place reached from a place by one step. -/
def move (place : List String) (step : String) : List String :=
  if step = ".." then place.dropLast else place ++ [step]

/-- The place reached from the start by all steps. -/
def place (steps : List String) : List String := steps.foldl move []

/-- The text of names one below the other. -/
def render (absolute : Bool) (names : List String) : String :=
  (if absolute then "/" else "") ++ "/".intercalate names

/-- The normal form of a path. -/
def normalize (path : String) : String := render (isAbsolute path) (place (steps path))

variable (separator : Char)

@[simp] theorem pieces_nil : pieces separator [] = [[]] := rfl

@[simp] theorem pieces_separator (cs : List Char) :
    pieces separator (separator :: cs) = [] :: pieces separator cs := by
  simp [pieces]

theorem pieces_ne_nil (cs : List Char) : pieces separator cs ≠ [] := by
  cases cs with
  | nil => simp
  | cons c cs =>
    simp only [pieces]
    split
    · simp
    · split <;> simp

theorem pieces_append_separator (as bs : List Char) :
    pieces separator (as ++ separator :: bs) = pieces separator as ++ pieces separator bs := by
  induction as with
  | nil => simp
  | cons a as ih =>
    simp only [List.cons_append, pieces]
    split
    · simp [ih]
    · rw [ih]
      cases h : pieces separator as with
      | nil => exact absurd h (pieces_ne_nil separator as)
      | cons p ps => simp

end ModuleLinker.Lexical
