import ModuleLinker.Proofs.Path.Canonical
import ModuleLinker.Proofs.Success

/-!
# Paths below a directory

A relative path without `..` leads down only. So if it is joined to a directory and leads to a file,
the place of the file is that of the directory with the steps of the path behind it. The directory
may be relative too; the empty path is the current directory here.
-/
namespace ModuleLinker

namespace Lexical

/-- A path without the slashes that it starts with. -/
def belowRoot (path : String) : String := String.ofList (path.toList.dropWhile (· = '/'))

variable {path : String}

theorem pieces_dropWhile (separator : Char) (cs : List Char) :
    ∃ k, pieces separator cs =
      List.replicate k [] ++ pieces separator (cs.dropWhile (· = separator)) := by
  induction cs with
  | nil => exact ⟨0, rfl⟩
  | cons c cs ih =>
    by_cases hc : c = separator
    · obtain ⟨k, hk⟩ := ih
      exact ⟨k + 1, by simp [hc, hk, List.replicate_succ]⟩
    · exact ⟨0, by simp [hc]⟩

/-- Slashes in front of a path are empty pieces of it. -/
theorem split_belowRoot (path : String) :
    ∃ k, split path = List.replicate k "" ++ split (belowRoot path) := by
  obtain ⟨k, hk⟩ := pieces_dropWhile '/' path.toList
  exact ⟨k, by simp [split, belowRoot, hk]⟩

theorem steps_belowRoot (path : String) : steps (belowRoot path) = steps path := by
  obtain ⟨k, hk⟩ := split_belowRoot path
  have hempty : (List.replicate k "").filter isStep = [] := by simp [isStep]
  rw [steps, steps, hk, List.filter_append, hempty, List.nil_append]

theorem not_mem_split_belowRoot {piece : String} (h : piece ∉ split path) :
    piece ∉ split (belowRoot path) := by
  obtain ⟨k, hk⟩ := split_belowRoot path
  rw [hk, List.mem_append, not_or] at h
  exact h.2

theorem isAbsolute_belowRoot (path : String) : isAbsolute (belowRoot path) = false := by
  rw [isAbsolute, belowRoot, String.toList_ofList, decide_eq_false_iff_not]
  intro hhead
  have hnot := List.head?_dropWhile_not (fun c : Char => decide (c = '/')) path.toList
  simp [hhead] at hnot

/-- A path is split at a slash in it. -/
theorem split_append_slash (above below : String) :
    split (above ++ "/" ++ below) = split above ++ split below := by
  simp [split, pieces_append_separator]

theorem isName_of_mem_steps (hclimb : ".." ∉ split path) {name : String} (h : name ∈ steps path) :
    IsName name := by
  obtain ⟨hpiece, hstep⟩ := List.mem_filter.mp h
  exact ⟨hstep, ne_of_mem_of_not_mem hpiece hclimb, not_mem_of_mem_split hpiece⟩

theorem isAbsolute_append {above : String} (h : above ≠ "") (below : String) :
    isAbsolute (above ++ below) = isAbsolute above := by
  have hnil : above.toList ≠ [] := fun hnil => h (String.toList_eq_nil_iff.mp hnil)
  obtain ⟨c, cs, hcs⟩ := List.exists_cons_of_ne_nil hnil
  simp [isAbsolute, hcs]

/-- A relative path that is joined to a directory adds its pieces to those of the directory, in
which a slash at the end does not count. -/
theorem exists_split_join {directory : String} (hdirectory : directory ≠ "")
    (hpath : isAbsolute path = false) :
    isAbsolute (FilePath.join directory path) = isAbsolute directory ∧
      ∃ pieces, (split directory = pieces ∨ split directory = pieces ++ [""]) ∧
        split (FilePath.join directory path) = pieces ++ split path := by
  rw [FilePath.join, hpath, if_neg Bool.false_ne_true]
  split
  · next hend =>
    rw [Bool.or_eq_true, decide_eq_true_eq, decide_eq_true_eq] at hend
    obtain ⟨cs, hcs⟩ := List.getLast?_eq_some_iff.mp (hend.resolve_left hdirectory)
    have htext : directory = String.ofList cs ++ "/" ++ "" := by
      rw [← String.toList_inj]
      simp [hcs]
    refine ⟨isAbsolute_append hdirectory path, split (String.ofList cs), .inr ?_, ?_⟩
    · rw [htext, split_append_slash]
      rfl
    · rw [htext, String.append_empty, split_append_slash]
  · rw [String.append_assoc]
    refine ⟨isAbsolute_append hdirectory _, split directory, .inl rfl, ?_⟩
    rw [← String.append_assoc, split_append_slash]

end Lexical

namespace FileSystem

open Lexical

/-- The path of a directory to which others are joined; joined to the empty path they stay as they
are, so it stands for the current directory. -/
def directoryPath (directory : String) : String := if directory = "" then "." else directory

/-- A path is the canonical path of a directory with some names behind it. -/
structure LiesBelow (fs : FileSystem) (directory : String) (names : List String) (path : String) :
    Prop where
  nonempty : names ≠ []
  isName : ∀ name ∈ names, IsName name
  path_eq : ∃ place, fs.canonicalize (directoryPath directory) = .ok (render true place) ∧
    path = render true (place ++ names)

variable {fs : FileSystem} {place place' pieces : List String} {node node' : Node}
  {directory path below : String}

/-- Without `..` a walk leads down along its steps. -/
theorem place_of_walk (hclimb : ".." ∉ pieces)
    (h : fs.walk place node pieces = .ok (place', node')) :
    place' = place ++ pieces.filter isStep := by
  induction pieces generalizing place node with
  | nil =>
    cases h
    simp
  | cons piece rest ih =>
    rw [List.mem_cons, not_or] at hclimb
    cases node with
    | file bytes => cases h
    | directory =>
      simp only [walk] at h
      split at h
      · next hskip => rw [ih hclimb.2 h, List.filter_cons_of_neg (by simpa using hskip)]
      · next hstep =>
        rw [if_neg (Ne.symm hclimb.1)] at h
        split at h
        · cases h
        · rw [ih hclimb.2 h, List.filter_cons_of_pos (by simpa using hstep)]
          simp

/-- Nothing is below a file. -/
theorem eq_directory_of_walk (hpieces : pieces ≠ [])
    (h : fs.walk place node pieces = .ok (place', node')) : node = .directory := by
  cases node with
  | directory => rfl
  | file bytes =>
    obtain ⟨piece, rest, rfl⟩ := List.exists_cons_of_ne_nil hpieces
    cases h

/-- A place is a file or a directory. -/
theorem Standing.unique (h : Standing fs place node) (h' : Standing fs place node') :
    node = node' := by
  have hsame := (walk_of_standing h).symm.trans (walk_of_standing h')
  exact congrArg Prod.snd (Except.ok.inj hsame)

/-- What is joined to a directory is read from the place of the directory. -/
theorem exists_route_join (fs : FileSystem) (directory : String)
    (hbelow : isAbsolute below = false) :
    ∃ front, fs.route (FilePath.join directory below) = front ++ split below ∧
      ∀ place, fs.walk [] .directory front = .ok (place, .directory) →
        fs.resolve (directoryPath directory) = .ok (place, .directory) := by
  by_cases hempty : directory = ""
  · have hjoin : FilePath.join directory below = below := by
      simp [FilePath.join, hbelow, hempty]
    refine ⟨split fs.current, by rw [hjoin, route, hbelow]; rfl, fun place hplace => ?_⟩
    rw [directoryPath, if_pos hempty, resolve, if_neg (by decide), route]
    exact (walk_append hplace).trans (by simp [walk, isStep, split, pieces])
  · obtain ⟨habsolute, pieces, hpieces, hsplit⟩ := exists_split_join hempty hbelow
    refine ⟨_ ++ pieces, by rw [route, habsolute, hsplit, List.append_assoc],
      fun place hplace => ?_⟩
    rw [directoryPath, if_neg hempty, resolve, if_neg hempty, route]
    rcases hpieces with heq | heq
    · rw [heq, hplace]
    · rw [heq, ← List.append_assoc, walk_append hplace]
      simp [walk, isStep]

/-- A file that is found from a directory by a relative path without `..` lies below it. -/
theorem liesBelow_of_file? (hbelow : isAbsolute below = false) (hclimb : ".." ∉ split below)
    (h : fs.file? (FilePath.join directory below) = some path) :
    fs.LiesBelow directory (steps below) path := by
  obtain ⟨found, bytes, hresolve, rfl⟩ := file?_eq_some h
  obtain ⟨front, hroute, hfront⟩ := exists_route_join fs directory hbelow
  have hwalk : fs.walk [] .directory (front ++ split below) = .ok (found, .file bytes) := by
    rw [resolve] at hresolve
    split at hresolve
    · cases hresolve
    · rwa [hroute] at hresolve
  rw [walk_append_eq_bind, except_bind_eq_ok] at hwalk
  obtain ⟨⟨place, node⟩, habove, hrest⟩ := hwalk
  obtain rfl : node = .directory := eq_directory_of_walk (by simp [split, pieces_ne_nil]) hrest
  have hfound : found = place ++ steps below := place_of_walk hclimb hrest
  have hplace := hfront place habove
  refine ⟨?_, fun name => isName_of_mem_steps hclimb, place, ?_, by rw [hfound]⟩
  · intro hnil
    rw [hnil, List.append_nil] at hfound
    have hstanding := standing_of_resolve hplace
    have hfile := standing_of_walk (fun p hp => not_mem_of_mem_split hp) hstanding hrest
    rw [hfound] at hfile
    cases hstanding.unique hfile
  · rw [canonicalize, hplace]
    rfl

end FileSystem
end ModuleLinker
