import Mathlib.Data.List.TakeDrop
import ModuleLinker.Proofs.Path.Spelling
import ModuleLinker.Registry.Completion

/-!
# Relative paths

A relative path names a place only as seen from a directory: its steps lead up from there by some
levels and then down along names. The normal form keeps the names but not the levels. So a path and
its normal form name the same place from everywhere as long as the path does not climb, and from the
root in any case. That matters for a library directory that does not exist yet: the registry keeps
the normal form of its path.
-/
namespace ModuleLinker

namespace Lexical

/-- The absolute path, in normal form, that a path names as seen from a directory. -/
def seenFrom (directory path : String) : String := normalize (FilePath.join directory path)

/-- A route that leads above the place where it starts: some of its first steps have more `..` than
names. -/
def Climbs (route : List String) : Prop :=
  ∃ first, first <+: route ∧ first.countP (· ≠ "..") < first.count ".."

/-- How far above the place where it starts a route leads at the highest. -/
def ascent : List String → Nat
  | [] => 0
  | step :: rest => if step = ".." then ascent rest + 1 else ascent rest - 1

variable {directory path step : String} {route names : List String}

@[simp] theorem ascent_nil : ascent [] = 0 := rfl

@[simp] theorem ascent_up (route : List String) : ascent (".." :: route) = ascent route + 1 :=
  if_pos rfl

theorem ascent_name (h : step ≠ "..") (route : List String) :
    ascent (step :: route) = ascent route - 1 := if_neg h

/-! ## Climbing -/

theorem exists_prefix_cons {p : List String → Prop} :
    (∃ first, first <+: step :: route ∧ p first) ↔
      p [] ∨ ∃ first, first <+: route ∧ p (step :: first) := by
  constructor
  · rintro ⟨first, hfirst, hp⟩
    rcases List.prefix_cons_iff.mp hfirst with rfl | ⟨first, rfl, hroute⟩
    · exact .inl hp
    · exact .inr ⟨first, hroute, hp⟩
  · rintro (hp | ⟨first, hroute, hp⟩)
    · exact ⟨[], List.nil_prefix, hp⟩
    · exact ⟨step :: first, List.prefix_cons_iff.mpr (.inr ⟨first, rfl, hroute⟩), hp⟩

/-- A route leads higher than `n` levels if some of its first steps have that many more `..` than
names. -/
theorem lt_ascent_iff {n : Nat} : n < ascent route ↔
    ∃ first, first <+: route ∧ first.countP (· ≠ "..") + n < first.count ".." := by
  induction route generalizing n with
  | nil => simp
  | cons step rest ih =>
    rw [exists_prefix_cons]
    by_cases hstep : step = ".."
    · subst hstep
      cases n with
      | zero => simpa using ⟨[], by simp⟩
      | succ n => simp [ih, ← Nat.add_assoc]
    · have hcount (first : List String) : (step :: first).count ".." = first.count ".." :=
        List.count_cons_of_ne hstep
      have hlt : n < ascent rest - 1 ↔ n + 1 < ascent rest := by omega
      simp [ascent_name hstep, hlt, ih, hcount, hstep, Nat.add_assoc, Nat.add_comm 1]

theorem climbs_iff : Climbs route ↔ 0 < ascent route := by
  simp only [lt_ascent_iff, Climbs, Nat.add_zero]

/-- A route takes away as many levels as it climbs, and puts behind what is left the names to which
it leads from the root. -/
theorem foldl_move_eq (route start : List String) :
    route.foldl move start = start.take (start.length - ascent route) ++ place route := by
  induction route generalizing start with
  | nil => simp [place]
  | cons step rest ih =>
    rw [place, List.foldl_cons, List.foldl_cons, ih (move start step), ih (move [] step)]
    by_cases hstep : step = ".."
    · subst hstep
      have hlevels : start.length - 1 - ascent rest = start.length - (ascent rest + 1) := by omega
      have hle : start.length - (ascent rest + 1) ≤ start.length - 1 := by omega
      simp [move, List.dropLast_eq_take, List.take_take, hlevels, hle]
    · rw [move_eq_append hstep, move_eq_append hstep, ascent_name hstep, List.nil_append,
        List.length_append, List.length_singleton]
      cases ascent rest with
      | zero => rw [List.take_of_length_le (by simp), List.append_assoc]; simp
      | succ n =>
        have hlevels : start.length + 1 - (n + 1) = start.length - n := by omega
        rw [hlevels, List.take_append_of_le_length (Nat.sub_le _ _)]
        simp

/-! ## Paths seen from a directory -/

theorem steps_join (hdirectory : directory ≠ "") (hpath : isAbsolute path = false) :
    steps (FilePath.join directory path) = steps directory ++ steps path := by
  obtain ⟨-, pieces, hpieces, hsplit⟩ := exists_split_join hdirectory hpath
  have hempty : [""].filter isStep = [] := by simp [isStep]
  rw [steps, hsplit, List.filter_append, steps]
  rcases hpieces with hpieces | hpieces
  · rw [hpieces]
    rfl
  · rw [hpieces, List.filter_append, hempty, List.append_nil]
    rfl

theorem seenFrom_eq (hdirectory : isAbsolute directory = true) (hpath : isAbsolute path = false) :
    seenFrom directory path = render true ((steps path).foldl move (place (steps directory))) := by
  have hne : directory ≠ "" := by
    rintro rfl
    cases hdirectory
  rw [seenFrom, normalize, (exists_split_join hne hpath).1, hdirectory, steps_join hne hpath,
    place, List.foldl_append]
  rfl

/-- The normal form leads down along its names. -/
theorem seenFrom_normalize (hdirectory : isAbsolute directory = true)
    (hpath : isAbsolute path = false) :
    seenFrom directory (normalize path) =
      render true (place (steps directory) ++ place (steps path)) := by
  have hnames : ∀ name ∈ place (steps path), IsName name := fun _ => isName_of_mem_place
  have hsteps : steps (normalize path) = place (steps path) := steps_render _ hnames
  rw [seenFrom_eq hdirectory (by rwa [isAbsolute_normalize]), hsteps, foldl_move_of_names hnames]

/-- Levels are lost unless none is climbed or there is none. -/
theorem append_eq_take_append_iff {above below : List String} {levels : Nat} :
    above ++ below = above.take (above.length - levels) ++ below ↔ levels = 0 ∨ above = [] := by
  rw [List.append_cancel_right_eq, List.take_self_eq_iff, ← List.length_eq_zero_iff]
  omega

theorem seenFrom_eq_render (hdirectory : isAbsolute directory = true)
    (hpath : isAbsolute path = false) :
    seenFrom directory path = render true
      ((place (steps directory)).take ((place (steps directory)).length - ascent (steps path)) ++
        place (steps path)) := by
  rw [seenFrom_eq hdirectory hpath, foldl_move_eq]

theorem seenFrom_normalize_eq_iff (hdirectory : isAbsolute directory = true)
    (hpath : isAbsolute path = false) :
    seenFrom directory (normalize path) = seenFrom directory path ↔
      ¬ Climbs (steps path) ∨ normalize directory = "/" := by
  have habove : ∀ name ∈ place (steps directory), IsName name := fun _ => isName_of_mem_place
  have hbelow : ∀ name ∈ place (steps path), IsName name := fun _ => isName_of_mem_place
  have hroot : normalize directory = "/" ↔ place (steps directory) = [] := by
    have hnone : ∀ name ∈ ([] : List String), IsName name := by simp
    rw [normalize, hdirectory]
    exact render_inj habove hnone
  rw [seenFrom_normalize hdirectory hpath, seenFrom_eq_render hdirectory hpath, render_inj,
    append_eq_take_append_iff, hroot, climbs_iff, Nat.not_lt, Nat.le_zero]
  · exact List.forall_mem_append.mpr ⟨habove, hbelow⟩
  · have hleft : ∀ name ∈ (place (steps directory)).take
        ((place (steps directory)).length - ascent (steps path)), IsName name :=
      fun name hname => habove name (List.mem_of_mem_take hname)
    exact List.forall_mem_append.mpr ⟨hleft, hbelow⟩

/-- A path and its normal form name the same place as seen from a directory as long as the path does
not climb, and if the directory is the root. In general the path leads up first, by the levels that
it climbs or to the root, and the normal form leads to the same names without going up. So it is
with the directories that the registry keeps when a relative one is added that does not exist. -/
theorem seenFrom_normalize_iff (directory path : String) (hdirectory : isAbsolute directory = true)
    (hpath : isAbsolute path = false) :
    (seenFrom directory (normalize path) = seenFrom directory path ↔
      ¬ Climbs (steps path) ∨ normalize directory = "/") ∧
    (∃ above below, (∀ name ∈ above ++ below, IsName name) ∧
      normalize directory = render true above ∧ normalize path = render false below ∧
      seenFrom directory path =
        render true (above.take (above.length - ascent (steps path)) ++ below) ∧
      seenFrom directory (normalize path) = render true (above ++ below)) ∧
    ∀ (fs : FileSystem) (l : Loader) (cause : FileError), fs.canonicalize path = .error cause →
      ((l.addLibraryDirectory fs path).libraryDirectories.map (seenFrom directory) =
          l.libraryDirectories.map (seenFrom directory) ++ [seenFrom directory path] ↔
        ¬ Climbs (steps path) ∨ normalize directory = "/") := by
  refine ⟨seenFrom_normalize_eq_iff hdirectory hpath, ⟨place (steps directory), place (steps path),
    List.forall_mem_append.mpr ⟨fun _ => isName_of_mem_place, fun _ => isName_of_mem_place⟩, ?_, ?_,
    seenFrom_eq_render hdirectory hpath, seenFrom_normalize hdirectory hpath⟩, ?_⟩
  · rw [normalize, hdirectory]
  · rw [normalize, hpath]
  · intro fs l cause hmissing
    have hadded : (l.addLibraryDirectory fs path).libraryDirectories =
        l.libraryDirectories ++ [normalize path] := by
      simp only [Loader.addLibraryDirectory, hmissing]
    rw [hadded, List.map_append, List.map_singleton, List.append_cancel_left_eq, List.singleton_inj,
      seenFrom_normalize_eq_iff hdirectory hpath]

/-- A detour that stays below the directory loses nothing. -/
theorem seenFrom_normalize_of_detour :
    ¬ Climbs (steps "core/.././std//io") ∧
      seenFrom "/work/app/" (normalize "core/.././std//io") =
        seenFrom "/work/app/" "core/.././std//io" ∧
      (({} : Loader).addLibraryDirectory {} "core/.././std//io").libraryDirectories.map
        (seenFrom "/work/app/") = [seenFrom "/work/app/" "core/.././std//io"] := by
  have hflat : ¬ Climbs (steps "core/.././std//io") := by
    rw [climbs_iff]
    decide +kernel
  obtain ⟨hsame, -, hadded⟩ := seenFrom_normalize_iff "/work/app/" "core/.././std//io"
    (by decide +kernel) (by decide +kernel)
  exact ⟨hflat, hsame.mpr (.inl hflat), (hadded {} {} .notFound rfl).mpr (.inl hflat)⟩

/-- A directory beside the one from which it is seen becomes one below it, also in the registry,
unless it exists when it is added: then its canonical path is kept. -/
theorem climb_lost_in_normal_form :
    let beside : FileSystem :=
      { entries := [(["a"], .directory), (["a", "b"], .directory), (["a", "x"], .directory)]
        current := "/a/b" }
    isAbsolute "/a/b" = true ∧ isAbsolute "../x" = false ∧
      seenFrom "/a/b" "../x" = "/a/x" ∧ normalize "../x" = "x" ∧
      seenFrom "/a/b" (normalize "../x") = "/a/b/x" ∧
      (({} : Loader).addLibraryDirectory {} "../x").libraryDirectories.map (seenFrom "/a/b") =
        ["/a/b/x"] ∧
      (({} : Loader).addLibraryDirectory beside "../x").libraryDirectories = ["/a/x"] := by
  decide +kernel

end Lexical
end ModuleLinker
