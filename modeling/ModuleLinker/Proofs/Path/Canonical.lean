import ModuleLinker.FileSystem
import ModuleLinker.Path.FilePath
import ModuleLinker.Proofs.Path.Normal

/-!
# Canonical paths

A path leads to a place by names, each of which is in a directory, so the path rendered from those
names leads to the same place. Making a path canonical twice is therefore the same as doing it
once, and a file has the same contents under both paths.
-/
namespace ModuleLinker.FileSystem

open Lexical

variable {fs : FileSystem}

/-- A place that can be reached from the root by names, and what is there. -/
inductive Standing (fs : FileSystem) : List String → Node → Prop where
  | root : Standing fs [] .directory
  | child {place : List String} {name : String} {node : Node}
      (above : Standing fs place .directory) (step : isStep name = true) (climb : name ≠ "..")
      (plain : '/' ∉ name.toList) (there : fs.node? (place ++ [name]) = some node) :
      Standing fs (place ++ [name]) node

theorem Standing.dropLast {place : List String} {node : Node} (h : Standing fs place node) :
    Standing fs place.dropLast .directory := by
  cases h with
  | root => exact .root
  | child above => simpa using above

theorem Standing.isName {place : List String} {node : Node} (h : Standing fs place node) :
    ∀ name ∈ place, IsName name := by
  induction h with
  | root => simp
  | child _ step climb plain _ ih =>
    intro name hname
    rcases List.mem_append.mp hname with hname | hname
    · exact ih name hname
    · rw [List.mem_singleton.mp hname]
      exact ⟨step, climb, plain⟩

theorem Standing.plain {place : List String} {node : Node} (h : Standing fs place node) :
    ∀ name ∈ place, '/' ∉ name.toList := fun name hname => (h.isName name hname).2.2

/-- Walking stays among the places that can be reached. -/
theorem standing_of_walk {pieces : List String} (hplain : ∀ p ∈ pieces, '/' ∉ p.toList)
    {place place' : List String} {node node' : Node} (h : Standing fs place node)
    (hw : fs.walk place node pieces = .ok (place', node')) : Standing fs place' node' := by
  induction pieces generalizing place node with
  | nil =>
    cases hw
    exact h
  | cons piece rest ih =>
    have hrest : ∀ p ∈ rest, '/' ∉ p.toList := fun p hp => hplain p (List.mem_cons_of_mem _ hp)
    cases node with
    | file bytes => cases hw
    | directory =>
      simp only [walk] at hw
      split at hw
      · exact ih hrest h hw
      · next hstep =>
        split at hw
        · exact ih hrest h.dropLast hw
        · next hclimb =>
          split at hw
          · cases hw
          · next next hnext =>
            have hpiece := hplain piece List.mem_cons_self
            exact ih hrest (.child h (by simpa using hstep) hclimb hpiece hnext) hw

/-- A walk goes as far as its first pieces lead, and on from there. -/
theorem walk_append_eq_bind (pieces more place : List String) (node : Node) :
    fs.walk place node (pieces ++ more) =
      fs.walk place node pieces >>= fun found => fs.walk found.1 found.2 more := by
  induction pieces generalizing place node with
  | nil => rfl
  | cons piece rest ih =>
    cases node with
    | file bytes => rfl
    | directory =>
      simp only [List.cons_append, walk, ih]
      split
      · rfl
      · split
        · rfl
        · split <;> rfl

theorem walk_append {pieces more place place' : List String} {node node' : Node}
    (h : fs.walk place node pieces = .ok (place', node')) :
    fs.walk place node (pieces ++ more) = fs.walk place' node' more := by
  rw [walk_append_eq_bind, h]
  rfl

/-- The names of a place lead to it. -/
theorem walk_of_standing {place : List String} {node : Node} (h : Standing fs place node) :
    fs.walk [] .directory place = .ok (place, node) := by
  induction h with
  | root => rfl
  | child _ step climb _ there ih => simp [walk_append ih, walk, step, climb, there]

/-- No piece of a route has a slash in it. -/
theorem not_mem_of_mem_route {path p : String} (h : p ∈ fs.route path) : '/' ∉ p.toList := by
  rcases List.mem_append.mp h with hbase | hpath
  · split at hbase
    · cases hbase
    · exact not_mem_of_mem_split hbase
  · exact not_mem_of_mem_split hpath

theorem resolve_render {place : List String} {node : Node} (h : Standing fs place node) :
    fs.resolve (render true place) = .ok (place, node) := by
  have hempty : ∀ rest, fs.walk [] .directory ("" :: rest) = fs.walk [] .directory rest := by
    intro rest
    simp [walk, isStep]
  have hne : render true place ≠ "" := by
    intro hnone
    have habsolute := isAbsolute_render place
    rw [hnone] at habsolute
    cases habsolute
  rw [resolve, if_neg hne, route, if_pos (isAbsolute_render place), List.nil_append,
    split_render h.plain, hempty]
  split
  · next hnil =>
    subst hnil
    rw [hempty, ← walk_of_standing h]
  · exact walk_of_standing h

theorem standing_of_resolve {path : String} {place : List String} {node : Node}
    (h : fs.resolve path = .ok (place, node)) : Standing fs place node := by
  simp only [resolve] at h
  split at h
  · cases h
  · exact standing_of_walk (fun p => not_mem_of_mem_route) .root h

/-- A canonical path leads to the place that the path led to. -/
theorem canonicalize_eq_ok {path canonical : String} (h : fs.canonicalize path = .ok canonical) :
    ∃ found, fs.resolve path = .ok found ∧ fs.resolve canonical = .ok found := by
  simp only [canonicalize] at h
  cases hr : fs.resolve path with
  | error e => simp [hr, Except.map] at h
  | ok found =>
    simp only [hr, Except.map, Except.ok.injEq] at h
    exact ⟨found, rfl, h ▸ resolve_render (standing_of_resolve hr)⟩

/-- A canonical path is its own canonical path. -/
theorem canonicalize_of_canonicalize {path canonical : String}
    (h : fs.canonicalize path = .ok canonical) : fs.canonicalize canonical = .ok canonical := by
  obtain ⟨found, hpath, hcanonical⟩ := canonicalize_eq_ok h
  rw [canonicalize, hpath] at h
  rw [canonicalize, hcanonical, h]

theorem file?_eq_some {path canonical : String} (h : fs.file? path = some canonical) :
    ∃ place bytes, fs.resolve path = .ok (place, .file bytes) ∧ canonical = render true place := by
  simp only [file?] at h
  split at h
  · split at h
    · next place bytes hresolve => exact ⟨place, bytes, hresolve, (Option.some.inj h).symm⟩
    · cases h
  · cases h

/-- The path of a file that was looked up as a whole is canonical. -/
theorem canonicalize_of_file? {path canonical : String} (h : fs.file? path = some canonical) :
    fs.canonicalize canonical = .ok canonical := by
  obtain ⟨place, bytes, hresolve, rfl⟩ := file?_eq_some h
  have hpath : fs.canonicalize path = .ok (render true place) := by
    rw [canonicalize, hresolve]
    rfl
  exact canonicalize_of_canonicalize hpath

/-! ## Canonical paths as keys -/

theorem components_render {names : List String} (h : ∀ name ∈ names, IsName name) :
    FilePath.components (render true names) = .root :: names.map .child := by
  rw [FilePath.components, if_pos (isAbsolute_render names), steps_render true h,
    List.singleton_append, List.cons.injEq]
  exact ⟨rfl, List.map_congr_left fun name hname => if_neg (h name hname).2.1⟩

/-- Canonical paths that are the same path are the same text. -/
theorem eq_of_components_eq {path other : String} (hpath : fs.canonicalize path = .ok path)
    (hother : fs.canonicalize other = .ok other)
    (h : FilePath.components path = FilePath.components other) : path = other := by
  have hplace : ∀ path, fs.canonicalize path = .ok path →
      ∃ names, (∀ name ∈ names, IsName name) ∧ path = render true names := by
    intro path hpath
    obtain ⟨⟨names, node⟩, hresolve, -⟩ := canonicalize_eq_ok hpath
    rw [canonicalize, hresolve] at hpath
    exact ⟨names, (standing_of_resolve hresolve).isName, (Except.ok.inj hpath).symm⟩
  obtain ⟨names, hnames, rfl⟩ := hplace path hpath
  obtain ⟨names', hnames', rfl⟩ := hplace other hother
  rw [components_render hnames, components_render hnames', List.cons.injEq] at h
  have hchild : ∀ name name', FilePath.Component.child name = .child name' → name = name' :=
    fun _ _ => FilePath.Component.child.inj
  rw [(List.map_inj_right hchild).mp h.2]

end ModuleLinker.FileSystem
