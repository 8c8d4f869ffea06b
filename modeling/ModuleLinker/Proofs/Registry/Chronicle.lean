import ModuleLinker.Proofs.Registry.Anchored

/-!
# The last successful builds

A chronicle follows a run and takes down what every module looked like right after its last
successful build. At any later time the registry can take the module back to the same tables,
and the targets and links in the record still lead where they led.
-/
namespace ModuleLinker

/-- A registry, and every module as it was right after its last successful build. -/
structure Chronicle where
  loader : Loader
  lastBuild : ModuleId → Option Module

namespace Chronicle

/-- A registry without modules. -/
def ofDirectories (libraryDirectories : List String) : Chronicle where
  loader := .ofDirectories libraryDirectories
  lastBuild _ := none

/-- Do an operation, and take down what a build that succeeds makes of its module. -/
def apply (c : Chronicle) (o : Operation) : Chronicle where
  loader := c.loader.apply o
  lastBuild :=
    match o with
    | .clear => fun _ => none
    | .build fs id =>
      match c.loader.build fs id with
      | (.ok (), built) => fun other => if other = id then built.module? id else c.lastBuild other
      | (.error _, _) => c.lastBuild
    | _ => c.lastBuild

/-- The chronicle of operations in order. -/
def run (c : Chronicle) (operations : List Operation) : Chronicle := operations.foldl apply c

/-- Whether a chronicle can arise from a registry without modules. -/
def Reachable (c : Chronicle) : Prop :=
  ∃ directories operations, c = (ofDirectories directories).run operations

theorem loader_run (c : Chronicle) (operations : List Operation) :
    (c.run operations).loader = c.loader.run operations := by
  induction operations generalizing c with
  | nil => rfl
  | cons o os ih => exact ih (c.apply o)

/-- The registries of chronicles are all that can arise. -/
theorem reachable_loader_iff {l : Loader} :
    l.Reachable ↔ ∃ c : Chronicle, c.Reachable ∧ c.loader = l := by
  constructor
  · rintro ⟨directories, operations, rfl⟩
    exact ⟨_, ⟨directories, operations, rfl⟩, loader_run ..⟩
  · rintro ⟨c, ⟨directories, operations, rfl⟩, rfl⟩
    exact ⟨directories, operations, loader_run ..⟩

theorem Reachable.run {c : Chronicle} (h : c.Reachable) (os : List Operation) :
    (c.run os).Reachable := by
  obtain ⟨directories, operations, rfl⟩ := h
  exact ⟨directories, operations ++ os, by simp [Chronicle.run]⟩

theorem Reachable.apply {c : Chronicle} (h : c.Reachable) (o : Operation) : (c.apply o).Reachable :=
  h.run [o]

theorem Reachable.loader {c : Chronicle} (h : c.Reachable) : c.loader.Reachable :=
  reachable_loader_iff.mpr ⟨c, h, rfl⟩

/-- The record agrees with the registry: what a module can be taken back to has the tables of its
last build, and the targets and links of that build are still there. -/
structure Faithful (c : Chronicle) : Prop where
  sound : c.loader.Sound
  tables : ∀ id, Option.Rel Module.SameTables (c.lastBuild id) (c.loader.restored? id)
  anchored : ∀ id m, c.lastBuild id = some m → c.loader.Anchored m

theorem Faithful.ofDirectories (libraryDirectories : List String) :
    (Chronicle.ofDirectories libraryDirectories).Faithful where
  sound := .ofDirectories libraryDirectories
  tables id := by
    rw [Loader.restored?_of_module?_none]
    · exact .none
    · cases id <;> rfl
  anchored id m hm := by cases hm

/-- Two steps that keep the tables of a module keep them together. -/
theorem rel_sameTables_trans {x y z : Option Module} (h : Option.Rel Module.SameTables x y)
    (h' : Option.Rel Module.SameTables y z) : Option.Rel Module.SameTables x z := by
  cases h with
  | none => exact h'
  | some h =>
    cases h' with
    | some h' => exact .some (h.trans h')

namespace Faithful

variable {c : Chronicle} (h : c.Faithful)
include h

/-- An operation that builds nothing and forgets nothing. -/
theorem keeps {o : Operation} (ho : o ≠ .clear) (hsame : (c.apply o).lastBuild = c.lastBuild)
    (hrestored : ∀ id, (c.loader.apply o).restored? id = c.loader.restored? id) :
    (c.apply o).Faithful where
  sound := h.sound.apply o
  tables id := by
    have htables := h.tables id
    rw [← hrestored] at htables
    rwa [hsame]
  anchored id m hm := by
    rw [hsame] at hm
    exact (h.anchored id m hm).retains (Loader.retains_apply h.sound ho)

theorem failed {fs : FileSystem} {id : ModuleId} {e : LoadError} {left : Loader}
    (hfails : c.loader.build fs id = (.error e, left)) : (c.apply (.build fs id)).Faithful := by
  have hloader : (c.apply (.build fs id)).loader = left := congrArg Prod.snd hfails
  have hsame : (c.apply (.build fs id)).lastBuild = c.lastBuild := by simp only [apply, hfails]
  refine ⟨h.sound.apply (.build fs id), fun other => ?_, fun other m hm => ?_⟩
  · rw [hsame, hloader]
    have htables := h.tables other
    by_cases hid : other = id
    · subst hid
      rcases Loader.build_cases hfails with ⟨rfl, -⟩ | ⟨m, -, hm, hhosted, -⟩
      · exact htables
      · obtain ⟨hrel, hrestored⟩ := Loader.module?_build_failed h.sound hm hhosted hfails
        rw [Loader.restored?_of_module? hm] at htables
        rw [hrestored]
        exact rel_sameTables_trans htables hrel
    · rw [← hloader]
      rwa [← Loader.restored?_build_other h.sound fs hid] at htables
  · rw [hsame] at hm
    exact (h.anchored other m hm).retains (Loader.retains_build h.sound fs id)

theorem built {fs : FileSystem} {id : ModuleId} {left : Loader}
    (hbuilt : c.loader.build fs id = (.ok (), left)) : (c.apply (.build fs id)).Faithful := by
  have hloader : (c.apply (.build fs id)).loader = left := congrArg Prod.snd hbuilt
  obtain ⟨-, k, -, hk, -, hrestored, hanchored⟩ := Loader.anchored_of_build h.sound hbuilt
  have hlast : (c.apply (.build fs id)).lastBuild =
      fun other => if other = id then some k else c.lastBuild other := by
    simp only [apply, hbuilt, hk]
  refine ⟨h.sound.apply (.build fs id), fun other => ?_, fun other m hm => ?_⟩
  · simp only [hlast]
    split
    · next hid =>
      rw [hid, hloader, Loader.restored?_of_module? hk, hrestored]
      exact .some (.refl k)
    · next hid =>
      have htables := h.tables other
      rwa [← Loader.restored?_build_other h.sound fs hid] at htables
  · simp only [hlast] at hm
    split at hm
    · rw [hloader]
      exact Option.some.inj hm ▸ hanchored
    · exact (h.anchored other m hm).retains (Loader.retains_build h.sound fs id)

theorem apply (o : Operation) : (c.apply o).Faithful := by
  cases o with
  | clear =>
    have hloader : (c.apply .clear).loader = c.loader.clear := rfl
    have hlast : (c.apply .clear).lastBuild = fun _ => none := rfl
    refine ⟨h.sound.apply .clear, fun id => ?_, fun id m hm => ?_⟩
    · rw [hloader, hlast, Loader.restored?_of_module?_none]
      · exact .none
      · cases id <;> rfl
    · rw [hlast] at hm
      cases hm
  | build fs id =>
    rcases hbuild : c.loader.build fs id with ⟨_ | _, left⟩
    · exact h.failed hbuild
    · exact h.built hbuild
  | load fs path => exact h.keeps nofun rfl (Loader.restored?_load h.sound fs path)
  | create path => exact h.keeps nofun rfl (Loader.restored?_create c.loader path)
  | addLibraryDirectory fs path => exact h.keeps nofun rfl fun _ => rfl
  | _ => exact h.keeps nofun rfl (Loader.restored?_authored h.sound (c.loader.authored_apply rfl))

end Faithful

/-- The record of every run agrees with its registry. -/
theorem Reachable.faithful {c : Chronicle} (h : c.Reachable) : c.Faithful := by
  obtain ⟨directories, operations, rfl⟩ := h
  suffices hrun : ∀ c : Chronicle, c.Faithful → (c.run operations).Faithful from
    hrun _ (.ofDirectories directories)
  induction operations with
  | nil => exact fun c h => h
  | cons o os ih => exact fun c h => ih (c.apply o) (h.apply o)

end Chronicle
end ModuleLinker
