import ModuleLinker.Proofs.LoadedModules
import ModuleLinker.Proofs.Registry.Indexing
import ModuleLinker.Proofs.Registry.Outcomes

/-!
# Modules of files beside older ones

Loads put modules of files beside what was registered before. Two registries that have come out of
one in this way agree about the older slots, and the modules that they have under one path were read
from one image: whether they are finished or not, they have the same specs, mappings and names.
-/
namespace ModuleLinker

/-- A file of which the path is canonical holds the image of a description. -/
def FileSystem.Describes (fs : FileSystem) (path : String) (d : Descriptor) : Prop :=
  fs.canonicalize path = .ok path ∧ ∃ bytes, fs.read path = .ok bytes ∧ decode bytes = .ok d

theorem FileSystem.Describes.unique {fs : FileSystem} {path : String} {d d' : Descriptor}
    (h : fs.Describes path d) (h' : fs.Describes path d') : d' = d := by
  obtain ⟨-, bytes, hread, hdecode⟩ := h
  obtain ⟨-, bytes', hread', hdecode'⟩ := h'
  obtain rfl := Except.ok.inj (hread.symm.trans hread')
  exact Except.ok.inj (hdecode'.symm.trans hdecode)

theorem FileSystem.Describes.unregistered {fs : FileSystem} {path : String} {d : Descriptor}
    (h : fs.Describes path d) : d.Unregistered := by
  obtain ⟨-, bytes, -, hdecode⟩ := h
  exact unregistered_of_decode hdecode

/-- Modules in which the same names stand at the same places. -/
def Module.SameNames (m k : Module) : Prop :=
  k.structures.map Structure.name = m.structures.map Structure.name ∧
    k.functions.map Function.name = m.functions.map Function.name

/-- A module with all that linking and layout leave of the description it was read from. -/
structure Module.ReadFrom (path : String) (d : Descriptor) (m : Module) : Prop where
  path : m.path = .file path
  fromFile : m.isHosted = false
  specs : m.dependencies.map Dependency.spec = d.dependencies.map Dependency.spec
  mappings : m.mappings = d.mappings
  structures : m.structures.map Structure.name = d.structures.map Structure.name
  functions : m.functions.map Function.name = d.functions.map Function.name

namespace Module

variable {fs : FileSystem} {l : Loader} {path : String} {d : Descriptor} {m k : Module}

theorem SameNames.refl (m : Module) : m.SameNames m := ⟨rfl, rfl⟩

theorem ReadFrom.sameNames (hm : m.ReadFrom path d) (hk : k.ReadFrom path d) : m.SameNames k :=
  ⟨hk.structures.trans hm.structures.symm, hk.functions.trans hm.functions.symm⟩

theorem Evolves.sameNames (h : m.Evolves k) : m.SameNames k := by
  refine ⟨List.ext_getElem (by simp [h.length_structures]) fun i hi hi' => ?_, by rw [h.functions]⟩
  simp only [List.length_map] at hi hi'
  simpa using (h.structures.get hi' hi).name

theorem ReadFrom.evolves (hm : m.ReadFrom path d) (h : m.Evolves k) : k.ReadFrom path d where
  path := h.path.trans hm.path
  fromFile := h.isHosted.trans hm.fromFile
  specs := h.specs.trans hm.specs
  mappings := h.mappings.trans hm.mappings
  structures := h.sameNames.1.trans hm.structures
  functions := h.sameNames.2.trans hm.functions

theorem readFrom_ofDescriptor (id : ModuleId) (path : String) (d : Descriptor) :
    (ofDescriptor id (.file path) d).ReadFrom path d where
  path := rfl
  fromFile := rfl
  specs := rfl
  mappings := rfl
  structures := by simp [ofDescriptor, Function.comp_def]
  functions := by simp [ofDescriptor, Function.comp_def, Function.assign]

theorem LoadedFrom.readFrom (h : m.LoadedFrom fs l d) (hpath : m.path = .file path) :
    m.ReadFrom path d where
  path := hpath
  fromFile := by rw [isHosted, h.origin]
  specs := by
    refine List.ext_getElem (by simp [h.dependencies.length_eq]) fun i hi hi' => ?_
    simp only [List.length_map] at hi hi'
    obtain ⟨-, target, -, -, -, -, -, he⟩ := h.dependencies.get hi' hi
    simp only [List.get_eq_getElem] at he
    simp [he]
  mappings := h.mappings
  structures := by
    refine List.ext_getElem (by simp [h.structures.length_eq]) fun i hi hi' => ?_
    simp only [List.length_map] at hi hi'
    simpa using (h.structures.get hi' hi).name
  functions := by simp [h.functions, Function.comp_def, Function.assign]

end Module

namespace Loader

variable {fs : FileSystem} {l l' F N : Loader} {root id other : ModuleId} {path : ModulePath}
  {file : String} {d : Descriptor} {m k : Module} {worked : ModuleId → Prop}

/-- A slot with a module that was read from a file. -/
structure HasFile (fs : FileSystem) (l : Loader) (id : ModuleId) (file : String) (d : Descriptor)
    (m : Module) : Prop where
  there : l.module? id = some m
  described : fs.Describes file d
  readFrom : m.ReadFrom file d

/-- The second registry is the first one with modules of files beside, be they finished or not. -/
structure WithFiles (fs : FileSystem) (l l' : Loader) : Prop where
  directories : l'.libraryDirectories = l.libraryDirectories
  length_le : l.arena.length ≤ l'.arena.length
  older : ∀ id, ¬ id.isFrom l.arena.length = true → l'.module? id = l.module? id
  find?_eq_some : ∀ path id, l.index.find? path = some id → l'.index.find? path = some id
  indexed : l'.Indexed
  files : ∀ id m, id.isFrom l.arena.length = true → l'.module? id = some m →
    ∃ file d, l'.HasFile fs id file d m

/-- A slot that resolution filled has the module of a file that was not registered. -/
theorem Registered.exists_hasFile {n : Nat} (h : Registered fs l l' n m)
    (hm : N.module? (.slot n) = some m) :
    ∃ file d, N.HasFile fs (.slot n) file d m ∧ l.index.find? (.file file) = none := by
  obtain ⟨file, bytes, d, hcanonical, hread, hdecode, hfresh, -, hmd, hspecs⟩ := h
  have hnew := Module.readFrom_ofDescriptor (.slot n) file d
  refine ⟨file, d, ⟨hm, ⟨hcanonical, bytes, hread, hdecode⟩, ?_⟩, hfresh⟩
  rw [hmd]
  exact ⟨rfl, rfl, hspecs, rfl, hnew.structures, hnew.functions⟩

theorem Indexed.find?_path (h : l.Indexed) (hm : l.module? id = some m) :
    l.index.find? m.path = some id := h.find?_eq_some.mpr ⟨m, hm, rfl⟩

namespace WithFiles

@[refl] theorem refl (h : l.Indexed) : l.WithFiles fs l where
  directories := rfl
  length_le := Nat.le_refl _
  older := fun _ _ => rfl
  find?_eq_some := fun _ _ h => h
  indexed := h
  files := by
    intro id m hid hm
    rw [module?_none_of_isFrom hid] at hm
    cases hm

theorem trans (h : l.WithFiles fs l') (h' : l'.WithFiles fs N) : l.WithFiles fs N where
  directories := h'.directories.trans h.directories
  length_le := h.length_le.trans h'.length_le
  older := fun id hid =>
    (h'.older id fun hnew => hid (ModuleId.isFrom_mono h.length_le hnew)).trans (h.older id hid)
  find?_eq_some := fun path id hfind => h'.find?_eq_some path id (h.find?_eq_some path id hfind)
  indexed := h'.indexed
  files := by
    intro id m hid hm
    by_cases hnew : id.isFrom l'.arena.length = true
    · exact h'.files id m hnew hm
    · have hm' := hm
      rw [h'.older id hnew] at hm'
      obtain ⟨file, d, hfile⟩ := h.files id m hid hm'
      exact ⟨file, d, hm, hfile.described, hfile.readFrom⟩

/-- Resolution puts files beside others. -/
theorem resolveSteps (h : l.WithFiles fs l') (hsteps : ResolveSteps fs root worked l' N)
    (hworked : ∀ id, worked id → id.isFrom l.arena.length = true) : l.WithFiles fs N := by
  have hext := extends_of_resolveSteps hsteps
  refine ⟨hext.directories.trans h.directories, h.length_le.trans hext.length_le, fun id hid => ?_,
    fun path id hfind => hext.find?_eq_some (h.find?_eq_some path id hfind),
    h.indexed.resolveSteps hsteps, fun id k hid hk => ?_⟩
  · rw [← h.older id hid]
    cases hm : l'.module? id with
    | some m =>
      obtain ⟨k, hk, -, -, hsame⟩ := hext.kept id m hm
      rw [hk, hsame fun hw => hid (hworked id hw)]
    | none =>
      cases hn : N.module? id with
      | none => rfl
      | some n =>
        rcases hext.module?_cases hn with ⟨m, hm', -⟩ | ⟨n', rfl, hle, -⟩
        · rw [hm] at hm'
          cases hm'
        · exact absurd (ModuleId.isFrom_slot.mpr (h.length_le.trans hle)) hid
  · rcases hext.module?_cases hk with ⟨m, hm, hkm, hspecs⟩ | ⟨n, rfl, -, hregistered⟩
    · obtain ⟨file, d, hfile⟩ := h.files id m hid hm
      refine ⟨file, d, hk, hfile.described, ?_⟩
      have hread := hfile.readFrom
      rw [hkm]
      exact ⟨hread.path, hread.fromFile, hspecs.trans hread.specs, hread.mappings,
        hread.structures, hread.functions⟩
    · obtain ⟨file, d, hfile, -⟩ := hregistered.exists_hasFile hk
      exact ⟨file, d, hfile⟩

/-- Linking changes nothing about where a module was read from. -/
theorem links {b : Arena} (h : l.WithFiles fs l') (hlinks : l'.arena.Links b)
    (hold : ∀ id, ¬ id.isFrom l.arena.length = true → b.module? id = l'.module? id) :
    l.WithFiles fs { l' with arena := b } where
  directories := h.directories
  length_le := h.length_le.trans (Nat.le_of_eq hlinks.length_eq.symm)
  older := fun id hid => (hold id hid).trans (h.older id hid)
  find?_eq_some := h.find?_eq_some
  indexed := by
    refine h.indexed.of_path rfl fun id => ?_
    show (b.module? id).map Module.path = (l'.module? id).map Module.path
    cases hm : l'.module? id with
    | none => rw [hlinks.module?_none id hm]
    | some m =>
      obtain ⟨k, hk, hmk⟩ := hlinks.evolves id m hm
      rw [hk, Option.map_some, Option.map_some, hmk.path]
  files := by
    intro id k hid hk
    obtain ⟨m, hm, hmk⟩ := hlinks.evolves.exists_earlier hlinks.module?_none hk
    obtain ⟨file, d, hfile⟩ := h.files id m hid hm
    exact ⟨file, d, hk, hfile.described, hfile.readFrom.evolves hmk⟩

variable (h : l.WithFiles fs l')
include h

theorem find?_of_older (hl : l.Indexed) (hid : ¬ id.isFrom l.arena.length = true)
    (hfind : l'.index.find? path = some id) : l.index.find? path = some id := by
  obtain ⟨m, hm, hpath⟩ := h.indexed.find?_eq_some.mp hfind
  rw [h.older id hid] at hm
  exact hl.find?_eq_some.mpr ⟨m, hm, hpath⟩

theorem find?_eq_none (hnone : l'.index.find? path = none) : l.index.find? path = none := by
  cases hold : l.index.find? path with
  | none => rfl
  | some id => rwa [h.find?_eq_some path id hold] at hnone

/-- What was not there before is in a new slot. -/
theorem isFrom_of_find? (hl : l.Indexed) (hnone : l.index.find? path = none)
    (hfind : l'.index.find? path = some id) : id.isFrom l.arena.length = true := by
  by_contra hid
  rw [h.find?_of_older hl hid hfind] at hnone
  cases hnone

/-- What was not there before was read from the file that its path names. -/
theorem exists_hasFile (hl : l.Indexed)
    (hself : ∀ file, path = .file file → fs.canonicalize file = .ok file)
    (hnone : l.index.find? path = none) (hfind : l'.index.find? path = some id) :
    ∃ file d m, path = .file file ∧ l'.HasFile fs id file d m := by
  obtain ⟨m, hm, hidentity⟩ := h.indexed.find?_eq_some.mp hfind
  obtain ⟨other, d, hfile⟩ := h.files id m (h.isFrom_of_find? hl hnone hfind) hm
  rw [hfile.readFrom.path] at hidentity
  cases path with
  | hosted text => cases hidentity
  | file file =>
    obtain rfl : other = file := FileSystem.eq_of_components_eq hfile.described.1
      (hself file rfl) (ModulePath.Identity.file.inj hidentity)
    exact ⟨other, d, m, rfl, hfile⟩

/-- Modules under one path are the same older one, or both were read from the same file. -/
theorem counterparts (hl : l.Indexed) (hF : l.WithFiles fs F)
    (hfind : l'.index.find? path = some id) (hfind' : F.index.find? path = some other)
    (hm : l'.module? id = some m) (hk : F.module? other = some k) :
    ¬ id.isFrom l.arena.length = true ∧ other = id ∧ k = m ∨
      id.isFrom l.arena.length = true ∧ other.isFrom l.arena.length = true ∧
        ∃ file d, l'.HasFile fs id file d m ∧ F.HasFile fs other file d k := by
  by_cases hid : id.isFrom l.arena.length = true
  · by_cases hother : other.isFrom l.arena.length = true
    · obtain ⟨file, d, hfile⟩ := h.files id m hid hm
      obtain ⟨file', d', hfile'⟩ := hF.files other k hother hk
      obtain ⟨m', hm', hpath⟩ := h.indexed.find?_eq_some.mp hfind
      obtain ⟨k', hk', hpath'⟩ := hF.indexed.find?_eq_some.mp hfind'
      obtain rfl : m' = m := Option.some.inj (hm'.symm.trans hm)
      obtain rfl : k' = k := Option.some.inj (hk'.symm.trans hk)
      rw [hfile.readFrom.path] at hpath
      rw [hfile'.readFrom.path] at hpath'
      obtain rfl : file = file' := FileSystem.eq_of_components_eq hfile.described.1
        hfile'.described.1 (ModulePath.Identity.file.inj (hpath.trans hpath'.symm))
      obtain rfl := hfile.described.unique hfile'.described
      exact .inr ⟨hid, hother, file, d', hfile, hfile'⟩
    · have hold := h.find?_eq_some path other (hF.find?_of_older hl hother hfind')
      rw [hfind, Option.some.injEq] at hold
      exact absurd (hold ▸ hid) hother
  · have hold := hF.find?_eq_some path id (h.find?_of_older hl hid hfind)
    obtain rfl : other = id := Option.some.inj (hfind'.symm.trans hold)
    refine .inl ⟨hid, rfl, Option.some.inj (hk.symm.trans ?_)⟩
    rw [hF.older other hid, ← h.older other hid, hm]

theorem sameNames (hl : l.Indexed) (hF : l.WithFiles fs F)
    (hfind : l'.index.find? path = some id) (hfind' : F.index.find? path = some other)
    (hm : l'.module? id = some m) (hk : F.module? other = some k) : m.SameNames k := by
  rcases h.counterparts hl hF hfind hfind' hm hk with ⟨-, -, rfl⟩ | ⟨-, -, file, d, hfile, hfile'⟩
  · exact .refl k
  · exact hfile.readFrom.sameNames hfile'.readFrom

end WithFiles
end Loader
end ModuleLinker
