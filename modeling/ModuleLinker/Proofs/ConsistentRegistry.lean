import ModuleLinker.Proofs.Registry.AtRest
import ModuleLinker.Proofs.Registry.Indexing
import Mathlib.Data.List.Perm.Basic

/-!
# The tables of a registry agree

Modules are found by their paths and by the numbers of their slots, and structures and functions by
numbers that they carry themselves. All of these agree in every registry that can arise, whatever was
given up, cut back or added again on the way. A host therefore sees one name for each module: a
virtual path is taken exactly if it is found, in whichever spelling.
-/
namespace ModuleLinker

namespace Arena

variable {a : Arena}

/-- Modules that carry the numbers of their slots have different identities. -/
theorem nodup_live (h : ∀ (n : Nat) m, a[n]? = some (some m) → m.id = .slot n) :
    (a.live.map Module.id).Nodup := by
  rw [List.Nodup, List.pairwise_map, live, List.pairwise_filterMap, List.pairwise_iff_getElem]
  intro i j hi hj hij m hm k hk hsame
  have hmi := h i m (by rw [List.getElem?_eq_getElem hi]; exact congrArg some hm)
  have hkj := h j k (by rw [List.getElem?_eq_getElem hj]; exact congrArg some hk)
  rw [hmi, hkj, ModuleId.slot.injEq] at hsame
  omega

end Arena

namespace Loader

variable {l : Loader} {fs : FileSystem}

/-- What the tables of a registry say of each other: the index has exactly the paths of the modules
in the slots, modules and their entries carry their numbers, and no field refers to a module that is
not registered. -/
structure Consistent (l : Loader) : Prop where
  found : ∀ path id, l.index.find? path = some id ↔
    ∃ m, l.module? id = some m ∧ m.path.identity = path.identity
  keys : ∀ e ∈ l.index, ∃ m, l.module? e.2 = some m ∧ m.path = e.1
  unique : ∀ id other m k, l.module? id = some m → l.module? other = some k →
    m.path.identity = k.path.identity → id = other
  count : l.moduleCount = l.modules.length
  numbered : ∀ (n : Nat) (m : Module), l.arena[n]? = some (some m) → m.Numbered (.slot n)
  assigned : ∀ id m, l.module? id = some m → ∀ s ∈ m.structures, s.Assigned
  normal : ∀ e ∈ l.index, e.1.Normal

namespace Indexed

variable (h : l.Indexed)
include h

/-- The index has one entry for each module in a slot. -/
theorem moduleCount_eq (hnumbered : ∀ id m, l.module? id = some m → m.Numbered id) :
    l.moduleCount = l.modules.length := by
  have hslots : ∀ (n : Nat) m, l.arena[n]? = some (some m) → m.id = .slot n := fun n m hm =>
    (hnumbered _ m (Arena.module?_slot.mpr hm)).id_eq
  have hentries : (l.index.map Prod.snd).Nodup := by
    refine List.Nodup.map_on (fun e he e' he' hsame => ?_) (List.Nodup.of_map _ h.nodup)
    obtain ⟨m, hm, hme⟩ := h.live e he
    obtain ⟨m', hm', hme'⟩ := h.live e' he'
    rw [hsame] at hm
    obtain rfl : m = m' := Option.some.inj (hm.symm.trans hm')
    exact h.entry_eq he he' (by rw [← hme, ← hme'])
  have hsame : (l.index.map Prod.snd).Perm (l.arena.live.map Module.id) := by
    refine (List.perm_ext_iff_of_nodup hentries (Arena.nodup_live hslots)).mpr fun id => ?_
    rw [List.mem_map, List.mem_map]
    constructor
    · rintro ⟨e, he, rfl⟩
      obtain ⟨m, hm, -⟩ := h.live e he
      obtain ⟨n, -, -, hn⟩ := Arena.exists_slot hm
      exact ⟨m, Arena.mem_live.mpr ⟨n, hn⟩, (hnumbered _ m hm).id_eq⟩
    · rintro ⟨m, hm, rfl⟩
      obtain ⟨n, hn⟩ := Arena.mem_live.mp hm
      have hslot := Arena.module?_slot.mpr hn
      rw [hslots n m hn]
      exact ⟨_, h.entry _ m hslot, rfl⟩
  simpa [moduleCount, modules] using hsame.length_eq

/-- A virtual path is found in whichever spelling: one that stands in the index is in normal form. -/
theorem find?_hosted (text : String) :
    l.find? fs (.hosted text) = l.index.find? (.virtual text) := by
  simp only [find?]
  split
  · next id hfind =>
    obtain ⟨e, he, hidentity, -⟩ := PathIndex.exists_mem_of_find? hfind
    have hnormal := h.normal e he
    have hkey : e.1 = .hosted text := by
      cases hpath : e.1 with
      | file other => simp [hpath, ModulePath.identity] at hidentity
      | hosted other => simpa [hpath, ModulePath.identity] using hidentity
    rw [hkey] at hnormal
    rw [ModulePath.virtual, hnormal.2, hfind]
  · rfl

/-- A creation is refused as a duplicate exactly if the path is found. -/
theorem create_eq_duplicate {text : String} (habsolute : Lexical.isAbsolute text = true) :
    (∃ path, (l.create text).1 = .error (.duplicateModule path)) ↔
      ∃ id m, l.find? fs (.hosted text) = some id ∧ l.module? id = some m := by
  rw [h.find?_hosted]
  cases hfind : l.index.find? (.virtual text) with
  | none => simp [Loader.create, habsolute, hfind]
  | some id =>
    obtain ⟨m, hm, -⟩ := h.find?_eq_some.mp hfind
    simp [Loader.create, habsolute, hfind, hm]

end Indexed

/-- In every registry that can arise the tables agree. A virtual path that starts at the root is
refused as a duplicate exactly if a module is found under it, and is found in every spelling that
has the same normal form. -/
theorem consistent_registry (h : l.Reachable) : l.Consistent ∧
    ∀ fs text, Lexical.isAbsolute text = true →
      ((∃ path, (l.create text).1 = .error (.duplicateModule path)) ↔
        ∃ id m, l.find? fs (.hosted text) = some id ∧ l.module? id = some m) ∧
      ∀ other, Lexical.normalize other = Lexical.normalize text →
        l.find? fs (.hosted other) = l.find? fs (.hosted text) := by
  have hindexed := h.indexed
  have hnumbered := h.sound.numbered
  refine ⟨⟨fun _ _ => hindexed.find?_eq_some, hindexed.live,
    fun _ _ _ _ => hindexed.eq_of_identity, hindexed.moduleCount_eq hnumbered,
    fun n m hm => hnumbered _ m (Arena.module?_slot.mpr hm),
    fun _ _ hm _ hs => h.assigned hm hs, hindexed.normal⟩, fun fs text habsolute => ?_⟩
  refine ⟨hindexed.create_eq_duplicate habsolute, fun other hsame => ?_⟩
  rw [hindexed.find?_hosted, hindexed.find?_hosted, ModulePath.virtual, ModulePath.virtual, hsame]

/-- A failed first build gives a slot up, the next module comes behind it under the same path, a
failed rebuild cuts it back, and a structure that is added again takes the place of the one cut off. -/
theorem consistent_registry_of_failed_builds :
    let l := (ofDirectories []).run
      [.create "/a", .addDependency (.slot 0) "/missing", .build {} (.slot 0), .create "/x/../a",
        .addStructure (.slot 1) "S" [{ type := .fundamental .int }], .build {} (.slot 1),
        .addStructure (.slot 1) "Bad" [{ type := .fundamental .none }], .build {} (.slot 1),
        .addStructure (.slot 1) "T" [{ type := .struct ⟨.pending, 1⟩ }]]
    l.moduleCount = 1 ∧ l.module? (.slot 0) = none ∧
      (∃ m s, l.module? (.slot 1) = some m ∧ m.structures[1]? = some s ∧ s.name = "T" ∧
        s.id = ⟨.slot 1, 1⟩ ∧ s.Assigned) ∧
      (∃ path, (l.create "//a/.").1 = .error (.duplicateModule path)) ∧
      l.find? {} (.hosted "/b/../a") = l.find? {} (.hosted "/a") := by
  intro l
  obtain ⟨hconsistent, hpaths⟩ := consistent_registry (l := l) ⟨[], _, rfl⟩
  have hmodule : (l.module? (.slot 1)).map (fun m => m.structures[1]?.map Structure.name) =
      some (some "T") := by decide +kernel
  obtain ⟨m, hm, hname⟩ := Option.map_eq_some_iff.mp hmodule
  obtain ⟨s, hs, hsname⟩ := Option.map_eq_some_iff.mp hname
  have hfound : l.find? {} (.hosted "//a/.") = some (.slot 1) := by decide +kernel
  refine ⟨by decide +kernel, by decide +kernel, ⟨m, s, hm, hs, hsname, ?_, ?_⟩, ?_, ?_⟩
  · exact (hconsistent.numbered 1 m (Arena.module?_slot.mp hm)).structures 1 s hs
  · exact hconsistent.assigned _ m hm s (List.mem_of_getElem? hs)
  · exact (hpaths {} "//a/." (by decide)).1.mpr ⟨_, m, hfound, hm⟩
  · exact (hpaths {} "/a" (by decide)).2 "/b/../a" (by decide +kernel)

end Loader
end ModuleLinker
