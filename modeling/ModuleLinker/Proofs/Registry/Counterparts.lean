import ModuleLinker.Proofs.Registry.LoadsTo
import ModuleLinker.Proofs.Registry.Renaming

/-!
# The same modules under other numbers

What a loaded module is, is decided by its file and by the modules that its specs stand for. So two
registries that loads have made of one have the same module under one path, but for the numbers of
modules: the same names are first in the same tables, and where the placement rules are given the
same layouts, they give the same.
-/
namespace ModuleLinker

variable {ρ : ModuleId → ModuleId} {a b : Arena} {m k : Module} {x : Mapping}

theorem isFirst_congr {α : Type} {nameOf : α → String} {table table' : List α} {name : String}
    {position : Nat} (h : table'.map nameOf = table.map nameOf) :
    IsFirst nameOf table' name position ↔ IsFirst nameOf table name position := by
  have hset : ∀ table : List α, {j : Nat | ∃ x, table[j]? = some x ∧ nameOf x = name} =
      {j : Nat | (table.map nameOf)[j]? = some name} := by
    intro table
    ext j
    simp
  rw [IsFirst, IsFirst, hset, hset, h]

/-! ## Modules that agree but for numbers -/

/-- Two modules of which the second one has the mappings and the dependencies of the first one, and
what it maps is in modules with the same names. -/
structure Module.Corresponds (ρ : ModuleId → ModuleId) (a : Arena) (m : Module) (b : Arena)
    (k : Module) : Prop where
  id : k.id = ρ m.id
  path : k.path = m.path
  mappings : k.mappings = m.mappings
  dependencies : k.dependencies = m.dependencies.map (Dependency.rename ρ)
  mapsInto : ∀ x target t, m.MapsInto a x target t →
    ∃ u, k.MapsInto b x (ρ target) u ∧ t.SameNames u

theorem Module.MapsInto.unique {target target' : ModuleId} {t t' : Module}
    (h : m.MapsInto a x target t) (h' : m.MapsInto a x target' t') : target' = target ∧ t' = t := by
  obtain ⟨d, hd, htarget, ht⟩ := h
  obtain ⟨d', hd', htarget', ht'⟩ := h'
  obtain rfl := Option.some.inj (hd.symm.trans hd')
  obtain rfl := Option.some.inj (htarget.symm.trans htarget')
  exact ⟨rfl, Option.some.inj (ht'.symm.trans ht)⟩

namespace Module.Corresponds

variable (h : m.Corresponds ρ a b k)
include h

/-- A type of the description is linked to the renamed one. -/
theorem type {t u v : FieldType} (ht : ∀ y, t = .struct y → y.owner = .pending)
    (hu : t.LoadedAs a m u) (hv : t.LoadedAs b k v) : v = u.rename ρ := by
  cases t with
  | mapped index =>
    obtain ⟨x, target, n, position, hx, hinto, hfirst, rfl⟩ := hu
    obtain ⟨x', target', n', position', hx', hinto', hfirst', rfl⟩ := hv
    rw [h.mappings, hx, Option.some.injEq] at hx'
    subst hx'
    obtain ⟨u, hu, hnames⟩ := h.mapsInto x target n hinto
    obtain ⟨rfl, rfl⟩ := hu.unique hinto'
    obtain rfl := ((isFirst_congr hnames.1).mp hfirst').unique hfirst
    rfl
  | _ =>
    obtain rfl : u = _ := hu
    obtain rfl : v = _ := hv
    rw [h.id]
    exact FieldType.assign_rename ht

/-- The fields of a structure of the description are linked to the renamed ones. -/
theorem fields {s t u : Structure}
    (hs : ∀ f ∈ s.fields, ∀ y, f.type = .struct y → y.owner = .pending)
    (ht : s.TypedAs a m t) (hu : s.LoadedAs b k u) :
    List.Forall₂ (Field.RenamedTo ρ) t.fields u.fields := by
  refine List.forall₂_of_length_eq_of_get
    (ht.fields.length_eq.symm.trans hu.fields.length_eq) fun i hi hi' => ?_
  have hlt : i < s.fields.length := ht.fields.length_eq ▸ hi
  obtain ⟨hcount, htype⟩ := ht.fields.get hlt hi
  obtain ⟨hcount', htype'⟩ := hu.fields.get hlt hi'
  exact ⟨hcount'.trans hcount.symm, h.type (hs _ (List.get_mem _ _)) htype htype'⟩

theorem functionLink {link link' : FunctionId}
    (hlink : ∃ target t position, m.MapsInto a x target t ∧
      IsFirst Function.name t.functions x.name position ∧ link = ⟨target, position⟩)
    (hlink' : ∃ target t position, k.MapsInto b x target t ∧
      IsFirst Function.name t.functions x.name position ∧ link' = ⟨target, position⟩) :
    link' = link.rename ρ := by
  obtain ⟨target, t, position, hinto, hfirst, rfl⟩ := hlink
  obtain ⟨target', t', position', hinto', hfirst', rfl⟩ := hlink'
  obtain ⟨u, hu, hnames⟩ := h.mapsInto x target t hinto
  obtain ⟨rfl, rfl⟩ := hu.unique hinto'
  obtain rfl := ((isFirst_congr hnames.2).mp hfirst').unique hfirst
  rfl

end Module.Corresponds

namespace Loader

variable {fs : FileSystem} {l F M N : Loader} {id : ModuleId} {d : Descriptor}

/-- Every dependency of a module is resolved to the module under the path that its spec stands
for. -/
def Directs (fs : FileSystem) (N : Loader) (m : Module) : Prop :=
  ∀ e ∈ m.dependencies, ∃ path target,
    resolveSpec fs N.libraryDirectories m.path e.spec = .ok path ∧
      N.index.find? path = some target ∧ e.target = some target

theorem directs_of_loadedFrom (h : m.LoadedFrom fs N d) : N.Directs fs m := by
  intro e he
  obtain ⟨d, -, path, target, -, hpath, hfind, -, -, rfl⟩ :=
    exists_of_forall₂_right h.dependencies he
  exact ⟨path, target, hpath, hfind, rfl⟩

/-- A renaming that takes what is found under a path in the first registry to what is found there in
the second one. -/
def Matches (ρ : ModuleId → ModuleId) (N F : Loader) : Prop :=
  ∀ path id, N.index.find? path = some id → F.index.find? path = some (ρ id)

section
variable (hρ : Matches ρ N F) (hl : l.Indexed) (hN : l.WithFiles fs N)
include hρ

theorem Matches.find?_path (h : N.Indexed) (hm : N.module? id = some m) :
    F.index.find? m.path = some (ρ id) := hρ _ _ (h.find?_path hm)

include hl hN

theorem Matches.eq_of_older (hF : l.WithFiles fs F) (hid : ¬ id.isFrom l.arena.length = true)
    (hm : N.module? id = some m) : ρ id = id := by
  rw [hN.older id hid] at hm
  have hfind := hF.find?_eq_some _ _ (hl.find?_path hm)
  rw [hρ.find?_path hN.indexed ((hN.older id hid).trans hm)] at hfind
  exact Option.some.inj hfind

theorem Matches.exists_sameNames (hF : l.WithFiles fs F) (hm : N.module? id = some m) :
    ∃ k, F.module? (ρ id) = some k ∧ m.SameNames k := by
  have hfind := hρ.find?_path hN.indexed hm
  obtain ⟨k, hk, -⟩ := hF.indexed.find?_eq_some.mp hfind
  exact ⟨k, hk, hN.sameNames hl hF (hN.indexed.find?_path hm) hfind hm hk⟩

theorem Matches.isFrom (hF : l.WithFiles fs F) (hid : id.isFrom l.arena.length = true)
    (hm : N.module? id = some m) : (ρ id).isFrom l.arena.length = true := by
  have hfind := hρ.find?_path hN.indexed hm
  obtain ⟨k, hk, -⟩ := hF.indexed.find?_eq_some.mp hfind
  rcases hN.counterparts hl hF (hN.indexed.find?_path hm) hfind hm hk with ⟨hold, -⟩ | ⟨-, hnew, -⟩
  · exact absurd hid hold
  · exact hnew

variable (hF : l.LoadsTo fs F)
include hF

/-- A module whose dependencies are directed corresponds to the loaded one under its path. -/
theorem Matches.exists_corresponds (hid : id.isFrom l.arena.length = true)
    (hm : N.module? id = some m) (hslot : m.id = id) (hdirects : N.Directs fs m) :
    ∃ file d k, N.HasFile fs id file d m ∧ F.HasFile fs (ρ id) file d k ∧ k.LoadedFrom fs F d ∧
      m.Corresponds ρ N.arena F.arena k := by
  have hfind := hρ.find?_path hN.indexed hm
  obtain ⟨k, hk, -⟩ := hF.withFiles.indexed.find?_eq_some.mp hfind
  rcases hN.counterparts hl hF.withFiles (hN.indexed.find?_path hm) hfind hm hk with
    ⟨hold, -⟩ | ⟨-, hnew, file, d, hfile, hfile'⟩
  · exact absurd hid hold
  · have hloaded := hF.loaded _ file d k hnew hfile'
    have hpath : k.path = m.path := hfile'.readFrom.path.trans hfile.readFrom.path.symm
    have hspecs := hfile'.readFrom.specs.trans hfile.readFrom.specs.symm
    have hlength : k.dependencies.length = m.dependencies.length := by
      simpa using congrArg List.length hspecs
    have hdependencies : k.dependencies = m.dependencies.map (Dependency.rename ρ) := by
      refine List.ext_getElem (by simpa using hlength) fun i hi hi' => ?_
      rw [List.length_map] at hi'
      have hspec : k.dependencies[i].spec = m.dependencies[i].spec := by
        simpa [hi, hi'] using congrArg (·[i]?) hspecs
      obtain ⟨path, target, hresolve, hfound, htarget⟩ := hdirects _ (List.getElem_mem hi')
      obtain ⟨path', target', hresolve', hfound', htarget'⟩ :=
        directs_of_loadedFrom hloaded _ (List.getElem_mem hi)
      rw [hF.withFiles.directories, ← hN.directories, hpath, hspec, hresolve] at hresolve'
      obtain rfl := Except.ok.inj hresolve'
      obtain rfl := Option.some.inj ((hρ path target hfound).symm.trans hfound')
      rw [List.getElem_map, Dependency.rename, htarget, Option.map_some, ← htarget', ← hspec]
    refine ⟨file, d, k, hfile, hfile', hloaded, ?_, hpath, ?_, hdependencies, ?_⟩
    · rw [hslot]
      exact (hF.reachable.sound.numbered _ k hk).id_eq
    · exact hfile'.readFrom.mappings.trans hfile.readFrom.mappings.symm
    · rintro x target t ⟨e, he, htarget, ht⟩
      obtain ⟨u, hu, hnames⟩ := hρ.exists_sameNames hl hN hF.withFiles ht
      refine ⟨u, ⟨e.rename ρ, ?_, ?_, hu⟩, hnames⟩
      · rw [hdependencies, List.getElem?_map, he, Option.map_some]
      · rw [Dependency.rename, htarget, Option.map_some]

end

/-! ## Structures -/

/-- What the loaded structure of the same place is for a structure that was linked. -/
structure Renamed (ρ : ModuleId → ModuleId) (F : Loader) (s t : Structure) : Prop where
  name : t.name = s.name
  fields : List.Forall₂ (Field.RenamedTo ρ) s.fields t.fields
  laidOut : ∃ layout, t.layout = .done layout ∧ Placed F.arena.layoutOf? t.fields layout

theorem forall₂_renamed (h : m.Corresponds ρ a F.arena k) (hd : d.Unregistered)
    (hm : List.Forall₂ (Structure.TypedAs a m) d.structures m.structures)
    (hk : k.LoadedFrom fs F d) : List.Forall₂ (Renamed ρ F) m.structures k.structures := by
  refine List.forall₂_of_length_eq_of_get
    (hm.length_eq.symm.trans hk.structures.length_eq) fun i hi hi' => ?_
  have hlt : i < d.structures.length := hm.length_eq ▸ hi
  have hs := hd.structures i _ (List.getElem?_eq_getElem hlt)
  have ht := hm.get hlt hi
  have hu := hk.structures.get hlt hi'
  exact ⟨hu.name.trans ht.name.symm, h.fields hs.types ht hu, hu.laidOut⟩

theorem exists_renamed (h : List.Forall₂ (Renamed ρ F) m.structures k.structures)
    {y : StructureId} {s : Structure} (hm : a.module? y.owner = some m)
    (hk : F.module? (ρ y.owner) = some k) (hs : a.structure? y = some s) :
    ∃ t, F.arena.structure? (y.rename ρ) = some t ∧ Renamed ρ F s t := by
  rw [Arena.structure?_of_module? hm, List.getElem?_eq_some_iff] at hs
  obtain ⟨hi, rfl⟩ := hs
  have hi' : y.index < k.structures.length := h.length_eq ▸ hi
  exact ⟨k.structures[y.index],
    Arena.structure?_eq_some.mpr ⟨k, hk, List.getElem?_eq_getElem hi'⟩, h.get hi hi'⟩

/-! ## Complete modules -/

section
variable (hρ : Matches ρ M F) (hl : l.Indexed) (hM : l.LoadsTo fs M) (hF : l.LoadsTo fs F)
include hρ hl hM hF

theorem Matches.exists_loadedFrom (hid : id.isFrom l.arena.length = true)
    (hm : M.module? id = some m) :
    ∃ file d k, M.HasFile fs id file d m ∧ F.HasFile fs (ρ id) file d k ∧
      m.LoadedFrom fs M d ∧ k.LoadedFrom fs F d ∧ m.Corresponds ρ M.arena F.arena k ∧
      List.Forall₂ (Renamed ρ F) m.structures k.structures := by
  obtain ⟨file, d, hfile⟩ := hM.withFiles.files id m hid hm
  have hloaded := hM.loaded id file d m hid hfile
  obtain ⟨file', d', k, hfile', hk, hkloaded, hcorresponds⟩ :=
    hρ.exists_corresponds hl hM.withFiles hF hid hm (hM.reachable.sound.numbered id m hm).id_eq
      (directs_of_loadedFrom hloaded)
  have hmloaded := hM.loaded id file' d' m hid hfile'
  refine ⟨file', d', k, hfile', hk, hmloaded, hkloaded, hcorresponds, ?_⟩
  exact forall₂_renamed hcorresponds hfile'.described.unregistered
    (hmloaded.structures.imp fun s t hst => ⟨hst.name, hst.fields⟩) hkloaded

/-- A new structure has the same layout in both registries if what it contains has. -/
theorem Matches.layoutOf?_new {y : StructureId} {layout : Layout}
    (hnew : y.owner.isFrom l.arena.length = true)
    (hbelow : ∀ z ∈ M.arena.embedded y, ∀ layout, M.arena.layoutOf? (.struct z) = some layout →
      F.arena.layoutOf? (.struct (z.rename ρ)) = some layout)
    (hy : M.arena.layoutOf? (.struct y) = some layout) :
    F.arena.layoutOf? (.struct (y.rename ρ)) = some layout := by
  obtain ⟨s, hs, hdone⟩ := Arena.layoutOf?_struct.mp hy
  obtain ⟨m, hm, hms⟩ := Arena.structure?_eq_some.mp hs
  obtain ⟨file, d, k, -, hk, hmloaded, -, -, hrenamed⟩ := hρ.exists_loadedFrom hl hM hF hnew hm
  obtain ⟨t, ht, htrenamed⟩ := exists_renamed hrenamed hm hk.there hs
  obtain ⟨layout', hlayout', hplaced'⟩ := htrenamed.laidOut
  obtain ⟨_, -, hloaded⟩ := exists_of_forall₂_right hmloaded.structures (List.mem_of_getElem? hms)
  obtain ⟨layout'', hlayout'', hplaced⟩ := hloaded.laidOut
  obtain rfl : layout'' = layout := LayoutState.done.inj (hlayout''.symm.trans hdone)
  have hfields := htrenamed.fields
  have hsame : List.Forall₂ (fun f g => g.count = f.count ∧
      ∀ l, M.arena.layoutOf? f.type = some l → F.arena.layoutOf? g.type = some l)
      s.fields t.fields := by
    refine List.forall₂_of_length_eq_of_get hfields.length_eq fun i hi hi' => ?_
    obtain ⟨hcount, htype⟩ := hfields.get hi hi'
    refine ⟨hcount, fun element helement => ?_⟩
    rw [htype]
    cases hf : (s.fields.get ⟨i, hi⟩).type with
    | struct z =>
      rw [hf] at helement
      exact hbelow z ((Arena.mem_embedded_of_structure? hs).mpr ⟨_, List.get_mem _ _, hf⟩)
        element helement
    | _ => rwa [hf] at helement
  obtain ⟨-, rfl⟩ := hplaced.unique hplaced' hsame
  exact Arena.layoutOf?_struct.mpr ⟨t, ht, hlayout'⟩

theorem Matches.layoutOf?_older {y : StructureId} {layout : Layout}
    (hold : ¬ y.owner.isFrom l.arena.length = true)
    (hy : M.arena.layoutOf? (.struct y) = some layout) :
    F.arena.layoutOf? (.struct (y.rename ρ)) = some layout := by
  obtain ⟨s, hs, hdone⟩ := Arena.layoutOf?_struct.mp hy
  obtain ⟨m, hm, hms⟩ := Arena.structure?_eq_some.mp hs
  have hk : F.module? y.owner = some m := by
    rw [hF.withFiles.older _ hold, ← hM.withFiles.older _ hold]
    exact hm
  rw [StructureId.rename, hρ.eq_of_older hl hM.withFiles hF.withFiles hold hm]
  exact Arena.layoutOf?_struct.mpr ⟨s, Arena.structure?_eq_some.mpr ⟨m, hk, hms⟩, hdone⟩

/-- Types have the same layout in both registries: structures because it follows from those of what
they contain, going down through the new modules. -/
theorem Matches.layoutOf?_eq_some {t : FieldType} {layout : Layout}
    (ht : M.arena.layoutOf? t = some layout) :
    F.arena.layoutOf? (t.rename ρ) = some layout := by
  have hstruct : ∀ y layout, M.arena.layoutOf? (.struct y) = some layout →
      F.arena.layoutOf? (.struct (y.rename ρ)) = some layout := by
    intro y
    induction hM.ends y with
    | intro y _ ih =>
      intro layout hy
      by_cases hnew : y.owner.isFrom l.arena.length = true
      · exact hρ.layoutOf?_new hl hM hF hnew (fun z hz => ih z ⟨hnew, hz⟩) hy
      · exact hρ.layoutOf?_older hl hM hF hnew hy
  cases t with
  | struct y => exact hstruct y layout ht
  | _ => exact ht

/-- The module under a path is the same one in both registries, but for numbers. -/
theorem Matches.module?_rename (hid : id.isFrom l.arena.length = true)
    (hm : M.module? id = some m) : F.module? (ρ id) = some (m.rename ρ) := by
  obtain ⟨file, d, k, -, hk, hmloaded, hkloaded, hcorresponds, hrenamed⟩ :=
    hρ.exists_loadedFrom hl hM hF hid hm
  have hstructures : k.structures = m.structures.map (Structure.rename ρ) := by
    refine List.ext_getElem (by simp [hrenamed.length_eq]) fun i hi hi' => ?_
    rw [List.length_map] at hi'
    have hst := hrenamed.get hi' hi
    have hlt : i < d.structures.length := hmloaded.structures.length_eq ▸ hi'
    obtain ⟨layout, hlayout, hplaced⟩ := (hmloaded.structures.get hlt hi').laidOut
    obtain ⟨layout', hlayout', hplaced'⟩ := hst.laidOut
    have hsame := hst.fields.imp fun f g hfg => And.intro hfg.1
      fun l (hl' : M.arena.layoutOf? f.type = some l) =>
        hfg.2 ▸ hρ.layoutOf?_eq_some hl hM hF hl'
    obtain ⟨hoffsets, rfl⟩ := hplaced.unique hplaced' hsame
    rw [List.getElem_map]
    refine Structure.eq_rename hst.name ?_ hst.fields hoffsets (hlayout'.trans hlayout.symm)
    rw [hkloaded.numbered.structures i _ (List.getElem?_eq_getElem hi),
      hmloaded.numbered.structures i _ (List.getElem?_eq_getElem hi'), hcorresponds.id]
    rfl
  have hfunctions : k.functions = m.functions.map (Function.rename ρ) := by
    rw [hkloaded.functions, hmloaded.functions, hcorresponds.id, List.map_map]
    rfl
  have hlinks : k.functionLinks = m.functionLinks.map (FunctionId.rename ρ) := by
    have hmlinks := hmloaded.functionLinks
    have hklinks := hkloaded.functionLinks
    refine List.ext_getElem (by simp [← hmlinks.length_eq, hklinks.length_eq]) fun i hi hi' => ?_
    rw [List.length_map] at hi'
    have hlt : i < d.mappings.functions.length := hmlinks.length_eq ▸ hi'
    rw [List.getElem_map]
    exact hcorresponds.functionLink (hmlinks.get hlt hi') (hklinks.get hlt hi)
  rw [hk.there, Module.rename, ← hcorresponds.id, ← hcorresponds.dependencies, ← hstructures,
    ← hfunctions, ← hlinks, ← hcorresponds.path, ← hcorresponds.mappings,
    hmloaded.origin.trans hkloaded.origin.symm]

end
end Loader
end ModuleLinker
