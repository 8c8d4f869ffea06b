import ModuleLinker.Proofs.Layout.Search
import ModuleLinker.Proofs.LoadFrame
import ModuleLinker.Proofs.Registry.FileModules

/-!
# What loads come to

Loads that succeed, one after the other, put complete modules of files beside what was registered
before: each module that one of them brings in has everything found that its file leaves open, and
the containment among the structures that they bring in ends. What the loads between two registries
have come to is told here as a whole, so that nothing depends on which call brought in a module.
-/
namespace ModuleLinker

/-- Containment ends below a structure, as far as it goes on through the slots from a mark on. -/
def Arena.EndsFrom (a : Arena) (mark : Nat) (x : StructureId) : Prop :=
  Acc (fun y x => x.owner.isFrom mark = true ∧ y ∈ a.embedded x) x

theorem Arena.endsFrom_of_older {a : Arena} {mark : Nat} {x : StructureId}
    (hx : ¬ x.owner.isFrom mark = true) : a.EndsFrom mark x := ⟨_, fun _ hy => absurd hy.1 hx⟩

theorem Arena.endsFrom_of_embedded_eq {a b : Arena} {mark : Nat} {x : StructureId}
    (h : ∀ y, b.embedded y = a.embedded y) (hx : a.EndsFrom mark x) : b.EndsFrom mark x := by
  simpa only [EndsFrom, h] using hx

namespace Loader

variable {fs : FileSystem} {l l' left mid N : Loader} {id : ModuleId} {path canonical : String}
  {d : Descriptor} {m : Module} {b c : Arena}

/-! ## More files beside a loaded module -/

namespace WithFiles

variable (h : l.WithFiles fs l')
include h

theorem module?_eq_some (hm : l.module? id = some m) : l'.module? id = some m := by
  rw [h.older id (not_isFrom_of_module? hm), hm]

theorem layoutOf?_eq_some {t : FieldType} {layout : Layout}
    (ht : l.arena.layoutOf? t = some layout) : l'.arena.layoutOf? t = some layout := by
  cases t with
  | struct x =>
    obtain ⟨s, hs, hdone⟩ := Arena.layoutOf?_struct.mp ht
    obtain ⟨m, hm, hms⟩ := Arena.structure?_eq_some.mp hs
    exact Arena.layoutOf?_struct.mpr
      ⟨s, Arena.structure?_eq_some.mpr ⟨m, h.module?_eq_some hm, hms⟩, hdone⟩
  | _ => exact ht

theorem mapsInto {x : Mapping} {target : ModuleId} {t : Module}
    (ht : m.MapsInto l.arena x target t) : m.MapsInto l'.arena x target t := by
  obtain ⟨d, hd, htarget, ht⟩ := ht
  exact ⟨d, hd, htarget, h.module?_eq_some ht⟩

/-- A complete module stays complete. -/
theorem loadedFrom (hm : m.LoadedFrom fs l d) : m.LoadedFrom fs l' d where
  origin := hm.origin
  dependencies := by
    refine hm.dependencies.imp fun d e => ?_
    rintro ⟨path, target, t, hpath, hfind, ht, hbuilt, he⟩
    exact ⟨path, target, t, h.directories ▸ hpath, h.find?_eq_some path target hfind,
      h.module?_eq_some ht, hbuilt, he⟩
  mappings := hm.mappings
  structures := by
    refine hm.structures.imp fun s t hst => ⟨hst.name, hst.fields.imp fun f g hfg => ?_, ?_⟩
    · refine ⟨hfg.1, ?_⟩
      have htype := hfg.2
      cases hf : f.type with
      | mapped index =>
        rw [hf] at htype
        obtain ⟨x, target, t, position, hx, hinto, hfirst, hg⟩ := htype
        exact ⟨x, target, t, position, hx, h.mapsInto hinto, hfirst, hg⟩
      | _ => rwa [hf] at htype
    · obtain ⟨layout, hlayout, hplaced⟩ := hst.laidOut
      exact ⟨layout, hlayout, hplaced.mono fun _ _ => h.layoutOf?_eq_some⟩
  functions := hm.functions
  numbered := hm.numbered
  functionLinks := by
    refine hm.functionLinks.imp fun x link => ?_
    rintro ⟨target, t, position, hinto, hfirst, hlink⟩
    exact ⟨target, t, position, h.mapsInto hinto, hfirst, hlink⟩

end WithFiles

/-! ## One load -/

namespace Loading

variable (h : Loading fs l canonical (.ok ()) left mid b c)
include h

/-- A module in a new slot is complete. -/
theorem exists_loadedFrom (hid : id.isFrom l.arena.length = true) (hm : left.module? id = some m) :
    ∃ file d, left.HasFile fs id file d m ∧ m.LoadedFrom fs left d := by
  obtain ⟨n, rfl, hn⟩ := ModuleId.exists_slot_of_isFrom hid
  obtain ⟨n', hslot, hlt, -⟩ := Arena.exists_slot hm
  obtain rfl := ModuleId.slot.inj hslot
  obtain ⟨k, file, bytes, d, hk, hpath, hcanonical, hread, hdecode, -, -, hloaded⟩ :=
    h.loadedFrom hn hlt
  obtain rfl : k = m := Option.some.inj (hk.symm.trans hm)
  exact ⟨file, d, ⟨hm, ⟨hcanonical, bytes, hread, hdecode⟩, hloaded.readFrom hpath⟩, hloaded⟩

theorem withFiles (hleft : left.Indexed) : l.WithFiles fs left where
  directories := by
    rw [h.left_eq]
    exact h.extending.directories
  length_le := h.length_le
  older := fun _ => h.module?_eq
  find?_eq_some := by
    intro path id hfind
    rw [h.left_eq]
    exact h.extending.find?_eq_some hfind
  indexed := hleft
  files := by
    intro id m hid hm
    obtain ⟨file, d, hfile, -⟩ := h.exists_loadedFrom hid hm
    exact ⟨file, d, hfile⟩

end Loading

/-- Containment that the search has found to end does so in the registry that a load leaves. -/
theorem Gathered.endsFrom (h : Gathered fs l canonical mid)
    (hlink : mid.arena.linkAll (newSlots l mid) = (.ok (), b))
    (hcheck : b.checkCycles (newSlots l mid) = .ok ()) (x : StructureId) :
    b.EndsFrom l.arena.length x := by
  have hL := h.linkPhase hlink
  have hgrounded : ∀ x, b.Grounded x → b.EndsFrom l.arena.length x := by
    intro x hx
    induction hx with
    | intro x _ ih =>
      refine ⟨_, fun y ⟨hnew, hy⟩ => ih y ⟨?_, hy⟩⟩
      rw [hL.isLaidOut_eq, Arena.isLaidOut,
        Arena.structure?_of_module?_none (module?_none_of_isFrom hnew)]
  by_cases hx : x.owner.isFrom l.arena.length = true
  · cases hs : b.structure? x with
    | none =>
      refine ⟨_, fun y ⟨_, hy⟩ => ?_⟩
      obtain ⟨s, hs', -⟩ := Arena.mem_embedded.mp hy
      rw [hs] at hs'
      cases hs'
    | some s =>
      obtain ⟨k, hk, -⟩ := Arena.structure?_eq_some.mp hs
      obtain ⟨m, hm, -⟩ := hL.exists_resolved hk
      refine hgrounded x (Arena.grounded_of_checkCycles hcheck x (List.mem_flatMap.mpr
        ⟨x.owner, (Loading.mem_newSlots_iff hm).mpr hx, Arena.mem_structureIds.mpr ⟨rfl, s, hs⟩⟩))
  · exact Arena.endsFrom_of_older hx

/-! ## Loads one after the other -/

/-- The second registry is what loads that succeed have made of the first one. -/
structure LoadsTo (fs : FileSystem) (l l' : Loader) : Prop where
  reachable : l'.Reachable
  withFiles : l.WithFiles fs l'
  live : ∀ id ∈ newSlots l l', ∃ m, l'.module? id = some m
  loaded : ∀ id file d m, id.isFrom l.arena.length = true → l'.HasFile fs id file d m →
    m.LoadedFrom fs l' d
  ends : ∀ x, l'.arena.EndsFrom l.arena.length x

namespace LoadsTo

@[refl] theorem refl (h : l.Reachable) : l.LoadsTo fs l where
  reachable := h
  withFiles := .refl h.indexed
  live := by simp
  loaded := by
    intro id file d m hid hfile
    exact absurd hid (not_isFrom_of_module? hfile.there)
  ends := by
    refine fun x => ⟨_, fun y ⟨hx, hy⟩ => ?_⟩
    obtain ⟨s, hs, -⟩ := Arena.mem_embedded.mp hy
    obtain ⟨m, hm, -⟩ := Arena.structure?_eq_some.mp hs
    exact absurd hx (not_isFrom_of_module? hm)

/-- A load that succeeds. -/
theorem of_load (h : l.Reachable) (hload : l.load fs path = (.ok id, l')) : l.LoadsTo fs l' := by
  have hreachable : l'.Reachable := by
    have hstep := h.apply (.load fs path)
    rwa [show l.apply (.load fs path) = l' from congrArg Prod.snd hload] at hstep
  rcases load_ends h.sound hload with ⟨cause, hr⟩ | ⟨-, -, -, -, -, rfl⟩ | ⟨canonical, -, -, hends⟩
  · cases hr
  · exact .refl h
  · cases hends with
    | @done mid b c gathered links acyclic layouts =>
      have hL := gathered.loading links layouts
      refine ⟨hreachable, hL.withFiles hreachable.indexed, fun id hid => ?_,
        fun id file d m hid hfile => ?_, fun x => ?_⟩
      · obtain ⟨n, rfl, hle, hlt⟩ := mem_newSlots.mp hid
        obtain ⟨m, -, -, -, hm, -⟩ := hL.loadedFrom hle hlt
        exact ⟨m, hm⟩
      · obtain ⟨file', d', hfile', hloaded⟩ := hL.exists_loadedFrom hid hfile.there
        have hpath := hfile'.readFrom.path.symm.trans hfile.readFrom.path
        obtain rfl : file' = file := ModulePath.file.inj hpath
        obtain rfl := hfile.described.unique hfile'.described
        exact hloaded
      · refine Arena.endsFrom_of_embedded_eq (fun y => ?_) (gathered.endsFrom links acyclic x)
        rw [hL.arena_eq]
        exact Arena.embedded_eq_of_outline_eq hL.settled.laysOut.outline y

/-- What a structure of a loaded module contains is there. -/
theorem exists_structure?_of_embedded (h : l.LoadsTo fs l') {x y : StructureId}
    (hx : x.owner.isFrom l.arena.length = true) (hy : y ∈ l'.arena.embedded x) :
    ∃ s, l'.arena.structure? y = some s := by
  obtain ⟨t, ht, g, hg, hgy⟩ := Arena.mem_embedded.mp hy
  obtain ⟨m, hm, hmt⟩ := Arena.structure?_eq_some.mp ht
  obtain ⟨file, d, hfile⟩ := h.withFiles.files _ m hx hm
  have hloaded := h.loaded _ file d m hx hfile
  obtain ⟨_, -, hloadedAs⟩ :=
    exists_of_forall₂_right hloaded.structures (List.mem_of_getElem? hmt)
  obtain ⟨layout, -, hplaced⟩ := hloadedAs.laidOut
  obtain ⟨element, helement⟩ := hplaced.exists_layout hg
  rw [hgy] at helement
  obtain ⟨s, hs, -⟩ := Arena.layoutOf?_struct.mp helement
  exact ⟨s, hs⟩

theorem trans (h : l.LoadsTo fs l') (h' : l'.LoadsTo fs N) : l.LoadsTo fs N where
  reachable := h'.reachable
  withFiles := h.withFiles.trans h'.withFiles
  live := by
    intro id hid
    rw [← newSlots_append h.withFiles.length_le h'.withFiles.length_le, List.mem_append] at hid
    rcases hid with hid | hid
    · obtain ⟨m, hm⟩ := h.live id hid
      exact ⟨m, h'.withFiles.module?_eq_some hm⟩
    · exact h'.live id hid
  loaded := by
    intro id file d m hid hfile
    by_cases hnew : id.isFrom l'.arena.length = true
    · exact h'.loaded id file d m hnew hfile
    · have hm := hfile.there
      rw [h'.withFiles.older id hnew] at hm
      exact h'.withFiles.loadedFrom
        (h.loaded id file d m hid ⟨hm, hfile.described, hfile.readFrom⟩)
  ends := by
    -- Below a structure that the later loads found there, all was there before them.
    have holder : ∀ x, ¬ x.owner.isFrom l'.arena.length = true →
        N.arena.EndsFrom l.arena.length x := by
      intro x
      induction h.ends x with
      | intro x _ ih =>
        intro hold
        refine ⟨_, fun y ⟨hx, hy⟩ => ?_⟩
        rw [Arena.embedded, Arena.structure?_congr (h'.withFiles.older _ hold)] at hy
        obtain ⟨s, hs⟩ := h.exists_structure?_of_embedded hx hy
        obtain ⟨m, hm, -⟩ := Arena.structure?_eq_some.mp hs
        exact ih y ⟨hx, hy⟩ (not_isFrom_of_module? hm)
    intro x
    induction h'.ends x with
    | intro x _ ih =>
      by_cases hnew : x.owner.isFrom l'.arena.length = true
      · exact ⟨_, fun y ⟨_, hy⟩ => ih y ⟨hnew, hy⟩⟩
      · exact holder x hnew

end LoadsTo
end Loader
end ModuleLinker
