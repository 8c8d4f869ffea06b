import ModuleLinker.Image.Encode
import ModuleLinker.Proofs.Registry.Loading

/-!
# What a load brings in

After a load that succeeds, every module that it registered is the one its file describes, with
everything found that the description leaves open: dependencies are resolved to the modules that
their specs mean, mapped types and functions to the first symbol of their name there, and every
structure is laid out.
-/
namespace ModuleLinker

/-- The type that the field of a loaded module has where its file has the first one. A mapped type
is the first structure of the mapping's name in the module that the mapping points into. -/
def FieldType.LoadedAs (a : Arena) (m : Module) : FieldType → FieldType → Prop
  | .mapped index, u => ∃ x target t position, m.mappings.structures[index]? = some x ∧
      m.MapsInto a x target t ∧ IsFirst Structure.name t.structures x.name position ∧
      u = .struct ⟨target, position⟩
  | t, u => u = t.assign m.id

/-- The structure that a loaded module has where its file has the first one. -/
structure Structure.LoadedAs (a : Arena) (m : Module) (s t : Structure) : Prop where
  name : t.name = s.name
  fields : List.Forall₂ (fun f g => g.count = f.count ∧ f.type.LoadedAs a m g.type)
    s.fields t.fields
  laidOut : ∃ layout, t.layout = .done layout ∧ Placed a.layoutOf? t.fields layout

/-- The structure of a linked module where its file has the first one, laid out or not. -/
structure Structure.TypedAs (a : Arena) (m : Module) (s t : Structure) : Prop where
  name : t.name = s.name
  fields : List.Forall₂ (fun f g => g.count = f.count ∧ f.type.LoadedAs a m g.type)
    s.fields t.fields

/-- The dependency is resolved to the module that its spec means, and that one may be used. -/
def Dependency.LoadedAs (fs : FileSystem) (l : Loader) (m : Module) (d e : Dependency) : Prop :=
  ∃ path target t, resolveSpec fs l.libraryDirectories m.path d.spec = .ok path ∧
    l.index.find? path = some target ∧ l.module? target = some t ∧ t.needsBuild = false ∧
    e = ⟨d.spec, some target⟩

/-- A module that was loaded from a file with the given description. -/
structure Module.LoadedFrom (fs : FileSystem) (l : Loader) (d : Descriptor) (m : Module) :
    Prop where
  origin : m.origin = .file d.fileVersion d.instructionSet d.constants d.entry
  dependencies : List.Forall₂ (Dependency.LoadedAs fs l m) d.dependencies m.dependencies
  mappings : m.mappings = d.mappings
  structures : List.Forall₂ (Structure.LoadedAs l.arena m) d.structures m.structures
  functions : m.functions = d.functions.map (Function.assign m.id)
  numbered : m.Numbered m.id
  functionLinks : List.Forall₂ (fun x link => ∃ target t position, m.MapsInto l.arena x target t ∧
    IsFirst Function.name t.functions x.name position ∧ link = ⟨target, position⟩)
    d.mappings.functions m.functionLinks

namespace Loader

variable {fs : FileSystem} {l l' left mid : Loader} {b c : Arena} {id : ModuleId}
  {canonical : String}

/-- A type of a linked module, where the module read from the file has the type of the
description. -/
theorem loadedAs_of_linked {a : Arena} {m : Module} (hnumbered : ∀ id k, a.module? id = some k →
    k.Numbered id) {t u : FieldType}
    (h : (t.assign m.id).isResolved = true ∧ u = t.assign m.id ∨
      ∃ index id, t.assign m.id = .mapped index ∧ m.mappedStructure a index = .ok id ∧
        u = .struct id) : t.LoadedAs a m u := by
  cases t with
  | fundamental t =>
    rcases h with ⟨-, rfl⟩ | ⟨index, id, hmapped, -⟩
    · rfl
    · cases hmapped
  | struct id =>
    rcases h with ⟨-, rfl⟩ | ⟨index, id', hmapped, -⟩
    · rfl
    · simp only [FieldType.assign] at hmapped
      split at hmapped <;> cases hmapped
  | mapped index =>
    rcases h with ⟨hresolved, -⟩ | ⟨index', id, hmapped, hid, rfl⟩
    · cases hresolved
    · obtain rfl : index = index' := FieldType.mapped.inj hmapped
      obtain ⟨x, target, t, s, hx, ⟨d, hd, htarget, ht⟩, hs, rfl⟩ :=
        Module.mappedStructure_eq_ok.mp hid
      have htn := hnumbered target t ht
      exact ⟨x, target, t, s.index, hx, ⟨d, hd, htarget, ht⟩, (htn.structureNamed? hs).2,
        by rw [htn.id_eq]⟩

/-- The structures of a module that was linked after it was read. -/
theorem typedAs_of_linkedFrom {a : Arena} {m k : Module} {d : Descriptor}
    (hnumbered : ∀ id k, a.module? id = some k → k.Numbered id)
    (hfile : m.structures = d.structures.map (Structure.assign m.id)) (hmk : m.Evolves k)
    (hlinked : m.LinkedFrom a k) :
    List.Forall₂ (Structure.TypedAs a k) d.structures k.structures := by
  have hfields := hlinked.fields
  have hevolves := hmk.structures
  rw [hfile, List.forall₂_map_left_iff] at hfields hevolves
  refine List.forall₂_of_length_eq_of_get hfields.length_eq fun i hi hi' => ?_
  have htypes := hfields.get hi hi'
  have hstructure := hevolves.get hi hi'
  have hcounts := hstructure.fields
  simp only [Structure.assign, List.forall₂_map_left_iff] at htypes hcounts
  refine ⟨hstructure.name, List.forall₂_of_length_eq_of_get htypes.length_eq fun j hj hj' => ?_⟩
  refine ⟨(hcounts.get hj hj').1, loadedAs_of_linked hnumbered ?_⟩
  rw [hmk.id]
  exact htypes.get hj hj'

namespace Loading

variable (h : Loading fs l canonical (.ok ()) left mid b c)
include h

theorem numbered_loaded : ∀ id k, c.module? id = some k → k.Numbered id := by
  intro id k hk
  obtain ⟨m, hm, hmk⟩ := h.settled.exists_earlier hk
  exact (h.extending.numbered h.sound.numbered id m hm).of_evolves hmk

/-- A new module with all that linking found, seen from the registry that the load leaves. -/
theorem linkedFrom {m k : Module} (hnew : id ∈ newSlots l mid) (hm : mid.module? id = some m)
    (hk : c.module? id = some k) : m.LinkedFrom c k := by
  rcases h.linked with ⟨-, e, he⟩ | ⟨-, hlinked⟩
  · cases he
  · obtain ⟨q, hq, -⟩ := h.settled.links.evolves id m hm
    exact h.settled.linkedFrom hq hk (hlinked id hnew m q hm hq)

/-- A dependency of a new module. -/
theorem dependency_loadedAs {m k : Module} (hnew : id ∈ newSlots l mid)
    (hm : mid.module? id = some m) (hk : c.module? id = some k) {e : Dependency}
    (he : e ∈ k.dependencies) :
    ∀ d : Dependency, d.spec = e.spec → d.LoadedAs fs left k e := by
  rcases h.linked with ⟨-, e, he⟩ | ⟨hmet, -⟩
  · cases he
  · intro d hd
    rw [h.settled.dependencies hm hk] at he
    obtain ⟨target, htarget, hmeans⟩ := (hmet id hnew).exists_means hm he
    obtain ⟨t, ht, hbuilt⟩ := h.needsBuild_of_means hmeans
    obtain ⟨path, -, hpath, hfind, -, -⟩ := hmeans
    obtain ⟨u, hu, htu⟩ := h.settled.evolves target t ht
    obtain ⟨k', hk', hmk⟩ := h.settled.evolves id m hm
    obtain rfl : k' = k := Option.some.inj (hk'.symm.trans hk)
    refine ⟨path, target, u, ?_, ?_, ?_, by rw [htu.needsBuild, hbuilt], ?_⟩
    · rw [h.left_eq, hd, hmk.path]
      exact hpath
    · rw [h.left_eq]
      exact hfind
    · rw [Loader.module?, h.arena_eq, hu]
    · rw [hd, ← htarget]

/-- A structure of a new module got its layout in this load. -/
theorem laidOut {x : StructureId} {t : Structure} (hnew : x.owner ∈ newSlots l mid)
    (ht : c.structure? x = some t) :
    ∃ layout, t.layout = .done layout ∧ Placed c.layoutOf? t.fields layout := by
  obtain ⟨s, hs, -⟩ :=
    Arena.exists_structure?_of_outline_eq h.settled.laysOut.outline.symm ht
  rcases h.settled.laysOut.settles x s t hs ht with rfl | ⟨-, -, layout, hlayout, hplaced⟩
  · -- Linking has no layouts to leave in a new module.
    exfalso
    have hdone := h.done rfl x t hnew ht
    have hmid := (h.settled.links.sameDone x t hdone).mpr hs
    have hold := (h.extending.sameDone x t hdone).mpr hmid
    obtain ⟨m, hm, -⟩ := Arena.structure?_eq_some.mp hold
    obtain ⟨n, hn, hle, -⟩ := mem_newSlots.mp hnew
    rw [hn, Arena.module?_eq_none_of_length_le hle] at hm
    cases hm
  · exact ⟨layout, hlayout, hplaced⟩

theorem structure_loadedAs {m k : Module} {d : Descriptor} (hnew : id ∈ newSlots l mid)
    (hm : mid.module? id = some m) (hk : c.module? id = some k)
    (hfile : m.structures = d.structures.map (Structure.assign id)) :
    List.Forall₂ (Structure.LoadedAs c k) d.structures k.structures := by
  obtain ⟨k', hk', hmk⟩ := h.settled.evolves id m hm
  obtain rfl : k' = k := Option.some.inj (hk'.symm.trans hk)
  have hid : m.id = id := hmk.id.symm.trans (h.numbered_loaded id k' hk).id_eq
  have htyped := typedAs_of_linkedFrom h.numbered_loaded (hid ▸ hfile) hmk
    (h.linkedFrom hnew hm hk)
  refine List.forall₂_of_length_eq_of_get htyped.length_eq fun i hi hi' => ?_
  obtain ⟨hname, hfields⟩ := htyped.get hi hi'
  refine ⟨hname, hfields, h.laidOut (x := ⟨id, i⟩) hnew ?_⟩
  exact Arena.structure?_eq_some.mpr ⟨k', hk, List.getElem?_eq_getElem hi'⟩

theorem functionLinks {m k : Module} (hnew : id ∈ newSlots l mid) (hm : mid.module? id = some m)
    (hk : c.module? id = some k) :
    List.Forall₂ (fun x link => ∃ target t position, k.MapsInto c x target t ∧
      IsFirst Function.name t.functions x.name position ∧ link = ⟨target, position⟩)
      k.mappings.functions k.functionLinks := by
  refine (h.linkedFrom hnew hm hk).functionLinks.imp fun x link hlink => ?_
  obtain ⟨target, t, f, ⟨d, hd, htarget, ht⟩, hf, rfl⟩ := Module.mappedFunction_eq_ok.mp hlink
  have htn := h.numbered_loaded target t ht
  exact ⟨target, t, f.index, ⟨d, hd, htarget, ht⟩, (htn.functionNamed? hf).2, by rw [htn.id_eq]⟩

/-- A new slot holds the module that its file describes. -/
theorem loadedFrom {n : Nat} (hle : l.arena.length ≤ n) (hlt : n < left.arena.length) :
    ∃ m path bytes d, left.module? (.slot n) = some m ∧ m.path = .file path ∧
      fs.canonicalize path = .ok path ∧ fs.read path = .ok bytes ∧ decode bytes = .ok d ∧
      left.index.find? (.file path) = some (.slot n) ∧ m.id = .slot n ∧
      m.LoadedFrom fs left d := by
  have harena := h.arena_eq
  rw [harena, h.settled.length_eq] at hlt
  obtain ⟨m, hm⟩ := h.extending.live n hle hlt
  obtain ⟨k, hk, hmk⟩ := h.settled.evolves _ m hm
  have hnew : ModuleId.slot n ∈ newSlots l mid := mem_newSlots.mpr ⟨n, rfl, hle, hlt⟩
  have hnumbered := h.numbered_loaded _ k hk
  obtain ⟨path, bytes, d, hcanonical, hread, hdecode, -, hfound, hfile, hspecs⟩ :=
    h.extending.registered n m hle hm
  have hmappings : k.mappings = d.mappings := by rw [hmk.mappings, hfile]; rfl
  refine ⟨k, path, bytes, d, by rw [Loader.module?, harena, hk], by rw [hmk.path, hfile]; rfl,
    hcanonical, hread, hdecode, by rw [h.left_eq]; exact hfound, hnumbered.id_eq, ?_⟩
  refine ⟨by rw [hmk.origin, hfile]; rfl, ?_, hmappings, ?_, ?_, ?_, ?_⟩
  · have hdeclared : k.dependencies.map Dependency.spec = d.dependencies.map Dependency.spec :=
      hmk.specs.trans hspecs
    have hlength : d.dependencies.length = k.dependencies.length := by
      simpa using (congrArg List.length hdeclared).symm
    refine List.forall₂_of_length_eq_of_get hlength fun i hi hi' => ?_
    refine h.dependency_loadedAs hnew hm hk (List.get_mem k.dependencies ⟨i, hi'⟩) _ ?_
    simpa [hi, hi'] using (congrArg (·[i]?) hdeclared).symm
  · rw [harena]
    refine h.structure_loadedAs hnew hm hk ?_
    rw [hfile]
    rfl
  · rw [hmk.functions, hnumbered.id_eq, hfile]
    rfl
  · rw [hnumbered.id_eq]
    exact hnumbered
  · rw [harena, ← hmappings]
    exact h.functionLinks hnew hm hk

end Loading

/-- After a load of a file that was not registered, every slot that was added holds the module
that its file describes, with its dependencies, mapped types and mapped functions found and its
structures laid out. The file that was asked for is the first of them. -/
theorem load_modules (h : l.Reachable) {path : String}
    (hnew : ∀ canonical, fs.canonicalize path = .ok canonical →
      l.index.find? (.file canonical) = none)
    (hload : l.load fs path = (.ok id, l')) :
    (∃ canonical, fs.canonicalize path = .ok canonical ∧
      l'.index.find? (.file canonical) = some id) ∧
    id = .slot l.arena.length ∧ l.arena.length < l'.arena.length ∧
    ∀ n, l.arena.length ≤ n → n < l'.arena.length →
      ∃ m file bytes d, l'.module? (.slot n) = some m ∧ m.path = .file file ∧
        fs.canonicalize file = .ok file ∧ fs.read file = .ok bytes ∧ decode bytes = .ok d ∧
        l'.index.find? (.file file) = some (.slot n) ∧ m.id = .slot n ∧
        m.LoadedFrom fs l' d := by
  rcases exists_loading h.sound hload with ⟨rfl, hfound⟩ |
    ⟨canonical, r', left, mid, b, c, hcanonical, hL, hend⟩
  · obtain ⟨canonical, hcanonical, hid⟩ := hfound id rfl
    rw [hnew canonical hcanonical] at hid
    cases hid
  · rcases hend with ⟨e, -, he, -⟩ | ⟨rfl, hid, rfl⟩
    · cases he
    · obtain rfl := Except.ok.inj hid
      obtain ⟨n, m, -, hslot, hm, -⟩ :=
        hL.extending.exists_slot_of_find? (hnew canonical hcanonical) hL.root
      obtain rfl : l.arena.length = n := ModuleId.slot.inj hslot
      have hlt : l.arena.length < mid.arena.length :=
        (List.getElem?_eq_some_iff.mp (Arena.module?_slot.mp hm)).1
      refine ⟨⟨canonical, hcanonical, ?_⟩, rfl, ?_, fun n hle hlt => hL.loadedFrom hle hlt⟩
      · rw [hL.left_eq]
        exact hL.root
      · rwa [hL.arena_eq, hL.settled.length_eq]

/-- Two files, the first of which maps a structure and a function of the second. -/
theorem load_modules_of_two_files :
    let base : Descriptor := (Descriptor.addStructure {} "Point"
      [{ type := .fundamental .int }]).addFunction "norm" 1 true (.bytecode {})
    let app : Descriptor := Descriptor.addStructure
      { dependencies := [⟨"base", none⟩], mappings := ⟨[⟨0, "Point"⟩], [⟨0, "norm"⟩]⟩ }
      "Line" [{ type := .mapped 0 }, { type := .mapped 0 }]
    let fs : FileSystem :=
      { entries := [(["app"], .file ((encode .latest .latest app).toOption.getD [])),
        (["base"], .file ((encode .latest .latest base).toOption.getD []))] }
    let l' := ((ofDirectories []).load fs "/app").2
    ((ofDirectories []).load fs "/app").1 = .ok (.slot 0) ∧ l'.arena.length = 2 ∧
      ∀ n < 2, ∃ m file bytes d, l'.module? (.slot n) = some m ∧ m.path = .file file ∧
        fs.canonicalize file = .ok file ∧ fs.read file = .ok bytes ∧ decode bytes = .ok d ∧
        l'.index.find? (.file file) = some (.slot n) ∧ m.id = .slot n ∧
        m.LoadedFrom fs l' d := by
  intro base app fs l'
  have hok : ((ofDirectories []).load fs "/app").1 = .ok (.slot 0) := by decide +kernel
  have hlength : l'.arena.length = 2 := by decide +kernel
  obtain ⟨-, -, -, hmodules⟩ := load_modules (reachable_ofDirectories []) (fun _ _ => rfl)
    (show (ofDirectories []).load fs "/app" = (.ok (.slot 0), l') from Prod.ext hok rfl)
  exact ⟨hok, hlength, fun n hn => hmodules n (Nat.zero_le n) (hlength ▸ hn)⟩

end Loader
end ModuleLinker
