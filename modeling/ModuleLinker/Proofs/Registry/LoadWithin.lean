import ModuleLinker.Proofs.Registry.AtRest
import ModuleLinker.Proofs.Registry.InRange
import ModuleLinker.Proofs.Registry.Within

/-!
# Loads inside a loaded registry

A load of a file that another registry has loaded already, beside the same older modules, succeeds
whatever else that registry has loaded, and in whatever order. Each of its phases is held against
the modules that are there: names that were found are found again, containment that ends there ends
here, and the layouts there foretell those that the pass finds.
-/
namespace ModuleLinker

/-- A name that is the first one somewhere in a table is found. -/
theorem Module.structureNamed?_ne_none {t : Module} {name : String} {position : Nat}
    (h : IsFirst Structure.name t.structures name position) : t.structureNamed? name ≠ none := by
  obtain ⟨s, hs, hname⟩ := h.1
  intro hnone
  simpa [hname] using List.find?_eq_none.mp hnone s (List.mem_of_getElem? hs)

theorem Module.functionNamed?_ne_none {t : Module} {name : String} {position : Nat}
    (h : IsFirst Function.name t.functions name position) : t.functionNamed? name ≠ none := by
  obtain ⟨f, hf, hname⟩ := h.1
  intro hnone
  simpa [hname] using List.find?_eq_none.mp hnone f (List.mem_of_getElem? hf)

theorem FieldType.mapped_of_assign {t : FieldType} {owner : ModuleId} {index : Nat}
    (h : t.assign owner = .mapped index) : t = .mapped index := by
  cases t with
  | struct x =>
    simp only [assign] at h
    split at h <;> cases h
  | _ => exact h

namespace Loader

variable {fs : FileSystem} {l M F mid : Loader} {id j : ModuleId} {path canonical : String}
  {m n : Module} {b : Arena} {y z : StructureId} {s : Structure} {d : Descriptor}

/-- The layouts in the loaded registry, each for the structure that it is of there. -/
def foretold (mid F : Loader) (x : StructureId) : Option Layout :=
  F.arena.layoutOf? (.struct (x.rename (mid.counterpart F)))

/-- A load that has resolved all that it needs: `M` is what it starts from, which loads have made of
`l`, and `mid` what it has come to. The files of `mid` are loaded in `F`. -/
structure Inside (fs : FileSystem) (l M mid F : Loader) (canonical : String) : Prop where
  indexed : l.Indexed
  before : l.LoadsTo fs M
  loaded : l.LoadsTo fs F
  gathered : Gathered fs M canonical mid
  files : l.WithFiles fs mid
  within : mid.Within F

namespace Inside

variable (h : Inside fs l M mid F canonical)
include h

theorem isFrom (hid : id.isFrom M.arena.length = true) : id.isFrom l.arena.length = true :=
  ModuleId.isFrom_mono h.before.withFiles.length_le hid

theorem counterparts : Matches (mid.counterpart F) mid F :=
  h.within.counterparts h.files.indexed

theorem counterparts_before : Matches (mid.counterpart F) M F := fun path id hfind =>
  h.counterparts path id (h.gathered.extending.find?_eq_some hfind)

theorem numbered (hm : mid.module? id = some m) : m.Numbered id :=
  h.gathered.extending.numbered h.before.reachable.sound.numbered id m hm

/-- A module that resolution has registered is what its file describes, but for the targets. -/
theorem structures_eq (hid : id.isFrom M.arena.length = true) (hm : mid.module? id = some m)
    {file : String} (hfile : mid.HasFile fs id file d m) :
    m.structures = d.structures.map (Structure.assign id) := by
  obtain ⟨k, rfl, hk⟩ := ModuleId.exists_slot_of_isFrom hid
  obtain ⟨file', bytes, d', hcanonical, hread, hdecode, -, -, hmodule, -⟩ :=
    h.gathered.extending.registered k m hk hm
  have hpath : m.path = .file file' := by rw [hmodule]; rfl
  obtain rfl : file = file' := ModulePath.file.inj (hfile.readFrom.path.symm.trans hpath)
  obtain rfl := hfile.described.unique ⟨hcanonical, bytes, hread, hdecode⟩
  rw [hmodule]
  rfl

theorem directs (hid : id.isFrom M.arena.length = true) (hm : mid.module? id = some m) :
    mid.Directs fs m := by
  intro e he
  have hmet := h.gathered.met id ((Loading.mem_newSlots_iff hm).mpr hid)
  obtain ⟨target, htarget, path, -, hpath, hfind, -⟩ := hmet.exists_means hm he
  exact ⟨path, target, hpath, hfind, htarget⟩

/-! ## Linking -/

/-- No symbol that a module maps is missing: the loaded module maps the same. -/
theorem not_misses (hid : id.isFrom M.arena.length = true) (hm : mid.module? id = some m) :
    ¬ m.Misses mid.arena := by
  obtain ⟨file, d, k, hfile, -, hloaded, hcorresponds⟩ :=
    h.counterparts.exists_corresponds h.indexed h.files h.loaded (h.isFrom hid) hm
      (h.numbered hm).id_eq (h.directs hid hm)
  have hmappings : d.mappings = m.mappings := hfile.readFrom.mappings.symm
  intro hmisses
  rcases hmisses with
    @⟨s, f, index, x, target, t, declared, field, mapped, mapping, into, missing⟩ |
      @⟨x, target, t, mapping, into, missing⟩
  · rw [h.structures_eq hid hm hfile] at declared
    obtain ⟨s₀, hs₀, rfl⟩ := List.mem_map.mp declared
    obtain ⟨f₀, hf₀, rfl⟩ := List.mem_map.mp field
    obtain ⟨_, -, hstructure⟩ := exists_of_forall₂_left hloaded.structures hs₀
    obtain ⟨_, -, -, htype⟩ := exists_of_forall₂_left hstructure.fields hf₀
    rw [FieldType.mapped_of_assign mapped] at htype
    obtain ⟨x', target', t', position, hx', hinto', hfirst, -⟩ := htype
    rw [hcorresponds.mappings, mapping, Option.some.injEq] at hx'
    subst hx'
    obtain ⟨u, hu, hnames⟩ := hcorresponds.mapsInto x target t into
    obtain ⟨rfl, rfl⟩ := hu.unique hinto'
    exact Module.structureNamed?_ne_none ((isFirst_congr hnames.1).mp hfirst) missing
  · rw [← hmappings] at mapping
    obtain ⟨link, -, target', t', position, hinto', hfirst, -⟩ :=
      exists_of_forall₂_left hloaded.functionLinks mapping
    obtain ⟨u, hu, hnames⟩ := hcorresponds.mapsInto x target t into
    obtain ⟨rfl, rfl⟩ := hu.unique hinto'
    exact Module.functionNamed?_ne_none ((isFirst_congr hnames.2).mp hfirst) missing

theorem exists_linked : ∃ b, mid.arena.linkAll (newSlots M mid) = (.ok (), b) := by
  rcases hlink : mid.arena.linkAll (newSlots M mid) with ⟨_ | ⟨⟩, b⟩
  · obtain ⟨-, id, m, hid, hm, hmisses⟩ := h.gathered.linkAll_error hlink
    exact absurd hmisses (h.not_misses (isFrom_of_mem_newSlots hid) hm)
  · exact ⟨b, rfl⟩

/-! ## What is linked -/

section
variable (hlink : mid.arena.linkAll (newSlots M mid) = (.ok (), b))
include hlink

theorem linked_files : l.WithFiles fs { mid with arena := b } := by
  have hL := h.gathered.linkPhase hlink
  exact h.files.links hL.links fun id hid => hL.unlinked id fun hnew => hid (h.isFrom hnew)

/-- A linked structure is, but for numbers and its layout, the loaded one of the same place. -/
theorem exists_renamed (hy : y.owner.isFrom M.arena.length = true)
    (hs : b.structure? y = some s) :
    (mid.counterpart F y.owner).isFrom l.arena.length = true ∧
      ∃ t, F.arena.structure? (y.rename (mid.counterpart F)) = some t ∧
        Renamed (mid.counterpart F) F s t := by
  have hL := h.gathered.linkPhase hlink
  obtain ⟨n, hn, -⟩ := Arena.structure?_eq_some.mp hs
  obtain ⟨m, hm, hmn⟩ := hL.exists_resolved hn
  have hslot := (hL.numbered hn).id_eq
  have hdirects : Directs fs { mid with arena := b } n := by
    intro e he
    rw [hL.links.dependencies _ m n hm hn] at he
    rw [hmn.path]
    exact h.directs hy hm e he
  have hcounterparts : Matches (mid.counterpart F) { mid with arena := b } F := h.counterparts
  have hlinkedFiles := h.linked_files hlink
  have hnew := hcounterparts.isFrom h.indexed hlinkedFiles h.loaded.withFiles (h.isFrom hy) hn
  obtain ⟨file, d, k, hfile, hk, hloaded, hcorresponds⟩ :=
    hcounterparts.exists_corresponds h.indexed hlinkedFiles h.loaded (h.isFrom hy) hn hslot hdirects
  have hmfile : mid.HasFile fs y.owner file d m := by
    obtain ⟨file', d', hfile'⟩ := h.files.files _ m (h.isFrom hy) hm
    have hpath := (hfile'.readFrom.evolves hmn).path.symm.trans hfile.readFrom.path
    obtain rfl : file' = file := ModulePath.file.inj hpath
    obtain rfl := hfile.described.unique hfile'.described
    exact hfile'
  have hstructures := h.structures_eq hy hm hmfile
  rw [← (h.numbered hm).id_eq] at hstructures
  have htyped := typedAs_of_linkedFrom (fun _ _ => hL.numbered) hstructures hmn
    (hL.linked _ m n hy hm hn)
  exact ⟨hnew, Loader.exists_renamed
    (forall₂_renamed hcorresponds hfile.described.unregistered htyped hloaded) hn hk.there hs⟩

/-! ## Layouts -/

/-- What was laid out before the load has the layout that it has in the loaded registry. -/
theorem foreseen_of_isLaidOut (hz : b.isLaidOut z = true) :
    b.Foreseen (foretold mid F) z := by
  have hL := h.gathered.linkPhase hlink
  obtain ⟨layout, hlayout⟩ := Arena.isLaidOut_iff.mp hz
  have hsame := (hL.extending.sameDone.trans hL.links.sameDone).symm
  have hbefore := hsame.layoutOf?_eq_some hlayout
  refine .laidOut ?_ hz
  rw [hlayout]
  exact h.counterparts_before.layoutOf?_eq_some h.indexed h.before h.loaded hbefore

theorem notComputed (hunmarked : ∀ x s, b.structure? x = some s → s.layout ≠ .computing)
    (hy : y.owner.isFrom M.arena.length = true) (hs : b.structure? y = some s) :
    s.layout = .notComputed := by
  have hopen : b.isLaidOut y = false := by
    rw [(h.gathered.linkPhase hlink).isLaidOut_eq, Arena.isLaidOut,
      Arena.structure?_of_module?_none (module?_none_of_isFrom hy)]
  exact Arena.notComputed_of_not_isLaidOut hs hopen (hunmarked y s hs)

/-- Every new structure is foreseen, going down along the containment in the loaded registry. -/
theorem foreseen (hunmarked : ∀ x s, b.structure? x = some s → s.layout ≠ .computing)
    (hy : y.owner.isFrom M.arena.length = true) (hs : b.structure? y = some s) :
    b.Foreseen (foretold mid F) y := by
  have hL := h.gathered.linkPhase hlink
  generalize hx : y.rename (mid.counterpart F) = x
  induction h.loaded.ends x generalizing y s with
  | intro x _ ih =>
    obtain ⟨hnew, t, ht, hrenamed⟩ := h.exists_renamed hlink hy hs
    obtain ⟨layout, hlayout, hplaced⟩ := hrenamed.laidOut
    rw [hx] at ht
    refine .opened hs (h.notComputed hlink hunmarked hy hs)
      (Arena.layoutOf?_struct.mpr ⟨t, hx ▸ ht, hlayout⟩) hplaced ?_ fun z hz => ?_
    · refine hrenamed.fields.imp fun f g hfg => ⟨hfg.1, ?_⟩
      rw [hfg.2, Arena.layoutOf?_rename]
      rfl
    · rcases Gathered.embedded_of_new hL hy hz with hznew | hlaid
      · obtain ⟨f, hf, hfz⟩ := (Arena.mem_embedded_of_structure? hs).mp hz
        obtain ⟨u, hu⟩ := (h.gathered.field_of_linked hL hy hs hf).2 z hfz
        obtain ⟨g, hg, -, hgtype⟩ := exists_of_forall₂_left hrenamed.fields hf
        rw [hfz] at hgtype
        refine ih (z.rename (mid.counterpart F)) ⟨?_, ?_⟩ hznew hu rfl
        · rw [← hx]
          exact hnew
        · exact (Arena.mem_embedded_of_structure? ht).mpr ⟨g, hg, hgtype⟩
      · exact h.foreseen_of_isLaidOut hlink hlaid

theorem foreseen_new (hunmarked : ∀ x s, b.structure? x = some s → s.layout ≠ .computing) :
    ∀ y ∈ (newSlots M mid).flatMap b.structureIds, b.Foreseen (foretold mid F) y := by
  intro y hy
  obtain ⟨owner, howner, hmem⟩ := List.mem_flatMap.mp hy
  obtain ⟨rfl, s, hs⟩ := Arena.mem_structureIds.mp hmem
  exact h.foreseen hlink hunmarked (isFrom_of_mem_newSlots howner) hs

theorem unmarked : ∀ x s, b.structure? x = some s → s.layout ≠ .computing := by
  intro x s hs
  have hmid := structureInvariant_atRest.extending
    (h.before.reachable.every structureInvariant_atRest) h.gathered.extending
  have hlinked := structureInvariant_atRest.linkAll hmid
    (fun id m hm => (h.numbered hm).id_eq) (newSlots M mid)
  rw [hlink] at hlinked
  exact (hlinked x s hs).ne_computing

end

/-- Once it has resolved its dependencies, the load goes well. -/
theorem exists_settled : ∃ c, mid.settle (newSlots M mid) = (.ok (), { mid with arena := c }) := by
  obtain ⟨b, hlink⟩ := h.exists_linked
  have hforeseen := h.foreseen_new hlink (h.unmarked hlink)
  have hcheck : b.checkCycles (newSlots M mid) = .ok () :=
    Arena.checkCycles_ok_iff.mpr fun y hy => (hforeseen y hy).grounded
  obtain ⟨c, hlayouts⟩ := Arena.computeLayouts_foreseen (h.unmarked hlink) hforeseen
  exact ⟨_, by simp only [settle, hlink, hcheck, hlayouts]; rfl⟩

end Inside

/-- A load that succeeds leaves its file registered. -/
theorem find?_of_load (hM : M.Reachable) {N : Loader} (hload : M.load fs path = (.ok id, N)) :
    ∃ canonical, fs.canonicalize path = .ok canonical ∧
      N.index.find? (.file canonical) = some id := by
  rcases load_ends hM.sound hload with ⟨cause, hr⟩ | ⟨canonical, id, hplace, hfind, hid, rfl⟩ |
    ⟨canonical, hplace, -, hends⟩
  · cases hr
  · obtain rfl := Except.ok.inj hid
    exact ⟨canonical, hplace, hfind⟩
  · cases hends with
    | done gathered => exact ⟨canonical, hplace, gathered.root⟩

/-- A load succeeds if its file is loaded in a registry that everything so far is loaded in, and it
brings in nothing that is not loaded there. -/
theorem exists_load_within (hl : l.Reachable) (hM : l.LoadsTo fs M) (hF : l.LoadsTo fs F)
    (hw : M.Within F) (hplace : fs.canonicalize path = .ok canonical)
    (hfind : F.index.find? (.file canonical) = some j) :
    ∃ id N, M.load fs path = (.ok id, N) ∧ N.Within F := by
  cases hfound : M.index.find? (.file canonical) with
  | some id => exact ⟨id, M, by simp only [load, hplace, hfound], hw⟩
  | none =>
    have hself := FileSystem.canonicalize_of_canonicalize hplace
    obtain ⟨file, d, _, hsame, hfile⟩ := hF.withFiles.exists_hasFile hl.indexed
      (fun _ hsame => ModulePath.file.inj hsame ▸ hself) (hM.withFiles.find?_eq_none hfound) hfind
    obtain rfl := ModulePath.file.inj hsame
    obtain ⟨-, bytes, hread, hdecode⟩ := hfile.described
    have hopening : Opening fs M path canonical bytes d := ⟨hplace, hfound, hread, hdecode⟩
    have hroot : (M.opened canonical d).module? M.nextId =
        some (.ofDescriptor M.nextId (.file canonical) d) := module?_register.mpr (.inr ⟨rfl, rfl⟩)
    have hnew : M.nextId.isFrom l.arena.length = true :=
      ModuleId.isFrom_mono hM.withFiles.length_le M.isFrom_nextId
    obtain ⟨targets, mid, hresolve, hmid⟩ := exists_resolveFrom hl.indexed hF
      (hM.withFiles.resolveSteps (.single (hopening.resolveStep fun _ => False))
        fun _ => False.elim)
      (hw.register d hfind) hnew hroot
    obtain ⟨rfl, hgathered, hsteps⟩ := hopening.gathered hM.reachable.sound hresolve
    have hinside : Inside fs l M mid F canonical :=
      ⟨hl.indexed, hM, hF, hgathered, hM.withFiles.resolveSteps hsteps fun id hid =>
        ModuleId.isFrom_mono hM.withFiles.length_le hid, hmid⟩
    obtain ⟨c, hsettle⟩ := hinside.exists_settled
    exact ⟨M.nextId, { mid with arena := c }, by rw [hopening.load_eq hresolve, hsettle], hmid⟩

end Loader
end ModuleLinker
