import ModuleLinker.Proofs.Image.Whole
import ModuleLinker.Proofs.Layout.Failing
import ModuleLinker.Proofs.Registry.Outcomes

/-!
# What an image promises to a load

The indices of a module that was read from an image are in range: its mappings name dependencies of
its own, and its fields are storable or name structures or mappings of its own. Once the
dependencies are resolved, linking can miss nothing but a name, and every structure that is linked
is put together well.
-/
namespace ModuleLinker

/-- A type of a field of a module, with an index in range. -/
def FieldType.InRange (m : Module) : FieldType → Prop
  | .fundamental t => t.isStorable = true
  | .struct x => x.owner = m.id ∧ x.index < m.structures.length
  | .mapped index => index < m.mappings.structures.length

/-- A module whose indices are in range. -/
structure Module.InRange (m : Module) : Prop where
  structureMappings : ∀ x ∈ m.mappings.structures, x.dependency.toNat < m.dependencies.length
  functionMappings : ∀ x ∈ m.mappings.functions, x.dependency.toNat < m.dependencies.length
  types : ∀ s ∈ m.structures, ∀ f ∈ s.fields, f.type.InRange m

/-- A symbol that a module uses is missing in the module that it is mapped out of. -/
inductive Module.Misses (a : Arena) (m : Module) : Prop where
  | structure {s : Structure} {f : Field} {index : Nat} {x : Mapping} {target : ModuleId}
      {t : Module} (declared : s ∈ m.structures) (field : f ∈ s.fields)
      (mapped : f.type = .mapped index) (mapping : m.mappings.structures[index]? = some x)
      (into : m.MapsInto a x target t) (missing : t.structureNamed? x.name = none) : Misses a m
  | function {x : Mapping} {target : ModuleId} {t : Module} (mapping : x ∈ m.mappings.functions)
      (into : m.MapsInto a x target t) (missing : t.functionNamed? x.name = none) : Misses a m

/-- The module of a well-formed description has its indices in range. -/
theorem Module.InRange.ofDescriptor {d : Descriptor} (h : d.WellFormed) {id : ModuleId}
    (path : ModulePath) : (Module.ofDescriptor id path d).InRange where
  structureMappings := by
    intro x hx
    obtain ⟨n, hn⟩ := List.mem_iff_getElem?.mp hx
    exact (h.mappings.structures.entry n x hn).dependency
  functionMappings := by
    intro x hx
    obtain ⟨n, hn⟩ := List.mem_iff_getElem?.mp hx
    exact (h.mappings.functions.entry n x hn).dependency
  types := by
    intro s hs f hf
    obtain ⟨t, ht, rfl⟩ : ∃ t ∈ d.structures, t.assign id = s := by
      simpa [Module.ofDescriptor] using hs
    obtain ⟨g, hg, rfl⟩ : ∃ g ∈ t.fields, g.assign id = f := by
      simpa [Structure.assign] using hf
    obtain ⟨i, hi⟩ := List.mem_iff_getElem?.mp ht
    obtain ⟨j, hj⟩ := List.mem_iff_getElem?.mp hg
    have htype := ((h.structures.entry i t hi).fields.entry j g hj).type
    cases hgt : g.type with
    | fundamental b =>
      have hstorable : b.isStorable = true := by rwa [hgt] at htype
      simpa [Field.assign, hgt, FieldType.assign, FieldType.InRange] using hstorable
    | struct x =>
      rw [hgt] at htype
      obtain ⟨howner, hindex, -⟩ := htype
      simp only [Field.assign, hgt, FieldType.assign, howner, ModuleId.isAssigned,
        Bool.false_eq_true, if_false, FieldType.InRange]
      exact ⟨rfl, by simpa [Module.ofDescriptor, StructureId.ownedBy] using hindex⟩
    | mapped index =>
      rw [hgt] at htype
      simpa [Field.assign, hgt, FieldType.assign, FieldType.InRange, Module.ofDescriptor] using
        htype.1

namespace Loader

variable {fs : FileSystem} {l l' mid : Loader} {id : ModuleId} {canonical : String} {b c : Arena}
  {m k : Module} {e : LoadError} {x : Mapping}

theorem Registered.inRange {n : Nat} (h : Registered fs l l' n m) : m.InRange := by
  obtain ⟨path, bytes, d, -, -, hdecode, -, -, hm, hspecs⟩ := h
  have hd : (Module.ofDescriptor (.slot n) (.file path) d).InRange :=
    .ofDescriptor (decode_eq_ok_iff.mp hdecode).1 _
  have hlength : m.dependencies.length = d.dependencies.length := by
    simpa using congrArg List.length hspecs
  rw [hm]
  refine ⟨fun x hx => ?_, fun x hx => ?_, fun s hs f hf => ?_⟩
  · show _ < m.dependencies.length
    rw [hlength]
    exact hd.structureMappings x hx
  · show _ < m.dependencies.length
    rw [hlength]
    exact hd.functionMappings x hx
  · have htype := hd.types s hs f hf
    cases hft : f.type <;> rw [hft] at htype <;> exact htype

namespace Gathered

variable (h : Gathered fs l canonical mid)
include h

theorem inRange (hid : id.isFrom l.arena.length = true) (hm : mid.module? id = some m) :
    m.InRange := by
  obtain ⟨n, rfl, hn⟩ := ModuleId.exists_slot_of_isFrom hid
  exact (h.extending.registered n m hn hm).inRange

/-- What a new module maps is in a module. -/
theorem exists_mapsInto (hid : id.isFrom l.arena.length = true) (hm : mid.module? id = some m)
    (hx : x.dependency.toNat < m.dependencies.length) :
    ∃ target t, m.MapsInto mid.arena x target t := by
  have hmet := h.met id ((Loading.mem_newSlots_iff hm).mpr hid)
  obtain ⟨target, htarget, path, t, -, -, ht, -⟩ := hmet.exists_means hm (List.getElem_mem hx)
  exact ⟨target, t, _, List.getElem?_eq_getElem hx, htarget, ht⟩

/-- A load that has resolved its dependencies cannot be linked for want of a name only. -/
theorem linkAll_error (hlink : mid.arena.linkAll (newSlots l mid) = (.error e, b)) :
    e.kind = .link ∧
      ∃ id m, id ∈ newSlots l mid ∧ mid.module? id = some m ∧ m.Misses mid.arena := by
  have hthere : ∀ id ∈ newSlots l mid, ∃ m, mid.arena.module? id = some m := by
    intro id hid
    obtain ⟨n, rfl, hn, hlt⟩ := mem_newSlots.mp hid
    exact h.extending.live n hn hlt
  have hres := h.sound.resolved.of_sameDone h.extending.sameDone
  obtain ⟨c, id, m, k, hlinks, hid, hm, hk, hmk, hdependencies, hfails⟩ :=
    Arena.linkAll_error hres hthere hlink
  have hnew := isFrom_of_mem_newSlots hid
  have hrange := h.inRange hnew hm
  rcases Module.exists_error_of_linked hfails with
    ⟨s, hs, f, hf, index, hmapped, herror⟩ | ⟨x, hx, herror⟩
  · obtain ⟨s₀, hs₀, f₀, hf₀, hmapped₀⟩ := hmk.exists_mapped hs hf hmapped
    have hindex : index < m.mappings.structures.length := by
      have htype := hrange.types s₀ hs₀ f₀ hf₀
      rwa [hmapped₀] at htype
    have hx := List.getElem?_eq_getElem hindex
    obtain ⟨target, t, hinto⟩ :=
      h.exists_mapsInto hnew hm (hrange.structureMappings _ (List.getElem_mem hindex))
    obtain ⟨u, hinto', htu⟩ := hinto.evolves hlinks.evolves hdependencies
    obtain ⟨hmissing, spec, rfl⟩ :=
      Module.mappedStructure_eq_error (by rw [hmk.mappings]; exact hx) hinto' herror
    refine ⟨rfl, id, m, hid, hm, .structure hs₀ hf₀ hmapped₀ hx hinto ?_⟩
    cases hnamed : t.structureNamed? m.mappings.structures[index].name with
    | none => rfl
    | some s =>
      obtain ⟨v, hv, -⟩ := htu.structureNamed? hnamed
      rw [hmissing] at hv
      cases hv
  · rw [hmk.mappings] at hx
    obtain ⟨target, t, hinto⟩ := h.exists_mapsInto hnew hm (hrange.functionMappings x hx)
    obtain ⟨u, hinto', htu⟩ := hinto.evolves hlinks.evolves hdependencies
    obtain ⟨hmissing, spec, rfl⟩ := Module.mappedFunction_eq_error hinto' herror
    rw [htu.functionNamed?] at hmissing
    exact ⟨rfl, id, m, hid, hm, .function hx hinto hmissing⟩

/-! ## Structures of linked modules -/

section
variable (hL : LinkPhase fs l.nextId (fun id => id.isFrom l.arena.length = true) l mid b)
  {y z : StructureId} {s : Structure}
include hL

/-- A field of a new structure takes room, and the structure that it names is there. -/
theorem field_of_linked (hy : y.owner.isFrom l.arena.length = true) (hs : b.structure? y = some s)
    {f : Field} (hf : f ∈ s.fields) :
    f.type.TakesRoom ∧ ∀ z, f.type = .struct z → ∃ t, b.structure? z = some t := by
  obtain ⟨m, k, s₀, f₀, hm, hk, hs₀, hf₀, ⟨hresolved, htype⟩ | ⟨index, z, -, hmapped, htype⟩⟩ :=
    hL.exists_field hy hs hf
  · have hrange := (h.inRange hy hm).types s₀ (List.mem_of_getElem? hs₀) f₀ hf₀
    rw [htype]
    cases hf₀t : f₀.type with
    | fundamental t =>
      rw [hf₀t] at hrange
      exact ⟨.inl hrange, nofun⟩
    | mapped index =>
      rw [hf₀t] at hresolved
      cases hresolved
    | struct z =>
      rw [hf₀t] at hrange
      obtain ⟨howner, hindex⟩ := hrange
      refine ⟨.inr ⟨z, rfl⟩, fun z' hz' => ?_⟩
      obtain rfl := FieldType.struct.inj hz'
      obtain ⟨k', hk', hmk⟩ := hL.links.evolves _ m hm
      have hid : m.id = y.owner := (h.extending.numbered h.sound.numbered _ m hm).id_eq
      rw [← hmk.length_structures] at hindex
      rw [← hid, ← howner] at hk'
      exact ⟨_, Arena.structure?_eq_some.mpr ⟨k', hk', List.getElem?_eq_getElem hindex⟩⟩
  · rw [htype]
    refine ⟨.inr ⟨z, rfl⟩, fun z' hz' => ?_⟩
    obtain rfl := FieldType.struct.inj hz'
    obtain ⟨-, -, v, -, -, hv⟩ := hL.exists_structure_of_mapped hmapped
    exact ⟨v, hv⟩

omit h in
/-- What a new structure contains is new or laid out. -/
theorem embedded_of_new (hy : y.owner.isFrom l.arena.length = true) (hz : z ∈ b.embedded y) :
    z.owner.isFrom l.arena.length = true ∨ b.isLaidOut z = true := by
  rcases hL.embedded hz with ⟨hold, -⟩ | hroot | hcases
  · exact absurd hy hold
  · exact .inl (hroot ▸ isFrom_nextId l)
  · exact hcases

/-- Laying out a new structure comes to sturdy new ones and to such as have their layout. -/
theorem reaches_of_new (hy : y.owner.isFrom l.arena.length = true) (hs : b.structure? y = some s)
    (hz : b.Reaches y z) :
    b.isLaidOut z = true ∨ z.owner.isFrom l.arena.length = true ∧ b.Sturdy z := by
  induction hz with
  | refl => exact .inr ⟨hy, s, hs, fun f hf => (h.field_of_linked hL hy hs hf).1⟩
  | @tail u v _ hstep ih =>
    rcases ih with hlaid | ⟨hnew, t, ht, -⟩
    · rw [hstep.1] at hlaid
      cases hlaid
    · refine (embedded_of_new hL hnew hstep.2).symm.imp_right fun hv => ⟨hv, ?_⟩
      obtain ⟨f, hf, hfv⟩ := (Arena.mem_embedded_of_structure? ht).mp hstep.2
      obtain ⟨w, hw⟩ := (h.field_of_linked hL hnew ht hf).2 v hfv
      exact ⟨w, hw, fun g hg => (h.field_of_linked hL hv hw hg).1⟩

theorem sturdyBelow (hy : y ∈ (newSlots l mid).flatMap b.structureIds) : b.SturdyBelow y := by
  obtain ⟨owner, howner, hmem⟩ := List.mem_flatMap.mp hy
  obtain ⟨rfl, s, hs⟩ := Arena.mem_structureIds.mp hmem
  intro z hz
  exact (h.reaches_of_new hL (isFrom_of_mem_newSlots howner) hs hz).imp_right And.right

end

end Gathered
end Loader
end ModuleLinker
