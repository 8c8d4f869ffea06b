import ModuleLinker.Proofs.Registry.Lookup
import ModuleLinker.Proofs.Layout.Placed

/-!
# Outlines

The outline of a structure is what it is before it is laid out: all but the offsets of its fields
and its layout. A pass that lays structures out leaves the outline of the whole arena as it is,
which says at once that nothing else changes. Containment is read off the outline.
-/
namespace ModuleLinker

/-- A structure without offsets and layout. -/
def Structure.outline (s : Structure) : Structure :=
  { s with fields := s.fields.map Field.unplaced, layout := .notComputed }

/-- A module whose structures have neither offsets nor layouts. -/
def Module.outline (m : Module) : Module :=
  { m with structures := m.structures.map Structure.outline }

@[simp] theorem Structure.outline_layout (s : Structure) (l : LayoutState) :
    Structure.outline { s with layout := l } = s.outline := rfl

theorem Structure.outline_fields {s : Structure} {fields : List Field} (l : LayoutState)
    (h : fields.map Field.unplaced = s.fields.map Field.unplaced) :
    Structure.outline { s with fields, layout := l } = s.outline := by
  simp [outline, h]

theorem Structure.map_type_of_outline_eq {s t : Structure} (h : s.outline = t.outline) :
    s.fields.map Field.type = t.fields.map Field.type := by
  have hfields : s.fields.map Field.unplaced = t.fields.map Field.unplaced :=
    congrArg Structure.fields h
  have htypes : ∀ fs : List Field, fs.map Field.type = (fs.map Field.unplaced).map Field.type := by
    intro fs
    rw [List.map_map]
    rfl
  rw [htypes, hfields, ← htypes]

/-- Structures of one outline differ in their fields and their layout only. -/
theorem Structure.eq_of_outline_eq {s t : Structure} (h : t.outline = s.outline) :
    t = { s with fields := t.fields, layout := t.layout } ∧
      t.fields.map Field.unplaced = s.fields.map Field.unplaced := by
  cases s
  cases t
  simp only [outline, Structure.mk.injEq] at h
  simp [h]

/-- Modules of one outline differ in their structures only. -/
theorem Module.eq_of_outline_eq {m k : Module} (h : k.outline = m.outline) :
    k = { m with structures := k.structures } ∧
      k.structures.map Structure.outline = m.structures.map Structure.outline := by
  cases m
  cases k
  simp only [outline, Module.mk.injEq] at h
  simp [h]

namespace Arena

/-- An arena without offsets and layouts. -/
def outline (a : Arena) : Arena := a.map (Option.map Module.outline)

variable {a b : Arena}

@[simp] theorem length_outline : a.outline.length = a.length := by simp [outline]

theorem module?_outline (id : ModuleId) :
    a.outline.module? id = (a.module? id).map Module.outline := by
  cases id with
  | pending => rfl
  | slot n =>
    simp only [module?, outline, List.getElem?_map]
    cases a[n]? <;> simp

theorem structure?_outline (id : StructureId) :
    a.outline.structure? id = (a.structure? id).map Structure.outline := by
  simp only [structure?, module?_outline]
  cases a.module? id.owner <;> simp [Module.outline]

/-- A structure may be replaced by one of the same outline. -/
theorem outline_setStructure {id : StructureId} {old s : Structure}
    (h : a.structure? id = some old) (hs : s.outline = old.outline) :
    (a.setStructure id s).outline = a.outline := by
  obtain ⟨m, hm, hold⟩ := structure?_eq_some.mp h
  obtain ⟨n, hn, hlt, hslot⟩ := exists_slot hm
  have hset : (m.structures.set id.index s).map Structure.outline
      = m.structures.map Structure.outline := by
    rw [List.map_set, hs]
    apply List.ext_getElem?
    intro i
    rw [List.getElem?_set]
    split
    · next hi => subst hi; split <;> simp_all
    · rfl
  apply List.ext_getElem?
  intro k
  simp only [outline, setStructure, update, hn, List.getElem?_map, List.getElem?_modify]
  by_cases hk : n = k
  · subst hk
    simp [hslot, Module.outline, hset]
  · simp [hk]

theorem exists_structure?_of_outline_eq (h : b.outline = a.outline) {id : StructureId}
    {s : Structure} (hs : a.structure? id = some s) :
    ∃ t, b.structure? id = some t ∧ t.outline = s.outline := by
  have hb := structure?_outline (a := b) id
  rw [h, structure?_outline, hs] at hb
  exact Option.map_eq_some_iff.mp hb.symm

theorem structure?_eq_none_of_outline_eq (h : b.outline = a.outline) {id : StructureId}
    (hs : a.structure? id = none) : b.structure? id = none := by
  have hb := structure?_outline (a := b) id
  rw [h, structure?_outline, hs] at hb
  exact Option.map_eq_none_iff.mp hb.symm

theorem exists_module?_of_outline_eq (h : b.outline = a.outline) {id : ModuleId}
    {m : Module} (hm : a.module? id = some m) :
    ∃ k, b.module? id = some k ∧ k.outline = m.outline := by
  have hb := module?_outline (a := b) id
  rw [h, module?_outline, hm] at hb
  exact Option.map_eq_some_iff.mp hb.symm

theorem module?_eq_none_of_outline_eq (h : b.outline = a.outline) {id : ModuleId}
    (hm : a.module? id = none) : b.module? id = none := by
  have hb := module?_outline (a := b) id
  rw [h, module?_outline, hm] at hb
  exact Option.map_eq_none_iff.mp hb.symm

theorem embedded_of_structure? {id : StructureId} {s : Structure} (h : a.structure? id = some s) :
    a.embedded id = (s.fields.map Field.type).filterMap FieldType.structureId? := by
  rw [embedded, h, List.filterMap_map]
  rfl

theorem mem_embedded {id child : StructureId} :
    child ∈ a.embedded id ↔
      ∃ s, a.structure? id = some s ∧ ∃ f ∈ s.fields, f.type = .struct child := by
  cases h : a.structure? id with
  | none => simp [embedded, h]
  | some s => simp [embedded_of_structure? h]

theorem mem_embedded_of_structure? {id child : StructureId} {s : Structure}
    (h : a.structure? id = some s) :
    child ∈ a.embedded id ↔ ∃ f ∈ s.fields, f.type = .struct child := by
  simp [embedded_of_structure? h]

theorem exists_structure?_of_mem_embedded {id child : StructureId} (h : child ∈ a.embedded id) :
    ∃ s, a.structure? id = some s := by
  obtain ⟨s, hs, -⟩ := mem_embedded.mp h
  exact ⟨s, hs⟩

/-- Containment can be read off the outline. -/
theorem embedded_eq_of_outline_eq (h : b.outline = a.outline) (id : StructureId) :
    b.embedded id = a.embedded id := by
  cases hs : a.structure? id with
  | none =>
    have hb := structure?_eq_none_of_outline_eq h hs
    simp [embedded, hs, hb]
  | some s =>
    obtain ⟨t, ht, hst⟩ := exists_structure?_of_outline_eq h hs
    rw [embedded_of_structure? hs, embedded_of_structure? ht, Structure.map_type_of_outline_eq hst]

end Arena
end ModuleLinker
