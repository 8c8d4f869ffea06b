import ModuleLinker.Proofs.Registry.Structures

/-!
# Structures between two operations

The mark of a structure that is being laid out is there only during a layout pass. Between two
operations every structure is at rest: either it has no layout yet, or it is laid out and each of
its fields has a type that takes room. And no field refers to a structure of a pending module: a
module takes over the structures that are given to it, and linking puts in only structures of modules
in their slots.
-/
namespace ModuleLinker

namespace Structure

variable {s t : Structure}

/-- A structure that has no layout yet, or one that is laid out and whose fields all take room. -/
def AtRest (s : Structure) : Prop :=
  s.layout = .notComputed ∨ s.layout.isDone = true ∧ ∀ f ∈ s.fields, f.type.TakesRoom

theorem AtRest.ne_computing (h : s.AtRest) : s.layout ≠ .computing := by
  intro hmarked
  simp [AtRest, hmarked, LayoutState.isDone, LayoutState.layout?] at h

theorem AtRest.takesRoom (h : s.AtRest) (hdone : s.layout.isDone = true) :
    ∀ f ∈ s.fields, f.type.TakesRoom := by
  rcases h with h | ⟨-, h⟩
  · rw [h] at hdone
    cases hdone
  · exact h

/-- Linking leaves layouts, and a structure with a layout has nothing to link. -/
theorem AtRest.linked {a : Arena} {m : Module} (hlink : m.linkedStructure a s = .ok t)
    (h : s.AtRest) : t.AtRest := by
  rcases h with hopen | ⟨hdone, hroom⟩
  · refine .inl ?_
    rw [(Module.linkedStructure_eq_ok.mp hlink).1]
    exact hopen
  · rw [Module.linkedStructure_of_resolved fun f hf => (hroom f hf).isResolved] at hlink
    rw [← Except.ok.inj hlink]
    exact .inr ⟨hdone, hroom⟩

/-- A structure that was laid out is at rest again. -/
theorem atRest_of_settles {a : Arena} (h : Arena.Settles a.layoutOf? s t) : t.AtRest := by
  obtain ⟨-, l, hl, hplaced⟩ := h
  refine .inr ⟨by simp [hl], fun f hf => ?_⟩
  obtain ⟨element, helement⟩ := hplaced.exists_layout hf
  exact Arena.takesRoom_of_layoutOf? helement

/-! ## What fields refer to -/

/-- Every structure that a field is of belongs to a registered module. -/
def Assigned (s : Structure) : Prop :=
  ∀ f ∈ s.fields, ∀ y, f.type = .struct y → y.owner.isAssigned = true

/-- What a module takes over for its own has no pending fields left. -/
theorem assigned_assign {owner : ModuleId} (h : owner.isAssigned = true) (s : Structure) :
    (s.assign owner).Assigned := by
  intro f hf y hy
  obtain ⟨g, -, rfl⟩ : ∃ g ∈ s.fields, g.assign owner = f := by simpa [assign] using hf
  simp only [Field.assign] at hy
  cases hg : g.type with
  | fundamental t => simp [hg, FieldType.assign] at hy
  | mapped index => simp [hg, FieldType.assign] at hy
  | struct x =>
    simp only [hg, FieldType.assign] at hy
    split at hy
    · next hx => exact FieldType.struct.inj hy ▸ hx
    · exact FieldType.struct.inj hy ▸ h

/-- Linking puts in structures of modules in their slots. -/
theorem Assigned.linked {a : Arena} {m : Module} (hslots : ∀ id k, a.module? id = some k → k.id = id)
    (hlink : m.linkedStructure a s = .ok t) (h : s.Assigned) : t.Assigned := by
  have hfields := (Module.linkedStructure_eq_ok.mp hlink).2
  intro g hg y hy
  obtain ⟨j, hj, rfl⟩ := List.getElem_of_mem hg
  have hj' : j < s.fields.length := hfields.length_eq ▸ hj
  rcases Module.linkedField_eq_ok.mp (hfields.get hj' hj) with ⟨-, hsame⟩ |
    ⟨index, z, -, hz, hlinked⟩
  · refine h _ (List.getElem_mem hj') y ?_
    rw [← hy]
    exact congrArg Field.type hsame.symm
  · obtain ⟨x, target, u, v, -, ⟨d, -, -, hu⟩, -, rfl⟩ := Module.mappedStructure_eq_ok.mp hz
    obtain ⟨slot, rfl, -⟩ := Arena.exists_slot hu
    have htype : FieldType.struct ⟨u.id, v.index⟩ = .struct y :=
      (congrArg Field.type hlinked).symm.trans hy
    rw [← FieldType.struct.inj htype, hslots _ u hu]
    rfl

/-- Layout leaves the types of fields. -/
theorem Assigned.of_outline (ht : t.outline = s.outline) (h : s.Assigned) : t.Assigned := by
  intro f hf y hy
  have hmem : f.type ∈ s.fields.map Field.type := by
    rw [← map_type_of_outline_eq ht]
    exact List.mem_map_of_mem hf
  obtain ⟨g, hg, hgf⟩ := List.mem_map.mp hmem
  exact h g hg y (hgf.trans hy)

end Structure

/-! ## In every registry -/

theorem structureInvariant_atRest : StructureInvariant Structure.AtRest where
  given _ _ _ hs := .inl hs
  linked _ _ _ _ _ hlink hs := hs.linked hlink
  laidOut _ _ _ _ hsettles _ := Structure.atRest_of_settles hsettles

theorem structureInvariant_assigned : StructureInvariant Structure.Assigned where
  given _ s howner _ := Structure.assigned_assign howner s
  linked _ _ _ _ hslots hlink hs := hs.linked hslots hlink
  laidOut _ _ _ houtline _ hs := hs.of_outline houtline

namespace Loader

variable {l : Loader} {id : ModuleId} {m : Module} {s : Structure}

/-- In every registry that can arise all structures are at rest. -/
theorem Reachable.atRest (h : l.Reachable) (hm : l.module? id = some m) (hs : s ∈ m.structures) :
    s.AtRest := Arena.every_iff.mp (h.every structureInvariant_atRest) id m hm s hs

/-- In no registry that can arise a field refers to a structure of a pending module. -/
theorem Reachable.assigned (h : l.Reachable) (hm : l.module? id = some m) (hs : s ∈ m.structures) :
    s.Assigned := Arena.every_iff.mp (h.every structureInvariant_assigned) id m hm s hs

end Loader
end ModuleLinker
