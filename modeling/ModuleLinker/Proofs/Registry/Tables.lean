import ModuleLinker.Proofs.Registry.Completing
import ModuleLinker.Proofs.Registry.Growing

/-!
# The tables of a module

Two properties of a single module that every operation keeps. Its structures and functions carry
their own positions, and the part of it that is finished, which is all of it once it may be
depended on, and otherwise what the last build left, is laid out.
-/
namespace ModuleLinker

/-- The place of the first entry of a name in a table. -/
def IsFirst {α : Type} (nameOf : α → String) (table : List α) (name : String) (position : Nat) :
    Prop :=
  IsLeast {j | ∃ x, table[j]? = some x ∧ nameOf x = name} position

theorem isFirst_of_find? {α : Type} {nameOf : α → String} {table : List α} {name : String} {x : α}
    (h : table.find? (fun x => nameOf x = name) = some x) :
    ∃ i, table[i]? = some x ∧ IsFirst nameOf table name i := by
  obtain ⟨hname, i, hi, rfl, hbefore⟩ := List.find?_eq_some_iff_getElem.mp h
  refine ⟨i, List.getElem?_eq_getElem hi, ⟨_, List.getElem?_eq_getElem hi, by simpa using hname⟩, ?_⟩
  rintro j ⟨y, hy, hyname⟩
  by_contra hlt
  obtain ⟨hj, rfl⟩ := List.getElem?_eq_some_iff.mp hy
  simpa [hyname] using hbefore j (Nat.lt_of_not_le hlt)

namespace Module

variable {id : ModuleId} {m k : Module} {c : Checkpoint}

/-- A module in its slot, whose structures and functions carry their identities. -/
structure Numbered (id : ModuleId) (m : Module) : Prop where
  id_eq : m.id = id
  structures : ∀ (i : Nat) (s : Structure), m.structures[i]? = some s → s.id = ⟨id, i⟩
  functions : ∀ (i : Nat) (f : Function), m.functions[i]? = some f → f.id = ⟨id, i⟩

namespace Numbered

theorem hosted (id : ModuleId) (path : ModulePath) : (Module.hosted id path).Numbered id :=
  ⟨rfl, nofun, nofun⟩

theorem ofDescriptor {d : Descriptor} (h : d.Unregistered) (id : ModuleId) (path : ModulePath) :
    (Module.ofDescriptor id path d).Numbered id := by
  refine ⟨rfl, fun i s hs => ?_, fun i f hf => ?_⟩
  · obtain ⟨t, ht, rfl⟩ : ∃ t, d.structures[i]? = some t ∧ t.assign id = s := by
      simpa [Module.ofDescriptor] using hs
    rw [Structure.assign_id, (h.structures i t ht).index]
  · obtain ⟨g, hg, rfl⟩ : ∃ g, d.functions[i]? = some g ∧ g.assign id = f := by
      simpa [Module.ofDescriptor] using hf
    simp [Function.assign, Function.id, h.functions i g hg]

variable (h : m.Numbered id)
include h

theorem of_evolves (hk : m.Evolves k) : k.Numbered id := by
  refine ⟨hk.id.trans h.id_eq, fun i t ht => ?_, fun i f hf => ?_⟩
  · obtain ⟨s, hs, hst⟩ := hk.exists_structure_of_later ht
    rw [hst.id_eq, h.structures i s hs]
  · rw [hk.functions] at hf
    exact h.functions i f hf

theorem grows (hk : m.Grows k) : k.Numbered id := by
  refine ⟨hk.id.trans h.id_eq, fun i s hs => ?_, fun i f hf => ?_⟩
  · obtain ⟨added, hadded, hnew⟩ := hk.structures
    rw [hadded, List.getElem?_append] at hs
    split at hs
    · exact h.structures i s hs
    · rw [(hnew _ s hs).1, h.id_eq]
      congr 1
      omega
  · obtain ⟨added, hadded, hnew⟩ := hk.functions
    rw [hadded, List.getElem?_append] at hf
    split at hf
    · exact h.functions i f hf
    · rw [hnew _ f hf, h.id_eq]
      congr 1
      omega

theorem of_restored? (hk : m.restored? = some k) : k.Numbered id := by
  obtain ⟨built, c, -, rfl⟩ := restored?_eq_some.mp hk
  refine ⟨h.id_eq, fun i s hs => ?_, fun i f hf => ?_⟩
  · rw [cutTo, List.getElem?_take] at hs
    split at hs
    · exact h.structures i s hs
    · cases hs
  · rw [cutTo, List.getElem?_take] at hf
    split at hf
    · exact h.functions i f hf
    · cases hf

theorem markBuilt : m.markBuilt.Numbered id := by
  simp only [Module.markBuilt]
  split <;> exact ⟨h.id_eq, h.structures, h.functions⟩

end Numbered

/-- The structure that a name means is the first one of it, and carries its position. -/
theorem Numbered.structureNamed? (h : m.Numbered id) {name : String} {s : Structure}
    (hs : m.structureNamed? name = some s) : m.structures[s.index]? = some s ∧
      IsFirst Structure.name m.structures name s.index := by
  obtain ⟨i, hi, hfirst⟩ := isFirst_of_find? hs
  obtain rfl : s.index = i := congrArg StructureId.index (h.structures i s hi)
  exact ⟨hi, hfirst⟩

/-- The function that a name means is the first one of it, and carries its position. -/
theorem Numbered.functionNamed? (h : m.Numbered id) {name : String} {f : Function}
    (hf : m.functionNamed? name = some f) : m.functions[f.index]? = some f ∧
      IsFirst Function.name m.functions name f.index := by
  obtain ⟨i, hi, hfirst⟩ := isFirst_of_find? hf
  obtain rfl : f.index = i := congrArg FunctionId.index (h.functions i f hi)
  exact ⟨hi, hfirst⟩

/-! ## What is finished of a module -/

/-- The lengths of all tables. -/
def lengths (m : Module) : Checkpoint where
  dependencies := m.dependencies.length
  structureMappings := m.mappings.structures.length
  functionMappings := m.mappings.functions.length
  structures := m.structures.length
  functions := m.functions.length

/-- The tables reach at least as far as at a checkpoint, and the structures up to there have
layouts. -/
structure Covers (m : Module) (c : Checkpoint) : Prop where
  dependencies : c.dependencies ≤ m.dependencies.length
  structureMappings : c.structureMappings ≤ m.mappings.structures.length
  functionMappings : c.functionMappings ≤ m.mappings.functions.length
  structures : c.structures ≤ m.structures.length
  functions : c.functions ≤ m.functions.length
  done : ∀ s ∈ m.structures.take c.structures, s.layout.isDone = true

/-- What is finished of a module is laid out: everything in a module from a file or in one that is
built, and then the lengths of its tables are on record; what the last build left in one that was
added to since; nothing in one that never was built. -/
def Finished (m : Module) : Prop :=
  match m.origin with
  | .file .. => ∀ s ∈ m.structures, s.layout.isDone = true
  | .host built none => built = false
  | .host built (some c) => m.Covers c ∧ (built = true → c = m.lengths)

theorem Evolves.lengths (h : m.Evolves k) : k.lengths = m.lengths := by
  simp [Module.lengths, h.length_dependencies, h.mappings, h.length_structures, h.functions]

theorem Evolves.done (h : m.Evolves k) (hm : ∀ s ∈ m.structures, s.layout.isDone = true) :
    ∀ t ∈ k.structures, t.layout.isDone = true := by
  intro t ht
  obtain ⟨i, hi⟩ := List.mem_iff_getElem?.mp ht
  obtain ⟨s, hs, hst⟩ := h.exists_structure_of_later hi
  have hdone := hm s (List.mem_of_getElem? hs)
  rw [hst.done hdone]
  exact hdone

theorem Covers.of_evolves (h : m.Covers c) (hk : m.Evolves k) : k.Covers c where
  dependencies := hk.length_dependencies ▸ h.dependencies
  structureMappings := hk.mappings ▸ h.structureMappings
  functionMappings := hk.mappings ▸ h.functionMappings
  structures := hk.length_structures ▸ h.structures
  functions := hk.functions ▸ h.functions
  done := by
    rw [hk.take_structures h.done]
    exact h.done

theorem Covers.grows (h : m.Covers c) (hk : m.Grows k) : k.Covers c where
  dependencies := h.dependencies.trans hk.dependencies.length_le
  structureMappings := h.structureMappings.trans hk.structureMappings.length_le
  functionMappings := h.functionMappings.trans hk.functionMappings.length_le
  structures := by
    obtain ⟨added, hadded, -⟩ := hk.structures
    rw [hadded, List.length_append]
    exact Nat.le_add_right_of_le h.structures
  functions := by
    obtain ⟨added, hadded, -⟩ := hk.functions
    rw [hadded, List.length_append]
    exact Nat.le_add_right_of_le h.functions
  done := by
    obtain ⟨added, hadded, -⟩ := hk.structures
    rw [hadded, List.take_append_of_le_length h.structures]
    exact h.done

namespace Finished

theorem hosted (id : ModuleId) (path : ModulePath) : (Module.hosted id path).Finished := rfl

theorem markBuilt (h : ∀ s ∈ m.structures, s.layout.isDone = true) : m.markBuilt.Finished := by
  cases ho : m.origin with
  | file =>
    simpa [Finished, Module.markBuilt, ho] using h
  | host built checkpoint =>
    simp only [Finished, Module.markBuilt, ho]
    exact ⟨⟨Nat.le_refl _, Nat.le_refl _, Nat.le_refl _, Nat.le_refl _, Nat.le_refl _,
      fun s hs => h s (List.mem_of_mem_take hs)⟩, fun _ => rfl⟩

variable (h : m.Finished)
include h

/-- Whatever may be depended on is laid out. -/
theorem done (hbuilt : m.needsBuild = false) : ∀ s ∈ m.structures, s.layout.isDone = true := by
  simp only [Finished] at h
  simp only [needsBuild] at hbuilt
  split at h
  · exact h
  · next built ho =>
    rw [ho] at hbuilt
    simp [h] at hbuilt
  · next built c ho =>
    rw [ho] at hbuilt
    have hc : c = m.lengths := h.2 (by simpa using hbuilt)
    intro s hs
    refine h.1.done s ?_
    rw [hc]
    simpa [Module.lengths] using hs

theorem of_evolves (hk : m.Evolves k) : k.Finished := by
  simp only [Finished, hk.origin] at h ⊢
  split at h
  · exact hk.done h
  · exact h
  · exact ⟨h.1.of_evolves hk, fun hbuilt => (h.2 hbuilt).trans hk.lengths.symm⟩

theorem grows (hhosted : m.isHosted = true) (hk : m.Grows k) : k.Finished := by
  cases ho : m.origin with
  | file => simp [isHosted, ho] at hhosted
  | host built checkpoint =>
    have hko : k.origin = .host false checkpoint := by
      rw [hk.origin]
      simp [unbuilt, ho]
    simp only [Finished, ho, hko] at h ⊢
    cases checkpoint with
    | none => rfl
    | some c => exact ⟨h.1.grows hk, fun hbuilt => by cases hbuilt⟩

theorem of_restored? (hk : m.restored? = some k) : k.Finished := by
  obtain ⟨built, c, ho, rfl⟩ := restored?_eq_some.mp hk
  simp only [Finished, ho] at h
  obtain ⟨hcovers, -⟩ := h
  refine ⟨⟨?_, ?_, ?_, ?_, ?_, ?_⟩, fun _ => ?_⟩
  · simpa [cutTo] using hcovers.dependencies
  · simpa [cutTo, Mappings.truncate] using hcovers.structureMappings
  · simpa [cutTo, Mappings.truncate] using hcovers.functionMappings
  · simpa [cutTo] using hcovers.structures
  · simpa [cutTo] using hcovers.functions
  · simpa [cutTo, List.take_take] using hcovers.done
  · simp [cutTo, Module.lengths, Mappings.truncate, hcovers.dependencies,
      hcovers.structureMappings, hcovers.functionMappings, hcovers.structures, hcovers.functions]

end Finished
end Module
end ModuleLinker
