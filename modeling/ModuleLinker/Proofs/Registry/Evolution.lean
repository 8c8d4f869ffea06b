import ModuleLinker.Proofs.Layout.Pass
import Mathlib.Data.List.Forall2

/-!
# How modules change during a call

While a module is completed, only a few things of it can change: the modules that its dependencies
were resolved to, mapped field types, function links, and offsets and layouts of structures that
had no layout. Everything else stays, and a structure with a layout stays as a whole. Resolution,
linking and layout each keep to this, one after the other.
-/
namespace ModuleLinker

/-- A field may only be moved, and its type be linked. -/
def Field.Evolves (f g : Field) : Prop :=
  g.count = f.count ∧ (g.type = f.type ∨ ∃ index id, f.type = .mapped index ∧ g.type = .struct id)

/-- A structure may only be linked and laid out, and not at all once it has a layout. -/
structure Structure.Evolves (s t : Structure) : Prop where
  name : t.name = s.name
  owner : t.owner = s.owner
  index : t.index = s.index
  fields : List.Forall₂ Field.Evolves s.fields t.fields
  done : s.layout.isDone = true → t = s

/-- What may become of a module while it or another one is completed. -/
structure Module.Evolves (m k : Module) : Prop where
  id : k.id = m.id
  path : k.path = m.path
  origin : k.origin = m.origin
  specs : k.dependencies.map Dependency.spec = m.dependencies.map Dependency.spec
  mappings : k.mappings = m.mappings
  structures : List.Forall₂ Structure.Evolves m.structures k.structures
  functions : k.functions = m.functions

/-- Every module of the first arena is in the second, and is what it may have become. -/
def Arena.Evolves (a b : Arena) : Prop :=
  ∀ id m, a.module? id = some m → ∃ k, b.module? id = some k ∧ m.Evolves k

/-- Entry by entry from one list to a second, and from there to a third one. -/
theorem forall₂_comp {α β γ : Type} {R : α → β → Prop} {S : β → γ → Prop} {T : α → γ → Prop}
    {xs : List α} {ys : List β} {zs : List γ} (h : List.Forall₂ R xs ys)
    (h' : List.Forall₂ S ys zs) (hT : ∀ x y z, R x y → S y z → T x z) : List.Forall₂ T xs zs := by
  induction h generalizing zs with
  | nil =>
    cases h' with
    | nil => exact .nil
  | cons hxy _ ih =>
    cases h' with
    | cons hyz htail => exact .cons (hT _ _ _ hxy hyz) (ih htail)

/-- Entry by entry, what is in one list has something in the other. -/
theorem exists_of_forall₂_left {α β : Type} {R : α → β → Prop} {xs : List α} {ys : List β}
    (h : List.Forall₂ R xs ys) {x : α} (hx : x ∈ xs) : ∃ y ∈ ys, R x y := by
  induction h with
  | nil => cases hx
  | @cons x' y xs ys hxy _ ih =>
    rcases List.mem_cons.mp hx with rfl | hx
    · exact ⟨y, List.mem_cons_self, hxy⟩
    · obtain ⟨y', hy', hR⟩ := ih hx
      exact ⟨y', List.mem_cons_of_mem _ hy', hR⟩

theorem exists_of_forall₂_right {α β : Type} {R : α → β → Prop} {xs : List α} {ys : List β}
    (h : List.Forall₂ R xs ys) {y : β} (hy : y ∈ ys) : ∃ x ∈ xs, R x y :=
  exists_of_forall₂_left h.flip hy

namespace Field.Evolves

@[refl] theorem refl (f : Field) : f.Evolves f := ⟨rfl, .inl rfl⟩

theorem trans {f g h : Field} (hfg : f.Evolves g) (hgh : g.Evolves h) : f.Evolves h := by
  refine ⟨hgh.1.trans hfg.1, ?_⟩
  rcases hgh.2 with hgh | ⟨index, id, hg, hh⟩
  · rw [hgh]
    exact hfg.2
  · rcases hfg.2 with hfg | ⟨index', id', -, hg'⟩
    · exact .inr ⟨index, id, hfg ▸ hg, hh⟩
    · rw [hg'] at hg
      cases hg

end Field.Evolves

/-- The fields of structures of one outline have the same counts and types. -/
theorem Structure.forall₂_fields_of_outline_eq {s t : Structure} (h : t.outline = s.outline) :
    List.Forall₂ (fun f g => g.count = f.count ∧ g.type = f.type) s.fields t.fields := by
  have hfields := (Structure.eq_of_outline_eq h).2.symm
  rw [← List.forall₂_eq_eq_eq, List.forall₂_map_left_iff, List.forall₂_map_right_iff] at hfields
  refine hfields.imp fun f g hfg => ⟨?_, ?_⟩
  · exact (Field.mk.inj hfg).2.1.symm
  · exact (Field.mk.inj hfg).1.symm

namespace Structure.Evolves

@[refl] theorem refl (s : Structure) : s.Evolves s :=
  ⟨rfl, rfl, rfl, List.forall₂_same.mpr fun f _ => .refl f, fun _ => rfl⟩

theorem trans {s t u : Structure} (h : s.Evolves t) (k : t.Evolves u) : s.Evolves u where
  name := k.name.trans h.name
  owner := k.owner.trans h.owner
  index := k.index.trans h.index
  fields := forall₂_comp h.fields k.fields fun _ _ _ => Field.Evolves.trans
  done := by
    intro hdone
    obtain rfl := h.done hdone
    exact k.done hdone

theorem id_eq {s t : Structure} (h : s.Evolves t) : t.id = s.id := by
  simp [Structure.id, h.owner, h.index]

/-- Structures of one outline, the second of which is the first unless that had no layout. -/
theorem of_outline {s t : Structure} (h : t.outline = s.outline)
    (hdone : s.layout.isDone = true → t = s) : s.Evolves t := by
  obtain ⟨ht, -⟩ := Structure.eq_of_outline_eq h
  refine ⟨by rw [ht], by rw [ht], by rw [ht], ?_, hdone⟩
  exact (forall₂_fields_of_outline_eq h).imp fun _ _ hfg => ⟨hfg.1, .inl hfg.2⟩

end Structure.Evolves

namespace Module.Evolves

@[refl] theorem refl (m : Module) : m.Evolves m :=
  ⟨rfl, rfl, rfl, rfl, rfl, List.forall₂_same.mpr fun s _ => .refl s, rfl⟩

theorem trans {m k n : Module} (h : m.Evolves k) (j : k.Evolves n) : m.Evolves n where
  id := j.id.trans h.id
  path := j.path.trans h.path
  origin := j.origin.trans h.origin
  specs := j.specs.trans h.specs
  mappings := j.mappings.trans h.mappings
  structures := forall₂_comp h.structures j.structures fun _ _ _ => Structure.Evolves.trans
  functions := j.functions.trans h.functions

variable {m k : Module} (h : m.Evolves k)
include h

theorem length_dependencies : k.dependencies.length = m.dependencies.length := by
  simpa using congrArg List.length h.specs

theorem length_structures : k.structures.length = m.structures.length :=
  h.structures.length_eq.symm

theorem needsBuild : k.needsBuild = m.needsBuild := by simp [Module.needsBuild, h.origin]

theorem isHosted : k.isHosted = m.isHosted := by simp [Module.isHosted, h.origin]

theorem exists_structure {i : Nat} {s : Structure} (hs : m.structures[i]? = some s) :
    ∃ t, k.structures[i]? = some t ∧ s.Evolves t := by
  obtain ⟨hi, rfl⟩ := List.getElem?_eq_some_iff.mp hs
  have hi' : i < k.structures.length := h.length_structures ▸ hi
  exact ⟨k.structures[i], List.getElem?_eq_getElem hi', h.structures.get hi hi'⟩

theorem exists_structure_of_later {i : Nat} {t : Structure} (ht : k.structures[i]? = some t) :
    ∃ s, m.structures[i]? = some s ∧ s.Evolves t := by
  obtain ⟨hi, rfl⟩ := List.getElem?_eq_some_iff.mp ht
  have hi' : i < m.structures.length := h.length_structures ▸ hi
  exact ⟨m.structures[i], List.getElem?_eq_getElem hi', h.structures.get hi' hi⟩

/-- The structures in front stay if they have layouts. -/
theorem take_structures {n : Nat}
    (hdone : ∀ s ∈ m.structures.take n, s.layout.isDone = true) :
    k.structures.take n = m.structures.take n := by
  apply List.ext_getElem?
  intro i
  rw [List.getElem?_take, List.getElem?_take]
  split
  · next hi =>
    cases hs : m.structures[i]? with
    | none =>
      rw [List.getElem?_eq_none_iff] at hs ⊢
      rwa [h.length_structures]
    | some s =>
      obtain ⟨t, ht, hst⟩ := h.exists_structure hs
      have hmem : s ∈ m.structures.take n :=
        List.mem_of_getElem? (by rw [List.getElem?_take, if_pos hi, hs])
      rw [ht, hst.done (hdone s hmem)]
  · rfl

end Module.Evolves

namespace Arena

variable {a b c : Arena}

namespace Evolves

@[refl] theorem refl (a : Arena) : a.Evolves a := fun _ m hm => ⟨m, hm, .refl m⟩

theorem trans (h : a.Evolves b) (k : b.Evolves c) : a.Evolves c := by
  intro id m hm
  obtain ⟨n, hn, hmn⟩ := h id m hm
  obtain ⟨o, ho, hno⟩ := k id n hn
  exact ⟨o, ho, hmn.trans hno⟩

/-- If no empty slot was filled, every module was there before. -/
theorem exists_earlier (h : a.Evolves b) (hnone : ∀ id, a.module? id = none → b.module? id = none)
    {id : ModuleId} {k : Module} (hk : b.module? id = some k) :
    ∃ m, a.module? id = some m ∧ m.Evolves k := by
  cases hm : a.module? id with
  | none =>
    rw [hnone id hm] at hk
    cases hk
  | some m =>
    obtain ⟨k', hk', hmk⟩ := h id m hm
    obtain rfl : k' = k := Option.some.inj (hk'.symm.trans hk)
    exact ⟨m, rfl, hmk⟩

theorem exists_structure? (h : a.Evolves b) {id : StructureId} {s : Structure}
    (hs : a.structure? id = some s) : ∃ t, b.structure? id = some t ∧ s.Evolves t := by
  obtain ⟨m, hm, hms⟩ := structure?_eq_some.mp hs
  obtain ⟨k, hk, hmk⟩ := h _ m hm
  obtain ⟨t, ht, hst⟩ := hmk.exists_structure hms
  exact ⟨t, structure?_eq_some.mpr ⟨k, hk, ht⟩, hst⟩

theorem structure?_of_done (h : a.Evolves b) {id : StructureId} {s : Structure}
    (hs : a.structure? id = some s) (hdone : s.layout.isDone = true) :
    b.structure? id = some s := by
  obtain ⟨t, ht, hst⟩ := h.exists_structure? hs
  rwa [hst.done hdone] at ht

/-- One module may have changed as it may. -/
theorem update {id : ModuleId} {m k : Module} (hm : a.module? id = some m) (h : m.Evolves k)
    {change : Module → Module} (hk : change m = k) : a.Evolves (a.update id change) := by
  intro other n hn
  rw [module?_update]
  by_cases ho : other = id
  · subst ho
    obtain rfl : n = m := Option.some.inj (hn.symm.trans hm)
    exact ⟨k, by simp [hm, hk], h⟩
  · exact ⟨n, by simpa [ho] using hn, .refl n⟩

end Evolves

theorem LaysOut.evolves {touched : StructureId → Prop} (h : LaysOut touched a b) :
    a.Evolves b := by
  intro id m hm
  obtain ⟨k, hk, hkm⟩ := exists_module?_of_outline_eq h.outline hm
  obtain ⟨hmodule, hstructures⟩ := Module.eq_of_outline_eq hkm
  have hlength : m.structures.length = k.structures.length := by
    simpa using (congrArg List.length hstructures).symm
  refine ⟨k, hk, ?_⟩
  refine ⟨by rw [hmodule], by rw [hmodule], by rw [hmodule], by rw [hmodule], by rw [hmodule],
    List.forall₂_of_length_eq_of_get hlength ?_, by rw [hmodule]⟩
  intro i hi hi'
  have hs : a.structure? ⟨id, i⟩ = some m.structures[i] :=
    structure?_eq_some.mpr ⟨m, hm, List.getElem?_eq_getElem hi⟩
  have ht : b.structure? ⟨id, i⟩ = some k.structures[i] :=
    structure?_eq_some.mpr ⟨k, hk, List.getElem?_eq_getElem hi'⟩
  refine .of_outline ?_ fun hdone => ?_
  · simpa [hi, hi'] using congrArg (·[i]?) hstructures
  · have hsame := h.structure?_of_done hs hdone
    exact Option.some.inj (ht.symm.trans hsame)

end Arena
end ModuleLinker
