import ModuleLinker.Registry.Loader

/-!
# Looking into arenas

What modules and structures are found after each way of changing an arena: putting a module into
the next slot, changing one module, putting a structure in the place of another, and emptying
slots. Everything is said of look-ups by identity, so that no other module opens an arena.
-/
namespace ModuleLinker

/-- Whether an identity is that of a slot from a mark on. -/
def ModuleId.isFrom (mark : Nat) : ModuleId → Bool
  | .pending => false
  | .slot n => mark ≤ n

@[simp] theorem ModuleId.isFrom_slot {mark n : Nat} :
    (ModuleId.slot n).isFrom mark = true ↔ mark ≤ n := decide_eq_true_iff

theorem ModuleId.exists_slot_of_isFrom {mark : Nat} {id : ModuleId} (h : id.isFrom mark = true) :
    ∃ n, id = .slot n ∧ mark ≤ n := by
  cases id with
  | pending => cases h
  | slot n => exact ⟨n, rfl, isFrom_slot.mp h⟩

theorem ModuleId.isFrom_mono {mark mark' : Nat} {id : ModuleId} (hle : mark ≤ mark')
    (h : id.isFrom mark' = true) : id.isFrom mark = true := by
  obtain ⟨n, rfl, hn⟩ := exists_slot_of_isFrom h
  exact isFrom_slot.mpr (Nat.le_trans hle hn)

namespace PathIndex

variable {index : PathIndex} {path other : ModulePath}

theorem find?_congr (h : path.identity = other.identity) : index.find? path = index.find? other := by
  simp [find?, h]

theorem find?_eq_none_iff :
    index.find? path = none ↔ ∀ e ∈ index, e.1.identity ≠ path.identity := by
  simp [find?]

theorem exists_mem_of_find? {id : ModuleId} (h : index.find? path = some id) :
    ∃ e ∈ index, e.1.identity = path.identity ∧ e.2 = id := by
  obtain ⟨e, he, rfl⟩ := Option.map_eq_some_iff.mp h
  exact ⟨e, List.mem_of_find?_eq_some he, by simpa using List.find?_some he, rfl⟩

theorem remove_eq_self (h : index.find? path = none) : index.remove path = index :=
  List.filter_eq_self.mpr fun e he => by simpa using find?_eq_none_iff.mp h e he

theorem find?_append (new : PathIndex) :
    find? (new ++ index) path = (find? new path).or (find? index path) := by
  simp only [find?, List.find?_append, Option.map_or]

end PathIndex

namespace Arena

variable {a b : Arena}

theorem module?_slot {n : Nat} {m : Module} :
    a.module? (.slot n) = some m ↔ a[n]? = some (some m) := by
  simp [module?, Option.join_eq_some_iff]

theorem exists_slot {id : ModuleId} {m : Module} (h : a.module? id = some m) :
    ∃ n, id = .slot n ∧ n < a.length ∧ a[n]? = some (some m) := by
  cases id with
  | pending => simp at h
  | slot n =>
    have hn := module?_slot.mp h
    exact ⟨n, rfl, (List.getElem?_eq_some_iff.mp hn).1, hn⟩

theorem mem_live {m : Module} : m ∈ a.live ↔ ∃ n : Nat, a[n]? = some (some m) := by
  simp [live, List.mem_filterMap, ← List.mem_iff_getElem?]

theorem module?_eq_none_of_length_le {n : Nat} (h : a.length ≤ n) :
    a.module? (.slot n) = none := by
  simp [module?, List.getElem?_eq_none h]

/-- Slots that both arenas have are the same once the same modules are found in them. -/
theorem getElem?_eq_of_module?_eq {n : Nat} (hlength : n < a.length) (hlength' : n < b.length)
    (h : a.module? (.slot n) = b.module? (.slot n)) : a[n]? = b[n]? := by
  simp only [module?, List.getElem?_eq_getElem hlength, List.getElem?_eq_getElem hlength',
    Option.join_some] at h ⊢
  rw [h]

/-- Arenas are the same once they have as many slots and the same modules are found in them. -/
theorem eq_of_module?_eq (hlength : b.length = a.length) (h : ∀ id, b.module? id = a.module? id) :
    b = a := by
  apply List.ext_getElem?
  intro n
  by_cases hn : n < a.length
  · exact getElem?_eq_of_module?_eq (hlength ▸ hn) hn (h (.slot n))
  · rw [List.getElem?_eq_none (Nat.le_of_not_lt hn),
      List.getElem?_eq_none (hlength ▸ Nat.le_of_not_lt hn)]

theorem module?_append_of_lt {n : Nat} (h : n < a.length) (s : List (Option Module)) :
    Arena.module? (a ++ s) (.slot n) = a.module? (.slot n) := by
  simp [module?, List.getElem?_append_left h]

@[simp] theorem module?_append_length (a : Arena) (m : Module) :
    Arena.module? (a ++ [some m]) (.slot a.length) = some m := by
  simp [module?]

theorem module?_append_singleton {id : ModuleId} {m x : Module} :
    Arena.module? (a ++ [some m]) id = some x ↔
      a.module? id = some x ∨ id = .slot a.length ∧ x = m := by
  cases id with
  | pending => simp
  | slot n =>
    rcases Nat.lt_trichotomy n a.length with h | h | h
    · simp [module?_append_of_lt h, Nat.ne_of_lt h]
    · subst h
      simp [module?_eq_none_of_length_le (Nat.le_refl _), eq_comm]
    · have h₁ : (a ++ [some m]).length ≤ n := by simpa using Nat.succ_le_of_lt h
      have h₂ : Arena.module? (a ++ [some m]) (.slot n) = none := module?_eq_none_of_length_le h₁
      rw [h₂, module?_eq_none_of_length_le (Nat.le_of_lt h)]
      simp [Nat.ne_of_gt h]

theorem module?_update (id other : ModuleId) (change : Module → Module) :
    (a.update id change).module? other =
      if other = id then (a.module? id).map change else a.module? other := by
  by_cases h : other = id
  · rw [if_pos h, h, module?_update_same]
  · rw [if_neg h, module?_update_of_ne a change h]

theorem module?_set_none (n : Nat) (id : ModuleId) :
    Arena.module? (a.set n none) id = if id = .slot n then none else a.module? id := by
  cases id with
  | pending => simp
  | slot k =>
    simp only [module?, List.getElem?_set, ModuleId.slot.injEq]
    by_cases h : k = n
    · subst h
      by_cases hk : k < a.length <;> simp [hk]
    · simp [h, Ne.symm h]

theorem structure?_eq_some {id : StructureId} {s : Structure} :
    a.structure? id = some s ↔
      ∃ m, a.module? id.owner = some m ∧ m.structures[id.index]? = some s := by
  simp [structure?, Option.bind_eq_some_iff]

theorem structure?_of_module? {id : StructureId} {m : Module} (h : a.module? id.owner = some m) :
    a.structure? id = m.structures[id.index]? := by
  simp [structure?, h]

theorem structure?_of_module?_none {id : StructureId} (h : a.module? id.owner = none) :
    a.structure? id = none := by
  simp [structure?, h]

theorem structure?_congr {id : StructureId} (h : a.module? id.owner = b.module? id.owner) :
    a.structure? id = b.structure? id := by
  simp [structure?, h]

theorem module?_setStructure (id : StructureId) (s : Structure) (other : ModuleId) :
    (a.setStructure id s).module? other =
      if other = id.owner then
        (a.module? id.owner).map fun m => { m with structures := m.structures.set id.index s }
      else a.module? other := module?_update ..

theorem structure?_setStructure_self {id : StructureId} {old : Structure}
    (h : a.structure? id = some old) (s : Structure) :
    (a.setStructure id s).structure? id = some s := by
  obtain ⟨m, hm, hs⟩ := structure?_eq_some.mp h
  have hlt := (List.getElem?_eq_some_iff.mp hs).1
  simp [structure?, module?_setStructure, hm, hlt]

theorem structure?_setStructure_of_ne {id other : StructureId} (h : other ≠ id) (s : Structure) :
    (a.setStructure id s).structure? other = a.structure? other := by
  simp only [structure?, module?_setStructure]
  by_cases howner : other.owner = id.owner
  · have hindex : id.index ≠ other.index := by
      intro hindex
      apply h
      cases id
      cases other
      simp_all
    cases hm : a.module? id.owner <;> simp [howner, hm, List.getElem?_set_ne hindex]
  · simp [howner]

end Arena

namespace Loader

variable {l : Loader} {id : ModuleId}

theorem module?_none_of_isFrom (h : id.isFrom l.arena.length = true) : l.module? id = none := by
  obtain ⟨n, rfl, hn⟩ := ModuleId.exists_slot_of_isFrom h
  exact Arena.module?_eq_none_of_length_le hn

theorem not_isFrom_of_module? {m : Module} (h : l.module? id = some m) :
    ¬ id.isFrom l.arena.length = true := by
  intro hnew
  rw [module?_none_of_isFrom hnew] at h
  cases h

end Loader
end ModuleLinker
