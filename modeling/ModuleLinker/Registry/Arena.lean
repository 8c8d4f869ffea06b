import ModuleLinker.Registry.Module

/-!
# Arenas

An arena holds modules in slots that are numbered from zero. A slot that was given up stays
empty, so that a number never means another module later.
-/
namespace ModuleLinker

/-- Slots of modules in order of registration. -/
abbrev Arena := List (Option Module)

namespace Arena

/-- The module of an identity. -/
def module? (a : Arena) (id : ModuleId) : Option Module :=
  match id with
  | .pending => none
  | .slot n => a[n]?.join

/-- The structure of an identity. -/
def structure? (a : Arena) (id : StructureId) : Option Structure := do
  (← a.module? id.owner).structures[id.index]?

/-- The function of an identity. -/
def function? (a : Arena) (id : FunctionId) : Option Function := do
  (← a.module? id.owner).functions[id.index]?

/-- Change the module of an identity, if there is one. -/
def update (a : Arena) (id : ModuleId) (change : Module → Module) : Arena :=
  match id with
  | .pending => a
  | .slot n => a.modify n (Option.map change)

/-- Put a structure in the place of the one with the given identity. -/
def setStructure (a : Arena) (id : StructureId) (s : Structure) : Arena :=
  a.update id.owner fun m => { m with structures := m.structures.set id.index s }

/-- The modules of an arena in order. -/
def live (a : Arena) : List Module := a.filterMap id

/-- Identities of the structures of a module. -/
def structureIds (a : Arena) (owner : ModuleId) : List StructureId :=
  match a.module? owner with
  | none => []
  | some m => (List.range m.structures.length).map (StructureId.mk owner)

/-- Number of structures in an arena. -/
def structureCount (a : Arena) : Nat := a.live.foldr (fun m n => m.structures.length + n) 0

@[simp] theorem module?_pending (a : Arena) : a.module? .pending = none := rfl

@[simp] theorem length_update (a : Arena) (id : ModuleId) (change : Module → Module) :
    (a.update id change).length = a.length := by
  cases id <;> simp [update]

theorem module?_update_same (a : Arena) (id : ModuleId) (change : Module → Module) :
    (a.update id change).module? id = (a.module? id).map change := by
  cases id with
  | pending => rfl
  | slot n =>
    simp only [update, module?, List.getElem?_modify]
    cases h : a[n]? with
    | none => simp
    | some s => cases s <;> simp

theorem module?_update_of_ne (a : Arena) {id other : ModuleId} (change : Module → Module)
    (h : other ≠ id) : (a.update id change).module? other = a.module? other := by
  cases id with
  | pending => rfl
  | slot n =>
    cases other with
    | pending => rfl
    | slot k =>
      have hne : n ≠ k := fun e => h (e ▸ rfl)
      simp [update, module?, hne]

end Arena
end ModuleLinker
