import ModuleLinker.Proofs.Layout.Foreseen

/-!
# Other numbers for modules

Two registries may have the same modules in different slots. Renaming says so: it puts other numbers
wherever a module refers to one, for its own number, the targets of its dependencies, the owners of
its structures and functions and of what its fields and links refer to. Names, tables, offsets and
layouts stay.
-/
namespace ModuleLinker

variable (ρ : ModuleId → ModuleId)

def StructureId.rename (id : StructureId) : StructureId := { id with owner := ρ id.owner }

def FunctionId.rename (id : FunctionId) : FunctionId := { id with owner := ρ id.owner }

def FieldType.rename : FieldType → FieldType
  | struct id => struct (id.rename ρ)
  | t => t

def Field.rename (f : Field) : Field := { f with type := f.type.rename ρ }

def Structure.rename (s : Structure) : Structure :=
  { s with owner := ρ s.owner, fields := s.fields.map (Field.rename ρ) }

def Function.rename (f : Function) : Function := { f with owner := ρ f.owner }

def Dependency.rename (d : Dependency) : Dependency := { d with target := d.target.map ρ }

/-- The module with other numbers for modules. -/
def Module.rename (m : Module) : Module :=
  { m with
    id := ρ m.id
    dependencies := m.dependencies.map (Dependency.rename ρ)
    structures := m.structures.map (Structure.rename ρ)
    functions := m.functions.map (Function.rename ρ)
    functionLinks := m.functionLinks.map (FunctionId.rename ρ) }

variable {ρ}

/-- Fields of the same shape, but for the numbers of modules. -/
def Field.RenamedTo (ρ : ModuleId → ModuleId) (f g : Field) : Prop :=
  g.count = f.count ∧ g.type = f.type.rename ρ

theorem Field.map_rename_eq {fs gs : List Field} (h : List.Forall₂ (Field.RenamedTo ρ) fs gs)
    (hoffsets : gs.map Field.offset = fs.map Field.offset) : gs = fs.map (Field.rename ρ) := by
  induction h with
  | nil => rfl
  | @cons f g fs gs hfg _ ih =>
    simp only [List.map_cons, List.cons.injEq] at hoffsets ⊢
    refine ⟨?_, ih hoffsets.2⟩
    cases f
    cases g
    simp_all [Field.RenamedTo, Field.rename]

/-- What makes a structure the renamed one. -/
theorem Structure.eq_rename {s t : Structure} (hname : t.name = s.name)
    (hid : t.id = s.id.rename ρ) (hfields : List.Forall₂ (Field.RenamedTo ρ) s.fields t.fields)
    (hoffsets : t.fields.map Field.offset = s.fields.map Field.offset)
    (hlayout : t.layout = s.layout) : t = s.rename ρ := by
  have hplaced := Field.map_rename_eq hfields hoffsets
  have howner : t.owner = ρ s.owner := congrArg StructureId.owner hid
  have hindex : t.index = s.index := congrArg StructureId.index hid
  rw [Structure.rename, ← hname, ← howner, ← hindex, ← hplaced, ← hlayout]

theorem FieldType.assign_rename {t : FieldType} {id : ModuleId}
    (ht : ∀ x, t = .struct x → x.owner = .pending) : t.assign (ρ id) = (t.assign id).rename ρ := by
  cases t with
  | struct x => simp [assign, rename, ht x rfl, ModuleId.isAssigned, StructureId.ownedBy,
      StructureId.rename]
  | _ => rfl

theorem Arena.layoutOf?_rename (a : Arena) (t : FieldType) :
    a.layoutOf? (t.rename ρ) = t.layoutBy fun x => a.layoutOf? (.struct (x.rename ρ)) := by
  cases t <;> rfl

end ModuleLinker
