import ModuleLinker.Registry.Arena
import ModuleLinker.Registry.Attempt

/-!
# Linking

Linking a module gives every mapped field the structure that its mapping names in the resolved
dependency, and every mapped function its identity. The first structure or function of a name
counts. A module is linked as a whole or left as it is; names and positions are all that it
takes from other modules, so the order in which modules are linked does not matter.
-/
namespace ModuleLinker

namespace Module

/-- The module that a mapping points into, and the spec that names it. -/
def mappedModule (a : Arena) (m : Module) (x : Mapping) : Except LoadError (Module × String) :=
  match m.dependencies[x.dependency.toNat]? with
  | none => .error (.danglingDependency m.path x.dependency.toNat m.dependencies.length)
  | some d =>
    match d.target.bind a.module? with
    | none => .error (.dependency d.spec m.path .notResolved)
    | some target => .ok (target, d.spec)

/-- The structure that a structure mapping names. -/
def mappedStructure (a : Arena) (m : Module) (index : Nat) : Except LoadError StructureId :=
  match m.mappings.structures[index]? with
  | none => .error (.danglingMapping m.path index m.mappings.structures.length)
  | some x => do
    let (target, spec) ← m.mappedModule a x
    match target.structureNamed? x.name with
    | none => .error (.link m.path spec .struct x.name)
    | some s => .ok ⟨target.id, s.index⟩

/-- The function that a function mapping names. -/
def mappedFunction (a : Arena) (m : Module) (x : Mapping) : Except LoadError FunctionId := do
  let (target, spec) ← m.mappedModule a x
  match target.functionNamed? x.name with
  | none => .error (.link m.path spec .function x.name)
  | some f => .ok ⟨target.id, f.index⟩

/-- A field with the structure that it is mapped to. -/
def linkedField (a : Arena) (m : Module) (f : Field) : Except LoadError Field :=
  match f.type with
  | .mapped index => do return { f with type := .struct (← m.mappedStructure a index) }
  | _ => .ok f

/-- A structure with every field linked. -/
def linkedStructure (a : Arena) (m : Module) (s : Structure) : Except LoadError Structure := do
  return { s with fields := ← s.fields.mapM (m.linkedField a) }

/-- The module with every structure linked and a link for every mapped function. -/
def linked (a : Arena) (m : Module) : Except LoadError Module := do
  let structures ← m.structures.mapM (m.linkedStructure a)
  let functionLinks ← m.mappings.functions.mapM (m.mappedFunction a)
  return { m with structures, functionLinks }

end Module

namespace Arena

/-- Link one module of an arena. -/
def link (a : Arena) (id : ModuleId) : Except LoadError Arena :=
  match a.module? id with
  | none => .error (.unknownModule id)
  | some m => do
    let linked ← m.linked a
    return a.update id fun _ => linked

/-- Link modules in order; those before the first failure stay linked. -/
def linkAll (a : Arena) : List ModuleId → Attempt Arena Unit
  | [] => (.ok (), a)
  | id :: ids =>
    match a.link id with
    | .error e => (.error e, a)
    | .ok a => a.linkAll ids

end Arena
end ModuleLinker
