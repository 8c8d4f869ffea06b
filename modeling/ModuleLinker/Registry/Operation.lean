import ModuleLinker.Registry.Authoring
import ModuleLinker.Registry.Completion

/-!
# Runs of a registry

Everything that a host can do to a registry is an operation. The file system is not part of the
registry, so an operation that reads it carries it as it is at that moment. A state is reachable
if a run of operations leads to it from a registry without modules.
-/
namespace ModuleLinker

/-- Something that a host does to a registry. -/
inductive Operation where
  | load (fs : FileSystem) (path : String)
  | create (path : String)
  | build (fs : FileSystem) (id : ModuleId)
  | clear
  | addLibraryDirectory (fs : FileSystem) (path : String)
  | addDependency (id : ModuleId) (spec : String)
  | addStructureMapping (id : ModuleId) (dependency : UInt32) (name : String)
  | addFunctionMapping (id : ModuleId) (dependency : UInt32) (name : String)
  | addStructure (id : ModuleId) (name : String) (fields : List Field)
  | addFunction (id : ModuleId) (name : String) (arity : UInt16) (hasResult : Bool)
      (body : FunctionBody)

namespace Loader

/-- The registry after an addition that may have been refused. -/
def after (l : Loader) (added : Option (α × Loader)) : Loader :=
  match added with
  | some (_, l) => l
  | none => l

/-- The registry after an operation, be it successful or not. -/
def apply (l : Loader) : Operation → Loader
  | .load fs path => (l.load fs path).2
  | .create path => (l.create path).2
  | .build fs id => (l.build fs id).2
  | .clear => l.clear
  | .addLibraryDirectory fs path => l.addLibraryDirectory fs path
  | .addDependency id spec => l.after (l.addDependency id spec)
  | .addStructureMapping id dependency name => l.after (l.addStructureMapping id dependency name)
  | .addFunctionMapping id dependency name => l.after (l.addFunctionMapping id dependency name)
  | .addStructure id name fields => l.after (l.addStructure id name fields)
  | .addFunction id name arity hasResult body =>
    l.after (l.addFunction id name arity hasResult body)

/-- The registry after operations in order. -/
def run (l : Loader) (operations : List Operation) : Loader := operations.foldl apply l

/-- Whether a registry can arise from one without modules. -/
def Reachable (l : Loader) : Prop :=
  ∃ directories operations, l = (ofDirectories directories).run operations

@[simp] theorem run_nil (l : Loader) : l.run [] = l := rfl

@[simp] theorem run_cons (l : Loader) (o : Operation) (os : List Operation) :
    l.run (o :: os) = (l.apply o).run os := rfl

theorem run_append (l : Loader) (os ps : List Operation) :
    l.run (os ++ ps) = (l.run os).run ps := by simp [run]

theorem reachable_ofDirectories (directories : List String) :
    (ofDirectories directories).Reachable := ⟨directories, [], rfl⟩

theorem Reachable.apply {l : Loader} (h : l.Reachable) (o : Operation) : (l.apply o).Reachable := by
  obtain ⟨directories, operations, rfl⟩ := h
  exact ⟨directories, operations ++ [o], by simp [run_append]⟩

/-- What holds of a registry without modules and is kept by every operation holds of every registry
that can arise. -/
theorem Reachable.induction {P : Loader → Prop} (init : ∀ directories, P (ofDirectories directories))
    (step : ∀ l o, l.Reachable → P l → P (l.apply o)) {l : Loader} (h : l.Reachable) : P l := by
  obtain ⟨directories, operations, rfl⟩ := h
  suffices hrun : ∀ l : Loader, l.Reachable → P l → P (l.run operations) from
    hrun _ (reachable_ofDirectories directories) (init directories)
  induction operations with
  | nil => exact fun _ _ h => h
  | cons o os ih => exact fun l hl h => ih (l.apply o) (hl.apply o) (step l o hl h)

end Loader
end ModuleLinker
