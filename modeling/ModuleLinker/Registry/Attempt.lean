import ModuleLinker.Registry.Error

/-!
# Attempts

The passes over a registry fail in the middle of their work. An attempt is the outcome of such
a pass together with the state it leaves behind, which a failure does not undo by itself.
-/
namespace ModuleLinker

/-- An outcome, and the state that is left. -/
abbrev Attempt (σ α : Type) := Except LoadError α × σ

end ModuleLinker
