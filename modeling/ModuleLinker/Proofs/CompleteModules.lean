import ModuleLinker.Proofs.Registry.AtRest
import ModuleLinker.Proofs.Registry.Wiring

/-!
# What may be depended on is complete

Whoever depends on a module relies on it without a look at its tables: a module from a file, or one
of the host's that counts as built, is laid out, linked and resolved to the last entry. No operation
leaves it otherwise, also not one that fails halfway. The mark of a layout that is being computed is
never seen from outside.
-/
namespace ModuleLinker.Loader

/-- In every registry that can arise no structure is marked, and a module from a file or one of the
host's that is built has all structures laid out, only fields with types that take room, all
dependencies resolved, and one link for each function mapping. -/
theorem complete_modules {l : Loader} (h : l.Reachable) :
    (∀ id m, l.module? id = some m → ∀ s ∈ m.structures, s.layout ≠ .computing) ∧
    ∀ id m, l.module? id = some m → m.needsBuild = false →
      (∀ s ∈ m.structures, s.layout.isDone = true ∧ ∀ f ∈ s.fields, f.type.TakesRoom) ∧
      (∀ d ∈ m.dependencies, d.isResolved = true) ∧
      m.functionLinks.length = m.mappings.functions.length := by
  refine ⟨fun id m hm s hs => (h.atRest hm hs).ne_computing, fun id m hm hbuilt => ?_⟩
  have hlinked := (h.wired id m hm).built hbuilt
  have hdone := (h.sound.finished id m hm).done hbuilt
  exact ⟨fun s hs => ⟨hdone s hs, (h.atRest hm hs).takesRoom (hdone s hs)⟩, hlinked.resolved,
    hlinked.links⟩

/-- A module that was built, then added to, and whose next build failed at a field without room: it
counts as built again and is complete. -/
theorem complete_modules_of_failed_rebuild :
    let l := (ofDirectories []).run
      [.create "/base", .addStructure (.slot 0) "P" [{ type := .fundamental .int }],
        .addFunction (.slot 0) "f" 0 false .host, .build {} (.slot 0),
        .create "/app", .addDependency (.slot 1) "/base", .addStructureMapping (.slot 1) 0 "P",
        .addFunctionMapping (.slot 1) 0 "f", .addStructure (.slot 1) "Q" [{ type := .mapped 0 }],
        .build {} (.slot 1), .addFunctionMapping (.slot 1) 0 "f",
        .addStructure (.slot 1) "Bad" [{ type := .fundamental .none }], .build {} (.slot 1)]
    ∃ m, l.module? (.slot 1) = some m ∧ m.needsBuild = false ∧ m.structures.length = 1 ∧
      (∀ s ∈ m.structures, s.layout.isDone = true ∧ ∀ f ∈ s.fields, f.type.TakesRoom) ∧
      (∀ d ∈ m.dependencies, d.isResolved = true) ∧
      m.functionLinks.length = m.mappings.functions.length := by
  intro l
  have hmodule : (l.module? (.slot 1)).map (fun m => (m.needsBuild, m.structures.length)) =
      some (false, 1) := by decide +kernel
  obtain ⟨m, hm, hfacts⟩ := Option.map_eq_some_iff.mp hmodule
  obtain ⟨hbuilt, hlength⟩ := Prod.mk.inj hfacts
  exact ⟨m, hm, hbuilt, hlength, (complete_modules ⟨[], _, rfl⟩).2 (.slot 1) m hm hbuilt⟩

end ModuleLinker.Loader
