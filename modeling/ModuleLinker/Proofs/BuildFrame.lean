import ModuleLinker.Proofs.Registry.Building
import ModuleLinker.Proofs.Registry.Chronicle

/-!
# What a build leaves alone

A build leaves every slot but that of its module as it was, with one exception: a structure that
has no layout, in another module that has to be built, gets its layout as soon as the module that
is built contains it. A build that fails empties the slots that it added, and takes no path out of
the index but that of a module that never was built.
-/
namespace ModuleLinker

/-- The paths that are registered, less that of a module of the host that never was built. -/
def Chronicle.indexLess (c : Chronicle) (id : ModuleId) : PathIndex :=
  match c.loader.module? id with
  | some m =>
    if m.isHosted && (c.lastBuild id).isNone then c.loader.index.remove m.path else c.loader.index
  | none => c.loader.index

namespace Chronicle

/-- The record of builds tells which modules never were built. -/
theorem Faithful.isNone_lastBuild {c : Chronicle} (h : c.Faithful) {id : ModuleId} {m : Module}
    (hm : c.loader.module? id = some m) : (c.lastBuild id).isNone = m.restored?.isNone := by
  have htables := isSome_eq_of_rel (h.tables id)
  rw [Loader.restored?_of_module? hm] at htables
  rw [← Option.not_isSome, ← Option.not_isSome, htables]

/-- Whether it succeeds or fails, a build leaves every module in another older slot as it is, but
that structures without a layout may be laid out in a module that has to be built, if structures of
the module that is built led to them. If it fails, the slots that it added are empty, and the index
is as it was, less the path of the module if that never was built. -/
theorem build_frame {c : Chronicle} (h : c.Reachable) (fs : FileSystem) (id : ModuleId) :
    c.loader.arena.length ≤ (c.loader.build fs id).2.arena.length ∧
      (∀ other, other ≠ id → ¬ other.isFrom c.loader.arena.length = true →
        Option.Rel
          (Module.Relaid fun i => ∃ x, x.owner = id ∧ c.loader.arena.Reaches x ⟨other, i⟩)
          (c.loader.module? other) ((c.loader.build fs id).2.module? other)) ∧
      ∀ e, (c.loader.build fs id).1 = .error e →
        (∀ slot ∈ (c.loader.build fs id).2.arena.drop c.loader.arena.length, slot = none) ∧
          (c.loader.build fs id).2.index = c.indexLess id := by
  have hfaithful := h.faithful
  have hsound := hfaithful.sound
  refine ⟨Loader.length_le_build hsound fs id,
    fun other hid hold => Loader.relaid_build hsound fs hid hold, fun e he => ?_⟩
  have hfails : c.loader.build fs id = (.error e, (c.loader.build fs id).2) := Prod.ext he rfl
  refine ⟨fun slot hslot => ?_, ?_⟩
  · exact Loader.eq_none_of_mem_drop
      (fun other hnew => Loader.module?_new_of_build_failed hfails hnew) hslot
  · rw [Loader.index_of_build_failed hsound hfails, indexLess]
    cases hm : c.loader.module? id with
    | none => rfl
    | some m => rw [hfaithful.isNone_lastBuild hm]

/-- A build that fails at its last structure, after it laid out one of a module that never was
built. Its own module never was built either, so that its path is free. -/
theorem build_frame_of_failure_after_layout :
    let c := (ofDirectories []).run
      [.create "/w", .addStructure (.slot 0) "B" [{ type := .fundamental .int }], .create "/v",
        .addStructure (.slot 1) "A" [{ type := .struct ⟨.slot 0, 0⟩ }],
        .addStructure (.slot 1) "Bad" [{ type := .fundamental .none }]]
    (c.loader.build {} (.slot 1)).1 = .error (.invalidFieldType "Bad" 0) ∧
      (∃ m k, c.loader.module? (.slot 0) = some m ∧
        (c.loader.build {} (.slot 1)).2.module? (.slot 0) = some k ∧
        m.Relaid (fun i => ∃ x, x.owner = .slot 1 ∧ c.loader.arena.Reaches x ⟨.slot 0, i⟩) k) ∧
      (c.loader.build {} (.slot 1)).2.index = [(.virtual "/w", .slot 0)] := by
  intro c
  have hfails : (c.loader.build {} (.slot 1)).1 = .error (.invalidFieldType "Bad" 0) := by
    decide +kernel
  have hframe := build_frame (c := c) ⟨_, _, rfl⟩ {} (.slot 1)
  refine ⟨hfails, ?_, (hframe.2.2 _ hfails).2.trans (by decide +kernel)⟩
  have hrelaid := hframe.2.1 (.slot 0) (by decide) (by decide +kernel)
  have hbefore : (c.loader.module? (.slot 0)).isSome = true := by decide +kernel
  obtain ⟨m, hm⟩ := Option.isSome_iff_exists.mp hbefore
  rw [hm] at hrelaid
  obtain ⟨k, hk, hmk⟩ := exists_of_rel_left hrelaid
  exact ⟨m, k, hm, hk, hmk⟩

/-- A module of the host that never was built has its structure laid out by the build of another
one that contains it, and keeps that layout when the build of the other one fails. -/
theorem build_lays_out_unbuilt_module :
    let l := (Loader.ofDirectories []).run
      [.create "/w", .addStructure (.slot 0) "B" [{ type := .fundamental .int }], .create "/v",
        .addStructure (.slot 1) "A" [{ type := .struct ⟨.slot 0, 0⟩ }]]
    let bad := l.apply (.addStructure (.slot 1) "Bad" [{ type := .fundamental .none }])
    (l.build {} (.slot 1)).1 = .ok () ∧
      (l.build {} (.slot 1)).2.module? (.slot 0) ≠ l.module? (.slot 0) ∧
      (bad.build {} (.slot 1)).1 = .error (.invalidFieldType "Bad" 0) ∧
      (bad.build {} (.slot 1)).2.module? (.slot 0) ≠ bad.module? (.slot 0) := by
  decide +kernel

end Chronicle
end ModuleLinker
