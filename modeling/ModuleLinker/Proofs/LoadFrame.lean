import ModuleLinker.Image.Encode
import ModuleLinker.Proofs.Registry.Loading

/-!
# What a load leaves alone

Whatever a load comes to, the slots that were there before are as they were, and so are the
library directories. A load that fails leaves nothing behind but empty slots: the index of the
paths is the one from before.
-/
namespace ModuleLinker

/-- An arena whose slots up to a length are those of another one begins with it. -/
theorem Arena.prefix_of_module?_eq {a b : Arena} (hlength : a.length ≤ b.length)
    (h : ∀ id : ModuleId, ¬ id.isFrom a.length = true → b.module? id = a.module? id) : a <+: b := by
  rw [List.prefix_iff_getElem?]
  intro n hn
  have hslot := h (.slot n) (by simpa using hn)
  rw [Arena.getElem?_eq_of_module?_eq (Nat.lt_of_lt_of_le hn hlength) hn hslot]
  exact List.getElem?_eq_getElem hn

namespace Loader

variable {fs : FileSystem} {l l' left mid : Loader} {r : Except LoadError Unit} {b c : Arena}
  {canonical : String}

namespace Loading

variable (h : Loading fs l canonical r left mid b c)
include h

theorem length_le : l.arena.length ≤ left.arena.length := by
  rw [h.arena_eq, h.settled.length_eq]
  exact h.extending.length_le

theorem arena_prefix : l.arena <+: left.arena :=
  Arena.prefix_of_module?_eq h.length_le fun _ => h.module?_eq

/-- Giving the new slots up takes exactly the new paths out of the index. -/
theorem index_rollback : (left.rollback l.arena.length none).index = l.index := by
  refine index_rollback_of_extends h.extending (by rw [h.left_eq]) fun id => ?_
  rw [Loader.module?, h.arena_eq]
  exact h.settled.map_path id

end Loading

/-- A load leaves every slot that was there, and the library directories, as they were. If it
fails, the index is as it was, and the slots that it added are empty. -/
theorem load_frame (h : l.Reachable) (fs : FileSystem) (path : String) :
    (l.load fs path).2.libraryDirectories = l.libraryDirectories ∧
      l.arena <+: (l.load fs path).2.arena ∧
      ∀ e, (l.load fs path).1 = .error e →
        (l.load fs path).2.index = l.index ∧
          ∀ slot ∈ (l.load fs path).2.arena.drop l.arena.length, slot = none := by
  rcases hload : l.load fs path with ⟨r, l'⟩
  rcases exists_loading h.sound hload with ⟨rfl, -⟩ |
    ⟨canonical, r', left, mid, b, c, -, hL, hend⟩
  · exact ⟨rfl, List.prefix_rfl, fun _ _ => ⟨rfl, by simp⟩⟩
  · have hdirectories : left.libraryDirectories = l.libraryDirectories := by
      rw [hL.left_eq]
      exact hL.extending.directories
    rcases hend with ⟨-, -, -, rfl⟩ | ⟨-, rfl, rfl⟩
    · have hmodule := hL.module?_rollback_eq
      refine ⟨(libraryDirectories_discard ..).trans hdirectories, ?_, fun _ _ =>
        ⟨hL.index_rollback, fun slot hslot => ?_⟩⟩
      · refine Arena.prefix_of_module?_eq ?_ fun id _ => hmodule id
        rw [rollback_eq, length_discard]
        exact hL.length_le
      · refine eq_none_of_mem_drop (fun id hid => (hmodule id).trans ?_) hslot
        obtain ⟨n, rfl, hn⟩ := ModuleId.exists_slot_of_isFrom hid
        exact Arena.module?_eq_none_of_length_le hn
    · exact ⟨hdirectories, hL.arena_prefix, nofun⟩

/-- A file whose dependency is missing, loaded beside a module of the host: the slot in which the
module of the file was registered is empty, and nothing else tells of the load. -/
theorem load_frame_of_missing_dependency :
    let l := (ofDirectories []).run [.create "/host"]
    let fs : FileSystem := { entries := [(["app"], .file ((encode .latest .latest
      { dependencies := [⟨"base", none⟩] }).toOption.getD []))] }
    (l.load fs "/app").1 = .error (.dependency "base" (.file "/app") .noFile) ∧
      (l.load fs "/app").2.arena.length = 2 ∧
      l.arena <+: (l.load fs "/app").2.arena ∧ (l.load fs "/app").2.index = l.index ∧
      ∀ slot ∈ (l.load fs "/app").2.arena.drop 1, slot = none := by
  intro l fs
  have hfails : (l.load fs "/app").1 = .error (.dependency "base" (.file "/app") .noFile) := by
    decide +kernel
  have hframe := load_frame (l := l) ⟨[], [.create "/host"], rfl⟩ fs "/app"
  exact ⟨hfails, by decide +kernel, hframe.2.1, hframe.2.2 _ hfails⟩

end Loader
end ModuleLinker
