import ModuleLinker.Proofs.Registry.Loading
import Mathlib.Data.Option.Basic

/-!
# What the last build left

The tables that a module of the host had after its last successful build are in front of those
that it has now, whatever was added since. Operations on other modules, and additions to the
module itself, leave this part as it is; a failed build of the module gives it other targets and
links at most.
-/
namespace ModuleLinker

section
variable {α β : Type} {R : α → β → Prop} {a : α} {b : β} {x : Option α} {y : Option β}

theorem exists_of_rel_left (h : Option.Rel R (some a) y) : ∃ b, y = some b ∧ R a b := by
  cases h with
  | some h => exact ⟨_, rfl, h⟩

theorem exists_of_rel_right (h : Option.Rel R x (some b)) : ∃ a, x = some a ∧ R a b := by
  cases h with
  | some h => exact ⟨_, rfl, h⟩

theorem isSome_eq_of_rel (h : Option.Rel R x y) : y.isSome = x.isSome := by
  cases h <;> rfl

end

namespace Module

variable {m k n : Module} {c : Checkpoint}

/-- The module with other targets of its dependencies and other function links. -/
structure SameTables (m k : Module) : Prop where
  eq : k = { m with dependencies := k.dependencies, functionLinks := k.functionLinks }
  specs : k.dependencies.map Dependency.spec = m.dependencies.map Dependency.spec

@[refl] theorem SameTables.refl (m : Module) : m.SameTables m := ⟨rfl, rfl⟩

theorem SameTables.trans (h : m.SameTables k) (h' : k.SameTables n) : m.SameTables n := by
  refine ⟨?_, h'.specs.trans h.specs⟩
  rw [h'.eq, h.eq]

theorem SameTables.mappings (h : m.SameTables k) : k.mappings = m.mappings := by rw [h.eq]

theorem SameTables.functions (h : m.SameTables k) : k.functions = m.functions := by rw [h.eq]

theorem restored?_of_not_hosted (h : m.isHosted = false) : m.restored? = none := by
  cases ho : m.origin with
  | file => simp [restored?, ho]
  | host => simp [isHosted, ho] at h

/-! ## Cutting a module back -/

theorem cutTo_cutTo (m : Module) (c : Checkpoint) : (m.cutTo c).cutTo c = m.cutTo c := by
  simp [cutTo, Mappings.truncate, List.take_take]

theorem cutTo_lengths (ho : m.origin = .host true (some m.lengths))
    (hlinks : m.functionLinks.length = m.mappings.functions.length) : m.cutTo m.lengths = m := by
  have hall : m.functionLinks.take m.lengths.functionMappings = m.functionLinks :=
    List.take_of_length_le (Nat.le_of_eq hlinks)
  rw [cutTo, ← ho, hall]
  simp [lengths]

theorem cutTo_grows (h : m.Covers c) (hk : m.Grows k) : k.cutTo c = m.cutTo c := by
  have htake : ∀ {α : Type} {xs ys : List α} {i : Nat}, xs <+: ys → i ≤ xs.length →
      ys.take i = xs.take i := by
    rintro α xs _ i ⟨added, rfl⟩ hi
    exact List.take_append_of_le_length hi
  obtain ⟨structures, hstructures, -⟩ := hk.structures
  obtain ⟨functions, hfunctions, -⟩ := hk.functions
  simp only [cutTo, Mappings.truncate, hk.id, hk.path, hk.functionLinks, hstructures, hfunctions,
    htake hk.dependencies h.dependencies, htake hk.structureMappings h.structureMappings,
    htake hk.functionMappings h.functionMappings, List.take_append_of_le_length h.structures,
    List.take_append_of_le_length h.functions]

/-- What is cut out of a module that evolves keeps its tables. -/
theorem sameTables_cutTo (h : m.Covers c) (hmn : m.Evolves n) :
    (m.cutTo c).SameTables (n.cutTo c) := by
  constructor
  · simp only [cutTo, hmn.id, hmn.path, hmn.mappings, hmn.functions, hmn.take_structures h.done]
  · simp only [cutTo, List.map_take, hmn.specs]

/-- A module that evolves is cut back to the same tables. -/
theorem rel_restored? (h : m.Finished) (hmn : m.Evolves n) :
    Option.Rel SameTables m.restored? n.restored? := by
  cases ho : m.origin with
  | file =>
    simp only [restored?, hmn.origin, ho]
    exact .none
  | host built checkpoint =>
    cases checkpoint with
    | none =>
      simp only [restored?, hmn.origin, ho]
      exact .none
    | some c =>
      simp only [Finished, ho] at h
      rw [restored?_eq_some.mpr ⟨built, c, ho, rfl⟩,
        restored?_eq_some.mpr ⟨built, c, hmn.origin.trans ho, rfl⟩]
      exact .some (sameTables_cutTo h.1 hmn)

/-- A module that is not resolved or linked is cut back to the same. -/
theorem restored?_eq_of_evolves (h : m.Finished) (hmn : m.Evolves n)
    (heq : n = { m with structures := n.structures }) : n.restored? = m.restored? := by
  cases ho : m.origin with
  | file => simp [restored?, hmn.origin, ho]
  | host built checkpoint =>
    cases checkpoint with
    | none => simp [restored?, hmn.origin, ho]
    | some c =>
      simp only [Finished, ho] at h
      have hcut := (sameTables_cutTo h.1 hmn).eq
      have hdependencies : n.dependencies = m.dependencies := by rw [heq]
      have hlinks : n.functionLinks = m.functionLinks := by rw [heq]
      rw [restored?_eq_some.mpr ⟨built, c, ho, rfl⟩,
        restored?_eq_some.mpr ⟨built, c, hmn.origin.trans ho, rfl⟩, hcut]
      simp only [cutTo, hdependencies, hlinks]

theorem restored?_grows (h : m.Finished) (hhosted : m.isHosted = true) (hk : m.Grows k) :
    k.restored? = m.restored? := by
  cases ho : m.origin with
  | file => simp [isHosted, ho] at hhosted
  | host built checkpoint =>
    have hko : k.origin = .host false checkpoint := by
      rw [hk.origin]
      simp [unbuilt, ho]
    cases checkpoint with
    | none => simp [restored?, ho, hko]
    | some c =>
      simp only [Finished, ho] at h
      rw [restored?_eq_some.mpr ⟨built, c, ho, rfl⟩,
        restored?_eq_some.mpr ⟨false, c, hko, rfl⟩, cutTo_grows h.1 hk]

/-- What was cut back is its own last build. -/
theorem restored?_restored? (h : m.restored? = some k) : k.restored? = some k := by
  obtain ⟨built, c, -, rfl⟩ := restored?_eq_some.mp h
  exact restored?_eq_some.mpr ⟨true, c, rfl, (cutTo_cutTo m c).symm⟩

end Module
namespace Loader

variable {fs : FileSystem} {root id other : ModuleId} {l l' left mid : Loader}
  {r : Except LoadError Unit} {b c : Arena} {canonical : String}

/-- What the last build left of the module of an identity, if it is one of the host's that was
built. -/
def restored? (l : Loader) (id : ModuleId) : Option Module := (l.module? id).bind Module.restored?

theorem restored?_congr (h : l'.module? id = l.module? id) : l'.restored? id = l.restored? id := by
  rw [restored?, restored?, h]

theorem restored?_of_module?_none (h : l.module? id = none) : l.restored? id = none := by
  rw [restored?, h]
  rfl

theorem restored?_of_module? {m : Module} (h : l.module? id = some m) :
    l.restored? id = m.restored? := by
  rw [restored?, h]
  rfl

/-! ## Operations that leave what the last build left -/

theorem restored?_load (h : l.Sound) (fs : FileSystem) (path : String) (id : ModuleId) :
    (l.load fs path).2.restored? id = l.restored? id := by
  rcases exists_loading h (Prod.eta (l.load fs path)).symm with ⟨hsame, -⟩ |
    ⟨canonical, r, left, mid, b, c, -, hL, hend⟩
  · rw [hsame]
  · rcases hend with ⟨e, -, -, hl'⟩ | ⟨rfl, -, hl'⟩
    · rw [hl']
      exact restored?_congr (hL.module?_rollback_eq id)
    · rw [hl']
      by_cases hnew : id.isFrom l.arena.length = true
      · rw [restored?_of_module?_none (module?_none_of_isFrom hnew)]
        cases hk : left.module? id with
        | none => exact restored?_of_module?_none hk
        | some k =>
          rw [restored?_of_module? hk]
          rw [Loader.module?, hL.arena_eq] at hk
          exact Module.restored?_of_not_hosted (hL.isHosted_new hnew hk)
      · exact restored?_congr (hL.module?_eq hnew)

theorem restored?_create (l : Loader) (path : String) (id : ModuleId) :
    (l.create path).2.restored? id = l.restored? id := by
  rcases l.create_cases path with hsame | hregister
  · rw [hsame]
  · rw [hregister]
    cases hk : (l.register (.hosted l.nextId (.virtual path))).module? id with
    | none =>
      rw [restored?_of_module?_none hk]
      cases hm : l.module? id with
      | none => rw [restored?_of_module?_none hm]
      | some m =>
        rw [module?_register.mpr (.inl hm)] at hk
        cases hk
    | some k =>
      rcases module?_register.mp hk with hm | ⟨rfl, rfl⟩
      · rw [restored?_of_module? hk, restored?_of_module? hm]
      · rw [restored?_of_module? hk, restored?_of_module?_none]
        · rfl
        · exact Arena.module?_eq_none_of_length_le (Nat.le_refl _)

theorem restored?_authored (h : l.Sound) (hl' : l.Authored l') (id : ModuleId) :
    l'.restored? id = l.restored? id := by
  cases hl' with
  | refused => rfl
  | @grown grownId m k there hosted grows =>
    have hmodule := module?_loader_update (l := l) grownId id fun _ => k
    by_cases hid : id = grownId
    · subst hid
      rw [if_pos rfl, there] at hmodule
      rw [restored?_of_module? hmodule, restored?_of_module? there]
      exact Module.restored?_grows (h.finished id m there) hosted grows
    · rw [if_neg hid] at hmodule
      exact restored?_congr hmodule

/-! ## Builds of other modules -/

namespace Completion

variable (h : Completion fs root l r left mid b c)
include h

theorem isHosted_new {k : Module} (hnew : id.isFrom l.arena.length = true)
    (hk : left.module? id = some k) : k.isHosted = false := by
  obtain ⟨n, hn, hkn⟩ := h.module?_cases hk
  obtain ⟨slot, rfl, hle⟩ := ModuleId.exists_slot_of_isFrom hnew
  obtain ⟨m, hm, hmn⟩ := h.settled.exists_earlier hn
  have hfile : n.isHosted = false := by
    rw [hmn.isHosted]
    exact (h.extending.registered slot m hle hm).isHosted
  rcases hkn with rfl | ⟨-, rfl⟩
  · exact hfile
  · rwa [Module.markBuilt_of_not_hosted hfile]

omit h in
theorem not_mem_targets (hid : id ≠ root) (hold : ¬ id.isFrom l.arena.length = true) :
    id ∉ root :: newSlots l mid := by
  intro hmem
  rcases List.mem_cons.mp hmem with hroot | hnew
  · exact hid hroot
  · exact hold (isFrom_of_mem_newSlots hnew)

/-- A module that is neither the root nor new only has structures laid out. -/
theorem module?_older (hid : id ≠ root) (hnew : ¬ id.isFrom l.arena.length = true) :
    (l.module? id = none ∧ left.module? id = none) ∨
      ∃ m n, l.module? id = some m ∧ left.module? id = some n ∧ m.Evolves n ∧
        n = { m with structures := n.structures } := by
  have hnot : id ∉ root :: newSlots l mid := not_mem_targets hid hnew
  have hleft : left.module? id = c.module? id := by
    rcases h.arena_eq with harena | harena
    · rw [Loader.module?, harena]
    · rw [Loader.module?, harena, Arena.module?_markAll, if_neg hnot]
  rw [hleft]
  cases hm : l.module? id with
  | none =>
    refine .inl ⟨rfl, ?_⟩
    cases hk : c.module? id with
    | none => rfl
    | some k =>
      obtain ⟨m, hm', -⟩ := h.exists_earlier hk (Bool.not_eq_true _ ▸ hnew)
      rw [hm] at hm'
      cases hm'
  | some m =>
    obtain ⟨k, hk, -, -, hsame⟩ := h.extending.kept id m hm
    obtain rfl : k = m := hsame fun hworked => hnot (List.mem_cons.mpr hworked)
    obtain ⟨n, hn, hkn⟩ := h.settled.evolves id k hk
    exact .inr ⟨k, n, rfl, hn, hkn, h.settled.eq_of_not_target hnot hk hn⟩

theorem restored?_other (hfinished : ∀ id m, l.module? id = some m → m.Finished)
    (hid : id ≠ root) : left.restored? id = l.restored? id := by
  by_cases hnew : id.isFrom l.arena.length = true
  · rw [restored?_of_module?_none (l := l) (module?_none_of_isFrom hnew)]
    cases hk : left.module? id with
    | none => exact restored?_of_module?_none hk
    | some k =>
      rw [restored?_of_module? hk, Module.restored?_of_not_hosted (h.isHosted_new hnew hk)]
  · rcases h.module?_older hid hnew with ⟨hm, hn⟩ | ⟨m, n, hm, hn, hmn, heq⟩
    · rw [restored?_of_module?_none hm, restored?_of_module?_none hn]
    · rw [restored?_of_module? hm, restored?_of_module? hn]
      exact Module.restored?_eq_of_evolves (hfinished id m hm) hmn heq

end Completion

theorem restored?_build_other (h : l.Sound) (fs : FileSystem) (hid : other ≠ id) :
    (l.build fs id).2.restored? other = l.restored? other := by
  rcases build_cases (Prod.eta (l.build fs id)).symm with ⟨hsame, -⟩ |
    ⟨m, left, hm, -, hcomplete, hend⟩
  · rw [hsame]
  · obtain ⟨mid, b, c, hC⟩ := exists_completion h.live h.resolved hcomplete
    have hleft := hC.restored?_other h.finished hid
    rcases hend with ⟨-, hl'⟩ | ⟨-, hl'⟩
    · rw [hl']
      have hmodule := module?_revert left l.arena.length id other
      split at hmodule
      · next hnew =>
        rw [restored?_of_module?_none hmodule,
          restored?_of_module?_none (module?_none_of_isFrom hnew)]
      · rw [restored?_congr hmodule, hleft]
    · rw [hl', hleft]

/-! ## Builds of the module itself -/

/-- A build that fails leaves of the module what its last build left, with other targets and links
at most, and nothing if it never was built. -/
theorem module?_build_failed (h : l.Sound) {m : Module} {e : LoadError}
    (hm : l.module? id = some m) (hhosted : m.isHosted = true)
    (hfails : l.build fs id = (.error e, l')) :
    Option.Rel Module.SameTables m.restored? (l'.module? id) ∧
      l'.restored? id = l'.module? id := by
  rcases build_cases hfails with ⟨-, -, hrefused⟩ |
    ⟨m', left, hm', -, hcomplete, ⟨-, rfl⟩ | ⟨hr, -⟩⟩
  · rw [hrefused m hm] at hhosted
    cases hhosted
  · obtain rfl : m = m' := Option.some.inj (hm.symm.trans hm')
    obtain ⟨mid, b, c, hC⟩ := exists_completion h.live h.resolved hcomplete
    obtain ⟨n, hn, hmn⟩ := hC.evolves id m hm
    rw [← hC.failed e rfl] at hn
    have hmodule : (left.revert l.arena.length id).module? id = n.restored? := by
      rw [module?_revert_self (not_isFrom_of_module? hm)]
      exact restored?_of_module? hn
    rw [hmodule]
    refine ⟨Module.rel_restored? (h.finished id m hm) hmn, ?_⟩
    cases hk : n.restored? with
    | none => exact restored?_of_module?_none (hmodule.trans hk)
    | some k =>
      rw [restored?_of_module? (hmodule.trans hk), Module.restored?_restored? hk]
  · cases hr

end Loader
end ModuleLinker
