import ModuleLinker.Proofs.Registry.Loading
import Mathlib.Data.List.Induction

/-!
# Closed layouts over whole runs

Every operation but a build that fails keeps the layouts closed. A build that fails gives up the
modules that it registered and the structures that its module got since its last build, without
asking who contains them; the layouts stay closed unless a structure that is laid out and stays
contains one of those.
-/
namespace ModuleLinker

/-- Fewer structures, but all that those with a layout contain. -/
theorem Arena.LayoutsClosed.of_subset {a b : Arena} (h : a.LayoutsClosed)
    (hsub : ∀ x s, b.structure? x = some s → a.structure? x = some s)
    (hchild : ∀ x s, b.structure? x = some s → s.layout.isDone = true → ∀ f ∈ s.fields,
      ∀ y, f.type = .struct y → b.structure? y = a.structure? y) : b.LayoutsClosed := by
  refine h.of_kept (fun x s hs _ => hsub x s hs) fun x hlaid y hy => ?_
  obtain ⟨s, hs, f, hf, hfy⟩ := mem_embedded.mp hy
  rw [isLaidOut_of_structure? hs] at hlaid
  have hchild' := h.isLaidOut_of_embeds
    ⟨by rw [isLaidOut_of_structure? (hsub x s hs), hlaid],
      (mem_embedded_of_structure? (hsub x s hs)).mpr ⟨f, hf, hfy⟩⟩
  rwa [isLaidOut, hchild x s hs hlaid f hf y hfy]

namespace Loader

variable {fs : FileSystem} {root id : ModuleId} {l l' left mid : Loader}
  {r : Except LoadError Unit} {b c : Arena} {canonical : String}

/-! ## Operations that keep the layouts closed -/

theorem Completion.closed (h : Completion fs root l r left mid b c)
    (hclosed : l.arena.LayoutsClosed) : left.arena.LayoutsClosed := by
  have hc := h.settled.closed
    ((hclosed.of_sameDone h.extending.sameDone).of_sameDone h.settled.links.sameDone)
  rcases h.arena_eq with harena | harena
  · rwa [harena]
  · rw [harena]
    exact hc.of_sameDone (Arena.sameDone_markAll _ _)

theorem Loading.closed (h : Loading fs l canonical r left mid b c)
    (hclosed : l.arena.LayoutsClosed) : left.arena.LayoutsClosed := by
  rw [h.arena_eq]
  refine h.settled.closed ?_
  exact (hclosed.of_sameDone h.extending.sameDone).of_sameDone h.settled.links.sameDone

/-- A load keeps the layouts closed, since it leaves the older slots alone. -/
theorem closed_load (h : l.Sound) (hclosed : l.arena.LayoutsClosed) (fs : FileSystem)
    (path : String) : (l.load fs path).2.arena.LayoutsClosed := by
  rcases exists_loading h (Prod.eta (l.load fs path)).symm with ⟨hsame, -⟩ |
    ⟨canonical, r, left, mid, b, c, -, hL, hend⟩
  · rw [hsame]
    exact hclosed
  · rcases hend with ⟨e, -, -, hl'⟩ | ⟨rfl, -, hl'⟩
    · rw [hl']
      refine hclosed.of_sameDone fun x s _ => ?_
      rw [Arena.structure?_congr (hL.module?_rollback_eq x.owner)]
    · rw [hl']
      exact hL.closed hclosed

theorem closed_create (hclosed : l.arena.LayoutsClosed) (path : String) :
    (l.create path).2.arena.LayoutsClosed := by
  rcases l.create_cases path with hsame | hregister
  · rw [hsame]
    exact hclosed
  · rw [hregister]
    exact hclosed.of_sameDone (Sound.sameDone_register fun s hs => by cases hs)

/-! ## Builds that fail -/

/-- The structures that a build of a module takes away when it fails: those of the modules that it
registered, and those of the module itself behind its last build. -/
def GivesUp (l : Loader) (id : ModuleId) (x : StructureId) : Prop :=
  x.owner.isFrom l.arena.length = true ∨ x.owner = id ∧
    ∃ m, l.module? id = some m ∧ m.isHosted = true ∧
      ∀ k, m.restored? = some k → k.structures.length ≤ x.index

/-- A build that fails and takes a structure away from one that is laid out and stays. -/
def Severs (fs : FileSystem) (id : ModuleId) (l : Loader) : Prop :=
  (∃ e, (l.build fs id).1 = .error e) ∧ ∃ x s f y,
    (l.build fs id).2.structure? x = some s ∧ s.layout.isDone = true ∧ f ∈ s.fields ∧
      f.type = .struct y ∧ l.GivesUp id y

/-- A module that evolves would be cut back to as many structures as before. -/
theorem map_length_restored? {m n : Module} (h : m.Evolves n) :
    n.restored?.map (fun k => k.structures.length) =
      m.restored?.map fun k => k.structures.length := by
  cases ho : m.origin with
  | file => simp [Module.restored?, h.origin, ho]
  | host built checkpoint =>
    cases checkpoint <;> simp [Module.restored?, h.origin, ho, h.length_structures]

section
variable {m n : Module} (hm : l.module? id = some m) (hn : left.module? id = some n)
  (hmn : m.Evolves n)
include hm hn hmn

theorem structure?_revert_of_givesUp {y : StructureId} (hy : l.GivesUp id y) :
    (left.revert l.arena.length id).arena.structure? y = none := by
  have hmodule := module?_revert left l.arena.length id y.owner
  rcases hy with hnew | ⟨rfl, m', hm', -, hcut⟩
  · rw [if_pos hnew] at hmodule
    exact Arena.structure?_of_module?_none hmodule
  · obtain rfl : m = m' := Option.some.inj (hm.symm.trans hm')
    split at hmodule
    · exact Arena.structure?_of_module?_none hmodule
    · rw [if_pos rfl, hn, Option.bind_some] at hmodule
      cases hk : n.restored? with
      | none =>
        rw [hk] at hmodule
        exact Arena.structure?_of_module?_none hmodule
      | some k =>
        rw [hk] at hmodule
        have hlength := map_length_restored? hmn
        rw [hk, Option.map_some, eq_comm, Option.map_eq_some_iff] at hlength
        obtain ⟨k₀, hk₀, hsame⟩ := hlength
        rw [Arena.structure?_of_module? hmodule, List.getElem?_eq_none]
        exact hsame ▸ hcut k₀ hk₀

theorem structure?_revert_of_not_givesUp (hhosted : m.isHosted = true) {y : StructureId}
    (hy : ¬ l.GivesUp id y) :
    (left.revert l.arena.length id).arena.structure? y = left.arena.structure? y := by
  have hmodule := module?_revert left l.arena.length id y.owner
  simp only [GivesUp, not_or, not_and, not_exists, not_forall, Nat.not_le] at hy
  rw [if_neg hy.1] at hmodule
  split at hmodule
  · next howner =>
    obtain ⟨k₀, hk₀, hlt⟩ := hy.2 howner m hm hhosted
    have hlength := map_length_restored? hmn
    rw [hk₀, Option.map_some, Option.map_eq_some_iff] at hlength
    obtain ⟨k, hk, hsame⟩ := hlength
    rw [hn, Option.bind_some, hk] at hmodule
    have hs := List.getElem?_eq_getElem (hsame ▸ hlt)
    rw [Arena.structure?_of_module? hmodule, Arena.structure?_of_module? (howner ▸ hn), hs,
      restored?_structure hk hs]
  · exact Arena.structure?_congr hmodule

end

/-- What a build that fails leaves, structure by structure: what it gives up is not there, and the
rest comes from closed layouts. -/
theorem exists_left_of_build_failed (h : l.Sound) (hclosed : l.arena.LayoutsClosed)
    (hfails : ∃ e, (l.build fs id).1 = .error e) :
    ∃ left : Loader, left.arena.LayoutsClosed ∧
      (∀ y, l.GivesUp id y → (l.build fs id).2.arena.structure? y = none) ∧
      (∀ y, ¬ l.GivesUp id y →
        (l.build fs id).2.arena.structure? y = left.arena.structure? y) := by
  rcases build_cases (Prod.eta (l.build fs id)).symm with ⟨hsame, -, hrefused⟩ |
    ⟨m, left, hm, hhosted, hcomplete, ⟨⟨e, he⟩, hl'⟩ | ⟨hr, -⟩⟩
  · refine ⟨l, hclosed, fun y hy => ?_, fun y _ => by rw [hsame]⟩
    rw [hsame]
    rcases hy with hnew | ⟨-, m, hm, hhosted, -⟩
    · obtain ⟨n, hn, hle⟩ := ModuleId.exists_slot_of_isFrom hnew
      refine Arena.structure?_of_module?_none ?_
      rw [hn, Arena.module?_eq_none_of_length_le hle]
    · rw [hrefused m hm] at hhosted
      cases hhosted
  · obtain ⟨mid, b, c, hC⟩ := exists_completion h.live h.resolved hcomplete
    obtain ⟨n, hn, hmn⟩ := hC.evolves id m hm
    rw [← hC.failed e he] at hn
    refine ⟨left, hC.closed hclosed, fun y hy => ?_, fun y hy => ?_⟩
    · rw [hl']
      exact structure?_revert_of_givesUp hm hn hmn hy
    · rw [hl']
      exact structure?_revert_of_not_givesUp hm hn hmn hhosted hy
  · obtain ⟨e, he⟩ := hfails
    rw [hr] at he
    cases he

/-- A failed build keeps the layouts closed just if it severs nothing. -/
theorem closed_build_failed_iff (h : l.Sound) (hclosed : l.arena.LayoutsClosed)
    (hfails : ∃ e, (l.build fs id).1 = .error e) :
    (l.build fs id).2.arena.LayoutsClosed ↔ ¬ l.Severs fs id := by
  obtain ⟨left, hleft, hgone, hkept⟩ := exists_left_of_build_failed h hclosed hfails
  constructor
  · rintro hafter ⟨-, x, s, f, y, hs, hdone, hf, hfy, hy⟩
    rcases hafter.stored x s hs hdone f hf with ⟨t, ht, -⟩ | ⟨z, t, hz, ht, -⟩
    · rw [hfy] at ht
      cases ht
    · obtain rfl := FieldType.struct.inj (hfy.symm.trans hz)
      rw [hgone y hy] at ht
      cases ht
  · intro hsafe
    refine hleft.of_subset (fun x s hs => ?_) fun x s hs hdone f hf y hfy => ?_
    · by_cases hx : l.GivesUp id x
      · rw [hgone x hx] at hs
        cases hs
      · rwa [hkept x hx] at hs
    · refine hkept y fun hy => hsafe ⟨hfails, x, s, f, y, hs, hdone, hf, hfy, hy⟩

/-! ## Whole runs -/

/-- One operation keeps the layouts closed, unless it is a build that severs. -/
theorem closed_apply (h : l.Sound) (hclosed : l.arena.LayoutsClosed) (o : Operation)
    (hsafe : ∀ fs id, o = .build fs id → ¬ l.Severs fs id) :
    (l.apply o).arena.LayoutsClosed := by
  cases o with
  | load fs path => exact closed_load h hclosed fs path
  | create path => exact closed_create hclosed path
  | build fs id =>
    by_cases hfails : ∃ e, (l.build fs id).1 = .error e
    · exact (closed_build_failed_iff h hclosed hfails).mpr (hsafe fs id rfl)
    · rcases build_cases (Prod.eta (l.build fs id)).symm with ⟨-, he, -⟩ |
        ⟨m, left, -, -, hcomplete, ⟨he, -⟩ | ⟨-, hl'⟩⟩
      · exact absurd he hfails
      · exact absurd he hfails
      · obtain ⟨mid, b, c, hC⟩ := exists_completion h.live h.resolved hcomplete
        rw [apply, hl']
        exact hC.closed hclosed
  | clear => exact .nil
  | addLibraryDirectory fs path => exact hclosed
  | _ => exact hclosed.of_sameDone (l.authored_apply rfl).sameDone

/-- In a run from an empty registry the layouts are closed all the time, just if no build that
fails on the way takes a structure away from one that is laid out and stays. -/
theorem layouts_closed_iff (directories : List String) (operations : List Operation) :
    (∀ os, os <+: operations → ((ofDirectories directories).run os).arena.LayoutsClosed) ↔
      ∀ os fs id, os ++ [.build fs id] <+: operations →
        ¬ ((ofDirectories directories).run os).Severs fs id := by
  constructor
  · intro hclosed os fs id hprefix hsevers
    have hbefore := hclosed os ((List.prefix_append ..).trans hprefix)
    have hafter := hclosed _ hprefix
    rw [run_append, run_cons, run_nil] at hafter
    have hsound := Reachable.sound ⟨directories, os, rfl⟩
    exact (closed_build_failed_iff hsound hbefore hsevers.1).mp hafter hsevers
  · intro hsafe os
    induction os using List.reverseRecOn with
    | nil => exact fun _ => .nil
    | append_singleton os o ih =>
      intro hprefix
      rw [run_append, run_cons, run_nil]
      refine closed_apply (Reachable.sound ⟨directories, os, rfl⟩)
        (ih ((List.prefix_append ..).trans hprefix)) o fun fs id ho => ?_
      exact hsafe os fs id (ho ▸ hprefix)

/-- A run with a build that severs: the second structure of the first module is laid out inside
one of the second module and then cut off. The structure that takes its place later contains what
contains it, and both are laid out. -/
theorem layouts_open_after_severing :
    ¬ ((ofDirectories []).run
      [.create "/v", .addStructure (.slot 0) "A" [{ type := .fundamental .int }], .build {} (.slot 0),
        .addStructure (.slot 0) "B" [{ type := .fundamental .int }],
        .create "/w", .addStructure (.slot 1) "T" [{ type := .struct ⟨.slot 0, 1⟩ }],
        .build {} (.slot 1), .addDependency (.slot 0) "/missing", .build {} (.slot 0),
        .addStructure (.slot 0) "C"
          [{ type := .struct ⟨.slot 1, 0⟩ }, { type := .fundamental .long }],
        .build {} (.slot 0)]).arena.LayoutsClosed := by
  intro hclosed
  refine hclosed.acyclic ⟨.slot 0, 1⟩ (.tail (b := ⟨.slot 1, 0⟩) (.single ⟨?_, ?_⟩) ⟨?_, ?_⟩)
  · decide +kernel
  · decide +kernel
  · decide +kernel
  · decide +kernel

end Loader
end ModuleLinker
