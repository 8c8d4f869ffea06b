import ModuleLinker.Proofs.Registry.Ledger

/-!
# What waits to be linked

Linking works on the module that is built and on those that the call reads from files. A structure
that the host added to a module since its last build is therefore as it was given until the module
is built again: all that can happen to it before is that it is laid out inside a structure of
another module. A build that fails takes it away, and one that succeeds counts it among the
structures of the last build.
-/
namespace ModuleLinker

/-- Behind its last build a module has structures as they were given, but for their layouts. -/
def Module.Unlinked (given : StructureId → Option Structure) (id : ModuleId) (m : Module) : Prop :=
  ∀ (i : Nat) (t : Structure), m.structures[i]? = some t →
    (∀ k, m.restored? = some k → k.structures.length ≤ i) →
      ∃ s, given ⟨id, i⟩ = some s ∧ t.outline = s.outline

namespace Loader

variable {fs : FileSystem} {root id : ModuleId} {l : Loader} {k : Module}

/-- A load brings no modules of the host. -/
theorem module?_of_load (h : l.Sound) {path : String} (hk : (l.load fs path).2.module? id = some k)
    (hhosted : k.isHosted = true) : l.module? id = some k := by
  rcases exists_loading h (Prod.eta (l.load fs path)).symm with ⟨hsame, -⟩ |
    ⟨canonical, r, left, mid, b, c, -, hL, ⟨-, -, -, hl'⟩ | ⟨-, -, hl'⟩⟩
  · rwa [hsame] at hk
  · rwa [hl', hL.module?_rollback_eq] at hk
  · rw [hl'] at hk
    by_cases hnew : id.isFrom l.arena.length = true
    · rw [Loader.module?, hL.arena_eq] at hk
      rw [hL.isHosted_new hnew hk] at hhosted
      cases hhosted
    · rwa [hL.module?_eq hnew] at hk

/-- The modules of the host after a build were there before. -/
theorem not_isFrom_of_build (h : l.Sound) (hk : (l.build fs root).2.module? id = some k)
    (hhosted : k.isHosted = true) : ¬ id.isFrom l.arena.length = true := by
  intro hnew
  rcases build_cases (Prod.eta (l.build fs root)).symm with ⟨hsame, -⟩ |
    ⟨m, left, -, -, hcomplete, ⟨-, hl'⟩ | ⟨-, hl'⟩⟩
  · rw [hsame, module?_none_of_isFrom hnew] at hk
    cases hk
  · rw [hl', module?_revert, if_pos hnew] at hk
    cases hk
  · obtain ⟨mid, b, c, hC⟩ := exists_completion h.live h.resolved hcomplete
    rw [hl'] at hk
    rw [hC.isHosted_new hnew hk] at hhosted
    cases hhosted

end Loader

namespace Ledger

variable {c : Ledger} {o : Operation} {id : ModuleId} {m k : Module}

/-- No structure that the host added to a module since its last build is linked. -/
def Unlinked (c : Ledger) : Prop :=
  ∀ id m, c.loader.module? id = some m → m.isHosted = true → m.Unlinked c.given id

namespace Unlinked

variable (h : c.Unlinked)
include h

/-- A module with the outlines from before, over the record after an operation. -/
theorem of_outlines (hm : c.loader.module? id = some m) (hhosted : m.isHosted = true)
    (hrestored : k.restored? = m.restored?)
    (hstructures : ∀ (i : Nat) (u : Structure), k.structures[i]? = some u →
      ∃ t, m.structures[i]? = some t ∧ u.outline = t.outline) :
    k.Unlinked (c.apply o).given id := by
  intro i u hu hbehind
  obtain ⟨t, ht, hut⟩ := hstructures i u hu
  obtain ⟨s, hs, hts⟩ := h id m hm hhosted i t ht (hrestored ▸ hbehind)
  have hthere : c.loader.arena.structure? ⟨id, i⟩ = some t :=
    Arena.structure?_eq_some.mpr ⟨m, hm, ht⟩
  exact ⟨s, (given_apply_of_there hthere o).trans hs, hut.trans hts⟩

/-- An operation after which the modules of the host are those from before. -/
theorem same (hmodule : ∀ id k, (c.loader.apply o).module? id = some k → k.isHosted = true →
    c.loader.module? id = some k) : (c.apply o).Unlinked :=
  fun id k hk hhosted =>
    h.of_outlines (hmodule id k hk hhosted) hhosted rfl fun _ u hu => ⟨u, hu, rfl⟩

theorem create (path : String) : (c.apply (.create path)).Unlinked := by
  rcases c.loader.create_cases path with hsame | hregister
  · exact h.same fun id k hk _ => by rwa [Loader.apply, hsame] at hk
  · intro id k hk hhosted
    have hk' : (c.loader.apply (.create path)).module? id = some k := hk
    rw [Loader.apply, hregister] at hk'
    rcases Loader.module?_register.mp hk' with hm | ⟨-, rfl⟩
    · exact h.of_outlines hm hhosted rfl fun _ u hu => ⟨u, hu, rfl⟩
    · intro i t ht
      cases ht

/-- What the host adds is taken down as it is. -/
theorem authored (hsound : c.loader.Sound) (ho : o.isAuthoring = true) : (c.apply o).Unlinked := by
  intro id n hn hhosted
  have hn : (c.loader.apply o).module? id = some n := hn
  have hl' := c.loader.authored_apply ho
  generalize hloader : c.loader.apply o = l' at hl' hn
  cases hl' with
  | refused => exact h.of_outlines hn hhosted rfl fun _ u hu => ⟨u, hu, rfl⟩
  | @grown grownId m k there hosted grows =>
    rw [Loader.module?_loader_update] at hn
    split at hn
    · next hid =>
      subst hid
      rw [there, Option.map_some, Option.some.injEq] at hn
      subst hn
      have hrestored := Module.restored?_grows (hsound.finished id m there) hosted grows
      obtain ⟨added, hadded, -⟩ := grows.structures
      intro i t ht hbehind
      by_cases hi : i < m.structures.length
      · have hbefore : m.structures[i]? = some t := by
          rwa [hadded, List.getElem?_append_left hi] at ht
        have hthere : c.loader.arena.structure? ⟨id, i⟩ = some t :=
          Arena.structure?_eq_some.mpr ⟨m, there, hbefore⟩
        obtain ⟨s, hs, hts⟩ := h id m there hosted i t hbefore (hrestored ▸ hbehind)
        exact ⟨s, (given_apply_of_there hthere o).trans hs, hts⟩
      · have hnew : c.loader.arena.structure? ⟨id, i⟩ = none := by
          have hm : c.loader.arena.structure? ⟨id, i⟩ = m.structures[i]? :=
            Arena.structure?_of_module? there
          rw [hm, List.getElem?_eq_none (Nat.le_of_not_lt hi)]
        have hmodule : (c.loader.apply o).module? id = some k := by
          rw [hloader, Loader.module?_loader_update, if_pos rfl, there]
          rfl
        refine ⟨t, ?_, rfl⟩
        rw [given_apply_of_new hnew hmodule, Module.givenStructures_of_hosted hhosted]
        exact ht
    · exact h.of_outlines hn hhosted rfl fun _ u hu => ⟨u, hu, rfl⟩

theorem build (hsound : c.loader.Sound) (fs : FileSystem) (root : ModuleId) :
    (c.apply (.build fs root)).Unlinked := by
  intro id k hk hhosted
  have hk' : (c.loader.build fs root).2.module? id = some k := hk
  have hold := Loader.not_isFrom_of_build hsound hk' hhosted
  by_cases hid : id = root
  · subst hid
    rcases Loader.build_cases (Prod.eta (c.loader.build fs id)).symm with ⟨hsame, -⟩ |
      ⟨m, -, hm, hmhosted, -⟩
    · rw [hsame] at hk'
      exact h.of_outlines hk' hhosted rfl fun _ u hu => ⟨u, hu, rfl⟩
    · -- The module is its own last build, so nothing is behind that.
      have hlast := Loader.restored?_build_self hsound fs hm hmhosted
      rw [hk', Loader.restored?_of_module? hk'] at hlast
      intro i t ht hbehind
      have hlt := (List.getElem?_eq_some_iff.mp ht).1
      exact absurd (hbehind k hlast) (Nat.not_le.mpr hlt)
  · have hrelaid := Loader.relaid_build hsound fs hid hold
    rw [hk'] at hrelaid
    obtain ⟨m, hm, hmk⟩ := exists_of_rel_right hrelaid
    have hrestored := Loader.restored?_build_other hsound fs hid
    rw [Loader.restored?_of_module? hk', Loader.restored?_of_module? hm] at hrestored
    have hmhosted : m.isHosted = true := by
      rw [hmk.eq] at hhosted
      exact hhosted
    refine h.of_outlines hm hmhosted hrestored fun i u hu => ?_
    have hstructure := hmk.structures i
    rw [hu] at hstructure
    obtain ⟨t, ht, htu⟩ := exists_of_rel_right hstructure
    refine ⟨t, ht, ?_⟩
    rcases htu with rfl | ⟨-, -, -, houtline⟩
    · rfl
    · exact houtline

theorem apply (hsound : c.loader.Sound) (o : Operation) : (c.apply o).Unlinked := by
  cases o with
  | load fs path => exact h.same fun id k hk hhosted => Loader.module?_of_load hsound hk hhosted
  | create path => exact h.create path
  | build fs id => exact h.build hsound fs id
  | clear =>
    intro id m hm
    cases id <;> cases hm
  | addLibraryDirectory fs path => exact h.same fun _ _ hk _ => hk
  | _ => exact h.authored hsound rfl

end Unlinked

theorem Reachable.unlinked (h : c.Reachable) : c.Unlinked := by
  refine h.induction (fun directories id m hm => ?_) fun c o hc hunlinked =>
    hunlinked.apply hc.accounts.sound o
  cases id <;> cases hm

end Ledger
end ModuleLinker
