import ModuleLinker.Proofs.Registry.Anchored
import ModuleLinker.Proofs.Registry.Indexing
import ModuleLinker.Proofs.LoadFrame

/-!
# What stays and what is written

A module from a file is never changed again: no operation but clearing touches its slot. What a
call writes are targets of dependencies, and whatever target it writes is the module that the
spec means at that moment.
-/
namespace ModuleLinker.Loader

variable {fs : FileSystem} {root id other : ModuleId} {worked : ModuleId → Prop}
  {l l' left mid : Loader} {r : Except LoadError Unit} {b c : Arena} {m k : Module} {o : Operation}

/-! ## Modules from files stay -/

/-- No operation but clearing touches a module from a file. -/
theorem module?_apply_of_file (h : l.Sound) (ho : o ≠ .clear) (hm : l.module? id = some m)
    (hfile : m.isHosted = false) : (l.apply o).module? id = some m := by
  have hauthored (hl' : l.Authored (l.apply o)) : (l.apply o).module? id = some m := by
    generalize l.apply o = l' at hl'
    cases hl' with
    | refused => exact hm
    | @grown other k n there hosted grows =>
      rw [module?_loader_update, if_neg ?_, hm]
      rintro rfl
      obtain rfl : k = m := Option.some.inj (there.symm.trans hm)
      rw [hfile] at hosted
      cases hosted
  cases o with
  | load fs path => exact module?_load h fs path hm
  | create path => exact module?_create path hm
  | build fs root => exact module?_build_of_not_hosted h fs root hm hfile
  | clear => exact absurd rfl ho
  | addLibraryDirectory fs path => exact hm
  | _ => exact hauthored (l.authored_apply rfl)

/-- A module from a file stays as it is in every run that does not clear the registry. -/
theorem module?_run_of_file {os : List Operation} (h : l.Reachable) (hos : ∀ o ∈ os, o ≠ .clear)
    (hm : l.module? id = some m) (hfile : m.isHosted = false) :
    (l.run os).Reachable ∧ (l.run os).module? id = some m := by
  induction os generalizing l with
  | nil => exact ⟨h, hm⟩
  | cons o os ih =>
    have hstep := module?_apply_of_file h.sound (hos o List.mem_cons_self) hm hfile
    exact ih (h.apply o) (fun p hp => hos p (List.mem_cons_of_mem _ hp)) hstep

/-! ## Targets that are written -/

/-- The target of the dependency is the module that its spec means. -/
def Resolves (fs : FileSystem) (root : ModuleId) (l : Loader) (requester : ModulePath)
    (d : Dependency) : Prop :=
  ∃ target, d.target = some target ∧ l.Means fs root requester d.spec target

/-- Resolution leaves a dependency as it is, or resolves it. -/
theorem dependency_of_resolveSteps (h : ResolveSteps fs root worked l l')
    (hm : l.module? id = some m) (i : Nat) :
    (∃ k, l'.module? id = some k ∧ k.dependencies[i]? = m.dependencies[i]?) ∨
      l'.Met fs root id i := by
  induction h with
  | refl => exact .inl ⟨m, hm, rfl⟩
  | @tail mid l' _ hstep ih =>
    rcases ih with ⟨k, hk, hsame⟩ | hmet
    · cases hstep with
      | register canonical contents decoded fresh =>
        exact .inl ⟨k, module?_register.mpr (.inl hk), hsame⟩
      | @target other n position d target working there declared means =>
        by_cases ho : id = other
        · subst ho
          obtain rfl : n = k := Option.some.inj (there.symm.trans hk)
          have hn : (mid.update id fun m => m.resolveDependency position target).module? id =
              some (n.resolveDependency position target) := by
            rw [module?_loader_update, if_pos rfl, there]; rfl
          by_cases hi : position = i
          · subst hi
            refine .inr ⟨_, { d with target := some target }, target, hn, ?_, rfl,
              ((ResolveStep.target mid working there declared means).extends).means means⟩
            simp [Module.resolveDependency, declared]
          · refine .inl ⟨_, hn, ?_⟩
            rw [← hsame]
            simp [Module.resolveDependency, hi]
        · exact .inl ⟨k, by rw [module?_loader_update, if_neg ho, hk], hsame⟩
    · exact .inr (hstep.met hmet)

namespace Completion

variable (h : Completion fs root l r left mid b c)
include h

/-- Behind resolution the dependencies of a module stay. -/
theorem dependencies_eq (hk : left.module? id = some k) :
    ∃ m, mid.module? id = some m ∧ k.path = m.path ∧ k.dependencies = m.dependencies := by
  obtain ⟨n, hn, hkn⟩ := h.module?_cases hk
  obtain ⟨m, hm, hmn⟩ := h.settled.exists_earlier hn
  have hdependencies := h.settled.dependencies hm hn
  rcases hkn with rfl | ⟨-, rfl⟩
  · exact ⟨m, hm, hmn.path, hdependencies⟩
  · refine ⟨m, hm, by rw [Module.markBuilt_path, hmn.path], ?_⟩
    cases ho : n.origin <;> simp [Module.markBuilt, ho, hdependencies]

/-- A call that succeeds resolves every dependency of its modules. -/
theorem resolves_of_target (hr : r = .ok ()) (hid : id = root ∨ id.isFrom l.arena.length = true)
    (hk : left.module? id = some k) {d : Dependency} (hd : d ∈ k.dependencies) :
    mid.Resolves fs root k.path d := by
  obtain ⟨n, hn, -⟩ := h.module?_cases hk
  obtain ⟨m, hm, hpath, hdependencies⟩ := h.dependencies_eq hk
  have htarget := (h.mem_targets_iff hn).mpr hid
  have hmet : mid.AllMet fs root id := by
    rcases h.linked with ⟨-, e, he⟩ | ⟨hmet, -⟩
    · rw [hr] at he
      cases he
    · exact hmet id htarget
  rw [hpath]
  exact hmet.exists_means hm (hdependencies ▸ hd)

/-- Whatever a call comes to, a dependency of an older module is as it was or resolved. -/
theorem dependency_cases (hold : ¬ id.isFrom l.arena.length = true) (hk : left.module? id = some k)
    {i : Nat} {d : Dependency} (hd : k.dependencies[i]? = some d) :
    (∃ m, l.module? id = some m ∧ m.dependencies[i]? = some d) ∨ mid.Resolves fs root k.path d := by
  obtain ⟨o, ho, -⟩ := h.module?_cases hk
  obtain ⟨m, hm, -⟩ := h.exists_earlier ho (by simpa using hold)
  obtain ⟨n, hn, hpath, hdependencies⟩ := h.dependencies_eq hk
  rw [hdependencies] at hd
  rcases dependency_of_resolveSteps h.steps hm i with
    ⟨n', hn', hsame⟩ | ⟨n', e, target, hn', he, htarget, hmeans⟩
  · obtain rfl : n' = n := Option.some.inj (hn'.symm.trans hn)
    exact .inl ⟨m, hm, hsame ▸ hd⟩
  · obtain rfl : n' = n := Option.some.inj (hn'.symm.trans hn)
    obtain rfl : e = d := Option.some.inj (he.symm.trans hd)
    exact .inr ⟨target, htarget, by rw [hpath]; exact hmeans⟩

end Completion

/-- A load that succeeds resolves every dependency of the modules that it registers. -/
theorem Loading.resolves {canonical : String} (h : Loading fs l canonical (.ok ()) left mid b c)
    (hid : id.isFrom l.arena.length = true) (hk : left.module? id = some k) {d : Dependency}
    (hd : d ∈ k.dependencies) : mid.Resolves fs l.nextId k.path d := by
  rw [Loader.module?, h.arena_eq] at hk
  obtain ⟨m, hm, hmk⟩ := h.settled.exists_earlier hk
  have hmet : mid.AllMet fs l.nextId id := by
    rcases h.linked with ⟨-, e, he⟩ | ⟨hmet, -⟩
    · cases he
    · exact hmet id ((mem_newSlots_iff hm).mpr hid)
  rw [hmk.path]
  exact hmet.exists_means hm (h.settled.dependencies hm hk ▸ hd)

end ModuleLinker.Loader
