import ModuleLinker.Proofs.BuildFrame
import ModuleLinker.Proofs.Registry.Holding

/-!
# What becomes of a slot

Slots are never taken away and never filled again. So the number of a slot means one module for as
long as the registry is not cleared: a module from a file stays, a module of the host keeps its path
until a build of it fails before any has succeeded, and then the slot stays empty. Every identity
that is given out is that of a new slot.
-/
namespace ModuleLinker

theorem Arena.getElem?_eq_some_none {a : Arena} {n : Nat} :
    a[n]? = some none ↔ n < a.length ∧ a.module? (.slot n) = none := by
  by_cases hn : n < a.length
  · simp [module?, hn]
  · simp [hn]

theorem Arena.module?_of_prefix {a b : Arena} (h : a <+: b) {n : Nat} (hn : n < a.length) :
    b.module? (.slot n) = a.module? (.slot n) := by
  obtain ⟨added, rfl⟩ := h
  exact module?_append_of_lt hn added

theorem Module.markBuilt_isHosted (m : Module) : m.markBuilt.isHosted = m.isHosted := by
  cases ho : m.origin <;> simp [markBuilt, isHosted, ho]

namespace Loader

variable {l l' : Loader} {o : Operation} {n : Nat} {m : Module} {path : ModulePath}

/-- The slot holds a module of the host under the path. -/
def HoldsHosted (l : Loader) (n : Nat) (path : ModulePath) : Prop :=
  ∃ m, l.module? (.slot n) = some m ∧ m.isHosted = true ∧ m.path = path

/-- A build of the module in the slot fails. -/
def BuildFails (l : Loader) (fs : FileSystem) (n : Nat) : Prop :=
  ∃ e, (l.build fs (.slot n)).1 = .error e

/-! ## After one operation -/

/-- An operation appends slots, or makes a module of the host grow, or it is a build. -/
theorem apply_cases (h : l.Reachable) (ho : o ≠ .clear) :
    l.arena <+: (l.apply o).arena ∨ l.Authored (l.apply o) ∨ ∃ fs id, o = .build fs id := by
  cases o with
  | clear => exact absurd rfl ho
  | load fs path => exact .inl (load_frame h fs path).2.1
  | create path =>
    rcases l.create_cases path with hsame | hregister
    · exact .inl ⟨[], by rw [apply, hsame, List.append_nil]⟩
    · exact .inl ⟨[some (.hosted l.nextId (.virtual path))], by rw [apply, hregister]; rfl⟩
  | build fs id => exact .inr (.inr ⟨fs, id, rfl⟩)
  | addLibraryDirectory fs path => exact .inl List.prefix_rfl
  | _ => exact .inr (.inl (l.authored_apply rfl))

theorem length_le_apply (h : l.Reachable) (ho : o ≠ .clear) :
    l.arena.length ≤ (l.apply o).arena.length := by
  rcases apply_cases h ho with hprefix | hauthored | ⟨fs, id, rfl⟩
  · exact hprefix.length_le
  · generalize l.apply o = l' at hauthored
    cases hauthored with
    | refused => exact Nat.le_refl _
    | grown => exact Nat.le_of_eq (Arena.length_update ..).symm
  · exact length_le_build h.sound fs id

/-- A slot that is empty is not filled again. -/
theorem module?_none_apply (h : l.Reachable) (ho : o ≠ .clear) (hn : n < l.arena.length)
    (hnone : l.module? (.slot n) = none) : (l.apply o).module? (.slot n) = none := by
  rcases apply_cases h ho with hprefix | hauthored | ⟨fs, id, rfl⟩
  · exact (Arena.module?_of_prefix hprefix hn).trans hnone
  · generalize l.apply o = l' at hauthored
    cases hauthored with
    | refused => exact hnone
    | @grown id m k there =>
      rw [module?_loader_update]
      split
      · next hid => rw [← hid, hnone, Option.map_none]
      · exact hnone
  · by_cases hid : ModuleId.slot n = id
    · rcases build_cases (Prod.eta (l.build fs id)).symm with ⟨hsame, -⟩ | ⟨m, -, hm, -⟩
      · rw [apply, hsame, hnone]
      · rw [← hid, hnone] at hm
        cases hm
    · have hrelaid := relaid_build h.sound fs hid (by simpa using hn)
      rw [hnone] at hrelaid
      simpa [apply] using isSome_eq_of_rel hrelaid

/-- A build of a module of the host leaves it under its path, unless it fails and none has ever
succeeded. -/
theorem holdsHosted_build (h : l.Sound) (fs : FileSystem) (hm : l.module? (.slot n) = some m)
    (hhosted : m.isHosted = true) :
    (l.build fs (.slot n)).2.HoldsHosted n m.path ∨
      (l.build fs (.slot n)).2.module? (.slot n) = none ∧ l.BuildFails fs n ∧
        m.restored? = none := by
  rcases hbuild : l.build fs (.slot n) with ⟨e | u, l'⟩
  · obtain ⟨hrel, -⟩ := module?_build_failed h hm hhosted hbuild
    cases hrestored : m.restored? with
    | none =>
      rw [hrestored] at hrel
      exact .inr ⟨by simpa using isSome_eq_of_rel hrel, ⟨e, by rw [hbuild]⟩, rfl⟩
    | some kept =>
      rw [hrestored] at hrel
      obtain ⟨k, hk, hsame⟩ := exists_of_rel_left hrel
      obtain ⟨built, c, -, rfl⟩ := Module.restored?_eq_some.mp hrestored
      exact .inl ⟨k, hk, by rw [hsame.eq]; rfl, by rw [hsame.eq]; rfl⟩
  · rcases build_cases hbuild with ⟨-, ⟨e, he⟩, -⟩ |
      ⟨m', left, hm', -, hcomplete, ⟨⟨e, he⟩, -⟩ | ⟨-, rfl⟩⟩
    · cases he
    · cases he
    · obtain ⟨mid, b, c, hC⟩ := exists_completion h.live h.resolved hcomplete
      obtain ⟨k, hk, hmk⟩ := hC.evolves _ m hm
      refine .inl ⟨_, hC.module?_built hk, ?_, ?_⟩
      · rw [if_pos List.mem_cons_self, Module.markBuilt_isHosted, hmk.isHosted, hhosted]
      · rw [if_pos List.mem_cons_self, Module.markBuilt_path, hmk.path]

theorem holdsHosted_apply (h : l.Reachable) (ho : o ≠ .clear) (hm : l.module? (.slot n) = some m)
    (hhosted : m.isHosted = true) :
    (l.apply o).HoldsHosted n m.path ∨
      (l.apply o).module? (.slot n) = none ∧
        ∃ fs, o = .build fs (.slot n) ∧ l.BuildFails fs n ∧ m.restored? = none := by
  rcases apply_cases h ho with hprefix | hauthored | ⟨fs, id, rfl⟩
  · have hn : n < l.arena.length := by simpa using not_isFrom_of_module? hm
    exact .inl ⟨m, (Arena.module?_of_prefix hprefix hn).trans hm, hhosted, rfl⟩
  · refine .inl ?_
    generalize l.apply o = l' at hauthored
    cases hauthored with
    | refused => exact ⟨m, hm, hhosted, rfl⟩
    | @grown id k grown there hosted grows =>
      by_cases hid : ModuleId.slot n = id
      · obtain rfl : m = k := Option.some.inj (hm.symm.trans (hid ▸ there))
        refine ⟨grown, ?_, grows.isHosted.trans hosted, grows.path⟩
        rw [module?_loader_update, if_pos hid, there, Option.map_some]
      · exact ⟨m, by rw [module?_loader_update, if_neg hid, hm], hhosted, rfl⟩
  · by_cases hid : ModuleId.slot n = id
    · subst hid
      rcases holdsHosted_build h.sound fs hm hhosted with hkept | ⟨hnone, hfails, hrestored⟩
      · exact .inl hkept
      · exact .inr ⟨hnone, fs, rfl, hfails, hrestored⟩
    · have hrelaid := relaid_build h.sound fs hid (not_isFrom_of_module? hm)
      rw [hm] at hrelaid
      obtain ⟨k, hk, hmk⟩ := exists_of_rel_left hrelaid
      refine .inl ⟨k, hk, ?_, ?_⟩
      · rw [hmk.eq]
        exact hhosted
      · rw [hmk.eq]

/-! ## Identities that are given out -/

/-- Identities that calls give out for modules that they register are those of new slots. -/
structure GivesNewSlots (l : Loader) : Prop where
  create : ∀ path id, (l.create path).1 = .ok id → id.isFrom l.arena.length = true
  /-- A load that finds its file registered registers nothing. -/
  load : ∀ fs path id l', l.load fs path = (.ok id, l') →
    l' = l ∨ id.isFrom l.arena.length = true

theorem Reachable.givesNewSlots (h : l.Reachable) : l.GivesNewSlots where
  create path id hcreate := by
    simp only [Loader.create] at hcreate
    split at hcreate
    · cases hcreate
    · split at hcreate
      · cases hcreate
      · cases hcreate
        exact ModuleId.isFrom_slot.mpr (Nat.le_refl _)
  load fs path id l' hload := by
    rcases exists_loading h.sound hload with ⟨hsame, -⟩ |
      ⟨canonical, r, left, mid, b, c, -, -, ⟨e, -, he, -⟩ | ⟨-, hid, -⟩⟩
    · exact .inl hsame
    · cases he
    · cases hid
      exact .inr (ModuleId.isFrom_slot.mpr (Nat.le_refl _))

end Loader

/-! ## After a run -/

namespace Chronicle

variable {c : Chronicle} {os : List Operation} {n : Nat}

/-- A build that gives a slot up: it is of the module of the host in the slot, which never was
built, and it fails. -/
structure GivesUp (c : Chronicle) (fs : FileSystem) (n : Nat) (path : ModulePath) : Prop where
  hosted : c.loader.HoldsHosted n path
  unbuilt : c.lastBuild (.slot n) = none
  fails : c.loader.BuildFails fs n

/-- What operations leave of a slot. -/
structure KeepsSlot (c : Chronicle) (os : List Operation) (n : Nat) : Prop where
  there : n < (c.run os).loader.arena.length
  empty : c.loader.arena[n]? = some none → (c.run os).loader.arena[n]? = some none
  file : ∀ m, c.loader.module? (.slot n) = some m → m.isHosted = false →
    (c.run os).loader.module? (.slot n) = some m
  hosted : ∀ path, c.loader.HoldsHosted n path →
    (c.run os).loader.HoldsHosted n path ∨
      (c.run os).loader.arena[n]? = some none ∧ ∃ before fs after,
        os = before ++ .build fs (.slot n) :: after ∧ (c.run before).GivesUp fs n path

theorem length_le_run (h : c.Reachable) (hos : ∀ o ∈ os, o ≠ .clear) :
    c.loader.arena.length ≤ (c.run os).loader.arena.length := by
  induction os generalizing c with
  | nil => exact Nat.le_refl _
  | cons o os ih =>
    obtain ⟨ho, hos⟩ := List.forall_mem_cons.mp hos
    exact (Loader.length_le_apply h.loader ho).trans (ih (h.apply o) hos)

theorem module?_none_run (h : c.Reachable) (hos : ∀ o ∈ os, o ≠ .clear)
    (hn : n < c.loader.arena.length) (hnone : c.loader.module? (.slot n) = none) :
    (c.run os).loader.module? (.slot n) = none := by
  induction os generalizing c with
  | nil => exact hnone
  | cons o os ih =>
    obtain ⟨ho, hos⟩ := List.forall_mem_cons.mp hos
    exact ih (h.apply o) hos (hn.trans_le (Loader.length_le_apply h.loader ho))
      (Loader.module?_none_apply h.loader ho hn hnone)

/-- Where a module of the host is not under its path any more, a first failed build took it away. -/
theorem holdsHosted_run (h : c.Reachable) (hos : ∀ o ∈ os, o ≠ .clear)
    (hn : n < c.loader.arena.length) {path : ModulePath} (hhosted : c.loader.HoldsHosted n path) :
    (c.run os).loader.HoldsHosted n path ∨
      (c.run os).loader.module? (.slot n) = none ∧ ∃ before fs after,
        os = before ++ .build fs (.slot n) :: after ∧ (c.run before).GivesUp fs n path := by
  induction os generalizing c with
  | nil => exact .inl hhosted
  | cons o os ih =>
    obtain ⟨ho, hrest⟩ := List.forall_mem_cons.mp hos
    have hn' : n < (c.apply o).loader.arena.length :=
      hn.trans_le (Loader.length_le_apply h.loader ho)
    obtain ⟨m, hm, hmhosted, rfl⟩ := id hhosted
    rcases Loader.holdsHosted_apply h.loader ho hm hmhosted with
      hstep | ⟨hnone, fs, rfl, hfails, hrestored⟩
    · rcases ih (h.apply o) hrest hn' hstep with hlater | ⟨hnone, before, fs, after, rfl, hgives⟩
      · exact .inl hlater
      · exact .inr ⟨hnone, o :: before, fs, after, rfl, hgives⟩
    · have hempty : ((c.apply (.build fs (.slot n))).run os).loader.module? (.slot n) = none :=
        module?_none_run (h.apply _) hrest hn' hnone
      refine .inr ⟨hempty, [], fs, os, rfl, hhosted, ?_, hfails⟩
      have hlast := h.faithful.isNone_lastBuild hm
      rw [hrestored] at hlast
      exact Option.isNone_iff_eq_none.mp hlast

/-- The number of a slot never means another module, however the registry is used short of
forgetting everything: slots stay, empty ones empty, and modules under their paths, except where the
first build of a module of the host fails. Identities given out later are of new slots. -/
theorem slots_never_reused (h : c.Reachable) (hos : ∀ o ∈ os, o ≠ .clear)
    (hn : n < c.loader.arena.length) :
    c.KeepsSlot os n ∧ (c.run os).loader.GivesNewSlots := by
  have hthere : n < (c.run os).loader.arena.length := hn.trans_le (length_le_run h hos)
  constructor
  · constructor
    case there => exact hthere
    case empty =>
      intro hempty
      obtain ⟨-, hnone⟩ := Arena.getElem?_eq_some_none.mp hempty
      exact Arena.getElem?_eq_some_none.mpr ⟨hthere, module?_none_run h hos hn hnone⟩
    case file =>
      intro m hm hfile
      rw [loader_run]
      exact (Loader.module?_run_of_file h.loader hos hm hfile).2
    case hosted =>
      intro path hhosted
      rcases holdsHosted_run h hos hn hhosted with hkept | ⟨hnone, hgives⟩
      · exact .inl hkept
      · exact .inr ⟨Arena.getElem?_eq_some_none.mpr ⟨hthere, hnone⟩, hgives⟩
  · exact (h.run os).loader.givesNewSlots

/-- The first build of a module of the host fails, and another module is registered under the path
that is free again. The first one's slot stays empty, and the other gets a slot of its own. -/
theorem slots_never_reused_after_failed_build :
    let c := (ofDirectories []).run [.create "/v", .create "/w", .addDependency (.slot 1) "/missing"]
    let os : List Operation := [.build {} (.slot 1), .create "/w", .build {} (.slot 2)]
    c.KeepsSlot os 1 ∧ (c.run os).loader.arena[1]? = some none ∧
      (c.run os).loader.HoldsHosted 2 (.virtual "/w") ∧
      (∃ before fs after, os = before ++ .build fs (.slot 1) :: after ∧
        (c.run before).GivesUp fs 1 (.virtual "/w")) := by
  intro c os
  have hos : ∀ o ∈ os, o ≠ .clear := by simp [os]
  have hheld : (c.loader.module? (.slot 1)).map (fun m => (m.isHosted, m.path)) =
      some (true, .virtual "/w") := by decide +kernel
  have hafter : ((c.run os).loader.module? (.slot 2)).map (fun m => (m.isHosted, m.path)) =
      some (true, .virtual "/w") := by decide +kernel
  have hempty : (c.run os).loader.module? (.slot 1) = none := by decide +kernel
  obtain ⟨m, hm, hmpath⟩ := Option.map_eq_some_iff.mp hheld
  obtain ⟨k, hk, hkpath⟩ := Option.map_eq_some_iff.mp hafter
  obtain ⟨hkeeps, -⟩ := slots_never_reused (c := c) ⟨_, _, rfl⟩ hos (n := 1) (by decide +kernel)
  rcases hkeeps.hosted (.virtual "/w") ⟨m, hm, congrArg Prod.fst hmpath, congrArg Prod.snd hmpath⟩
    with ⟨k', hk', -⟩ | ⟨hgone, hgives⟩
  · rw [hempty] at hk'
    cases hk'
  · exact ⟨hkeeps, hgone, ⟨k, hk, congrArg Prod.fst hkpath, congrArg Prod.snd hkpath⟩, hgives⟩

end Chronicle
end ModuleLinker
