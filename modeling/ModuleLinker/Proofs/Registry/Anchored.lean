import ModuleLinker.Proofs.Registry.Building

/-!
# What built modules refer to

The targets and the links that a build records point at modules that may be depended on, and there
at functions of the part that no later failure takes away. That part only grows at its end, so the
targets stay registered and the links go on to mean the first function of their name.
-/
namespace ModuleLinker

namespace Module

variable {m k n : Module}

/-- The second module has the structures, structure mappings and functions of the first in front of
its own. -/
structure Precedes (m k : Module) : Prop where
  structures : m.structures <+: k.structures
  structureMappings : m.mappings.structures <+: k.mappings.structures
  functions : m.functions <+: k.functions

@[refl] theorem Precedes.refl (m : Module) : m.Precedes m :=
  ⟨List.prefix_rfl, List.prefix_rfl, List.prefix_rfl⟩

theorem Precedes.trans (h : m.Precedes k) (h' : k.Precedes n) : m.Precedes n :=
  ⟨h.structures.trans h'.structures, h.structureMappings.trans h'.structureMappings,
    h.functions.trans h'.functions⟩

theorem SameTables.precedes (h : m.SameTables k) : m.Precedes k := by
  rw [h.eq]
  exact ⟨List.prefix_rfl, List.prefix_rfl, List.prefix_rfl⟩

/-- The part of a module that is there to stay: all of a module from a file, and what the last
build left of one of the host's. -/
def kept? (m : Module) : Option Module := if m.isHosted then m.restored? else some m

theorem needsBuild_markBuilt (m : Module) : m.markBuilt.needsBuild = false := by
  cases ho : m.origin <;> simp [markBuilt, needsBuild, ho]

theorem kept?_of_restored? (h : m.restored? = some k) : m.kept? = some k := by
  cases hhosted : m.isHosted with
  | true => rw [kept?, hhosted, if_pos rfl, h]
  | false =>
    rw [restored?_of_not_hosted hhosted] at h
    cases h

/-- Everything stays of a module that may be depended on. -/
theorem kept?_of_built (h : m.Finished) (hbuilt : m.needsBuild = false) :
    ∃ k, m.kept? = some k ∧ m.SameTables k := by
  cases ho : m.origin with
  | file => exact ⟨m, by simp [kept?, isHosted, ho], .refl m⟩
  | host built checkpoint =>
    obtain rfl : built = true := by simpa [needsBuild, ho] using hbuilt
    cases checkpoint with
    | none => simp [Finished, ho] at h
    | some c =>
      simp only [Finished, ho] at h
      refine ⟨m.cutTo c, kept?_of_restored? (restored?_eq_some.mpr ⟨true, c, ho, rfl⟩), ?_, ?_⟩
      · rw [cutTo, ← ho, h.2 trivial]
        simp [lengths]
      · rw [h.2 trivial]
        simp [cutTo, lengths]

theorem kept?_eq_some :
    m.kept? = some k ↔ m.isHosted = false ∧ k = m ∨ m.isHosted = true ∧ m.restored? = some k := by
  cases hhosted : m.isHosted <;> simp [kept?, hhosted, eq_comm]

theorem precedes_of_restored? (h : m.restored? = some k) : k.Precedes m := by
  obtain ⟨built, c, -, rfl⟩ := restored?_eq_some.mp h
  exact ⟨List.take_prefix .., List.take_prefix .., List.take_prefix ..⟩

/-- The last build stays in front of a module that evolves. -/
theorem precedes_of_evolves (h : m.Finished) (hmn : m.Evolves n) (hk : m.restored? = some k) :
    k.Precedes n := by
  obtain ⟨built, c, ho, rfl⟩ := restored?_eq_some.mp hk
  simp only [Finished, ho] at h
  have hstructures : (m.cutTo c).structures = n.structures.take c.structures :=
    (hmn.take_structures h.1.done).symm
  refine ⟨?_, ?_, ?_⟩
  · rw [hstructures]
    exact List.take_prefix ..
  · rw [hmn.mappings]
    exact List.take_prefix ..
  · rw [hmn.functions]
    exact List.take_prefix ..

theorem precedes_of_kept? (h : m.kept? = some k) : k.Precedes m := by
  rcases kept?_eq_some.mp h with ⟨-, rfl⟩ | ⟨-, hrestored⟩
  · rfl
  · exact precedes_of_restored? hrestored

theorem find?_of_prefix {α : Type} {p : α → Bool} {xs ys : List α} (h : xs <+: ys) {x : α}
    (hx : xs.find? p = some x) : ys.find? p = some x := by
  obtain ⟨added, rfl⟩ := h
  rw [List.find?_append, hx, Option.some_or]

/-- Names mean in a module what they mean in one that is in front of it. -/
theorem Precedes.functionNamed? (h : m.Precedes k) {name : String} {f : Function}
    (hf : m.functionNamed? name = some f) : k.functionNamed? name = some f :=
  find?_of_prefix h.functions hf

theorem Precedes.structureNamed? (h : m.Precedes k) {name : String} {s : Structure}
    (hs : m.structureNamed? name = some s) : k.structureNamed? name = some s :=
  find?_of_prefix h.structures hs

end Module

namespace Loader

variable {fs : FileSystem} {root id : ModuleId} {l l' left mid : Loader}
  {r : Except LoadError Unit} {b c : Arena} {m k : Module}

/-- What is there to stay of the module of an identity. -/
def kept? (l : Loader) (id : ModuleId) : Option Module := (l.module? id).bind Module.kept?

/-- What a built module refers to is there to stay: its dependencies are resolved to modules, and
its function links are the first functions of the mapped names there. -/
structure Anchored (l : Loader) (m : Module) : Prop where
  targets : ∀ d ∈ m.dependencies, ∃ t k, d.target = some t ∧ l.kept? t = some k
  links : List.Forall₂ (fun x f => ∃ d t k g, m.dependencies[x.dependency.toNat]? = some d ∧
    d.target = some t ∧ l.kept? t = some k ∧ k.functionNamed? x.name = some g ∧ f = ⟨t, g.index⟩)
    m.mappings.functions m.functionLinks

/-- What is there to stay does stay, and anything new comes behind it only. -/
def Retains (l l' : Loader) : Prop :=
  ∀ id k, l.kept? id = some k → ∃ k', l'.kept? id = some k' ∧ k.Precedes k'

@[refl] theorem Retains.refl (l : Loader) : l.Retains l := fun _ k hk => ⟨k, hk, .refl k⟩

theorem Retains.trans {l'' : Loader} (h : l.Retains l') (h' : l'.Retains l'') : l.Retains l'' := by
  intro id k hk
  obtain ⟨k', hk', hprecedes⟩ := h id k hk
  obtain ⟨k'', hk'', hprecedes'⟩ := h' id k' hk'
  exact ⟨k'', hk'', hprecedes.trans hprecedes'⟩

theorem Anchored.retains (h : l.Anchored m) (hr : l.Retains l') : l'.Anchored m where
  targets := by
    intro d hd
    obtain ⟨t, k, htarget, hk⟩ := h.targets d hd
    obtain ⟨k', hk', -⟩ := hr t k hk
    exact ⟨t, k', htarget, hk'⟩
  links := by
    refine h.links.imp fun x f hf => ?_
    obtain ⟨d, t, k, g, hd, htarget, hk, hg, hlink⟩ := hf
    obtain ⟨k', hk', hprecedes⟩ := hr t k hk
    exact ⟨d, t, k', g, hd, htarget, hk', hprecedes.functionNamed? hg, hlink⟩

/-! ## After a build that succeeds -/

namespace Completion

variable (h : Completion fs root l (.ok ()) left mid b c)
include h

theorem module?_built {n : Module} (hn : c.module? id = some n) :
    left.module? id = some (if id ∈ root :: newSlots l mid then n.markBuilt else n) := by
  rw [Loader.module?, h.built rfl, Arena.module?_markAll, hn]
  split <;> rfl

/-- What may be depended on after a call that succeeded stays as a whole. -/
theorem kept?_built (hfinished : ∀ id m, left.module? id = some m → m.Finished) {n : Module}
    (hn : c.module? id = some n) (hbuilt : id ∉ root :: newSlots l mid → n.needsBuild = false) :
    ∃ k, left.kept? id = some k ∧ k.structures = n.structures ∧ k.mappings = n.mappings ∧
      k.functions = n.functions := by
  have hleft := h.module?_built hn
  have hneeds :
      (if id ∈ root :: newSlots l mid then n.markBuilt else n).needsBuild = false := by
    split
    · exact n.needsBuild_markBuilt
    · next hnot => exact hbuilt hnot
  obtain ⟨k, hk, htables⟩ := Module.kept?_of_built (hfinished id _ hleft) hneeds
  refine ⟨k, by rw [kept?, hleft]; exact hk, ?_⟩
  rw [htables.eq]
  split
  · cases ho : n.origin <;> simp [Module.markBuilt, ho]
  · exact ⟨rfl, rfl, rfl⟩

/-- What a dependency is resolved to stays as a whole. -/
theorem kept?_of_means (hfinished : ∀ id m, left.module? id = some m → m.Finished)
    {requester : ModulePath} {spec : String} {target : ModuleId}
    (ht : mid.Means fs root requester spec target) :
    ∃ n k, c.module? target = some n ∧ left.kept? target = some k ∧
      k.structures = n.structures ∧ k.functions = n.functions := by
  obtain ⟨path, t, -, -, ht, hneeds⟩ := ht
  obtain ⟨n, hn, htn⟩ := h.settled.evolves target t ht
  obtain ⟨k, hk, hstructures, -, hfunctions⟩ := h.kept?_built hfinished hn fun hnot => by
    rw [htn.needsBuild, ← Bool.not_eq_true]
    exact fun hbuild => hnot (hneeds hbuild ▸ List.mem_cons_self)
  exact ⟨n, k, hn, hk, hstructures, hfunctions⟩

/-- What a dependency of the module itself is resolved to when it is linked. -/
theorem kept?_of_dependency (hl : l.Sound) (hleft : left.Sound) (hmet : mid.AllMet fs root root)
    (hk : b.module? root = some k) {d : Dependency} (hd : d ∈ k.dependencies) :
    ∃ t u kept, d.target = some t ∧ b.module? t = some u ∧ u.id = t ∧ left.kept? t = some kept ∧
      kept.functions = u.functions := by
  obtain ⟨o, ho, -⟩ := h.settled.links.evolves.exists_earlier h.settled.links.module?_none hk
  rw [h.settled.links.dependencies root o k ho hk] at hd
  obtain ⟨t, ht, hmeans⟩ := hmet.exists_means ho hd
  obtain ⟨n, kept, hn, hkept, -, hfunctions⟩ := h.kept?_of_means hleft.finished hmeans
  obtain ⟨path, v, -, -, hv, -⟩ := hmeans
  obtain ⟨u, hu, hvu⟩ := h.settled.links.evolves t v hv
  obtain ⟨n', hn', hun⟩ := h.settled.laysOut.evolves t u hu
  obtain rfl : n = n' := Option.some.inj (hn.symm.trans hn')
  refine ⟨t, u, kept, ht, hu, ?_, hkept, hfunctions.trans hun.functions⟩
  rw [hvu.id, (h.extending.numbered hl.numbered t v hv).id_eq]

/-- A module that was just linked is anchored, and so is what layout and the mark of its build make
of it. -/
theorem anchored_linked (hl : l.Sound) (hleft : left.Sound) (hmet : mid.AllMet fs root root)
    (hk : b.module? root = some k) (hlinks : List.Forall₂
      (fun x f => k.mappedFunction b x = .ok f) k.mappings.functions k.functionLinks) {n : Module}
    (hd : n.dependencies = k.dependencies) (hm : n.mappings = k.mappings)
    (hf : n.functionLinks = k.functionLinks) : left.Anchored n where
  targets := by
    rw [hd]
    intro d hd
    obtain ⟨t, -, kept, ht, -, -, hkept, -⟩ := h.kept?_of_dependency hl hleft hmet hk hd
    exact ⟨t, kept, ht, hkept⟩
  links := by
    rw [hd, hm, hf]
    refine hlinks.imp fun x f hf => ?_
    obtain ⟨target, u, g, ⟨d, hd, htarget, hu⟩, hg, rfl⟩ := Module.mappedFunction_eq_ok.mp hf
    obtain ⟨t, u', kept, ht, hu', hid, hkept, hfunctions⟩ :=
      h.kept?_of_dependency hl hleft hmet hk (List.mem_of_getElem? hd)
    obtain rfl : target = t := Option.some.inj (htarget.symm.trans ht)
    obtain rfl : u = u' := Option.some.inj (hu.symm.trans hu')
    refine ⟨d, target, kept, g, hd, htarget, hkept, ?_, by rw [hid]⟩
    rw [Module.functionNamed?, hfunctions]
    exact hg

/-- What a successful build leaves of its module is what the module can be taken back to, and it is
anchored. -/
theorem anchored (hl : l.Sound) (hleft : left.Sound) (hm : l.module? root = some m)
    (hhosted : m.isHosted = true) :
    ∃ k, left.module? root = some k ∧ (∀ kept, m.restored? = some kept → kept.Precedes k) ∧
      k.restored? = some k ∧ left.Anchored k := by
  obtain ⟨o, ho, -⟩ := h.extending.evolves root m hm
  obtain ⟨k, hk, -⟩ := h.settled.links.evolves root o ho
  obtain ⟨n, hn, hmn⟩ := h.evolves root m hm
  obtain ⟨hmet, hlinks⟩ : mid.AllMet fs root root ∧ o.LinkedFrom b k := by
    rcases h.linked with ⟨-, _, he⟩ | ⟨hmet, hlinked⟩
    · cases he
    · exact ⟨hmet root List.mem_cons_self, hlinked root List.mem_cons_self o k ho hk⟩
  have hnk := h.settled.eq_of_linked hk hn
  have hbuilt : n.markBuilt = { n with origin := .host true (some n.lengths) } := by
    rw [← hmn.isHosted] at hhosted
    cases horigin : n.origin with
    | file => simp [Module.isHosted, horigin] at hhosted
    | host => simp [Module.markBuilt, horigin, Module.lengths]
  have hlast := h.module?_built hn
  rw [if_pos List.mem_cons_self, hbuilt] at hlast
  refine ⟨_, hlast, fun kept hkept => ?_, ?_, ?_⟩
  · have hprecedes := Module.precedes_of_evolves (hl.finished root m hm) hmn hkept
    exact ⟨hprecedes.structures, hprecedes.structureMappings, hprecedes.functions⟩
  · refine Module.restored?_eq_some.mpr ⟨true, n.lengths, rfl, (Module.cutTo_lengths rfl ?_).symm⟩
    rw [hnk]
    exact hlinks.functionLinks.length_eq.symm
  · refine h.anchored_linked hl hleft hmet hk hlinks.functionLinks ?_ ?_ ?_
    · rw [hnk]
    · rw [hnk]
    · rw [hnk]

end Completion

theorem anchored_of_build (h : l.Sound) (hbuild : l.build fs id = (.ok (), l')) :
    ∃ m k, l.module? id = some m ∧ l'.module? id = some k ∧
      (∀ kept, m.restored? = some kept → kept.Precedes k) ∧ k.restored? = some k ∧
      l'.Anchored k := by
  have hl' : l'.Sound := by simpa [hbuild] using h.build fs id
  rcases build_cases hbuild with ⟨-, ⟨_, he⟩, -⟩ |
    ⟨m, left, hm, hhosted, hcomplete, ⟨⟨_, he⟩, -⟩ | ⟨-, rfl⟩⟩
  · cases he
  · cases he
  · obtain ⟨mid, b, c, hC⟩ := exists_completion h.live h.resolved hcomplete
    exact ⟨m, (hC.anchored h hl' hm hhosted).imp fun _ hk => ⟨hm, hk⟩⟩

/-! ## After any operation -/

theorem kept?_congr (h : l'.module? id = l.module? id) : l'.kept? id = l.kept? id := by
  rw [kept?, kept?, h]

/-- A build leaves its module as it is after its last successful build. -/
theorem restored?_build_self (h : l.Sound) (fs : FileSystem) (hm : l.module? id = some m)
    (hhosted : m.isHosted = true) :
    (l.build fs id).2.restored? id = (l.build fs id).2.module? id := by
  rcases hbuild : l.build fs id with ⟨_ | _, l'⟩
  · exact (module?_build_failed h hm hhosted hbuild).2
  · obtain ⟨-, k, -, hk, -, hrestored, -⟩ := anchored_of_build h hbuild
    rw [restored?_of_module? hk, hrestored, hk]

/-- A module that may be depended on stays as it is when another one is built. -/
theorem module?_build_of_built (h : l.Sound) (fs : FileSystem) (hm : l.module? id = some m)
    (hbuilt : m.needsBuild = false) (hid : id ≠ root) :
    (l.build fs root).2.module? id = some m := by
  have hrelaid := relaid_build h fs hid (not_isFrom_of_module? hm)
  rw [hm] at hrelaid
  obtain ⟨k, hk, hmk⟩ := exists_of_rel_left hrelaid
  rw [hk, hmk.built hbuilt]

/-- A module from a file stays as it is when one is built. -/
theorem module?_build_of_not_hosted (h : l.Sound) (fs : FileSystem) (root : ModuleId)
    (hm : l.module? id = some m) (hfile : m.isHosted = false) :
    (l.build fs root).2.module? id = some m := by
  rcases build_cases (Prod.eta (l.build fs root)).symm with ⟨hsame, -⟩ | ⟨k, -, hk, hhosted, -⟩
  · rw [hsame, hm]
  · refine module?_build_of_built h fs hm (Module.needsBuild_of_not_hosted hfile) ?_
    rintro rfl
    obtain rfl : m = k := Option.some.inj (hm.symm.trans hk)
    rw [hfile] at hhosted
    cases hhosted

/-- What is there to stay of a module stays when one is built. -/
theorem retains_build (h : l.Sound) (fs : FileSystem) (root : ModuleId) :
    l.Retains (l.build fs root).2 := by
  intro id k hk
  obtain ⟨m, hm, hkept⟩ := Option.bind_eq_some_iff.mp hk
  rcases Module.kept?_eq_some.mp hkept with ⟨hfile, rfl⟩ | ⟨hhosted, hrestored⟩
  · refine ⟨k, ?_, .refl k⟩
    rw [kept?, module?_build_of_not_hosted h fs root hm hfile]
    exact Module.kept?_eq_some.mpr (.inl ⟨hfile, rfl⟩)
  · by_cases hid : id = root
    · subst hid
      rcases hbuild : l.build fs id with ⟨r, l'⟩
      cases r with
      | error e =>
        obtain ⟨hrel, hsame⟩ := module?_build_failed h hm hhosted hbuild
        rw [hrestored] at hrel
        obtain ⟨n, hn, hkn⟩ := exists_of_rel_left hrel
        rw [hn, restored?_of_module? hn] at hsame
        refine ⟨n, ?_, hkn.precedes⟩
        rw [kept?, hn]
        exact Module.kept?_of_restored? hsame
      | ok _ =>
        obtain ⟨m', n, hm', hn, hprecedes, hnrestored, -⟩ := anchored_of_build h hbuild
        obtain rfl : m = m' := Option.some.inj (hm.symm.trans hm')
        refine ⟨n, ?_, hprecedes k hrestored⟩
        rw [kept?, hn]
        exact Module.kept?_of_restored? hnrestored
    · have hother := restored?_build_other h fs hid
      rw [restored?_of_module? hm, hrestored] at hother
      obtain ⟨n, hn, hrestored'⟩ := Option.bind_eq_some_iff.mp hother
      exact ⟨k, by rw [kept?, hn]; exact Module.kept?_of_restored? hrestored', .refl k⟩

theorem module?_load (h : l.Sound) (fs : FileSystem) (path : String)
    (hm : l.module? id = some m) : (l.load fs path).2.module? id = some m := by
  rcases exists_loading h (Prod.eta (l.load fs path)).symm with ⟨hsame, -⟩ |
    ⟨canonical, r, left, mid, b, c, -, hL, ⟨-, -, -, hl'⟩ | ⟨-, -, hl'⟩⟩
  · rw [hsame, hm]
  · rw [hl', hL.module?_rollback_eq, hm]
  · rw [hl', hL.module?_eq (not_isFrom_of_module? hm), hm]

theorem module?_load_failed (h : l.Sound) {path : String} {e : LoadError}
    (hfails : (l.load fs path).1 = .error e) (id : ModuleId) :
    (l.load fs path).2.module? id = l.module? id := by
  rcases exists_loading h (Prod.eta (l.load fs path)).symm with ⟨hsame, -⟩ |
    ⟨canonical, r, left, mid, b, c, -, hL, ⟨-, -, -, hl'⟩ | ⟨-, hr, -⟩⟩
  · rw [hsame]
  · rw [hl', hL.module?_rollback_eq]
  · rw [hr] at hfails
    cases hfails

theorem module?_create (path : String) (hm : l.module? id = some m) :
    (l.create path).2.module? id = some m := by
  rcases l.create_cases path with hsame | hregister
  · rw [hsame, hm]
  · rw [hregister]
    exact module?_register.mpr (.inl hm)

/-- Nothing that the host adds is there to stay before the next build. -/
theorem kept?_authored (h : l.Sound) (hl' : l.Authored l') (id : ModuleId) :
    l'.kept? id = l.kept? id := by
  cases hl' with
  | refused => rfl
  | @grown grownId m n there hosted grows =>
    have hmodule := module?_loader_update (l := l) grownId id fun _ => n
    by_cases hid : id = grownId
    · subst hid
      rw [if_pos rfl, there] at hmodule
      rw [kept?, kept?, hmodule, there, Option.map_some, Option.bind_some, Option.bind_some,
        Module.kept?, Module.kept?, grows.isHosted, hosted, if_pos rfl, if_pos rfl,
        Module.restored?_grows (h.finished id m there) hosted grows]
    · rw [if_neg hid] at hmodule
      exact kept?_congr hmodule

theorem retains_authored (h : l.Sound) (hl' : l.Authored l') : l.Retains l' :=
  fun id k hk => ⟨k, (kept?_authored h hl' id).trans hk, .refl k⟩

/-- What is there to stay of a module stays whatever the host does, short of forgetting all. -/
theorem retains_apply (h : l.Sound) {o : Operation} (ho : o ≠ .clear) : l.Retains (l.apply o) := by
  have hsame : (∀ id m, l.module? id = some m → (l.apply o).module? id = some m) →
      l.Retains (l.apply o) := by
    intro hmodule id k hk
    obtain ⟨m, hm, -⟩ := Option.bind_eq_some_iff.mp hk
    exact ⟨k, by rw [kept?_congr ((hmodule id m hm).trans hm.symm), hk], .refl k⟩
  cases o with
  | clear => exact absurd rfl ho
  | build fs root => exact retains_build h fs root
  | load fs path => exact hsame fun _ _ => module?_load h fs path
  | create path => exact hsame fun _ _ => module?_create path
  | addLibraryDirectory fs path => exact hsame fun _ _ hm => hm
  | _ => exact retains_authored h (l.authored_apply rfl)

end Loader
end ModuleLinker
