import ModuleLinker.Image.Encode
import ModuleLinker.Proofs.Registry.Chronicle
import ModuleLinker.Proofs.Registry.Reworking

/-!
# What a failed build leaves

A failed build takes the module back to the tables of its last build, and a module that never was
built is gone. The targets of its dependencies and its function links are not taken back: they are
as far along as resolution and linking came before the failure. So the module is what the last
build left exactly when these happen to be the same.
-/
namespace ModuleLinker

theorem getElem?_of_isPrefix {α : Type} {xs ys : List α} (h : xs <+: ys) {i : Nat} {x : α}
    (hx : xs[i]? = some x) : ys[i]? = some x := by
  obtain ⟨hi, rfl⟩ := List.getElem?_eq_some_iff.mp hx
  exact List.prefix_iff_getElem?.mp h i hi

namespace Module

variable {m k o : Module}

theorem SameTables.eq_iff (h : m.SameTables k) :
    k = m ↔ k.dependencies = m.dependencies ∧ k.functionLinks = m.functionLinks := by
  constructor
  · rintro rfl
    exact ⟨rfl, rfl⟩
  · rintro ⟨hdependencies, hlinks⟩
    rw [h.eq, hdependencies, hlinks]

theorem SameTables.length_dependencies (h : m.SameTables k) :
    k.dependencies.length = m.dependencies.length := by
  simpa using congrArg List.length h.specs

/-- Dependencies cut out of others are those of the same specs that are found there. -/
theorem SameTables.dependencies_eq_iff (h : m.SameTables k) (ho : k.dependencies <+: o.dependencies) :
    k.dependencies = m.dependencies ↔
      ∀ (i : Nat) (d : Dependency), m.dependencies[i]? = some d → o.dependencies[i]? = some d := by
  constructor
  · intro heq i d hd
    rw [← heq] at hd
    exact getElem?_of_isPrefix ho hd
  · intro hall
    have hm : m.dependencies <+: o.dependencies := by
      rw [List.prefix_iff_getElem?]
      exact fun i hi => hall i _ (List.getElem?_eq_getElem hi)
    exact (List.prefix_of_prefix_length_le ho hm h.length_dependencies.le).eq_of_length
      h.length_dependencies

end Module

namespace Loader

variable {fs : FileSystem} {root id : ModuleId} {worked : ModuleId → Prop} {l l' left mid : Loader}
  {r : Except LoadError Unit} {b c : Arena} {m m₀ o k : Module}

/-- Whether a failed build makes of a module what its last build left: every dependency of then
that resolution gets to means the same module as then, the others are still resolved as then, and
the function links are made anew or are those of then. -/
structure Restores (fs : FileSystem) (l : Loader) (id : ModuleId) (m m₀ : Module) : Prop where
  resolved : ∀ (i : Nat) (d : Dependency), m₀.dependencies[i]? = some d →
    l.Passes fs id id m.path 0 ((m.dependencies.map Dependency.spec).take (i + 1)) →
      ∃ path, resolveSpec fs l.libraryDirectories m.path d.spec = .ok path ∧
        l.index.find? path = d.target
  unresolved : ∀ (i : Nat) (d : Dependency), m₀.dependencies[i]? = some d →
    ¬ l.Passes fs id id m.path 0 ((m.dependencies.map Dependency.spec).take (i + 1)) →
      m.dependencies[i]? = some d
  links : l.Relinks fs id ∨ m₀.functionLinks <+: m.functionLinks

/-- A dependency that is met is resolved to a module from before exactly if its spec meant that
module before. -/
theorem Met.eq_iff {i : Nat} (hmet : mid.Met fs root id i) (hext : l.Extends fs worked mid)
    (ho : mid.module? id = some o) {d : Dependency} {t : ModuleId} {u : Module}
    (hspec : (o.dependencies.map Dependency.spec)[i]? = some d.spec) (ht : d.target = some t)
    (hu : l.module? t = some u) :
    o.dependencies[i]? = some d ↔
      ∃ path, resolveSpec fs l.libraryDirectories o.path d.spec = .ok path ∧
        l.index.find? path = d.target := by
  obtain ⟨o', e, target, ho', he, htarget, path, -, hpath, hfind, -⟩ := hmet
  obtain rfl : o = o' := Option.some.inj (ho.symm.trans ho')
  have hes : e.spec = d.spec := by simpa [he] using hspec
  rw [hext.directories, hes] at hpath
  constructor
  · intro hd
    obtain rfl : e = d := Option.some.inj (he.symm.trans hd)
    obtain rfl : target = t := Option.some.inj (htarget.symm.trans ht)
    refine ⟨path, hpath, ?_⟩
    cases hbefore : l.index.find? path with
    | none =>
      obtain ⟨n, -, hn, rfl, -⟩ := hext.exists_slot_of_find? hbefore hfind
      rw [Loader.module?, Arena.module?_eq_none_of_length_le hn] at hu
      cases hu
    | some found =>
      rw [htarget, ← hfind, hext.find?_eq_some hbefore]
  · rintro ⟨path', hpath', hbefore⟩
    obtain rfl : path = path' := Except.ok.inj (hpath.symm.trans hpath')
    rw [hext.find?_eq_some (hbefore.trans ht), Option.some.injEq] at hfind
    obtain rfl : e = d := by
      cases e
      cases d
      simp_all
    exact he

/-- A dependency of the last build is after resolution as it was then exactly if resolution gets to it
and its spec means the same module, or does not get to it and it is still as then. -/
theorem dependency_eq_iff {i : Nat} (hl : l.Sound) (hext : l.Extends fs worked mid)
    {resolved : Except LoadError (List ModuleId)} (hresolve : l.resolveFrom fs root = (resolved, mid))
    (hm : l.module? root = some m) (ho : mid.module? root = some o) (hanchored : l.Anchored m₀)
    (hspecs : m₀.dependencies.map Dependency.spec <+: m.dependencies.map Dependency.spec)
    {d : Dependency} (hd : m₀.dependencies[i]? = some d) :
    o.dependencies[i]? = some d ↔
      (l.Passes fs root root m.path 0 ((m.dependencies.map Dependency.spec).take (i + 1)) →
        ∃ path, resolveSpec fs l.libraryDirectories m.path d.spec = .ok path ∧
          l.index.find? path = d.target) ∧
      (¬ l.Passes fs root root m.path 0 ((m.dependencies.map Dependency.spec).take (i + 1)) →
        m.dependencies[i]? = some d) := by
  obtain ⟨o', ho', hdone⟩ := resolveFrom_root hl.live hm hresolve
  obtain rfl : o' = o := Option.some.inj (ho'.symm.trans ho)
  obtain ⟨o'', ho'', hom, hsame, -⟩ := hext.kept root m hm
  obtain rfl : o'' = o' := Option.some.inj (ho''.symm.trans ho)
  have hpath : o''.path = m.path := by rw [hom]
  have hspec : (m.dependencies.map Dependency.spec)[i]? = some d.spec :=
    getElem?_of_isPrefix hspecs (by rw [List.getElem?_map, hd]; rfl)
  have hi : i < m.dependencies.length := by
    simpa using (List.getElem?_eq_some_iff.mp hspec).1
  obtain ⟨t, kept, ht, hkept⟩ := hanchored.targets d (List.mem_of_getElem? hd)
  obtain ⟨u, hu, -⟩ := Option.bind_eq_some_iff.mp hkept
  by_cases hpasses :
    l.Passes fs root root m.path 0 ((m.dependencies.map Dependency.spec).take (i + 1))
  · rw [← hpath, ((hdone i hi).1 hpasses).eq_iff hext ho (hsame ▸ hspec) ht hu, hpath]
    simp [hpasses]
  · rw [(hdone i hi).2 hpasses]
    simp [hpasses]

/-- Links that are made anew for mappings of the last build are those of then: their functions are
where they were. -/
theorem Anchored.functionLinks_eq (h : l.Anchored m₀) (hl : l.Sound) (hext : l.Extends fs worked mid)
    (hd : m₀.dependencies <+: o.dependencies) {links : List FunctionId}
    (hlinks : List.Forall₂ (fun x f => o.mappedFunction mid.arena x = .ok f) m₀.mappings.functions
      links) : links = m₀.functionLinks := by
  have hlast : List.Forall₂ (fun x f => o.mappedFunction mid.arena x = .ok f)
      m₀.mappings.functions m₀.functionLinks := by
    refine h.links.imp fun x f hf => ?_
    obtain ⟨d, t, kept, g, hdx, ht, hkept, hg, rfl⟩ := hf
    obtain ⟨u, hu, hku⟩ := Option.bind_eq_some_iff.mp hkept
    obtain ⟨v, hv, huv⟩ := hext.evolves t u hu
    refine Module.mappedFunction_eq_ok.mpr
      ⟨t, v, g, ⟨d, getElem?_of_isPrefix hd hdx, ht, hv⟩, ?_, ?_⟩
    · rw [huv.functionNamed?]
      exact (Module.precedes_of_kept? hku).functionNamed? hg
    · rw [(hext.numbered hl.numbered t v hv).id_eq]
  rw [← mapM_eq_ok_iff] at hlinks hlast
  exact Except.ok.inj (hlinks.symm.trans hlast)

namespace Completion

variable (h : Completion fs root l r left mid b c)
include h

/-- What a failed build makes of its module is cut out of what resolution and linking left. -/
theorem exists_cut (hl : l.Sound) (hm : l.module? root = some m)
    (hfails : ∃ e, r = .error e)
    (hk : (left.module? root).bind Module.restored? = some k) :
    ∃ o n, mid.module? root = some o ∧ b.module? root = some n ∧
      k.dependencies <+: o.dependencies ∧
      k.mappings.functions = m.mappings.functions.take k.mappings.functions.length ∧
      k.functionLinks = n.functionLinks.take k.mappings.functions.length := by
  obtain ⟨e, rfl⟩ := hfails
  obtain ⟨o, ho, hmo⟩ := h.extending.evolves root m hm
  obtain ⟨n, hn, hon⟩ := h.settled.links.evolves root o ho
  obtain ⟨n', hn', hmn⟩ := h.evolves root m hm
  have hlaid := h.settled.eq_of_linked hn hn'
  rw [Loader.module?, h.failed e rfl, hn', Option.bind_some] at hk
  obtain ⟨built, checkpoint, horigin, rfl⟩ := Module.restored?_eq_some.mp hk
  have hcovers : n'.Covers checkpoint := by
    have hfinished := (hl.finished root m hm).of_evolves hmn
    simp only [Module.Finished, horigin] at hfinished
    exact hfinished.1
  have hlength : (n'.cutTo checkpoint).mappings.functions.length = checkpoint.functionMappings :=
    List.length_take_of_le hcovers.functionMappings
  refine ⟨o, n, ho, hn, ?_, ?_, ?_⟩
  · rw [← h.settled.dependencies ho hn']
    exact List.take_prefix ..
  · rw [hlength, ← hmn.mappings]
    rfl
  · rw [hlength, hlaid]
    rfl

/-- What a failed build makes of its module is what the last build left exactly when the targets
and links are the same. -/
theorem eq_iff_restores (hl : l.Sound) (hm : l.module? root = some m)
    (hfails : ∃ e, r = .error e) (hanchored : l.Anchored m₀)
    (hk : (left.module? root).bind Module.restored? = some k) (hsame : m₀.SameTables k) :
    k = m₀ ↔ l.Restores fs root m m₀ := by
  obtain ⟨o, n, ho, hn, hdependencies, hmappings, hlinks⟩ := h.exists_cut hl hm hfails hk
  obtain ⟨resolved, hresolve, -⟩ := h.phases
  have hspecs : m₀.dependencies.map Dependency.spec <+: m.dependencies.map Dependency.spec := by
    obtain ⟨o', ho', -, hspecs, -⟩ := h.extending.kept root m hm
    obtain rfl : o' = o := Option.some.inj (ho'.symm.trans ho)
    rw [← hsame.specs, ← hspecs]
    exact hdependencies.map _
  have htargets : k.dependencies = m₀.dependencies ↔ ∀ (i : Nat) (d : Dependency),
      m₀.dependencies[i]? = some d → o.dependencies[i]? = some d :=
    hsame.dependencies_eq_iff hdependencies
  have hone := fun (i : Nat) (d : Dependency) (hd : m₀.dependencies[i]? = some d) =>
    dependency_eq_iff hl h.extending hresolve hm ho hanchored hspecs hd
  have hlength : m₀.functionLinks.length = k.mappings.functions.length := by
    rw [hsame.mappings, hanchored.links.length_eq]
  have hfunctionLinks := h.functionLinks_root hl.live hl.resolved hm ho hn
  rw [hsame.eq_iff, htargets]
  constructor
  · rintro ⟨hall, hkept⟩
    refine ⟨fun i d hd => ((hone i d hd).mp (hall i d hd)).1,
      fun i d hd => ((hone i d hd).mp (hall i d hd)).2, ?_⟩
    rcases hfunctionLinks with ⟨-, hold⟩ | ⟨hrelinks, -⟩
    · refine .inr ?_
      rw [← hkept, hlinks, hold]
      exact List.take_prefix ..
    · exact .inl hrelinks
  · intro hrestores
    have hall : ∀ (i : Nat) (d : Dependency), m₀.dependencies[i]? = some d →
        o.dependencies[i]? = some d := fun i d hd =>
      (hone i d hd).mpr ⟨hrestores.resolved i d hd, hrestores.unresolved i d hd⟩
    refine ⟨hall, ?_⟩
    rcases hfunctionLinks with ⟨hnot, hold⟩ | ⟨-, hnew⟩
    · rw [hlinks, hold, ← hlength]
      exact (List.prefix_iff_eq_take.mp (hrestores.links.resolve_left hnot)).symm
    · have hcut := List.forall₂_take k.mappings.functions.length hnew
      rw [← hmappings, ← hlinks, hsame.mappings] at hcut
      exact hanchored.functionLinks_eq hl h.extending (htargets.mpr hall ▸ hdependencies) hcut

/-- A module that never was built is given up when its build fails, with its path. -/
theorem revert_of_restored?_none (hm : l.module? root = some m) (hrestored : m.restored? = none)
    (hfails : ∃ e, r = .error e) :
    (∃ n, root = .slot n ∧ (left.revert l.arena.length root).arena[n]? = some none) ∧
      (left.revert l.arena.length root).index.find? m.path = none := by
  obtain ⟨e, rfl⟩ := hfails
  obtain ⟨n, rfl, hn, -⟩ := Arena.exists_slot hm
  obtain ⟨k, hk, hmk⟩ := h.evolves _ m hm
  rw [← h.failed e rfl] at hk
  have hknone : k.restored? = none := by
    cases ho : m.origin with
    | file => simp [Module.restored?, hmk.origin, ho]
    | host built checkpoint =>
      cases checkpoint with
      | none => simp [Module.restored?, hmk.origin, ho]
      | some c => simp [Module.restored?, ho] at hrestored
  refine ⟨⟨n, rfl, ?_⟩, ?_⟩
  · have hmodule : (left.revert l.arena.length (.slot n)).module? (.slot n) = none := by
      rw [module?_revert_self (not_isFrom_of_module? hm), Loader.module?, hk, Option.bind_some,
        hknone]
    have hlength : n < (left.revert l.arena.length (.slot n)).arena.length := by
      rw [length_revert, h.length_eq]
      exact Nat.lt_of_lt_of_le hn h.extending.length_le
    rw [Loader.module?, Arena.module?, List.getElem?_eq_getElem hlength, Option.join_some] at hmodule
    rw [List.getElem?_eq_getElem hlength, hmodule]
  · rw [← hmk.path]
    exact find?_revert_of_restored?_none hk hknone

end Completion

end Loader

namespace Chronicle

/-- A failed build takes a module of the host back to the tables of its last build, and to that
module as a whole exactly if the targets and links are restored by what the build still did. A
module that never was built leaves an empty slot, and its path is free. -/
theorem build_failed {c : Chronicle} (h : c.Reachable) {fs : FileSystem} {id : ModuleId}
    {m : Module} {e : LoadError} {l' : Loader} (hm : c.loader.module? id = some m)
    (hhosted : m.isHosted = true) (hfails : c.loader.build fs id = (.error e, l')) :
    (c.lastBuild id = none →
      (∃ n, id = .slot n ∧ l'.arena[n]? = some none) ∧ l'.index.find? m.path = none) ∧
    ∀ m₀, c.lastBuild id = some m₀ → ∃ k, l'.module? id = some k ∧ m₀.SameTables k ∧
      (k = m₀ ↔ c.loader.Restores fs id m m₀) := by
  have hfaithful := h.faithful
  have hl := hfaithful.sound
  have htables := hfaithful.tables id
  rw [Loader.restored?_of_module? hm] at htables
  obtain ⟨hrel, -⟩ := Loader.module?_build_failed hl hm hhosted hfails
  rcases Loader.build_cases hfails with ⟨-, -, hrefused⟩ |
    ⟨m', left, hm', -, hcomplete, ⟨he, rfl⟩ | ⟨hr, -⟩⟩
  · rw [hrefused m hm] at hhosted
    cases hhosted
  · obtain rfl : m = m' := Option.some.inj (hm.symm.trans hm')
    obtain ⟨mid, b, laid, hC⟩ := Loader.exists_completion hl.live hl.resolved hcomplete
    refine ⟨fun hnone => ?_, fun m₀ hlast => ?_⟩
    · rw [hnone] at htables
      cases hrestored : m.restored? with
      | none => exact hC.revert_of_restored?_none hm hrestored he
      | some k => rw [hrestored] at htables; cases htables
    · rw [hlast] at htables
      have hmodule := Loader.module?_revert_self (l := left) (Loader.not_isFrom_of_module? hm)
      have hsame := rel_sameTables_trans htables hrel
      cases hk : (left.revert c.loader.arena.length id).module? id with
      | none => rw [hk] at hsame; cases hsame
      | some k =>
        rw [hk, Option.rel_some_some] at hsame
        rw [hk] at hmodule
        exact ⟨k, rfl, hsame, hC.eq_iff_restores hl hm he (hfaithful.anchored id m₀ hlast)
          hmodule.symm hsame⟩
  · cases hr

/-- A build that fails at a dependency behind those of the last build. -/
theorem build_failed_of_missing_dependency :
    let c := (ofDirectories []).run
      [.create "/base", .build {} (.slot 0), .create "/app", .addDependency (.slot 1) "/base",
        .build {} (.slot 1), .addDependency (.slot 1) "/missing"]
    (c.loader.build {} (.slot 1)).1 =
        .error (.dependency "/missing" (.virtual "/app") .noModule) ∧
      (c.lastBuild (.slot 1)).isSome = true ∧
      (c.loader.build {} (.slot 1)).2.module? (.slot 1) = c.lastBuild (.slot 1) := by
  intro c
  let built : Module :=
    { id := .slot 1, path := .virtual "/app", origin := .host true (some ⟨1, 0, 0, 0, 0⟩),
      dependencies := [⟨"/base", some (.slot 0)⟩] }
  have hm : c.loader.module? (.slot 1) = some (built.addDependency "/missing").2 := by
    decide +kernel
  have hlast : c.lastBuild (.slot 1) = some built := by decide +kernel
  have hfails : c.loader.build {} (.slot 1) =
      (.error (.dependency "/missing" (.virtual "/app") .noModule),
        (c.loader.build {} (.slot 1)).2) := Prod.ext (by decide +kernel) rfl
  have hpasses : c.loader.Passes {} (.slot 1) (.slot 1) (.virtual "/app") 0 ["/base"] :=
    ⟨[], by decide +kernel⟩
  have hrestores : c.loader.Restores {} (.slot 1) (built.addDependency "/missing").2 built := by
    refine ⟨fun i d hd _ => ?_, fun i d hd hnot => ?_, .inr List.nil_prefix⟩
    · cases i with
      | zero =>
        obtain rfl := Option.some.inj hd
        exact ⟨.virtual "/base", by decide +kernel, by decide +kernel⟩
      | succ i => cases hd
    · cases i with
      | zero => exact absurd hpasses hnot
      | succ i => cases hd
  obtain ⟨k, hk, -, hrestored⟩ := (build_failed ⟨_, _, rfl⟩ hm (by decide) hfails).2 built hlast
  refine ⟨congrArg Prod.fst hfails, by rw [hlast]; rfl, ?_⟩
  rw [hk, hlast, hrestored.mpr hrestores]

/-- A file that comes to stand before the dependency of the last build: the build that fails later
on, at the new structure, leaves the target and the link that it has made in the meantime. Both
lead into a slot that the failure has emptied. -/
theorem function_links_after_failed_build :
    let file := (encode .latest .latest ((({} : Descriptor).addFunction "g" 0 false
      (.bytecode {})).addFunction "f" 0 false (.bytecode {}))).toOption.getD []
    let before : FileSystem := { entries := [(["lib"], .directory)] }
    let after : FileSystem :=
      { entries := [(["lib"], .directory), (["lib", "base"], .file file)] }
    let c := (ofDirectories ["/lib"]).run
      [.create "/base", .addFunction (.slot 0) "f" 0 false .host, .build before (.slot 0),
        .create "/app", .addDependency (.slot 1) "/base", .addFunctionMapping (.slot 1) 0 "f",
        .build before (.slot 1), .addStructure (.slot 1) "Bad" [{ type := .fundamental .none }]]
    (c.loader.build after (.slot 1)).1 = .error (.invalidFieldType "Bad" 0) ∧
      (c.loader.build after (.slot 1)).2.module? (.slot 1) ≠ c.lastBuild (.slot 1) ∧
      (c.lastBuild (.slot 1)).map Module.functionLinks = some [⟨.slot 0, 0⟩] ∧
      ((c.loader.build after (.slot 1)).2.module? (.slot 1)).map Module.functionLinks =
        some [⟨.slot 2, 1⟩] ∧
      (c.loader.build after (.slot 1)).2.module? (.slot 2) = none := by
  decide +kernel

end Chronicle
end ModuleLinker
