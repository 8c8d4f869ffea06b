import ModuleLinker.Proofs.FailedBuild

/-!
# Wired modules

A module is linked as a whole when each of its dependencies is resolved and each of its function
mappings has a link. That holds of everything that may be depended on, and of what the last build
left of a module that was added to since. Additions come behind it, and a build that fails may give
it other targets and links, but takes none away.
-/
namespace ModuleLinker

namespace Module

variable {m k : Module}

/-- Every dependency is resolved, and there is one link for each function mapping. -/
structure FullyLinked (m : Module) : Prop where
  resolved : ∀ d ∈ m.dependencies, d.isResolved = true
  links : m.functionLinks.length = m.mappings.functions.length

/-- What is there to stay of the module is linked as a whole, and so is all of it if it may be
depended on. -/
structure Wired (m : Module) : Prop where
  kept : ∀ k, m.kept? = some k → k.FullyLinked
  built : m.needsBuild = false → m.FullyLinked

theorem FullyLinked.congr (h : m.FullyLinked) (hd : k.dependencies = m.dependencies)
    (hm : k.mappings = m.mappings) (hl : k.functionLinks = m.functionLinks) : k.FullyLinked :=
  ⟨by rw [hd]; exact h.resolved, by rw [hl, hm]; exact h.links⟩

namespace Wired

theorem hosted (id : ModuleId) (path : ModulePath) : (Module.hosted id path).Wired where
  kept k hk := by cases hk
  built h := by cases h

/-- A module that is not changed outside its structures. -/
theorem of_eq (h : m.Wired) (hk : k = { m with structures := k.structures }) : k.Wired := by
  have hneeds : k.needsBuild = m.needsBuild := by rw [hk]; rfl
  refine ⟨fun j hj => ?_, fun hbuilt => (h.built (hneeds ▸ hbuilt)).congr ?_ ?_ ?_⟩
  · rcases kept?_eq_some.mp hj with ⟨hfile, rfl⟩ | ⟨-, hrestored⟩
    · have hm : m.isHosted = false := by rw [hk] at hfile; exact hfile
      exact (h.kept m (kept?_eq_some.mpr (.inl ⟨hm, rfl⟩))).congr (by rw [hk]) (by rw [hk])
        (by rw [hk])
    · obtain ⟨built, c, ho, rfl⟩ := restored?_eq_some.mp hrestored
      have hm : m.origin = .host built (some c) := by rw [hk] at ho; exact ho
      have hcut := kept?_of_restored? (restored?_eq_some.mpr ⟨built, c, hm, rfl⟩)
      exact (h.kept _ hcut).congr (by rw [hk]; rfl) (by rw [hk]; rfl) (by rw [hk]; rfl)
  all_goals rw [hk]

/-- A module of a file that is linked as a whole. -/
theorem of_file (h : m.FullyLinked) (hfile : m.isHosted = false) : m.Wired := by
  refine ⟨fun k hk => ?_, fun _ => h⟩
  rw [kept?, hfile] at hk
  exact Option.some.inj hk ▸ h

/-- A module that was taken back to its last build. -/
theorem of_restored (h : k.FullyLinked) (hk : m.restored? = some k) : k.Wired := by
  refine ⟨fun j hj => ?_, fun _ => h⟩
  rw [kept?_of_restored? (restored?_restored? hk)] at hj
  exact Option.some.inj hj ▸ h

/-- A module that is linked as a whole when it is counted as built. -/
theorem markBuilt (h : m.FullyLinked) : m.markBuilt.Wired := by
  cases hhosted : m.isHosted with
  | false =>
    rw [markBuilt_of_not_hosted hhosted]
    exact of_file h hhosted
  | true =>
    have horigin : m.markBuilt.origin = .host true (some m.markBuilt.lengths) := by
      cases ho : m.origin with
      | file => simp [isHosted, ho] at hhosted
      | host => simp [Module.markBuilt, ho, lengths]
    have hmarked : m.markBuilt.FullyLinked := by
      refine h.congr ?_ ?_ ?_ <;> · simp only [Module.markBuilt]; split <;> rfl
    refine of_restored hmarked (m := m.markBuilt) (restored?_eq_some.mpr ⟨true, _, horigin, ?_⟩)
    rw [cutTo_lengths horigin hmarked.links]

/-- Additions leave what the last build left, and the module has to be built again. -/
theorem grows (h : m.Wired) (hfinished : m.Finished) (hhosted : m.isHosted = true)
    (hk : m.Grows k) : k.Wired := by
  have hrestored := restored?_grows hfinished hhosted hk
  have hneeds : k.needsBuild = true := by
    cases ho : m.origin with
    | file => simp [isHosted, ho] at hhosted
    | host built checkpoint => simp [needsBuild, hk.origin, unbuilt, ho]
  refine ⟨fun j hj => h.kept j ?_, fun hbuilt => ?_⟩
  · rw [kept?, hhosted, if_pos rfl, ← hrestored]
    rwa [kept?, hk.isHosted, hhosted, if_pos rfl] at hj
  · rw [hneeds] at hbuilt
    cases hbuilt

end Wired
end Module

namespace Loader

variable {fs : FileSystem} {root id : ModuleId} {worked : ModuleId → Prop} {l l' left mid : Loader}
  {r : Except LoadError Unit} {b c : Arena} {m k n o : Module}

/-- Every module is wired. -/
def Wired (l : Loader) : Prop := ∀ id m, l.module? id = some m → m.Wired

/-! ## Resolved dependencies -/

/-- A dependency of a module is resolved. -/
def ResolvedAt (l : Loader) (id : ModuleId) (position : Nat) : Prop :=
  ∃ m d, l.module? id = some m ∧ m.dependencies[position]? = some d ∧ d.isResolved = true

theorem Met.resolvedAt {position : Nat} (h : l.Met fs root id position) : l.ResolvedAt id position := by
  obtain ⟨m, d, target, hm, hd, htarget, -⟩ := h
  exact ⟨m, d, hm, hd, by rw [Dependency.isResolved, htarget]; rfl⟩

/-- A step of resolution takes no target away. -/
theorem ResolveStep.resolvedAt (h : ResolveStep fs root worked l l') {position : Nat}
    (hres : l.ResolvedAt id position) : l'.ResolvedAt id position := by
  obtain ⟨m, d, hm, hd, hresolved⟩ := hres
  cases h with
  | register => exact ⟨m, d, module?_register.mpr (.inl hm), hd, hresolved⟩
  | @target other k position' d' target' working there declared means =>
    by_cases ho : id = other
    · subst ho
      obtain rfl : k = m := Option.some.inj (there.symm.trans hm)
      refine ⟨k.resolveDependency position' target', ?_⟩
      rw [module?_loader_update, if_pos rfl, there]
      by_cases hposition : position' = position
      · exact ⟨{ d with target := some target' }, rfl,
          by simp [Module.resolveDependency, hposition, hd], rfl⟩
      · exact ⟨d, rfl, by simp [Module.resolveDependency, hposition, hd], hresolved⟩
    · exact ⟨m, d, by rw [module?_loader_update, if_neg ho, hm], hd, hresolved⟩

theorem resolvedAt_of_resolveSteps (h : ResolveSteps fs root worked l l') {position : Nat}
    (hres : l.ResolvedAt id position) : l'.ResolvedAt id position := by
  induction h with
  | refl => exact hres
  | tail _ hstep ih => exact hstep.resolvedAt ih

/-! ## After a call -/

/-- A module whose dependencies are all met and that was linked is linked as a whole. -/
theorem fullyLinked_of_linkedFrom (hmet : l.AllMet fs root id) (hm : l.module? id = some m)
    (hn : n.dependencies = m.dependencies) (hlinked : k.LinkedFrom c n) : n.FullyLinked := by
  refine ⟨fun d hd => ?_, hlinked.functionLinks.length_eq.symm⟩
  obtain ⟨target, htarget, -⟩ := hmet.exists_means hm (hn ▸ hd)
  rw [Dependency.isResolved, htarget]
  rfl

/-- A load that succeeded leaves every module wired. -/
theorem Loading.wired {canonical : String} (h : Loading fs l canonical (.ok ()) left mid b c)
    (hl : l.Wired) : left.Wired := by
  intro id n hn
  by_cases hnew : id.isFrom l.arena.length = true
  · rw [Loader.module?, h.arena_eq] at hn
    obtain ⟨m, hm, -⟩ := h.settled.exists_earlier hn
    have hid := (Loading.mem_newSlots_iff hm).mpr hnew
    obtain ⟨hmet, hlinked⟩ := h.linked.resolve_left fun hfailed => by
      obtain ⟨-, e, he⟩ := hfailed
      cases he
    obtain ⟨k, hk, -⟩ := h.settled.links.evolves id m hm
    refine .of_file (fullyLinked_of_linkedFrom (hmet id hid) hm (h.settled.dependencies hm hn)
      (h.settled.linkedFrom hk hn (hlinked id hid m k hm hk))) (h.isHosted_new hnew hn)
  · rw [h.module?_eq hnew] at hn
    exact hl id n hn

namespace Completion

/-- A module that is neither the root nor new stays wired. -/
theorem wired_older (h : Completion fs root l r left mid b c) (hl : l.Wired) (hid : id ≠ root)
    (hold : ¬ id.isFrom l.arena.length = true) (hn : left.module? id = some n) : n.Wired := by
  rcases h.module?_older hid hold with ⟨-, hnone⟩ | ⟨m, n', hm, hn', -, heq⟩
  · rw [hnone] at hn
    cases hn
  · obtain rfl : n' = n := Option.some.inj (hn'.symm.trans hn)
    exact (hl id m hm).of_eq heq

/-- A call that succeeded leaves every module wired. -/
theorem wired (h : Completion fs root l (.ok ()) left mid b c) (hl : l.Wired) : left.Wired := by
  intro id n hn
  by_cases hid : id ∈ root :: newSlots l mid
  · rw [Loader.module?, h.built rfl, Arena.module?_markAll, if_pos hid, Option.map_eq_some_iff] at hn
    obtain ⟨k, hk, rfl⟩ := hn
    obtain ⟨m, hm, -⟩ := h.settled.exists_earlier hk
    obtain ⟨hmet, hlinked⟩ := h.linked.resolve_left fun hfailed => by
      obtain ⟨-, e, he⟩ := hfailed
      cases he
    obtain ⟨o, ho, -⟩ := h.settled.links.evolves id m hm
    exact .markBuilt (fullyLinked_of_linkedFrom (hmet id hid) hm (h.settled.dependencies hm hk)
      (h.settled.linkedFrom ho hk (hlinked id hid m o hm ho)))
  · refine h.wired_older hl (fun hroot => hid (hroot ▸ List.mem_cons_self)) (fun hnew => hid ?_) hn
    have hnc : c.module? id = some n := by
      rwa [Loader.module?, h.built rfl, Arena.module?_markAll, if_neg hid] at hn
    exact (h.mem_targets_iff hnc).mpr (.inr hnew)

/-- What a failed build makes of its module is linked as a whole: it has the mappings of the last
build, targets that were there or were overwritten, and links that were there or are all new. -/
theorem fullyLinked_restored (h : Completion fs root l r left mid b c) (hl : l.Sound)
    (hwired : l.Wired) (hm : l.module? root = some m) (hfails : ∃ e, r = .error e)
    (ho : m.restored? = some o) (hk : (left.module? root).bind Module.restored? = some k)
    (hsame : o.SameTables k) : k.FullyLinked := by
  have hhosted : m.isHosted = true := by
    cases hhosted : m.isHosted with
    | true => rfl
    | false => rw [Module.restored?_of_not_hosted hhosted] at ho; cases ho
  have hlast : o.FullyLinked :=
    (hwired root m hm).kept o (Module.kept?_eq_some.mpr (.inr ⟨hhosted, ho⟩))
  obtain ⟨built, checkpoint, -, hcut⟩ := Module.restored?_eq_some.mp ho
  have hdependencies : o.dependencies <+: m.dependencies := hcut ▸ List.take_prefix ..
  have hfunctionLinks : o.functionLinks <+: m.functionLinks := hcut ▸ List.take_prefix ..
  obtain ⟨p, n, hp, hn, hprefix, htaken, hlinks⟩ := h.exists_cut hl hm hfails hk
  constructor
  · intro d hd
    obtain ⟨i, hi⟩ := List.mem_iff_getElem?.mp hd
    have hlt : i < o.dependencies.length := by
      rw [← hsame.length_dependencies]
      exact (List.getElem?_eq_some_iff.mp hi).1
    have hbefore : l.ResolvedAt root i :=
      ⟨m, o.dependencies[i], hm, getElem?_of_isPrefix hdependencies (List.getElem?_eq_getElem hlt),
        hlast.resolved _ (List.getElem_mem hlt)⟩
    obtain ⟨p', e, hp', he, hresolved⟩ := resolvedAt_of_resolveSteps h.steps hbefore
    obtain rfl : p = p' := Option.some.inj (hp.symm.trans hp')
    rwa [Option.some.inj ((getElem?_of_isPrefix hprefix hi).symm.trans he)]
  · have hlength : k.mappings.functions.length ≤ n.functionLinks.length := by
      rcases h.functionLinks_root hl.live hl.resolved hm hp hn with ⟨-, hold⟩ | ⟨-, hnew⟩
      · rw [hold, hsame.mappings, ← hlast.links]
        exact hfunctionLinks.length_le
      · rw [← hnew.length_eq, htaken]
        exact List.length_take_le' ..
    rw [hlinks, List.length_take, Nat.min_eq_left hlength]

end Completion

/-! ## Every operation keeps it -/

namespace Wired

theorem ofDirectories (directories : List String) : (Loader.ofDirectories directories).Wired := by
  intro id m hm
  obtain ⟨n, -, hn, -⟩ := Arena.exists_slot hm
  cases hn

theorem load (h : l.Wired) (hl : l.Sound) (fs : FileSystem) (path : String) :
    (l.load fs path).2.Wired := by
  rcases exists_loading hl (Prod.eta (l.load fs path)).symm with ⟨hsame, -⟩ |
    ⟨canonical, r, left, mid, b, c, -, hL, hend⟩
  · rw [hsame]
    exact h
  · rcases hend with ⟨e, -, -, hl'⟩ | ⟨rfl, -, hl'⟩
    · intro id m hm
      rw [hl', hL.module?_rollback_eq] at hm
      exact h id m hm
    · rw [hl']
      exact hL.wired h

theorem create (h : l.Wired) (path : String) : (l.create path).2.Wired := by
  rcases l.create_cases path with hsame | hregister
  · rw [hsame]
    exact h
  · intro id m hm
    rw [hregister] at hm
    rcases module?_register.mp hm with hm | ⟨-, rfl⟩
    · exact h id m hm
    · exact .hosted ..

theorem build (h : l.Wired) (hl : l.Sound) (fs : FileSystem) (id : ModuleId) :
    (l.build fs id).2.Wired := by
  rcases hbuild : l.build fs id with ⟨r, l'⟩
  rcases build_cases hbuild with ⟨rfl, -⟩ | ⟨m, left, hm, hhosted, hcomplete, hend⟩
  · exact h
  · obtain ⟨mid, b, c, hC⟩ := exists_completion hl.live hl.resolved hcomplete
    rcases hend with ⟨hfails, rfl⟩ | ⟨rfl, rfl⟩
    · intro other n hn
      rw [module?_revert] at hn
      split at hn
      · cases hn
      · next hold =>
        split at hn
        · next hother =>
          obtain ⟨e, rfl⟩ := hfails
          obtain ⟨hrel, -⟩ := module?_build_failed hl hm hhosted hbuild
          rw [module?_revert_self (not_isFrom_of_module? hm), hn] at hrel
          obtain ⟨o, ho, hsame⟩ := exists_of_rel_right hrel
          obtain ⟨n', -, hn'⟩ := Option.bind_eq_some_iff.mp hn
          exact .of_restored (hC.fullyLinked_restored hl h hm ⟨e, rfl⟩ ho hn hsame) hn'
        · next hother => exact hC.wired_older h hother hold hn
    · exact hC.wired h

theorem authored (h : l.Wired) (hl : l.Sound) (hl' : l.Authored l') : l'.Wired := by
  cases hl' with
  | refused => exact h
  | @grown id m k there hosted grows =>
    intro other n hn
    rw [module?_loader_update] at hn
    split at hn
    · rw [there] at hn
      obtain rfl : k = n := Option.some.inj hn
      exact (h id m there).grows (hl.finished id m there) hosted grows
    · exact h other n hn

theorem apply (h : l.Wired) (hl : l.Sound) (o : Operation) : (l.apply o).Wired := by
  cases o with
  | load fs path => exact h.load hl fs path
  | create path => exact h.create path
  | build fs id => exact h.build hl fs id
  | clear => exact .ofDirectories l.libraryDirectories
  | addLibraryDirectory fs path => exact h
  | _ => exact h.authored hl (l.authored_apply rfl)

end Wired

/-- In every registry that can arise all modules are wired. -/
theorem Reachable.wired (h : l.Reachable) : l.Wired :=
  h.induction .ofDirectories fun _ o hl hwired => hwired.apply hl.sound o

end Loader
end ModuleLinker
