import ModuleLinker.Image.Encode
import ModuleLinker.Proofs.Registry.Holding

/-!
# A file is loaded once

Once the module of a file is registered, it is the one module of that file for as long as the
registry is not cleared. Loading the file again, under whatever path leads to it, gives this module
and does nothing else, and every dependency that is resolved to the file is resolved to it, be it in
a call that succeeds or in one that fails.
-/
namespace ModuleLinker

/-- The file system that an operation sees which resolves dependencies. -/
def Operation.fileSystem? : Operation → Option FileSystem
  | .load fs _ => some fs
  | .build fs _ => some fs
  | _ => none

namespace Loader

variable {fs : FileSystem} {root id other : ModuleId} {worked : ModuleId → Prop}
  {l l' left mid : Loader} {m k : Module} {path : String}

/-- A spec of the requester is resolved to the file at a path, by whatever text. -/
def StandsFor (fs : FileSystem) (l : Loader) (requester : ModulePath) (spec path : String) : Prop :=
  ∃ found, resolveSpec fs l.libraryDirectories requester spec = .ok found ∧
    found.identity = (ModulePath.file path).identity

/-- The slot holds the one module of a file, and whatever is resolved to the file from here on is
resolved to it. -/
structure HoldsOnce (l : Loader) (path : String) (id : ModuleId) : Prop where
  load : ∀ fs text, fs.canonicalize text = .ok path → l.load fs text = (.ok id, l)
  alone : ∀ other k, l.module? other = some k →
    k.path.identity = (ModulePath.file path).identity → other = id
  /-- All dependencies of the modules that a load registers. -/
  loaded : ∀ fs text root l', l.load fs text = (.ok root, l') → ∀ other k,
    other.isFrom l.arena.length = true → l'.module? other = some k → ∀ d ∈ k.dependencies,
      l.StandsFor fs k.path d.spec path → d.target = some id
  /-- All dependencies of the modules that a build registers, and of the one that is built. -/
  built : ∀ fs root l', l.build fs root = (.ok (), l') → ∀ other k,
    other = root ∨ other.isFrom l.arena.length = true → l'.module? other = some k →
      ∀ d ∈ k.dependencies, l.StandsFor fs k.path d.spec path → d.target = some id
  /-- All dependencies that a call changes, also if it fails. -/
  written : ∀ (o : Operation) (fs : FileSystem), o.fileSystem? = some fs → ∀ other k,
    (l.apply o).module? other = some k → ∀ (i : Nat) (d : Dependency),
      k.dependencies[i]? = some d → l.StandsFor fs k.path d.spec path →
        d.target = some id ∨ ∃ m, l.module? other = some m ∧ m.dependencies[i]? = some d

/-- What a spec is resolved to in a call is what was registered before the call, if there was
anything. -/
theorem Resolves.target_eq {requester : ModulePath} {d : Dependency}
    (h : mid.Resolves fs root requester d) (hext : l.Extends fs worked mid)
    (hfind : l.index.find? (.file path) = some id) (hstands : l.StandsFor fs requester d.spec path) :
    d.target = some id := by
  obtain ⟨target, htarget, found, t, hfound, hindex, -⟩ := h
  obtain ⟨found', hfound', hidentity⟩ := hstands
  rw [hext.directories, hfound'] at hfound
  obtain rfl := Except.ok.inj hfound
  rw [PathIndex.find?_congr hidentity, hext.find?_eq_some hfind] at hindex
  rw [htarget, hindex]

section
variable (h : l.Sound) (hfind : l.index.find? (.file path) = some id)
include h hfind

theorem target_of_load {text : String} (hload : l.load fs text = (.ok root, l'))
    (hnew : other.isFrom l.arena.length = true) (hk : l'.module? other = some k) {d : Dependency}
    (hd : d ∈ k.dependencies) (hstands : l.StandsFor fs k.path d.spec path) :
    d.target = some id := by
  rcases exists_loading h hload with ⟨rfl, -⟩ |
    ⟨canonical, r, left, mid, b, c, -, hL, ⟨e, -, he, -⟩ | ⟨rfl, -, rfl⟩⟩
  · rw [module?_none_of_isFrom hnew] at hk
    cases hk
  · cases he
  · exact (hL.resolves hnew hk hd).target_eq hL.extending hfind hstands

theorem target_of_build (hbuild : l.build fs root = (.ok (), l'))
    (hworked : other = root ∨ other.isFrom l.arena.length = true) (hk : l'.module? other = some k)
    {d : Dependency} (hd : d ∈ k.dependencies) (hstands : l.StandsFor fs k.path d.spec path) :
    d.target = some id := by
  rcases build_cases hbuild with ⟨-, ⟨e, he⟩, -⟩ |
    ⟨m, left, -, -, hcomplete, ⟨⟨e, he⟩, -⟩ | ⟨-, rfl⟩⟩
  · cases he
  · cases he
  · obtain ⟨mid, b, c, hC⟩ := exists_completion h.live h.resolved hcomplete
    exact (hC.resolves_of_target rfl hworked hk hd).target_eq hC.extending hfind hstands

/-- What a load leaves of an older dependency is what it was. -/
theorem target_after_load {text : String} (hk : (l.load fs text).2.module? other = some k) {i : Nat}
    {d : Dependency} (hd : k.dependencies[i]? = some d) (hstands : l.StandsFor fs k.path d.spec path) :
    d.target = some id ∨ ∃ m, l.module? other = some m ∧ m.dependencies[i]? = some d := by
  rcases hload : l.load fs text with ⟨r, l'⟩
  rw [hload] at hk
  by_cases hnew : other.isFrom l.arena.length = true
  · cases r with
    | ok root =>
      exact .inl (target_of_load h hfind hload hnew hk (List.mem_of_getElem? hd) hstands)
    | error e =>
      rcases exists_loading h hload with ⟨rfl, -⟩ |
        ⟨canonical, r, left, mid, b, c, -, hL, ⟨e, -, -, rfl⟩ | ⟨-, he, -⟩⟩
      · exact .inr ⟨k, hk, hd⟩
      · rw [hL.module?_rollback_eq] at hk
        exact .inr ⟨k, hk, hd⟩
      · cases he
  · refine .inr ⟨k, ?_, hd⟩
    rcases exists_loading h hload with ⟨rfl, -⟩ |
      ⟨canonical, r, left, mid, b, c, -, hL, ⟨e, -, -, rfl⟩ | ⟨-, -, rfl⟩⟩
    · exact hk
    · rwa [hL.module?_rollback_eq] at hk
    · rwa [hL.module?_eq hnew] at hk

/-- What a build leaves of an older dependency is what it was, or it is resolved anew. -/
theorem target_after_build (hk : (l.build fs root).2.module? other = some k) {i : Nat}
    {d : Dependency} (hd : k.dependencies[i]? = some d) (hstands : l.StandsFor fs k.path d.spec path) :
    d.target = some id ∨ ∃ m, l.module? other = some m ∧ m.dependencies[i]? = some d := by
  rcases hbuild : l.build fs root with ⟨r, l'⟩
  rw [hbuild] at hk
  by_cases hnew : other.isFrom l.arena.length = true
  · cases r with
    | ok u =>
      exact .inl (target_of_build h hfind hbuild (.inr hnew) hk (List.mem_of_getElem? hd) hstands)
    | error e =>
      rw [module?_new_of_build_failed hbuild hnew] at hk
      cases hk
  · rcases build_cases hbuild with ⟨rfl, -⟩ | ⟨m, left, -, -, hcomplete, hend⟩
    · exact .inr ⟨k, hk, hd⟩
    · obtain ⟨mid, b, c, hC⟩ := exists_completion h.live h.resolved hcomplete
      have hleft {n : Module} (hn : left.module? other = some n) (hpath : k.path = n.path)
          (hdn : n.dependencies[i]? = some d) :
          d.target = some id ∨ ∃ m, l.module? other = some m ∧ m.dependencies[i]? = some d := by
        rcases hC.dependency_cases hnew hn hdn with hsame | hresolves
        · exact .inr hsame
        · exact .inl (hresolves.target_eq hC.extending hfind (hpath ▸ hstands))
      rcases hend with ⟨-, rfl⟩ | ⟨-, rfl⟩
      · rw [module?_revert, if_neg hnew] at hk
        split at hk
        · next hroot =>
          subst hroot
          obtain ⟨n, hn, hnk⟩ := Option.bind_eq_some_iff.mp hk
          refine hleft hn (restored?_path hnk) ?_
          obtain ⟨built, checkpoint, -, rfl⟩ := Module.restored?_eq_some.mp hnk
          have htaken : (n.dependencies.take checkpoint.dependencies)[i]? = some d := hd
          rw [List.getElem?_take] at htaken
          split at htaken
          · exact htaken
          · cases htaken
        · exact hleft hk rfl hd
      · exact hleft hk rfl hd

end

/-- The slot of a registered file holds the one module of that file. -/
theorem Reachable.holdsOnce (h : l.Reachable) (hm : l.module? id = some m)
    (hpath : m.path = .file path) : l.HoldsOnce path id := by
  have hfind : l.index.find? (.file path) = some id :=
    h.indexed.find?_eq_some.mpr ⟨m, hm, by rw [hpath]⟩
  constructor
  case load =>
    intro fs text htext
    simp only [Loader.load, htext, hfind]
  case alone =>
    intro other k hk hidentity
    exact h.indexed.eq_of_identity hk hm (by rw [hidentity, hpath])
  case loaded =>
    intro fs text root l' hload other k hnew hk d hd hstands
    exact target_of_load h.sound hfind hload hnew hk hd hstands
  case built =>
    intro fs root l' hbuild other k hworked hk d hd hstands
    exact target_of_build h.sound hfind hbuild hworked hk hd hstands
  case written =>
    intro o fs hfs other k hk i d hd hstands
    cases o with
    | load fs' text =>
      obtain rfl := Option.some.inj hfs
      exact target_after_load h.sound hfind hk hd hstands
    | build fs' root =>
      obtain rfl := Option.some.inj hfs
      exact target_after_build h.sound hfind hk hd hstands
    | _ => cases hfs

/-- Once the module of a file is registered, it stays as it is and is the one module of the file in
every later state, until the registry is cleared. -/
theorem load_once (h : l.Reachable) (hm : l.module? id = some m) (hfile : m.isHosted = false)
    (hpath : m.path = .file path) {os : List Operation} (hos : ∀ o ∈ os, o ≠ .clear) :
    (l.run os).module? id = some m ∧ (l.run os).HoldsOnce path id := by
  obtain ⟨hrun, hlater⟩ := module?_run_of_file h hos hm hfile
  exact ⟨hlater, hrun.holdsOnce hlater hpath⟩

/-- A file that a load registers as a dependency. Later its contents are no image any more, and a
second file is loaded that depends on it under another spec. -/
theorem load_once_of_dependency :
    let image (spec : String) : Node :=
      .file ((encode .latest .latest { dependencies := [⟨spec, none⟩] }).toOption.getD [])
    let base : Node := .file ((encode .latest .latest {}).toOption.getD [])
    let before : FileSystem := { entries := [(["app"], image "base"), (["base"], base)] }
    let after : FileSystem :=
      { entries := [(["other"], image "./x/../base"), (["base"], .file [])] }
    let l := (ofDirectories []).run [.load before "/app"]
    let l' := l.run [.load after "/other"]
    ((l.load after "/other").1, l'.arena.length) = (.ok (.slot 2), 3) ∧
      ∃ m, l.module? (.slot 1) = some m ∧ m.isHosted = false ∧ m.path = .file "/base" ∧
        l'.module? (.slot 1) = some m ∧ l'.HoldsOnce "/base" (.slot 1) := by
  intro image base before after l l'
  have hloaded : ((l.load after "/other").1, l'.arena.length) = (.ok (.slot 2), 3) := by
    decide +kernel
  have hbase : (l.module? (.slot 1)).map (fun m => (m.isHosted, m.path)) =
      some (false, .file "/base") := by decide +kernel
  obtain ⟨m, hm, hfile⟩ := Option.map_eq_some_iff.mp hbase
  have hreachable : l.Reachable := ⟨[], [.load before "/app"], rfl⟩
  have hkeeps : ∀ o ∈ [Operation.load after "/other"], o ≠ .clear := by simp
  exact ⟨hloaded, m, hm, congrArg Prod.fst hfile, congrArg Prod.snd hfile,
    load_once hreachable hm (congrArg Prod.fst hfile) (congrArg Prod.snd hfile) hkeeps⟩

end Loader
end ModuleLinker
