import ModuleLinker.Image.Encode
import ModuleLinker.Proofs.Registry.Gathering

/-!
# Resolution registers what a call needs, and nothing twice

The worklist of a load or a build comes to an end, whatever the files depend on. When it goes well,
it has been at the root and then at the modules in the new slots, in order. These are the modules of
exactly the files that were not registered before the call and that specs lead to from the root.
Each of them was decoded once, and every dependency is resolved.
-/
namespace ModuleLinker.Loader

open Relation (ReflTransGen)

variable {fs : FileSystem} {root id : ModuleId} {worked : ModuleId → Prop} {l l₀ l' : Loader}
  {m : Module} {start path : ModulePath} {first decoded : List String} {targets : List ModuleId}
  {file : String}

/-- How a call comes to resolve its root, seen from the registry before the call: a load has just
decoded and registered the file at the path, and a build has its module there. -/
inductive Begins (fs : FileSystem) (l : Loader) (root : ModuleId) :
    ModulePath → List String → Loader → Prop where
  | load {path canonical : String} {l₀ : Loader} (leads : fs.canonicalize path = .ok canonical)
      (fresh : l.index.find? (.file canonical) = none)
      (registered : l.registerFile fs canonical = .ok (root, l₀)) :
      Begins fs l root (.file canonical) [canonical] l₀
  | build {m : Module} (there : l.module? root = some m) (hosted : m.isHosted = true) :
      Begins fs l root m.path [] l

/-- What a call whose resolution went well has done: `l` is the registry before the call, `l₀` the
one in which resolution began and `l'` the one it left. -/
structure Closes (fs : FileSystem) (root : ModuleId) (start : ModulePath) (l l₀ l' : Loader)
    (targets : List ModuleId) (decoded : List String) : Prop where
  listed : targets = root :: newSlots l₀ l'
  nodup : targets.Nodup
  ascending : (newSlots l₀ l').Pairwise fun id other => ∃ i j, id = .slot i ∧ other = .slot j ∧ i < j
  new : ∀ id, id ∈ newSlots l₀ l' ↔ l₀.module? id = none ∧ ∃ m, l'.module? id = some m
  /-- The modules registered in the call are those of the decoded files, in order. -/
  registered : List.Forall₂ (l'.IsFile fs) (newSlots l l') decoded
  once : decoded.Nodup
  closure : ∀ file, file ∈ decoded ↔ l.Needs fs root start file
  resolved : ∀ id ∈ targets, ∃ m, l'.module? id = some m ∧
    ∀ d ∈ m.dependencies, l'.Resolves fs root m.path d

theorem newSlots_nodup (l l' : Loader) : (newSlots l l').Nodup := by
  rw [newSlots]
  exact (List.nodup_range' 1).map fun _ _ => ModuleId.slot.inj

theorem newSlots_ascending (l l' : Loader) :
    (newSlots l l').Pairwise fun id other => ∃ i j, id = .slot i ∧ other = .slot j ∧ i < j := by
  rw [newSlots, List.pairwise_map]
  exact (List.pairwise_lt_range' 1).imp fun hlt => ⟨_, _, rfl, rfl, hlt⟩

/-- The new slots are those with modules that were not there. -/
theorem Extends.mem_newSlots_iff (h : l.Extends fs worked l') :
    id ∈ newSlots l l' ↔ l.module? id = none ∧ ∃ m, l'.module? id = some m := by
  constructor
  · intro hid
    obtain ⟨n, rfl, hn, hlt⟩ := mem_newSlots.mp hid
    exact ⟨Arena.module?_eq_none_of_length_le hn, h.live n hn hlt⟩
  · rintro ⟨hnone, m, hm⟩
    rcases h.module?_cases hm with ⟨k, hk, -⟩ | ⟨n, rfl, hn, -⟩
    · rw [hnone] at hk
      cases hk
    · have hlt : n < l'.arena.length := by simpa using not_isFrom_of_module? hm
      exact mem_newSlots.mpr ⟨n, rfl, hn, hlt⟩

/-- A new slot holds the module of a file. -/
theorem Extends.exists_isFile (h : l.Extends fs worked l') (hid : id.isFrom l.arena.length = true)
    (hm : l'.module? id = some m) : ∃ file, l'.IsFile fs id file ∧ m.path = .file file := by
  obtain ⟨n, rfl, hn⟩ := ModuleId.exists_slot_of_isFrom hid
  obtain ⟨file, d, hfile, -⟩ := (h.registered n m hn hm).exists_hasFile hm
  exact ⟨file, ⟨d, m, hfile⟩, hfile.readFrom.path⟩

/-- What was not found before and is found now was read from the file. -/
theorem Extends.isFile_of_find? (h : l.Extends fs worked l')
    (hself : fs.canonicalize file = .ok file) (hfresh : l.index.find? (.file file) = none)
    (hfind : l'.index.find? (.file file) = some id) :
    id.isFrom l.arena.length = true ∧ l'.IsFile fs id file := by
  obtain ⟨n, m, hn, rfl, hm, hidentity⟩ := h.exists_slot_of_find? hfresh hfind
  have hnew : (ModuleId.slot n).isFrom l.arena.length = true := ModuleId.isFrom_slot.mpr hn
  obtain ⟨other, hfile, hpath⟩ := h.exists_isFile hnew hm
  rw [hpath] at hidentity
  obtain rfl : other = file := FileSystem.eq_of_components_eq hfile.canonical hself
    (ModulePath.Identity.file.inj hidentity)
  exact ⟨hnew, hfile⟩

/-- A file that was not registered before is not that of an older module. -/
theorem Extends.isFrom_of_path (h : l.Extends fs worked l') (hl : l.Indexed)
    (hfresh : l.index.find? (.file file) = none) (hm : l'.module? id = some m)
    (hpath : m.path = .file file) : id.isFrom l.arena.length = true := by
  rcases h.module?_cases hm with ⟨k, hk, hmk, -⟩ | ⟨n, rfl, hn, -⟩
  · have hfind := hl.find?_path hk
    have hsame : k.path = m.path := by rw [hmk]
    rw [hsame, hpath, hfresh] at hfind
    cases hfind
  · exact ModuleId.isFrom_slot.mpr hn

/-! ## Where a call begins -/

namespace Begins

variable (h : Begins fs l root start first l₀)
include h

/-- Either the module of a file that was not registered has just been, or nothing has happened. -/
theorem fresh_or_there :
    (∃ file d, fs.Describes file d ∧ l.index.find? (.file file) = none ∧ root = l.nextId ∧
      start = .file file ∧ first = [file] ∧
      l₀ = l.register (.ofDescriptor l.nextId (.file file) d)) ∨
    ∃ m, l.module? root = some m ∧ start = m.path ∧ first = [] ∧ l₀ = l := by
  cases h with
  | @load path canonical _ leads fresh registered =>
    have hself := FileSystem.canonicalize_of_canonicalize leads
    obtain ⟨bytes, d, hread, hdecode, hroot, hregister⟩ := (registerFile_eq_ok hself).mp registered
    exact .inl ⟨canonical, d, ⟨hself, bytes, hread, hdecode⟩, fresh, hroot, rfl, rfl, hregister⟩
  | build there hosted => exact .inr ⟨_, there, rfl, rfl, rfl⟩

theorem extending : l.Extends fs (fun _ => True) l₀ := by
  rcases h.fresh_or_there with ⟨file, d, ⟨hself, bytes, hread, hdecode⟩, hfresh, -, -, -, rfl⟩ |
    ⟨m, -, -, -, rfl⟩
  · exact extends_register hself hread hdecode hfresh
  · rfl

theorem indexed (hl : l.Indexed) : l₀.Indexed := by
  rcases h.fresh_or_there with ⟨file, d, -, hfresh, -, -, -, rfl⟩ | ⟨m, -, -, -, rfl⟩
  · exact hl.register rfl hfresh trivial
  · exact hl

/-- By the time that resolution begins, a load has gathered its own file, and the root waits under
the path at which the call begins. -/
theorem gathers :
    Gathers fs l root start l l₀ first ∧ ∃ m, l₀.module? root = some m ∧ m.path = start ∧
      ∀ spec ∈ m.dependencies.map Dependency.spec, l.Specifies fs root m.path spec := by
  rcases h.fresh_or_there with ⟨file, d, hdescribed, hfresh, rfl, rfl, rfl, rfl⟩ | ⟨m, hm, rfl, rfl, rfl⟩
  · have hroot : (l.register (.ofDescriptor l.nextId (.file file) d)).module? l.nextId =
        some (.ofDescriptor l.nextId (.file file) d) := module?_register.mpr (.inr ⟨rfl, rfl⟩)
    exact ⟨.register hdescribed ⟨hfresh, .refl⟩, _, hroot, rfl,
      fun spec hspec => .described hfresh hdescribed hspec⟩
  · exact ⟨.nil rfl, m, hm, rfl, fun spec hspec => .registered hm hspec⟩

/-- The root and the modules that resolution registers are the root and all that are new. -/
theorem mem_targets (hid : id = root ∨ id.isFrom l.arena.length = true)
    (hm : l'.module? id = some m) : id ∈ root :: newSlots l₀ l' := by
  rcases hid with rfl | hid
  · exact List.mem_cons_self
  · obtain ⟨n, rfl, hn⟩ := ModuleId.exists_slot_of_isFrom hid
    have hlt : n < l'.arena.length := by simpa using not_isFrom_of_module? hm
    rcases h.fresh_or_there with ⟨file, d, -, -, rfl, -, -, rfl⟩ | ⟨k, -, -, -, rfl⟩
    · by_cases hfirst : n = l.arena.length
      · rw [hfirst]
        exact List.mem_cons_self
      · refine List.mem_cons_of_mem _ (mem_newSlots.mpr ⟨n, rfl, ?_, hlt⟩)
        rw [length_register]
        omega
    · exact List.mem_cons_of_mem _ (mem_newSlots.mpr ⟨n, rfl, hn, hlt⟩)

end Begins

/-! ## All that is needed is there -/

section
variable (hl : l.Indexed) (h : Begins fs l root start first l₀)
  (hext : l.Extends fs (fun _ => True) l') (hmet : ∀ id ∈ root :: newSlots l₀ l', l'.AllMet fs root id)
include hl h hext hmet

/-- What is declared at the path of the root or of a new module stands for something that is
registered by now. -/
theorem isFile_of_requires {other : ModulePath} (hrequires : l.Requires fs root path other)
    (hthere : ∃ id m, (id = root ∨ id.isFrom l.arena.length = true) ∧ l'.module? id = some m ∧
      m.path = path) :
    ∃ id file, id.isFrom l.arena.length = true ∧ l'.IsFile fs id file ∧ other = .file file := by
  obtain ⟨spec, file, hspecifies, hresolve, hfresh, rfl⟩ := hrequires
  obtain ⟨id, k, hid, hk, hpath, d, hd, rfl⟩ : ∃ id k,
      (id = root ∨ id.isFrom l.arena.length = true) ∧ l'.module? id = some k ∧ k.path = path ∧
        ∃ d ∈ k.dependencies, d.spec = spec := by
    cases hspecifies with
    | registered there declared =>
      obtain ⟨k, hk, hkm, hspecs, -⟩ := hext.kept root _ there
      refine ⟨root, k, .inl rfl, hk, by rw [hkm], ?_⟩
      rw [← hspecs] at declared
      exact List.mem_map.mp declared
    | @described file d _ fresh described declared =>
      obtain ⟨id, m, hid, hm, hpath⟩ := hthere
      obtain ⟨file', ⟨d', m', hfile⟩, hpath'⟩ :=
        hext.exists_isFile (hext.isFrom_of_path hl fresh hm hpath) hm
      obtain rfl : file' = file := ModulePath.file.inj (hpath'.symm.trans hpath)
      obtain rfl : m' = m := Option.some.inj (hfile.there.symm.trans hm)
      obtain rfl := described.unique hfile.described
      refine ⟨id, m', hid, hm, hpath, ?_⟩
      rw [← hfile.readFrom.specs] at declared
      exact List.mem_map.mp declared
  obtain ⟨target, -, found, t, hfound, hindex, -⟩ :=
    (hmet id (h.mem_targets hid hk)).exists_means hk hd
  rw [hext.directories, hpath, hresolve] at hfound
  obtain rfl := Except.ok.inj hfound
  obtain ⟨hnew, hfile⟩ :=
    hext.isFile_of_find? (canonicalize_of_resolveSpec hresolve) hfresh hindex
  exact ⟨target, file, hnew, hfile, rfl⟩

theorem isFile_of_needs (hroot : ∃ m, l'.module? root = some m ∧ m.path = start)
    (hneeds : l.Needs fs root start file) :
    ∃ id, id.isFrom l.arena.length = true ∧ l'.IsFile fs id file := by
  obtain ⟨hfresh, hreached⟩ := hneeds
  have hall : ∀ path, ReflTransGen (l.Requires fs root) start path → ∃ id m,
      (id = root ∨ id.isFrom l.arena.length = true) ∧ l'.module? id = some m ∧ m.path = path := by
    intro path hpath
    induction hpath with
    | refl =>
      obtain ⟨m, hm, hstart⟩ := hroot
      exact ⟨root, m, .inl rfl, hm, hstart⟩
    | tail _ hrequires ih =>
      obtain ⟨id, file, hid, hfile, rfl⟩ := isFile_of_requires hl h hext hmet hrequires ih
      obtain ⟨m, hm⟩ := hfile.exists_module
      exact ⟨id, m, .inr hid, hm⟩
  obtain ⟨id, m, -, hm, hpath⟩ := hall _ hreached
  have hnew := hext.isFrom_of_path hl hfresh hm hpath
  obtain ⟨other, hfile, hpath'⟩ := hext.exists_isFile hnew hm
  obtain rfl : other = file := ModulePath.file.inj (hpath'.symm.trans hpath)
  exact ⟨id, hnew, hfile⟩

end

/-! ## The whole of it -/

/-- A module was read from one file, and in a registry no file is that of two modules. -/
theorem biUnique_isFile (h : l.Indexed) : Relator.BiUnique (l.IsFile fs) := by
  constructor
  · intro id other file hfile hfile'
    obtain ⟨m, hm, hpath⟩ := hfile.exists_module
    obtain ⟨k, hk, hpath'⟩ := hfile'.exists_module
    exact h.eq_of_identity hm hk (by rw [hpath, hpath'])
  · intro id file other hfile hfile'
    obtain ⟨m, hm, hpath⟩ := hfile.exists_module
    obtain ⟨k, hk, hpath'⟩ := hfile'.exists_module
    obtain rfl : m = k := Option.some.inj (hm.symm.trans hk)
    exact ModulePath.file.inj (hpath.symm.trans hpath')

/-- Resolution that goes well leaves what the call needs. -/
theorem closes_of_resolveFrom (hl : l.Reachable) (hbegins : Begins fs l root start first l₀)
    (hresolve : l₀.resolveFrom fs root = (.ok targets, l'))
    (hworks : Works fs root l₀ [root] decoded (.ok targets) l') :
    Closes fs root start l l₀ l' targets (first ++ decoded) := by
  have hbegin := hbegins.extending
  have hlive : l₀.IndexLive := hbegin.indexLive hl.sound.live
  obtain ⟨hfirst, k, hk, hstart, hspecs⟩ := hbegins.gathers
  have hwaiting : ∀ id ∈ [root], Awaits fs l root start l₀ id := by
    simpa using ⟨k, hk, hstart ▸ .refl, hspecs⟩
  obtain ⟨hlater, hext⟩ := hworks.gathers rfl hlive hbegin hwaiting
  obtain ⟨hsteps, hlisted⟩ := resolveFrom_spec hlive hresolve
  obtain ⟨rfl, hmet⟩ := hlisted targets rfl
  have hgathers := hfirst.append hlater hbegin.length_le hext
  have hall := hbegin.trans hext
  have hunique : Relator.BiUnique (l'.IsFile fs) :=
    biUnique_isFile ((hbegins.indexed hl.indexed).resolveSteps hsteps)
  obtain ⟨k', hk', hkk, -⟩ := hext.kept root k hk
  constructor
  case listed => rfl
  case nodup =>
    have hroot : root ∉ newSlots l₀ l' := fun hmem =>
      not_isFrom_of_module? hk (isFrom_of_mem_newSlots hmem)
    exact List.nodup_cons.mpr ⟨hroot, newSlots_nodup l₀ l'⟩
  case ascending => exact newSlots_ascending l₀ l'
  case new => exact fun id => hext.mem_newSlots_iff
  case registered => exact hgathers.slots
  case once => exact (List.rel_nodup hunique hgathers.slots).mp (newSlots_nodup l l')
  case closure =>
    intro file
    refine ⟨hgathers.needed file, fun hneeds => ?_⟩
    obtain ⟨id, hid, hfile⟩ := isFile_of_needs hl.indexed hbegins hall hmet
      ⟨k', hk', by rw [hkk, hstart]⟩ hneeds
    obtain ⟨m, hm, -⟩ := hfile.exists_module
    have hnew := hall.mem_newSlots_iff.mpr ⟨module?_none_of_isFrom hid, m, hm⟩
    obtain ⟨other, hother, hsame⟩ := exists_of_forall₂_left hgathers.slots hnew
    rwa [hunique.2 hfile hsame]
  case resolved =>
    intro id hid
    obtain ⟨m, hm⟩ : ∃ m, l'.module? id = some m := by
      rcases List.mem_cons.mp hid with rfl | hid
      · exact ⟨k', hk'⟩
      · exact (hext.mem_newSlots_iff.mp hid).2
    exact ⟨m, hm, fun d hd => (hmet id hid).exists_means hm hd⟩

/-- In every registry, with every file system and whatever the files in it depend on, the resolution
of a load or a build comes to an end. If it succeeds, it has registered exactly what the call
needs, each file decoded once, and resolved every dependency. -/
theorem resolution_closes (h : l.Reachable) (hbegins : Begins fs l root start first l₀)
    {r : Except LoadError (List ModuleId)} (hresolve : l₀.resolveFrom fs root = (r, l')) :
    ∃ decoded, Works fs root l₀ [root] decoded r l' ∧
      ∀ targets, r = .ok targets → Closes fs root start l l₀ l' targets (first ++ decoded) := by
  have hlive : l₀.IndexLive := hbegins.extending.indexLive h.sound.live
  obtain ⟨-, k, hk, -⟩ := hbegins.gathers
  have hfuel : [root].length + l₀.unread fs ≤ fs.entries.length + 1 := by
    have hle := unread_le fs l₀
    rw [List.length_singleton]
    omega
  obtain ⟨decoded, hworks⟩ : ∃ decoded, Works fs root l₀ [root] decoded
      (l₀.resolveFrom fs root).1 (l₀.resolveFrom fs root).2 :=
    exists_works hlive (by simpa using ⟨k, hk⟩) hfuel
  rw [hresolve] at hworks
  refine ⟨decoded, hworks, fun targets htargets => ?_⟩
  subst htargets
  exact closes_of_resolveFrom h hbegins hresolve hworks

/-- Two files that depend on each other and on themselves, the first of which is loaded: each is
registered once. -/
theorem resolution_closes_of_cycle :
    let image (specs : List String) : Node :=
      .file ((encode .latest .latest { dependencies := specs.map (⟨·, none⟩) }).toOption.getD [])
    let fs : FileSystem :=
      { entries := [(["a"], image ["b", "./a"]), (["b"], image ["a", "x/../b"])] }
    let l := ofDirectories []
    ∃ l₀ l' decoded, l.registerFile fs "/a" = .ok (.slot 0, l₀) ∧
      l₀.resolveFrom fs (.slot 0) = (.ok [.slot 0, .slot 1], l') ∧
      Closes fs (.slot 0) (.file "/a") l l₀ l' [.slot 0, .slot 1] ("/a" :: decoded) := by
  intro image fs l
  have hrun : (l.registerFile fs "/a").toOption.map
      (fun found => (found.1, (found.2.resolveFrom fs (.slot 0)).1)) =
        some (.slot 0, .ok [.slot 0, .slot 1]) := by decide +kernel
  obtain ⟨⟨root, l₀⟩, hfound, hresult⟩ := Option.map_eq_some_iff.mp hrun
  obtain ⟨rfl, htargets⟩ := Prod.mk.inj hresult
  have hregistered : l.registerFile fs "/a" = .ok (.slot 0, l₀) := by
    cases hcase : l.registerFile fs "/a" with
    | error e => rw [hcase] at hfound; cases hfound
    | ok found => rw [hcase] at hfound; cases hfound; rfl
  have hleads : fs.canonicalize "/a" = .ok "/a" := by decide +kernel
  have hbegins : Begins fs l (.slot 0) (.file "/a") ["/a"] l₀ := .load hleads rfl hregistered
  have hresolve : l₀.resolveFrom fs (.slot 0) =
      (.ok [.slot 0, .slot 1], (l₀.resolveFrom fs (.slot 0)).2) := Prod.ext htargets rfl
  obtain ⟨decoded, -, hcloses⟩ := resolution_closes (reachable_ofDirectories []) hbegins hresolve
  exact ⟨l₀, _, decoded, hregistered, hresolve, hcloses _ rfl⟩

end ModuleLinker.Loader
