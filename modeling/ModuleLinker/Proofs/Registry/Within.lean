import ModuleLinker.Proofs.Registry.Counterparts

/-!
# Resolution inside a loaded registry

When the files that a registry may come to are loaded in another one already, resolving its
dependencies cannot fail and does not leave those files: what a spec stands for was found there, and
it may be used. Whether it is registered here already does not matter.
-/
namespace ModuleLinker.Loader

variable {fs : FileSystem} {l F N : Loader} {root id : ModuleId} {m : Module} {e : Dependency}

/-- Every path of the first registry is one of the second. -/
def Within (N F : Loader) : Prop :=
  ∀ path id, N.index.find? path = some id → ∃ other, F.index.find? path = some other

/-- The module in the second registry under the path of one in the first. -/
def counterpart (N F : Loader) (id : ModuleId) : ModuleId :=
  match N.module? id with
  | some m => (F.index.find? m.path).getD id
  | none => id

theorem Within.counterparts (h : N.Within F) (hN : N.Indexed) : Matches (N.counterpart F) N F := by
  intro path id hfind
  obtain ⟨m, hm, hpath⟩ := hN.find?_eq_some.mp hfind
  obtain ⟨other, hother⟩ := h path id hfind
  simp only [counterpart, hm, PathIndex.find?_congr hpath, hother, Option.getD_some]

theorem Within.register (h : N.Within F) {path : String} {other : ModuleId} (d : Descriptor)
    (hfind : F.index.find? (.file path) = some other) :
    (N.register (.ofDescriptor N.nextId (.file path) d)).Within F := by
  intro path' id hid
  by_cases hpath : path'.identity = (ModulePath.file path).identity
  · exact ⟨other, PathIndex.find?_congr hpath ▸ hfind⟩
  · refine h path' id ?_
    rwa [Loader.register, Module.ofDescriptor, PathIndex.find?_insert_of_ne _ _ hpath] at hid

theorem Indexed.indexLive (h : N.Indexed) : N.IndexLive := by
  intro e he
  obtain ⟨m, hm, hpath⟩ := h.live e he
  exact ⟨m, hm, congrArg ModulePath.identity hpath⟩

/-- A module from a file may be depended on. -/
theorem HasFile.isUnbuilt {file : String} {d : Descriptor} (h : N.HasFile fs id file d m) :
    N.isUnbuilt root id = false := by
  rw [Loader.isUnbuilt, h.there]
  simp only [Module.needsBuild_of_not_hosted h.readFrom.fromFile, Bool.false_and]

/-! ## One spec -/

section
variable {requester path : ModulePath} {spec : String}

/-- What is registered is the target of a spec. -/
theorem resolveTarget_of_find?
    (hpath : resolveSpec fs N.libraryDirectories requester spec = .ok path)
    (hfind : N.index.find? path = some id) :
    N.resolveTarget fs requester spec = .ok (id, none, N) := by
  simp only [resolveTarget, bind, Except.bind, hpath, hfind]
  rfl

/-- What is not is read and registered. -/
theorem resolveTarget_of_describes {file : String} {d : Descriptor}
    (hpath : resolveSpec fs N.libraryDirectories requester spec = .ok (.file file))
    (hnone : N.index.find? (.file file) = none) (hd : fs.Describes file d) :
    N.resolveTarget fs requester spec = .ok (N.nextId, some N.nextId,
      N.register (.ofDescriptor N.nextId (.file file) d)) := by
  obtain ⟨hself, bytes, hread, hdecode⟩ := hd
  have hregister := (registerFile_eq_ok (l := N) hself).mpr ⟨bytes, d, hread, hdecode, rfl, rfl⟩
  simp only [resolveTarget, bind, Except.bind, hpath, hnone, hregister]
  rfl

end

section
variable (hl : l.Indexed) (hF : l.LoadsTo fs F) (hN : l.WithFiles fs N) (hw : N.Within F)
include hl hF hN hw

/-- What a spec of a new module stands for is in the loaded registry, and it may be used. -/
theorem exists_of_spec (hid : id.isFrom l.arena.length = true) (hm : N.module? id = some m)
    (he : e ∈ m.dependencies) :
    ∃ path target t, resolveSpec fs N.libraryDirectories m.path e.spec = .ok path ∧
      F.index.find? path = some target ∧ F.module? target = some t ∧ t.needsBuild = false := by
  have hfind := hN.indexed.find?_path hm
  obtain ⟨other, hother⟩ := hw _ _ hfind
  obtain ⟨k, hk, -⟩ := hF.withFiles.indexed.find?_eq_some.mp hother
  rcases hN.counterparts hl hF.withFiles hfind hother hm hk with
    ⟨hold, -⟩ | ⟨-, hnew, file, d, hfile, hfile'⟩
  · exact absurd hid hold
  · have hspec : e.spec ∈ d.dependencies.map Dependency.spec := by
      rw [← hfile.readFrom.specs]
      exact List.mem_map_of_mem he
    obtain ⟨e', he', hsame⟩ := List.mem_map.mp hspec
    obtain ⟨_, -, path, target, t, hpath, hfound, ht, hbuilt, -⟩ :=
      exists_of_forall₂_left (hF.loaded _ file d k hnew hfile').dependencies he'
    refine ⟨path, target, t, ?_, hfound, ht, hbuilt⟩
    rw [hN.directories, ← hF.withFiles.directories, hfile.readFrom.path,
      ← hfile'.readFrom.path, ← hsame]
    exact hpath

/-- So the spec is resolved, to what is registered or to the module of a file that can be read. -/
theorem exists_resolveTarget (root : ModuleId) (hid : id.isFrom l.arena.length = true)
    (hm : N.module? id = some m) (he : e ∈ m.dependencies) :
    ∃ target added next, N.resolveTarget fs m.path e.spec = .ok (target, added, next) ∧
      next.isUnbuilt root target = false ∧ next.Within F := by
  obtain ⟨path, other, t, hpath, hother, ht, hbuilt⟩ := exists_of_spec hl hF hN hw hid hm he
  cases hfound : N.index.find? path with
  | some target =>
    refine ⟨target, none, N, resolveTarget_of_find? hpath hfound, ?_, hw⟩
    obtain ⟨u, hu, -⟩ := hN.indexed.find?_eq_some.mp hfound
    rcases hN.counterparts hl hF.withFiles hfound hother hu ht with
      ⟨-, -, rfl⟩ | ⟨-, -, file, d, hfile, -⟩
    · rw [isUnbuilt, hu]
      simp only [hbuilt, Bool.false_and]
    · exact hfile.isUnbuilt
  | none =>
    obtain ⟨file, d, _, rfl, hfile⟩ := hF.withFiles.exists_hasFile hl
      (fun _ hsame => canonicalize_of_resolveSpec (hsame ▸ hpath)) (hN.find?_eq_none hfound) hother
    have hnew : (N.register (.ofDescriptor N.nextId (.file file) d)).HasFile fs N.nextId file d _ :=
      ⟨module?_register.mpr (.inr ⟨rfl, rfl⟩), hfile.described, Module.readFrom_ofDescriptor ..⟩
    exact ⟨N.nextId, some N.nextId, _, resolveTarget_of_describes hpath hfound hfile.described,
      hnew.isUnbuilt, hw.register d hother⟩

end

/-! ## The worklist -/

/-- Resolution gets through the specs of a new module. -/
theorem exists_resolveSpecs (hl : l.Indexed) (hF : l.LoadsTo fs F) (root : ModuleId)
    (hid : id.isFrom l.arena.length = true) {position : Nat} {specs : List String}
    (hN : l.WithFiles fs N) (hw : N.Within F) (hm : N.Declares id m position specs) :
    ∃ added next, N.resolveSpecs fs root id m.path position specs = (.ok added, next) ∧
      next.Within F := by
  induction specs generalizing N m position with
  | nil => exact ⟨[], N, rfl, hw⟩
  | cons spec specs ih =>
    obtain ⟨e, he, rfl⟩ := hm.getElem?
    obtain ⟨target, added, next, htarget, hbuilt, hnext⟩ :=
      exists_resolveTarget hl hF hN hw root hid hm.1 (List.mem_of_getElem? he)
    rcases resolveSpecs_cons fs root hN.indexed.indexLive hm with
      ⟨error, left, -, hrest⟩ | ⟨target', next', hsteps, hdeclares, -, hrest⟩
    · have hnone := hrest []
      simp [resolveSpecs, htarget, hbuilt] at hnone
    · have hsame : next.update id (fun m => m.resolveDependency position target) = next' := by
        have hnone := congrArg Prod.snd (hrest [])
        simpa [resolveSpecs, htarget, hbuilt] using hnone
      obtain ⟨more, last, hmore, hlast⟩ :=
        ih (hN.resolveSteps hsteps fun other ho => ho ▸ hid) (hsame ▸ hnext) hdeclares
      refine ⟨newSlots N next' ++ more, last, ?_, hlast⟩
      have hlater : next'.resolveSpecs fs root id m.path (position + 1) specs = (.ok more, last) :=
        hmore
      rw [hrest, hlater]
      rfl

/-- Resolution gets through all modules that wait, and through those that it registers. -/
theorem exists_resolveWaiting (hl : l.Indexed) (hF : l.LoadsTo fs F) (root : ModuleId) {fuel : Nat}
    {waiting : List ModuleId} (hN : l.WithFiles fs N) (hw : N.Within F)
    (hnew : ∀ id ∈ waiting, id.isFrom l.arena.length = true)
    (hthere : ∀ id ∈ waiting, ∃ m, N.module? id = some m)
    (hfuel : waiting.length + N.unread fs ≤ fuel) :
    ∃ targets next, N.resolveWaiting fs root fuel waiting = (.ok targets, next) ∧
      next.Within F := by
  induction fuel generalizing N waiting with
  | zero =>
    obtain rfl : waiting = [] := List.eq_nil_of_length_eq_zero (by omega)
    exact ⟨[], N, rfl, hw⟩
  | succ fuel ih =>
    cases waiting with
    | nil => exact ⟨[], N, rfl, hw⟩
    | cons id waiting =>
      obtain ⟨m, hm⟩ := hthere id List.mem_cons_self
      have hid := hnew id List.mem_cons_self
      have hdeclares : N.Declares id m 0 (m.dependencies.map Dependency.spec) := ⟨hm, rfl⟩
      obtain ⟨added, mid, hspecs, hmid⟩ := exists_resolveSpecs hl hF root hid hN hw hdeclares
      obtain ⟨hsteps, hadded, -⟩ := resolveSpecs_spec hN.indexed.indexLive hdeclares hspecs
      obtain rfl := hadded added rfl
      have hext := extends_of_resolveSteps hsteps
      have hfiles := hN.resolveSteps hsteps fun other ho => ho ▸ hid
      have hnew' : ∀ other ∈ waiting ++ newSlots N mid, other.isFrom l.arena.length = true := by
        intro other ho
        rcases List.mem_append.mp ho with ho | ho
        · exact hnew other (List.mem_cons_of_mem _ ho)
        · exact ModuleId.isFrom_mono hN.length_le (isFrom_of_mem_newSlots ho)
      obtain ⟨rest, last, hrest, hlast⟩ := ih hfiles hmid hnew'
        (exists_module?_waiting hext fun other ho => hthere other (List.mem_cons_of_mem _ ho))
        (length_waiting_add_unread_le hsteps hfuel)
      exact ⟨id :: rest, last, by simp only [resolveWaiting, hm, hspecs, hrest], hlast⟩

/-- Resolving a new module inside a loaded registry succeeds and stays inside. -/
theorem exists_resolveFrom (hl : l.Indexed) (hF : l.LoadsTo fs F) (hN : l.WithFiles fs N)
    (hw : N.Within F) (hid : id.isFrom l.arena.length = true) (hm : N.module? id = some m) :
    ∃ targets next, N.resolveFrom fs id = (.ok targets, next) ∧ next.Within F := by
  have hfuel : [id].length + N.unread fs ≤ fs.entries.length + 1 := by
    have := unread_le fs N
    rw [List.length_singleton]
    omega
  exact exists_resolveWaiting hl hF id hN hw (by simpa using hid) (by simpa using ⟨m, hm⟩) hfuel

end ModuleLinker.Loader
