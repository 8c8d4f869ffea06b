import ModuleLinker.Proofs.Image.Decoded
import ModuleLinker.Proofs.Layout.Closed
import ModuleLinker.Proofs.Path.Canonical
import ModuleLinker.Proofs.Registry.Evolution
import ModuleLinker.Registry.Resolution

/-!
# What resolution does

Resolution goes in steps of two kinds: it registers the module of a file that is not registered
yet, or it records for a dependency of a module of the call the module that its spec means. Every
other fact about resolution is read off the steps: what was registered before stays registered,
modules of earlier calls stay as they are, and a recorded dependency goes on to mean what it was
resolved to.
-/
namespace ModuleLinker.Loader

variable {fs : FileSystem} {root : ModuleId} {worked wider : ModuleId → Prop} {l l' l'' : Loader}

/-- Every path of the index is that of a registered module. -/
def IndexLive (l : Loader) : Prop :=
  ∀ e ∈ l.index, ∃ m, l.module? e.2 = some m ∧ m.path.identity = e.1.identity

/-- The module that a spec means for a requester: the one that is registered under the path that
the spec stands for, if it may be depended on. -/
def Means (fs : FileSystem) (root : ModuleId) (l : Loader) (requester : ModulePath) (spec : String)
    (target : ModuleId) : Prop :=
  ∃ path t, resolveSpec fs l.libraryDirectories requester spec = .ok path ∧
    l.index.find? path = some target ∧ l.module? target = some t ∧
    (t.needsBuild = true → target = root)

/-- A dependency of a module is resolved to the module that its spec means. -/
def Met (fs : FileSystem) (root : ModuleId) (l : Loader) (id : ModuleId) (position : Nat) : Prop :=
  ∃ m d target, l.module? id = some m ∧ m.dependencies[position]? = some d ∧
    d.target = some target ∧ l.Means fs root m.path d.spec target

/-- One step of resolution; `worked` are the modules whose dependencies are resolved. -/
inductive ResolveStep (fs : FileSystem) (root : ModuleId) (worked : ModuleId → Prop) :
    Loader → Loader → Prop where
  | register (l : Loader) {path : String} {bytes : List UInt8} {d : Descriptor}
      (canonical : fs.canonicalize path = .ok path) (contents : fs.read path = .ok bytes)
      (decoded : decode bytes = .ok d) (fresh : l.index.find? (.file path) = none) :
      ResolveStep fs root worked l (l.register (.ofDescriptor l.nextId (.file path) d))
  | target (l : Loader) {id : ModuleId} {m : Module} {position : Nat} {d : Dependency}
      {target : ModuleId} (working : worked id) (there : l.module? id = some m)
      (declared : m.dependencies[position]? = some d)
      (means : l.Means fs root m.path d.spec target) :
      ResolveStep fs root worked l (l.update id fun m => m.resolveDependency position target)

/-- Steps of resolution one after the other. -/
abbrev ResolveSteps (fs : FileSystem) (root : ModuleId) (worked : ModuleId → Prop) :
    Loader → Loader → Prop :=
  Relation.ReflTransGen (ResolveStep fs root worked)

/-- The module in a slot was read from a file that had not been registered. -/
def Registered (fs : FileSystem) (l l' : Loader) (n : Nat) (m : Module) : Prop :=
  ∃ path bytes d, fs.canonicalize path = .ok path ∧ fs.read path = .ok bytes ∧
    decode bytes = .ok d ∧ l.index.find? (.file path) = none ∧
    l'.index.find? (.file path) = some (.slot n) ∧
    m = { Module.ofDescriptor (.slot n) (.file path) d with dependencies := m.dependencies } ∧
    m.dependencies.map Dependency.spec = d.dependencies.map Dependency.spec

/-- What resolution makes of a registry: some modules may have dependencies resolved, the others
stay, and the new slots hold modules read from files, under their paths. -/
structure Extends (fs : FileSystem) (worked : ModuleId → Prop) (l l' : Loader) : Prop where
  directories : l'.libraryDirectories = l.libraryDirectories
  length_le : l.arena.length ≤ l'.arena.length
  kept : ∀ id m, l.module? id = some m → ∃ k, l'.module? id = some k ∧
    k = { m with dependencies := k.dependencies } ∧
    k.dependencies.map Dependency.spec = m.dependencies.map Dependency.spec ∧
    (¬ worked id → k = m)
  empty : ∀ n, n < l.arena.length → l.module? (.slot n) = none → l'.module? (.slot n) = none
  registered : ∀ n m, l.arena.length ≤ n → l'.module? (.slot n) = some m →
    Registered fs l l' n m
  live : ∀ n, l.arena.length ≤ n → n < l'.arena.length → ∃ m, l'.module? (.slot n) = some m
  index : ∃ new, l'.index = new ++ l.index ∧ ∀ e ∈ new, ∃ n m, l.arena.length ≤ n ∧
    e.2 = .slot n ∧ l'.module? (.slot n) = some m ∧ e.1 = m.path

namespace Extends

@[refl] theorem refl (l : Loader) : l.Extends fs worked l where
  directories := rfl
  length_le := Nat.le_refl _
  kept := fun _ m hm => ⟨m, hm, rfl, rfl, fun _ => rfl⟩
  empty := fun _ _ h => h
  registered := by
    intro n m hn hm
    rw [Loader.module?, Arena.module?_eq_none_of_length_le hn] at hm
    cases hm
  live := fun _ h h' => absurd h' (Nat.not_lt.mpr h)
  index := ⟨[], rfl, fun _ he => nomatch he⟩

/-- What was registered stays so: no new path has the identity of an old one. -/
theorem find?_eq_some (h : l.Extends fs worked l') {path : ModulePath} {id : ModuleId}
    (hp : l.index.find? path = some id) : l'.index.find? path = some id := by
  obtain ⟨new, hindex, hnew⟩ := h.index
  have hnone : PathIndex.find? new path = none := by
    refine PathIndex.find?_eq_none_iff.mpr fun e he hidentity => ?_
    obtain ⟨n, m, hn, -, hm, hpath⟩ := hnew e he
    obtain ⟨text, bytes, d, -, -, -, hfresh, -, hmodule, -⟩ := h.registered n m hn hm
    have hfile : e.1 = .file text := by rw [hpath, hmodule]; rfl
    rw [hfile] at hidentity
    rw [PathIndex.find?_congr hidentity, hp] at hfresh
    cases hfresh
  rw [hindex, PathIndex.find?_append, hnone, hp]
  rfl

/-- What is found under a path and was not there before is in a new slot. -/
theorem exists_slot_of_find? (h : l.Extends fs worked l') {path : ModulePath} {id : ModuleId}
    (hp : l.index.find? path = none) (hp' : l'.index.find? path = some id) :
    ∃ n m, l.arena.length ≤ n ∧ id = .slot n ∧ l'.module? (.slot n) = some m ∧
      m.path.identity = path.identity := by
  obtain ⟨new, hindex, hnew⟩ := h.index
  rw [hindex, PathIndex.find?_append, hp, Option.or_none] at hp'
  obtain ⟨e, he, hidentity, rfl⟩ := PathIndex.exists_mem_of_find? hp'
  obtain ⟨n, m, hn, hslot, hm, hpath⟩ := hnew e he
  exact ⟨n, m, hn, hslot, hm, by rw [← hpath, hidentity]⟩

theorem trans (h : l.Extends fs worked l') (k : l'.Extends fs worked l'') :
    l.Extends fs worked l'' where
  directories := k.directories.trans h.directories
  length_le := h.length_le.trans k.length_le
  kept := by
    intro id m hm
    obtain ⟨n, hn, hnm, hspecs, hsame⟩ := h.kept id m hm
    obtain ⟨o, ho, hon, hspecs', hsame'⟩ := k.kept id n hn
    refine ⟨o, ho, by rw [hon, hnm], hspecs'.trans hspecs, fun hout => ?_⟩
    rw [hsame' hout, hsame hout]
  empty := fun n hn hm => k.empty n (Nat.lt_of_lt_of_le hn h.length_le) (h.empty n hn hm)
  registered := by
    intro n m hn hm
    by_cases hlt : n < l'.arena.length
    · obtain ⟨m', hm'⟩ := h.live n hn hlt
      obtain ⟨path, bytes, d, hcanonical, hread, hdecode, hfresh, hfound, hmodule, hspecs⟩ :=
        h.registered n m' hn hm'
      obtain ⟨o, ho, hom, hspecs', -⟩ := k.kept _ m' hm'
      obtain rfl : o = m := Option.some.inj (ho.symm.trans hm)
      exact ⟨path, bytes, d, hcanonical, hread, hdecode, hfresh, k.find?_eq_some hfound,
        by rw [hom, hmodule], hspecs'.trans hspecs⟩
    · obtain ⟨path, bytes, d, hcanonical, hread, hdecode, hfresh, hfound, hmodule, hspecs⟩ :=
        k.registered n m (Nat.le_of_not_lt hlt) hm
      refine ⟨path, bytes, d, hcanonical, hread, hdecode, ?_, hfound, hmodule, hspecs⟩
      cases hp : l.index.find? (.file path) with
      | none => rfl
      | some id =>
        rw [h.find?_eq_some hp] at hfresh
        cases hfresh
  live := by
    intro n hn hlt
    by_cases hlt' : n < l'.arena.length
    · obtain ⟨m, hm⟩ := h.live n hn hlt'
      obtain ⟨o, ho, -⟩ := k.kept _ m hm
      exact ⟨o, ho⟩
    · exact k.live n (Nat.le_of_not_lt hlt') hlt
  index := by
    obtain ⟨new, hindex, hnew⟩ := h.index
    obtain ⟨new', hindex', hnew'⟩ := k.index
    refine ⟨new' ++ new, by rw [hindex', hindex, List.append_assoc], fun e he => ?_⟩
    rcases List.mem_append.mp he with he | he
    · obtain ⟨n, m, hn, hslot, hm, hpath⟩ := hnew' e he
      exact ⟨n, m, h.length_le.trans hn, hslot, hm, hpath⟩
    · obtain ⟨n, m, hn, hslot, hm, hpath⟩ := hnew e he
      obtain ⟨o, ho, hom, -⟩ := k.kept _ m hm
      exact ⟨n, o, hn, hslot, ho, by rw [hom, hpath]⟩

end Extends

theorem module?_register {m : Module} {id : ModuleId} {x : Module} :
    (l.register m).module? id = some x ↔ l.module? id = some x ∨ id = l.nextId ∧ x = m :=
  Arena.module?_append_singleton

theorem module?_loader_update (id other : ModuleId) (change : Module → Module) :
    (l.update id change).module? other =
      if other = id then (l.module? id).map change else l.module? other :=
  Arena.module?_update ..

theorem map_spec_resolveDependency (m : Module) (position : Nat) (target : ModuleId) :
    (m.resolveDependency position target).dependencies.map Dependency.spec =
      m.dependencies.map Dependency.spec := by
  apply List.ext_getElem?
  intro i
  simp only [Module.resolveDependency, List.getElem?_map, List.getElem?_modify]
  cases m.dependencies[i]? <;> by_cases hi : position = i <;> simp [hi]

/-! ## Steps extend the registry -/

theorem extends_register {path : String} {bytes : List UInt8} {d : Descriptor}
    (canonical : fs.canonicalize path = .ok path) (contents : fs.read path = .ok bytes)
    (decoded : decode bytes = .ok d) (fresh : l.index.find? (.file path) = none) :
    l.Extends fs worked (l.register (.ofDescriptor l.nextId (.file path) d)) := by
  have hnew : (l.register (.ofDescriptor l.nextId (.file path) d)).module? l.nextId =
      some (.ofDescriptor l.nextId (.file path) d) := module?_register.mpr (.inr ⟨rfl, rfl⟩)
  refine ⟨rfl, by simp, ?_, ?_, ?_, ?_, ?_⟩
  · intro id m hm
    exact ⟨m, module?_register.mpr (.inl hm), rfl, rfl, fun _ => rfl⟩
  · intro n hn hm
    have hlater := Arena.module?_append_of_lt hn [some (Module.ofDescriptor l.nextId (.file path) d)]
    exact hlater.trans hm
  · intro n m hn hm
    rcases module?_register.mp hm with hm | ⟨hslot, rfl⟩
    · rw [Loader.module?, Arena.module?_eq_none_of_length_le hn] at hm
      cases hm
    · exact ⟨path, bytes, d, canonical, contents, decoded, fresh,
        by rw [hslot]; exact find?_register l (.ofDescriptor l.nextId (.file path) d),
        by rw [hslot], rfl⟩
  · intro n hn hlt
    obtain rfl : n = l.arena.length := by
      rw [length_register] at hlt
      omega
    exact ⟨_, hnew⟩
  · refine ⟨[(.file path, l.nextId)], ?_, fun e he => ?_⟩
    · have hremove := PathIndex.remove_eq_self fresh
      simp only [Loader.register, PathIndex.insert, Module.ofDescriptor, hremove]
      rfl
    · rw [List.mem_singleton.mp he]
      exact ⟨l.arena.length, _, Nat.le_refl _, rfl, hnew, rfl⟩

theorem extends_target {id : ModuleId} {m : Module} (position : Nat) (target : ModuleId)
    (working : worked id) (there : l.module? id = some m) :
    l.Extends fs worked (l.update id fun m => m.resolveDependency position target) := by
  refine ⟨rfl, by simp [update], ?_, ?_, ?_, ?_, ⟨[], rfl, fun _ he => by cases he⟩⟩
  · intro other k hk
    rw [module?_loader_update]
    by_cases ho : other = id
    · subst ho
      obtain rfl : m = k := Option.some.inj (there.symm.trans hk)
      exact ⟨m.resolveDependency position target, by rw [if_pos rfl, there]; rfl, rfl,
        map_spec_resolveDependency .., fun hout => absurd working hout⟩
    · exact ⟨k, by rw [if_neg ho, hk], rfl, rfl, fun _ => rfl⟩
  · intro n hn hm
    rw [module?_loader_update]
    split
    · next ho => rw [← ho, hm]; rfl
    · exact hm
  · intro n k hn hk
    rw [module?_loader_update, if_neg ?_, Loader.module?,
      Arena.module?_eq_none_of_length_le hn] at hk
    · cases hk
    · rintro rfl
      rw [Loader.module?, Arena.module?_eq_none_of_length_le hn] at there
      cases there
  · intro n hn hlt
    simp only [update, Arena.length_update] at hlt
    omega

theorem ResolveStep.extends (h : ResolveStep fs root worked l l') : l.Extends fs worked l' := by
  cases h with
  | register canonical contents decoded fresh =>
    exact extends_register canonical contents decoded fresh
  | target working there => exact extends_target _ _ working there

/-- Resolution extends the registry. -/
theorem extends_of_resolveSteps (h : ResolveSteps fs root worked l l') :
    l.Extends fs worked l' := by
  induction h with
  | refl => rfl
  | tail _ hstep ih => exact ih.trans hstep.extends

namespace Extends

variable (h : l.Extends fs worked l')
include h

theorem evolves : l.arena.Evolves l'.arena := by
  intro id m hm
  obtain ⟨k, hk, hkm, hspecs, -⟩ := h.kept id m hm
  refine ⟨k, hk, by rw [hkm], by rw [hkm], by rw [hkm], hspecs, by rw [hkm], ?_, by rw [hkm]⟩
  rw [hkm]
  exact List.forall₂_same.mpr fun s _ => .refl s

/-- Resolution neither lays a structure out nor brings one in that is laid out. -/
theorem sameDone : Arena.SameDone l.arena l'.arena := by
  intro id s hdone
  constructor
  · exact fun hs => h.evolves.structure?_of_done hs hdone
  · intro hs
    obtain ⟨k, hk, hks⟩ := Arena.structure?_eq_some.mp hs
    obtain ⟨n, howner, hlt, -⟩ := Arena.exists_slot hk
    rw [howner] at hk
    by_cases hn : n < l.arena.length
    · cases hm : l.module? id.owner with
      | none =>
        rw [howner] at hm
        have := h.empty n hn hm
        rw [Loader.module?, hk] at this
        cases this
      | some m =>
        obtain ⟨o, ho, hom, -⟩ := h.kept _ m hm
        rw [howner] at ho
        obtain rfl : o = k := Option.some.inj (ho.symm.trans hk)
        rw [hom] at hks
        exact Arena.structure?_eq_some.mpr ⟨m, hm, hks⟩
    · obtain ⟨path, bytes, d, -, -, hdecode, -, -, hmodule, -⟩ :=
        h.registered n k (Nat.le_of_not_lt hn) hk
      rw [hmodule] at hks
      obtain ⟨t, ht, rfl⟩ : ∃ t, d.structures[id.index]? = some t ∧ t.assign (.slot n) = s := by
        simpa [Module.ofDescriptor] using hks
      rw [Structure.assign_layout,
        ((unregistered_of_decode hdecode).structures _ t ht).layout] at hdone
      cases hdone

theorem indexLive (hlive : l.IndexLive) : l'.IndexLive := by
  obtain ⟨new, hindex, hnew⟩ := h.index
  intro e he
  rw [hindex] at he
  rcases List.mem_append.mp he with he | he
  · obtain ⟨n, m, -, hslot, hm, hpath⟩ := hnew e he
    exact ⟨m, by rw [hslot, hm], by rw [hpath]⟩
  · obtain ⟨m, hm, hpath⟩ := hlive e he
    obtain ⟨k, hk, hkm, -⟩ := h.kept _ m hm
    exact ⟨k, hk, by rw [hkm]; exact hpath⟩

/-- A spec goes on to mean what it means. -/
theorem means {requester : ModulePath} {spec : String} {target : ModuleId}
    (ht : l.Means fs root requester spec target) : l'.Means fs root requester spec target := by
  obtain ⟨path, t, hpath, hfind, hlive, hbuilt⟩ := ht
  obtain ⟨k, hk, hkt, -⟩ := h.kept _ t hlive
  have hneeds : k.needsBuild = t.needsBuild := by rw [hkt]; rfl
  exact ⟨path, k, by rw [h.directories, hpath], h.find?_eq_some hfind, hk, by rwa [hneeds]⟩

end Extends

/-- A dependency that is met stays so: if it is resolved again, then to what its spec means. -/
theorem ResolveStep.met (h : ResolveStep fs root worked l l') {id : ModuleId} {position : Nat}
    (hmet : l.Met fs root id position) : l'.Met fs root id position := by
  obtain ⟨m, d, target, hm, hd, htarget, hmeans⟩ := hmet
  have hlater := h.extends.means hmeans
  cases h with
  | register canonical contents decoded fresh =>
    exact ⟨m, d, target, module?_register.mpr (.inl hm), hd, htarget, hlater⟩
  | @target other k position' d' target' working there declared means =>
    by_cases ho : id = other
    · subst ho
      obtain rfl : k = m := Option.some.inj (there.symm.trans hm)
      have hk : (l.update id fun m => m.resolveDependency position' target').module? id =
          some (k.resolveDependency position' target') := by
        rw [module?_loader_update, if_pos rfl, there]; rfl
      by_cases hposition : position' = position
      · subst hposition
        obtain rfl : d' = d := Option.some.inj (declared.symm.trans hd)
        refine ⟨_, { d' with target := some target' }, target', hk, ?_, rfl, ?_⟩
        · simp [Module.resolveDependency, hd]
        · exact ResolveStep.extends (.target l working there declared means) |>.means means
      · refine ⟨_, d, target, hk, ?_, htarget, hlater⟩
        simp [Module.resolveDependency, hd, hposition]
    · exact ⟨m, d, target, by rw [module?_loader_update, if_neg ho, hm], hd, htarget, hlater⟩

theorem met_of_resolveSteps (h : ResolveSteps fs root worked l l') {id : ModuleId} {position : Nat}
    (hmet : l.Met fs root id position) : l'.Met fs root id position := by
  induction h with
  | refl => exact hmet
  | tail _ hstep ih => exact hstep.met ih

theorem ResolveStep.widen (h : ResolveStep fs root worked l l') (hw : ∀ id, worked id → wider id) :
    ResolveStep fs root wider l l' := by
  cases h with
  | register canonical contents decoded fresh => exact .register l canonical contents decoded fresh
  | target working there declared means =>
    exact .target l (hw _ working) there declared means

theorem resolveSteps_widen (h : ResolveSteps fs root worked l l')
    (hw : ∀ id, worked id → wider id) : ResolveSteps fs root wider l l' :=
  Relation.ReflTransGen.mono (fun _ _ hstep => hstep.widen hw) _ _ h

end ModuleLinker.Loader
