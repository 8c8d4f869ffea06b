import ModuleLinker.Proofs.Registry.Tables

/-!
# What holds of every registry

Every path of the index is that of a registered module, modules are numbered and their finished
parts laid out, and no structure with a layout has a mapped type left. Every operation keeps this,
so it holds of every registry that can arise.
-/
namespace ModuleLinker

/-- What holds of every registry between two operations. -/
structure Loader.Sound (l : Loader) : Prop where
  live : l.IndexLive
  resolved : l.arena.Resolved
  numbered : ∀ id m, l.module? id = some m → m.Numbered id
  finished : ∀ id m, l.module? id = some m → m.Finished

namespace Loader

variable {fs : FileSystem} {root id : ModuleId} {l l' left mid : Loader}
  {r : Except LoadError Unit} {b c : Arena}

/-- An index is live over every arena in which the same paths are registered. -/
theorem IndexLive.of_path (h : l.IndexLive) (hindex : l'.index = l.index)
    (hpath : ∀ id m, l.module? id = some m → ∃ k, l'.module? id = some k ∧ k.path = m.path) :
    l'.IndexLive := by
  intro e he
  rw [hindex] at he
  obtain ⟨m, hm, hm'⟩ := h e he
  obtain ⟨k, hk, hkm⟩ := hpath _ m hm
  exact ⟨k, hk, by rw [hkm, hm']⟩

/-! ## After resolution -/

/-- A module after resolution was there before, or was read from a file on the way. -/
theorem Extends.module?_cases {worked : ModuleId → Prop} (h : l.Extends fs worked l') {k : Module}
    (hk : l'.module? id = some k) :
    (∃ m, l.module? id = some m ∧ k = { m with dependencies := k.dependencies } ∧
      k.dependencies.map Dependency.spec = m.dependencies.map Dependency.spec) ∨
    ∃ n, id = .slot n ∧ l.arena.length ≤ n ∧ Registered fs l l' n k := by
  obtain ⟨n, rfl, -, -⟩ := Arena.exists_slot hk
  by_cases hn : n < l.arena.length
  · cases hm : l.module? (.slot n) with
    | none =>
      have hnone := h.empty n hn hm
      rw [hk] at hnone
      cases hnone
    | some m =>
      obtain ⟨k', hk', hkm, hspecs, -⟩ := h.kept _ m hm
      obtain rfl : k' = k := Option.some.inj (hk'.symm.trans hk)
      exact .inl ⟨m, rfl, hkm, hspecs⟩
  · exact .inr ⟨n, rfl, Nat.le_of_not_lt hn, h.registered n k (Nat.le_of_not_lt hn) hk⟩

theorem Registered.numbered {n : Nat} {m : Module} (h : Registered fs l l' n m) :
    m.Numbered (.slot n) := by
  obtain ⟨path, bytes, d, -, -, hdecode, -, -, hm, -⟩ := h
  have hnumbered := Module.Numbered.ofDescriptor (unregistered_of_decode hdecode) (.slot n)
    (.file path)
  rw [hm]
  exact ⟨hnumbered.id_eq, hnumbered.structures, hnumbered.functions⟩

theorem Registered.isHosted {n : Nat} {m : Module} (h : Registered fs l l' n m) :
    m.isHosted = false := by
  obtain ⟨path, bytes, d, -, -, -, -, -, hm, -⟩ := h
  rw [hm]
  rfl

/-- A structure that an image names is one of the module that is read from it. -/
theorem Registered.owner_of_struct {n : Nat} {m : Module} (h : Registered fs l l' n m)
    {s : Structure} (hs : s ∈ m.structures) {f : Field} (hf : f ∈ s.fields) {x : StructureId}
    (hx : f.type = .struct x) : x.owner = .slot n := by
  obtain ⟨path, bytes, d, -, -, hdecode, -, -, hm, -⟩ := h
  rw [hm] at hs
  obtain ⟨t, ht, rfl⟩ : ∃ t ∈ d.structures, t.assign (.slot n) = s := by
    simpa [Module.ofDescriptor] using hs
  obtain ⟨g, hg, rfl⟩ : ∃ g ∈ t.fields, g.assign (.slot n) = f := by
    simpa [Structure.assign] using hf
  obtain ⟨i, hi⟩ := List.mem_iff_getElem?.mp ht
  have hpending := ((unregistered_of_decode hdecode).structures i t hi).types g hg
  cases htype : g.type with
  | fundamental t => simp [Field.assign, FieldType.assign, htype] at hx
  | mapped index => simp [Field.assign, FieldType.assign, htype] at hx
  | struct y =>
    simp only [Field.assign, FieldType.assign, htype, hpending y htype, ModuleId.isAssigned,
      Bool.false_eq_true, if_false, FieldType.struct.injEq] at hx
    rw [← hx]
    rfl

theorem Extends.numbered {worked : ModuleId → Prop} (h : l.Extends fs worked l')
    (hl : ∀ id m, l.module? id = some m → m.Numbered id) :
    ∀ id m, l'.module? id = some m → m.Numbered id := by
  intro id k hk
  rcases h.module?_cases hk with ⟨m, hm, hkm, -⟩ | ⟨n, rfl, -, hregistered⟩
  · rw [hkm]
    exact ⟨(hl id m hm).id_eq, (hl id m hm).structures, (hl id m hm).functions⟩
  · exact hregistered.numbered

/-! ## After a call that completes a module -/

namespace Completion

variable (h : Completion fs root l r left mid b c)
include h

theorem extending : l.Extends fs (fun id => id = root ∨ id ∈ newSlots l mid) mid :=
  extends_of_resolveSteps h.steps

theorem evolves : l.arena.Evolves c := h.extending.evolves.trans h.settled.evolves

theorem index_eq : left.index = mid.index := by rw [h.left_eq]

theorem arena_eq : left.arena = c ∨ left.arena = c.markAll (root :: newSlots l mid) := by
  cases r with
  | error e => exact .inl (h.failed e rfl)
  | ok _ => exact .inr (h.built rfl)

theorem length_eq : left.arena.length = mid.arena.length := by
  rcases h.arena_eq with harena | harena
  · rw [harena, h.settled.length_eq]
  · rw [harena, Arena.length_markAll, h.settled.length_eq]

/-- A module that is left is one that layout left, or that one counted as built. -/
theorem module?_cases {k : Module} (hk : left.module? id = some k) :
    ∃ n, c.module? id = some n ∧ (k = n ∨ id ∈ root :: newSlots l mid ∧ k = n.markBuilt) := by
  rcases h.arena_eq with harena | harena
  · exact ⟨k, by rw [← harena]; exact hk, .inl rfl⟩
  · rw [Loader.module?, harena, Arena.module?_markAll] at hk
    split at hk
    · next hid =>
      obtain ⟨n, hn, rfl⟩ := Option.map_eq_some_iff.mp hk
      exact ⟨n, hn, .inr ⟨hid, rfl⟩⟩
    · exact ⟨k, hk, .inl rfl⟩

theorem live (hlive : l.IndexLive) : left.IndexLive := by
  refine (h.extending.indexLive hlive).of_path h.index_eq fun id m hm => ?_
  obtain ⟨k, hk, hmk⟩ := h.settled.evolves id m hm
  rcases h.arena_eq with harena | harena
  · exact ⟨k, by rw [Loader.module?, harena, hk], hmk.path⟩
  · by_cases hid : id ∈ root :: newSlots l mid
    · refine ⟨k.markBuilt, ?_, by rw [Module.markBuilt_path, hmk.path]⟩
      rw [Loader.module?, harena, Arena.module?_markAll, if_pos hid, hk]
      rfl
    · exact ⟨k, by rw [Loader.module?, harena, Arena.module?_markAll, if_neg hid, hk], hmk.path⟩

theorem structure?_eq (x : StructureId) : left.arena.structure? x = c.structure? x := by
  rcases h.arena_eq with harena | harena
  · rw [harena]
  · rw [harena, Arena.structure?_markAll]

theorem resolved (hres : l.arena.Resolved) : left.arena.Resolved := by
  have hmid := hres.of_sameDone h.extending.sameDone
  have hc := (hmid.of_sameDone h.settled.links.sameDone).laysOut h.settled.laysOut
  exact fun id s hs => hc id s (by rwa [h.structure?_eq] at hs)

theorem numbered (hl : ∀ id m, l.module? id = some m → m.Numbered id) :
    ∀ id m, left.module? id = some m → m.Numbered id := by
  intro id k hk
  obtain ⟨n, hn, hkn⟩ := h.module?_cases hk
  obtain ⟨m, hm, hmn⟩ := h.settled.exists_earlier hn
  have hnumbered := (h.extending.numbered hl id m hm).of_evolves hmn
  rcases hkn with rfl | ⟨-, rfl⟩
  · exact hnumbered
  · exact hnumbered.markBuilt

/-- A module that is neither the root nor new was there before the call. -/
theorem exists_earlier {k : Module} (hk : c.module? id = some k)
    (hid : id.isFrom l.arena.length = false) :
    ∃ m, l.module? id = some m ∧ m.Evolves k := by
  obtain ⟨m, hm, hmk⟩ := h.settled.exists_earlier hk
  rcases h.extending.module?_cases hm with ⟨m₀, hm₀, -⟩ | ⟨n, rfl, hn, -⟩
  · obtain ⟨k', hk', hevolves⟩ := h.evolves id m₀ hm₀
    obtain rfl : k' = k := Option.some.inj (hk'.symm.trans hk)
    exact ⟨m₀, hm₀, hevolves⟩
  · simp [ModuleId.isFrom, hn] at hid

theorem mem_targets_iff {k : Module} (hk : c.module? id = some k) :
    id ∈ root :: newSlots l mid ↔ id = root ∨ id.isFrom l.arena.length = true := by
  obtain ⟨n, rfl, hn, -⟩ := Arena.exists_slot hk
  rw [h.settled.length_eq] at hn
  simp only [List.mem_cons, mem_newSlots, ModuleId.slot.injEq, exists_eq_left', hn, and_true,
    ModuleId.isFrom_slot]

theorem finished_earlier (hl : ∀ id m, l.module? id = some m → id ≠ root → m.Finished)
    {k : Module} (hk : c.module? id = some k) (hnew : ¬ id.isFrom l.arena.length = true)
    (hid : id ≠ root) : k.Finished := by
  obtain ⟨m, hm, hmk⟩ := h.exists_earlier hk (Bool.not_eq_true _ ▸ hnew)
  exact (hl id m hm hid).of_evolves hmk

/-- A call that succeeds leaves every module finished, if all but its root were. -/
theorem finished (hr : r = .ok ())
    (hl : ∀ id m, l.module? id = some m → id ≠ root → m.Finished) :
    ∀ id m, left.module? id = some m → m.Finished := by
  intro id k hk
  rw [Loader.module?, h.built hr, Arena.module?_markAll] at hk
  split at hk
  · next hid =>
    obtain ⟨n, hn, rfl⟩ := Option.map_eq_some_iff.mp hk
    refine .markBuilt fun s hs => ?_
    obtain ⟨i, hi⟩ := List.mem_iff_getElem?.mp hs
    exact h.done hr ⟨id, i⟩ s hid (Arena.structure?_eq_some.mpr ⟨n, hn, hi⟩)
  · next hid =>
    rw [h.mem_targets_iff hk, not_or] at hid
    exact h.finished_earlier hl hk hid.2 hid.1

end Completion

/-! ## Every operation keeps it -/

namespace Sound

theorem ofDirectories (directories : List String) : (Loader.ofDirectories directories).Sound := by
  have hnone : ∀ id, (Loader.ofDirectories directories).module? id = none := by
    intro id
    cases id <;> rfl
  refine ⟨nofun, fun x s hs => ?_, fun id m hm => ?_, fun id m hm => ?_⟩
  · obtain ⟨m, hm, -⟩ := Arena.structure?_eq_some.mp hs
    exact absurd ((hnone x.owner).symm.trans hm) nofun
  · exact absurd ((hnone id).symm.trans hm) nofun
  · exact absurd ((hnone id).symm.trans hm) nofun

/-- Registering a module without layouts. -/
theorem sameDone_register {m : Module} (hdone : ∀ s ∈ m.structures, s.layout.isDone = false) :
    Arena.SameDone l.arena (l.register m).arena := by
  intro x s hlaid
  constructor
  · intro hs
    obtain ⟨k, hk, hks⟩ := Arena.structure?_eq_some.mp hs
    exact Arena.structure?_eq_some.mpr ⟨k, module?_register.mpr (.inl hk), hks⟩
  · intro hs
    obtain ⟨k, hk, hks⟩ := Arena.structure?_eq_some.mp hs
    rcases module?_register.mp hk with hk | ⟨-, rfl⟩
    · exact Arena.structure?_eq_some.mpr ⟨k, hk, hks⟩
    · rw [hdone s (List.mem_of_getElem? hks)] at hlaid
      cases hlaid

variable (h : l.Sound)
include h

/-- A module is registered before it is completed. -/
theorem register {m : Module} (hm : m.Numbered l.nextId)
    (hdone : ∀ s ∈ m.structures, s.layout.isDone = false) :
    (l.register m).IndexLive ∧ (l.register m).arena.Resolved ∧
      ∀ id k, (l.register m).module? id = some k → k.Numbered id := by
  refine ⟨fun e he => ?_, h.resolved.of_sameDone (sameDone_register hdone), fun id k hk => ?_⟩
  · rcases List.mem_cons.mp he with rfl | he
    · exact ⟨m, module?_register.mpr (.inr ⟨hm.id_eq, rfl⟩), rfl⟩
    · obtain ⟨k, hk, hpath⟩ := h.live e (List.mem_filter.mp he).1
      exact ⟨k, module?_register.mpr (.inl hk), hpath⟩
  · rcases module?_register.mp hk with hk | ⟨rfl, rfl⟩
    · exact h.numbered id k hk
    · exact hm

theorem create (path : String) : (l.create path).2.Sound := by
  rcases l.create_cases path with hsame | hregister
  · rw [hsame]
    exact h
  · rw [hregister]
    obtain ⟨hlive, hres, hnumbered⟩ :=
      h.register (m := .hosted l.nextId (.virtual path)) (.hosted ..) nofun
    refine ⟨hlive, hres, hnumbered, fun id k hk => ?_⟩
    rcases module?_register.mp hk with hk | ⟨-, rfl⟩
    · exact h.finished id k hk
    · exact .hosted ..

/-- The module of a file is registered before a load completes it. -/
theorem register_ofDescriptor {d : Descriptor} {bytes : List UInt8} (hdecode : decode bytes = .ok d)
    (path : ModulePath) :
    (l.register (.ofDescriptor l.nextId path d)).IndexLive ∧
      (l.register (.ofDescriptor l.nextId path d)).arena.Resolved ∧
      ∀ id k, (l.register (.ofDescriptor l.nextId path d)).module? id = some k → k.Numbered id := by
  have hunregistered := unregistered_of_decode hdecode
  refine h.register (.ofDescriptor hunregistered l.nextId path) fun s hs => ?_
  obtain ⟨t, ht, rfl⟩ : ∃ t ∈ d.structures, t.assign l.nextId = s := by
    simpa [Module.ofDescriptor] using hs
  obtain ⟨i, hi⟩ := List.mem_iff_getElem?.mp ht
  rw [Structure.assign_layout, (hunregistered.structures i t hi).layout]
  rfl

theorem load (fs : FileSystem) (path : String) : (l.load fs path).2.Sound := by
  rcases load_cases (Prod.eta (l.load fs path)).symm with ⟨hsame, -⟩ |
    ⟨canonical, bytes, d, r, left, -, -, -, hdecode, hcomplete, hend⟩
  · rw [hsame]
    exact h
  · obtain ⟨hlive, hres, hnumbered⟩ := h.register_ofDescriptor hdecode (.file canonical)
    obtain ⟨mid, b, c, hC⟩ := exists_completion hlive hres hcomplete
    have hold : ∀ id k, (l.register (.ofDescriptor l.nextId (.file canonical) d)).module? id =
        some k → id ≠ l.nextId → k.Finished := by
      intro id k hk hid
      exact h.finished id k ((module?_register.mp hk).resolve_right fun hnew => hid hnew.1)
    rcases hend with ⟨e, rfl, -, hl'⟩ | ⟨rfl, -, hl'⟩
    · rw [hl']
      refine ⟨(hC.live hlive).discard _, fun x s hs => hC.resolved hres x s
        (structure?_of_rollback hs), fun id k hk => ?_, fun id k hk => ?_⟩
      · rw [module?_rollback] at hk
        split at hk
        · cases hk
        · exact hC.numbered hnumbered id k hk
      · rw [module?_rollback] at hk
        split at hk
        · cases hk
        · next hid =>
          rw [Loader.module?, hC.failed e rfl] at hk
          refine hC.finished_earlier hold hk (fun hfrom => hid (.inl ?_)) fun hroot => hid (.inl ?_)
          · exact ModuleId.isFrom_mono (by simp) hfrom
          · rw [hroot]
            exact ModuleId.isFrom_slot.mpr (Nat.le_refl _)
    · rw [hl']
      exact ⟨hC.live hlive, hC.resolved hres, hC.numbered hnumbered, hC.finished rfl hold⟩

theorem build (fs : FileSystem) (id : ModuleId) : (l.build fs id).2.Sound := by
  rcases build_cases (Prod.eta (l.build fs id)).symm with ⟨hsame, -⟩ |
    ⟨m, left, hm, -, hcomplete, hend⟩
  · rw [hsame]
    exact h
  · obtain ⟨mid, b, c, hC⟩ := exists_completion h.live h.resolved hcomplete
    have hold : ∀ other k, l.module? other = some k → other ≠ id → k.Finished :=
      fun other k hk _ => h.finished other k hk
    rcases hend with ⟨⟨e, he⟩, hl'⟩ | ⟨hr, hl'⟩
    · rw [hl']
      refine ⟨(hC.live h.live).revert, fun x s hs => hC.resolved h.resolved x s
        (structure?_of_revert hs), fun other k hk => ?_, fun other k hk => ?_⟩
      · rw [module?_revert] at hk
        split at hk
        · cases hk
        · split at hk
          · next hother =>
            obtain ⟨n, hn, hnk⟩ := Option.bind_eq_some_iff.mp hk
            exact hother ▸ (hC.numbered h.numbered id n hn).of_restored? hnk
          · exact hC.numbered h.numbered other k hk
      · rw [module?_revert] at hk
        split at hk
        · cases hk
        · next hnew =>
          split at hk
          · next hother =>
            obtain ⟨n, hn, hnk⟩ := Option.bind_eq_some_iff.mp hk
            rw [Loader.module?, hC.failed e he] at hn
            obtain ⟨m₀, hm₀, hevolves⟩ := hC.evolves id m hm
            obtain rfl : m₀ = n := Option.some.inj (hm₀.symm.trans hn)
            exact ((h.finished id m hm).of_evolves hevolves).of_restored? hnk
          · next hother =>
            rw [Loader.module?, hC.failed e he] at hk
            exact hC.finished_earlier hold hk hnew hother
    · rw [hl']
      exact ⟨hC.live h.live, hC.resolved h.resolved, hC.numbered h.numbered, hC.finished hr hold⟩

theorem authored (hl' : l.Authored l') : l'.Sound := by
  have hres := h.resolved.of_sameDone hl'.sameDone
  cases hl' with
  | refused => exact h
  | @grown id m k there hosted grows =>
    have hmodule : ∀ other x, (l.update id fun _ => k).module? other = some x →
        other = id ∧ x = k ∨ l.module? other = some x := by
      intro other x hx
      rw [module?_loader_update] at hx
      split at hx
      · next hother =>
        rw [there] at hx
        exact .inl ⟨hother, (Option.some.inj hx).symm⟩
      · exact .inr hx
    refine ⟨h.live.of_path rfl fun other x hx => ?_, hres, fun other x hx => ?_, fun other x hx => ?_⟩
    · by_cases hother : other = id
      · subst hother
        obtain rfl : m = x := Option.some.inj (there.symm.trans hx)
        exact ⟨k, by rw [module?_loader_update, if_pos rfl, there]; rfl, grows.path⟩
      · exact ⟨x, by rw [module?_loader_update, if_neg hother, hx], rfl⟩
    · rcases hmodule other x hx with ⟨rfl, rfl⟩ | hx
      · exact (h.numbered other m there).grows grows
      · exact h.numbered other x hx
    · rcases hmodule other x hx with ⟨rfl, rfl⟩ | hx
      · exact (h.finished other m there).grows hosted grows
      · exact h.finished other x hx

theorem apply (o : Operation) : (l.apply o).Sound := by
  cases o with
  | load fs path => exact h.load fs path
  | create path => exact h.create path
  | build fs id => exact h.build fs id
  | clear => exact ⟨nofun, (Sound.ofDirectories l.libraryDirectories).resolved,
      (Sound.ofDirectories l.libraryDirectories).numbered,
      (Sound.ofDirectories l.libraryDirectories).finished⟩
  | addLibraryDirectory fs path => exact ⟨h.live, h.resolved, h.numbered, h.finished⟩
  | _ => exact h.authored (l.authored_apply rfl)

end Sound

/-- Every registry that can arise is sound. -/
theorem Reachable.sound (h : l.Reachable) : l.Sound :=
  h.induction .ofDirectories fun _ o _ hl => hl.apply o

end Loader
end ModuleLinker
