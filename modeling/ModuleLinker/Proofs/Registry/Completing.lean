import ModuleLinker.Proofs.Registry.GivingUp
import ModuleLinker.Proofs.Registry.Linking
import ModuleLinker.Proofs.Registry.Worklist

/-!
# What completing a module does

The phases one after the other: resolution, linking, layout, and the marks of the host's modules.
Whatever the outcome, the registry that is left comes from these phases, a phase that was not
reached having done nothing. What a call leaves of each module is read off here once.
-/
namespace ModuleLinker

theorem Module.markBuilt_markBuilt (m : Module) : m.markBuilt.markBuilt = m.markBuilt := by
  cases h : m.origin <;> simp [markBuilt, h]

theorem Module.markBuilt_of_not_hosted {m : Module} (h : m.isHosted = false) : m.markBuilt = m := by
  cases ho : m.origin with
  | file => simp [markBuilt, ho]
  | host => simp [isHosted, ho] at h

theorem Module.needsBuild_of_not_hosted {m : Module} (h : m.isHosted = false) :
    m.needsBuild = false := by
  cases ho : m.origin with
  | file => simp [needsBuild, ho]
  | host => simp [isHosted, ho] at h

namespace Arena

variable {a b c : Arena} {targets : List ModuleId}

/-- Linking modules and laying their structures out. -/
structure Settled (targets : List ModuleId) (a b c : Arena) : Prop where
  links : a.Links b
  unlinked : ∀ id, id ∉ targets → b.module? id = a.module? id
  laysOut : LaysOut (fun x => ∃ id, id.owner ∈ targets ∧ b.Reaches id x) b c
  closed : b.LayoutsClosed → c.LayoutsClosed

namespace Settled

variable (h : Settled targets a b c)
include h

theorem evolves : a.Evolves c := h.links.evolves.trans h.laysOut.evolves

theorem module?_none {id : ModuleId} (hid : a.module? id = none) : c.module? id = none :=
  module?_eq_none_of_outline_eq h.laysOut.outline (h.links.module?_none id hid)

theorem exists_earlier {id : ModuleId} {k : Module} (hk : c.module? id = some k) :
    ∃ m, a.module? id = some m ∧ m.Evolves k :=
  h.evolves.exists_earlier (fun _ => h.module?_none) hk

theorem map_path (id : ModuleId) :
    (c.module? id).map Module.path = (a.module? id).map Module.path := by
  cases hm : a.module? id with
  | none => rw [h.module?_none hm]
  | some m =>
    obtain ⟨k, hk, hmk⟩ := h.evolves id m hm
    rw [hk, Option.map_some, Option.map_some, hmk.path]

theorem length_eq : c.length = a.length := by
  have houtline := congrArg List.length h.laysOut.outline
  rw [length_outline, length_outline] at houtline
  exact houtline.trans h.links.length_eq

/-- What layout changes of a module is its structures. -/
theorem eq_of_linked {id : ModuleId} {k n : Module} (hk : b.module? id = some k)
    (hn : c.module? id = some n) : n = { k with structures := n.structures } := by
  obtain ⟨n', hn', hkn⟩ := exists_module?_of_outline_eq h.laysOut.outline hk
  obtain rfl : n' = n := Option.some.inj (hn'.symm.trans hn)
  exact (Module.eq_of_outline_eq hkn).1

theorem dependencies {id : ModuleId} {m n : Module} (hm : a.module? id = some m)
    (hn : c.module? id = some n) : n.dependencies = m.dependencies := by
  obtain ⟨k, hk, -⟩ := h.links.evolves id m hm
  rw [h.eq_of_linked hk hn]
  exact h.links.dependencies id m k hm hk

/-- A module that was linked is seen to be so after layout. -/
theorem linkedFrom {id : ModuleId} {m k n : Module} (hk : b.module? id = some k)
    (hn : c.module? id = some n) (hlinked : m.LinkedFrom b k) : m.LinkedFrom c n := by
  obtain ⟨n', hn', hkn⟩ := h.laysOut.evolves id k hk
  obtain rfl : n' = n := Option.some.inj (hn'.symm.trans hn)
  have hmodule := h.eq_of_linked hk hn
  have hdependencies : n'.dependencies = k.dependencies := by rw [hmodule]
  refine hlinked.evolves h.laysOut.evolves hkn hdependencies ?_
  have hlinks := hlinked.functionLinks
  rw [hmodule]
  exact hlinks.imp fun x link => Module.mappedFunction_evolves h.laysOut.evolves rfl

/-- Of a module that is not linked only structures without a layout change. -/
theorem eq_of_not_target {id : ModuleId} {m n : Module} (hid : id ∉ targets)
    (hm : a.module? id = some m) (hn : c.module? id = some n) :
    n = { m with structures := n.structures } := by
  refine h.eq_of_linked ?_ hn
  rw [h.unlinked id hid, hm]

end Settled

/-- No structure with a layout has a mapped type after a pass, if none had before. -/
theorem Resolved.laysOut {touched : StructureId → Prop} (hres : b.Resolved)
    (h : LaysOut touched b c) : c.Resolved := by
  intro id t ht hdone f hf
  obtain ⟨s, hs, -⟩ := exists_structure?_of_outline_eq h.outline.symm ht
  rcases h.settles id s t hs ht with rfl | ⟨-, -, l, -, hplaced⟩
  · exact hres id t hs hdone f hf
  · obtain ⟨element, helement⟩ := hplaced.exists_layout hf
    cases htype : f.type with
    | fundamental t => rfl
    | struct id => rfl
    | mapped index => simp [layoutOf?, htype] at helement

/-! ## Marking modules as built -/

/-- Count some modules as built. -/
def markAll (a : Arena) (targets : List ModuleId) : Arena :=
  targets.foldl (fun a id => a.update id Module.markBuilt) a

theorem length_markAll (a : Arena) (targets : List ModuleId) :
    (a.markAll targets).length = a.length := by
  induction targets generalizing a with
  | nil => rfl
  | cons target targets ih => exact (ih _).trans (length_update ..)

theorem module?_markAll (a : Arena) (targets : List ModuleId) (id : ModuleId) :
    (a.markAll targets).module? id =
      if id ∈ targets then (a.module? id).map Module.markBuilt else a.module? id := by
  induction targets generalizing a with
  | nil => simp [markAll]
  | cons target targets ih =>
    have hstep : a.markAll (target :: targets) =
        (a.update target Module.markBuilt).markAll targets := rfl
    rw [hstep, ih, module?_update]
    by_cases hid : id = target
    · subst hid
      cases a.module? id <;> simp [Module.markBuilt_markBuilt]
    · simp [hid]

theorem structure?_markAll (a : Arena) (targets : List ModuleId) (id : StructureId) :
    (a.markAll targets).structure? id = a.structure? id := by
  simp only [structure?, module?_markAll]
  split
  · cases h : a.module? id.owner with
    | none => rfl
    | some m => cases ho : m.origin <;> simp [Module.markBuilt, ho]
  · rfl

/-- There is nothing to count as built among modules from files. -/
theorem markAll_of_not_hosted {a : Arena} {targets : List ModuleId}
    (h : ∀ id ∈ targets, ∀ m, a.module? id = some m → m.isHosted = false) :
    a.markAll targets = a := by
  refine eq_of_module?_eq (length_markAll a targets) fun id => ?_
  rw [module?_markAll]
  split
  · next hid =>
    cases hm : a.module? id with
    | none => rfl
    | some m => rw [Option.map_some, Module.markBuilt_of_not_hosted (h _ hid m hm)]
  · rfl

theorem sameDone_markAll (a : Arena) (targets : List ModuleId) : SameDone a (a.markAll targets) :=
  fun _ _ _ => by rw [structure?_markAll]

end Arena

/-! ## A whole call -/

namespace Loader

variable {fs : FileSystem} {root : ModuleId} {l left : Loader} {r : Except LoadError Unit}

/-- How a call that completes a module goes: `mid` is what resolution leaves, `b` what linking
makes of its modules, `c` what layout makes of those. -/
structure Completion (fs : FileSystem) (root : ModuleId) (l : Loader) (r : Except LoadError Unit)
    (left mid : Loader) (b c : Arena) : Prop where
  steps : ResolveSteps fs root (fun id => id = root ∨ id ∈ newSlots l mid) l mid
  settled : Arena.Settled (root :: newSlots l mid) mid.arena b c
  left_eq : left = { mid with arena := left.arena }
  failed : ∀ e, r = .error e → left.arena = c
  built : r = .ok () → left.arena = c.markAll (root :: newSlots l mid)
  linked : (c = b ∧ ∃ e, r = .error e) ∨
    (∀ id ∈ root :: newSlots l mid, mid.AllMet fs root id) ∧
      ∀ id ∈ root :: newSlots l mid, ∀ m k, mid.module? id = some m → b.module? id = some k →
        m.LinkedFrom b k
  done : r = .ok () → ∀ id s, id.owner ∈ root :: newSlots l mid → c.structure? id = some s →
    s.layout.isDone = true
  phases : ∃ resolved, l.resolveFrom fs root = (resolved, mid) ∧ b = match resolved with
    | .error _ => mid.arena
    | .ok targets => (mid.arena.linkAll targets).2

/-- Every call that completes a module goes like this. -/
theorem exists_completion (hlive : l.IndexLive) (hres : l.arena.Resolved)
    (h : l.complete fs root = (r, left)) : ∃ mid b c, Completion fs root l r left mid b c := by
  simp only [complete] at h
  split at h
  · next e mid hresolve =>
    cases h
    obtain ⟨hsteps, -⟩ := resolveFrom_spec hlive hresolve
    exact ⟨left, left.arena, left.arena, hsteps,
      ⟨.refl _, fun _ _ => rfl, .refl .., fun h => h⟩, rfl, fun _ _ => rfl, nofun,
      .inl ⟨rfl, e, rfl⟩, nofun, _, hresolve, rfl⟩
  · next targets mid hresolve =>
    obtain ⟨hsteps, htargets⟩ := resolveFrom_spec hlive hresolve
    obtain ⟨rfl, hmet⟩ := htargets targets rfl
    have hmid : mid.arena.Resolved := hres.of_sameDone (extends_of_resolveSteps hsteps).sameDone
    simp only [settle] at h
    rcases hlink : mid.arena.linkAll (root :: newSlots l mid) with ⟨linked, b⟩
    obtain ⟨hlinks, hunlinked, hlinked⟩ := Arena.linkAll_spec hmid hlink
    have hphases : b = (mid.arena.linkAll (root :: newSlots l mid)).2 := by rw [hlink]
    have hstop : Arena.Settled (root :: newSlots l mid) mid.arena b b :=
      ⟨hlinks, hunlinked, .refl .., fun h => h⟩
    rw [hlink] at h
    cases linked with
    | error e =>
      cases h
      exact ⟨mid, b, b, hsteps, hstop, rfl, fun _ _ => rfl, nofun, .inl ⟨rfl, e, rfl⟩, nofun, _,
        hresolve, hphases⟩
    | ok _ =>
      simp only at h
      split at h
      · cases h
        exact ⟨mid, b, b, hsteps, hstop, rfl, fun _ _ => rfl, nofun, .inl ⟨rfl, _, rfl⟩, nofun, _,
          hresolve, hphases⟩
      · rcases hlayout : b.computeLayouts (root :: newSlots l mid) with ⟨laid, c⟩
        obtain ⟨hlays, hdone⟩ := Arena.computeLayouts_spec hlayout
        have hsettled : Arena.Settled (root :: newSlots l mid) mid.arena b c :=
          ⟨hlinks, hunlinked, hlays, fun hclosed => hclosed.computeLayouts hlayout⟩
        rw [hlayout] at h
        cases laid with
        | error e =>
          cases h
          exact ⟨mid, b, c, hsteps, hsettled, rfl, fun _ _ => rfl, nofun, .inr ⟨hmet, hlinked rfl⟩,
            nofun, _, hresolve, hphases⟩
        | ok _ =>
          cases h
          exact ⟨mid, b, c, hsteps, hsettled, rfl, nofun, fun _ => rfl, .inr ⟨hmet, hlinked rfl⟩,
            fun _ => hdone rfl, _, hresolve, hphases⟩

/-! ## Loads and builds -/

variable {l' : Loader} {path : String}

/-- A load leaves the registry as it is, or it registers the module of a file and completes it. -/
theorem load_cases {r : Except LoadError ModuleId} (h : l.load fs path = (r, l')) :
    l' = l ∧ (∀ id, r = .ok id → ∃ canonical, fs.canonicalize path = .ok canonical ∧
      l.index.find? (.file canonical) = some id) ∨
    ∃ canonical bytes d r' left, fs.canonicalize path = .ok canonical ∧
      l.index.find? (.file canonical) = none ∧ fs.read canonical = .ok bytes ∧
      decode bytes = .ok d ∧
      (l.register (.ofDescriptor l.nextId (.file canonical) d)).complete fs l.nextId = (r', left) ∧
      ((∃ e, r' = .error e ∧ r = .error e ∧ l' = left.rollback l.arena.length none) ∨
        r' = .ok () ∧ r = .ok l.nextId ∧ l' = left) := by
  simp only [load] at h
  split at h
  · cases h
    exact .inl ⟨rfl, nofun⟩
  · next canonical hcanonical =>
    split at h
    · next id hid =>
      cases h
      refine .inl ⟨rfl, fun _ hr => ?_⟩
      cases hr
      exact ⟨canonical, hcanonical, hid⟩
    · next hfresh =>
      split at h
      · cases h
        exact .inl ⟨rfl, nofun⟩
      · next id registered hregister =>
        obtain ⟨bytes, d, hread, hdecode, rfl, rfl⟩ :=
          (registerFile_eq_ok (FileSystem.canonicalize_of_canonicalize hcanonical)).mp hregister
        refine .inr ⟨canonical, bytes, d, ?_⟩
        split at h
        · next e left hcomplete =>
          cases h
          exact ⟨.error e, left, hcanonical, hfresh, hread, hdecode, hcomplete,
            .inl ⟨e, rfl, rfl, rfl⟩⟩
        · next left hcomplete =>
          cases h
          exact ⟨.ok (), l', hcanonical, hfresh, hread, hdecode, hcomplete, .inr ⟨rfl, rfl, rfl⟩⟩

/-- A creation is refused, or it registers an empty module. -/
theorem create_cases (l : Loader) (path : String) : (l.create path).2 = l ∨
    (l.create path).2 = l.register (.hosted l.nextId (.virtual path)) := by
  simp only [create]
  split
  · exact .inl rfl
  · split
    · exact .inl rfl
    · exact .inr rfl

/-- A build is refused, or it completes a module of the host. -/
theorem build_cases {id : ModuleId} (h : l.build fs id = (r, l')) :
    (l' = l ∧ (∃ e, r = .error e) ∧ ∀ m, l.module? id = some m → m.isHosted = false) ∨
    ∃ m left, l.module? id = some m ∧ m.isHosted = true ∧ l.complete fs id = (r, left) ∧
      ((∃ e, r = .error e) ∧ l' = left.revert l.arena.length id ∨ r = .ok () ∧ l' = left) := by
  simp only [build] at h
  split at h
  · next hnone =>
    cases h
    exact .inl ⟨rfl, ⟨_, rfl⟩, fun m hm => by rw [hnone] at hm; cases hm⟩
  · next m hm =>
    split at h
    · next hfile =>
      cases h
      refine .inl ⟨rfl, ⟨_, rfl⟩, fun k hk => ?_⟩
      obtain rfl : m = k := Option.some.inj (hm.symm.trans hk)
      simpa using hfile
    · next hhosted =>
      refine .inr ⟨m, ?_⟩
      split at h
      · next e left hcomplete =>
        cases h
        exact ⟨left, hm, by simpa using hhosted, hcomplete, .inl ⟨⟨e, rfl⟩, rfl⟩⟩
      · next left hcomplete =>
        cases h
        exact ⟨l', hm, by simpa using hhosted, hcomplete, .inr ⟨rfl, rfl⟩⟩

end Loader
end ModuleLinker
