import ModuleLinker.Proofs.Registry.Budget
import ModuleLinker.Proofs.Registry.Loading

/-!
# How a load ends

A load that reads a file ends at a spec that it cannot resolve, at a symbol that it cannot link, at
a cycle, at a structure that it cannot lay out, or with all new modules complete. Each end is told
with what the phases in front of it have found out.
-/
namespace ModuleLinker

/-! ## Where linking fails -/

namespace Module

variable {a : Arena} {m t : Module} {target : ModuleId} {x : Mapping} {e : LoadError}

theorem mappedModule_of_mapsInto (h : m.MapsInto a x target t) :
    ∃ spec, m.mappedModule a x = .ok (t, spec) := by
  obtain ⟨d, hd, htarget, ht⟩ := h
  exact ⟨d.spec, mappedModule_eq_ok.mpr ⟨d, target, hd, htarget, ht, rfl⟩⟩

/-- A structure mapping out of a resolved dependency fails for want of the name only. -/
theorem mappedStructure_eq_error {index : Nat} (hx : m.mappings.structures[index]? = some x)
    (hinto : m.MapsInto a x target t) (h : m.mappedStructure a index = .error e) :
    t.structureNamed? x.name = none ∧ ∃ spec, e = .link m.path spec .struct x.name := by
  obtain ⟨spec, hspec⟩ := mappedModule_of_mapsInto hinto
  simp only [mappedStructure, hx, hspec, bind, Except.bind] at h
  split at h
  · next hnone => exact ⟨hnone, spec, (Except.error.inj h).symm⟩
  · cases h

theorem mappedFunction_eq_error (hinto : m.MapsInto a x target t)
    (h : m.mappedFunction a x = .error e) :
    t.functionNamed? x.name = none ∧ ∃ spec, e = .link m.path spec .function x.name := by
  obtain ⟨spec, hspec⟩ := mappedModule_of_mapsInto hinto
  simp only [mappedFunction, hspec, bind, Except.bind] at h
  split at h
  · next hnone => exact ⟨hnone, spec, (Except.error.inj h).symm⟩
  · cases h

/-- A module that cannot be linked has a mapped field or a mapped function that leads nowhere. -/
theorem exists_error_of_linked (h : m.linked a = .error e) :
    (∃ s ∈ m.structures, ∃ f ∈ s.fields, ∃ index, f.type = .mapped index ∧
        m.mappedStructure a index = .error e) ∨
      ∃ x ∈ m.mappings.functions, m.mappedFunction a x = .error e := by
  rcases except_bind_eq_error.mp h with hstructures | ⟨structures, -, h⟩
  · obtain ⟨s, hs, hstructure⟩ := exists_error_of_mapM hstructures
    rcases except_bind_eq_error.mp hstructure with hfields | ⟨fields, -, hpure⟩
    · obtain ⟨f, hf, hfield⟩ := exists_error_of_mapM hfields
      cases htype : f.type with
      | mapped index =>
        simp only [linkedField, htype] at hfield
        rcases except_bind_eq_error.mp hfield with hmapped | ⟨id, -, hpure⟩
        · exact .inl ⟨s, hs, f, hf, index, htype, hmapped⟩
        · cases hpure
      | fundamental t => simp [linkedField, htype] at hfield
      | struct id => simp [linkedField, htype] at hfield
    · cases hpure
  · rcases except_bind_eq_error.mp h with hfunctions | ⟨links, -, hpure⟩
    · exact .inr (exists_error_of_mapM hfunctions)
    · cases hpure

/-- What is still mapped in a module was so before it was linked. -/
theorem Evolves.exists_mapped {k : Module} (h : m.Evolves k) {s : Structure}
    (hs : s ∈ k.structures) {f : Field} (hf : f ∈ s.fields) {index : Nat}
    (hmapped : f.type = .mapped index) :
    ∃ s₀ ∈ m.structures, ∃ f₀ ∈ s₀.fields, f₀.type = .mapped index := by
  obtain ⟨i, hi, rfl⟩ := List.mem_iff_getElem.mp hs
  obtain ⟨s₀, hs₀, hstructure⟩ := h.exists_structure_of_later (List.getElem?_eq_getElem hi)
  obtain ⟨j, hj, rfl⟩ := List.mem_iff_getElem.mp hf
  have hj₀ : j < s₀.fields.length := hstructure.fields.length_eq ▸ hj
  refine ⟨s₀, List.mem_of_getElem? hs₀, s₀.fields[j], List.getElem_mem hj₀, ?_⟩
  rcases (hstructure.fields.get hj₀ hj).2 with hsame | ⟨_, id, -, hlinked⟩
  · exact hsame.symm.trans hmapped
  · have hstruct : (k.structures[i].fields[j]).type = .struct id := hlinked
    rw [hmapped] at hstruct
    cases hstruct

end Module

/-- Linking modules that are there fails at one of them, after some have been linked. -/
theorem Arena.linkAll_error {a b : Arena} (hres : a.Resolved) {ids : List ModuleId} {e : LoadError}
    (hthere : ∀ id ∈ ids, ∃ m, a.module? id = some m) (h : a.linkAll ids = (.error e, b)) :
    ∃ c id m k, a.Links c ∧ id ∈ ids ∧ a.module? id = some m ∧ c.module? id = some k ∧
      m.Evolves k ∧ k.dependencies = m.dependencies ∧ k.linked c = .error e := by
  induction ids generalizing a with
  | nil => cases h
  | cons id ids ih =>
    obtain ⟨m, hm⟩ := hthere id List.mem_cons_self
    simp only [linkAll] at h
    split at h
    · next e' he =>
      cases h
      simp only [link, hm] at he
      rcases except_bind_eq_error.mp he with hlinked | ⟨k, -, hpure⟩
      · exact ⟨b, id, m, m, .refl _, List.mem_cons_self, hm, hm, .refl m, rfl, hlinked⟩
      · cases hpure
    · next next hnext =>
      have hfirst := links_of_link hres hnext
      obtain ⟨c, other, k, n, hlinks, hother, hk, hn, hkn, hdependencies, hfails⟩ :=
        ih (hres.of_sameDone hfirst.sameDone) (fun other ho => by
          obtain ⟨k, hk⟩ := hthere other (List.mem_cons_of_mem _ ho)
          obtain ⟨n, hn, -⟩ := hfirst.evolves other k hk
          exact ⟨n, hn⟩) h
      obtain ⟨k₀, hk₀⟩ := hthere other (List.mem_cons_of_mem _ hother)
      obtain ⟨k', hk', hk₀k⟩ := hfirst.evolves other k₀ hk₀
      obtain rfl : k' = k := Option.some.inj (hk'.symm.trans hk)
      exact ⟨c, other, k₀, n, hfirst.trans hlinks, List.mem_cons_of_mem _ hother, hk₀, hn,
        hk₀k.trans hkn, hdependencies.trans (hfirst.dependencies other k₀ k' hk₀ hk), hfails⟩

/-! ## The phases of a load -/

namespace Loader

variable {fs : FileSystem} {l l' mid : Loader} {id : ModuleId} {path canonical : String}
  {bytes : List UInt8} {d : Descriptor} {r : Except LoadError ModuleId} {b : Arena}

/-- A load has resolved all that the file at a path needs: `mid` is what it has come to. -/
structure Gathered (fs : FileSystem) (l : Loader) (canonical : String) (mid : Loader) : Prop where
  sound : l.Sound
  extending : l.Extends fs (fun id => id.isFrom l.arena.length = true) mid
  root : mid.index.find? (.file canonical) = some l.nextId
  met : ∀ id ∈ newSlots l mid, mid.AllMet fs l.nextId id

/-- The ends of a load that reads a file. -/
inductive LoadEnds (fs : FileSystem) (l : Loader) (canonical : String) :
    Except LoadError ModuleId → Loader → Prop where
  | stuck {mid l' : Loader} {id : ModuleId} {e : LoadError}
      (extending : l.Extends fs (fun id => id.isFrom l.arena.length = true) mid)
      (fresh : id.isFrom l.arena.length = true) (stuck : mid.Stuck fs l.nextId id e) :
      LoadEnds fs l canonical (.error e) l'
  | unlinked {mid l' : Loader} {b : Arena} {e : LoadError} (gathered : Gathered fs l canonical mid)
      (links : mid.arena.linkAll (newSlots l mid) = (.error e, b)) :
      LoadEnds fs l canonical (.error e) l'
  | cyclic {mid l' : Loader} {b : Arena} {e : LoadError} (gathered : Gathered fs l canonical mid)
      (links : mid.arena.linkAll (newSlots l mid) = (.ok (), b))
      (cycle : b.checkCycles (newSlots l mid) = .error e) : LoadEnds fs l canonical (.error e) l'
  | unplaced {mid l' : Loader} {b c : Arena} {e : LoadError}
      (gathered : Gathered fs l canonical mid)
      (links : mid.arena.linkAll (newSlots l mid) = (.ok (), b))
      (acyclic : b.checkCycles (newSlots l mid) = .ok ())
      (layouts : b.computeLayouts (newSlots l mid) = (.error e, c)) :
      LoadEnds fs l canonical (.error e) l'
  | done {mid : Loader} {b c : Arena} (gathered : Gathered fs l canonical mid)
      (links : mid.arena.linkAll (newSlots l mid) = (.ok (), b))
      (acyclic : b.checkCycles (newSlots l mid) = .ok ())
      (layouts : b.computeLayouts (newSlots l mid) = (.ok (), c)) :
      LoadEnds fs l canonical (.ok l.nextId) { mid with arena := c.markAll (newSlots l mid) }

/-- The root of a load is the first of the new slots. -/
theorem newSlots_register {m : Module} (hle : (l.register m).arena.length ≤ mid.arena.length) :
    l.nextId :: newSlots (l.register m) mid = newSlots l mid := by
  have hfirst : newSlots l (l.register m) = [l.nextId] := by simp [newSlots, nextId]
  have hlength : l.arena.length ≤ (l.register m).arena.length := by simp
  rw [← newSlots_append hlength hle, hfirst]
  rfl

theorem isFrom_nextId (l : Loader) : l.nextId.isFrom l.arena.length = true :=
  ModuleId.isFrom_slot.mpr (Nat.le_refl _)

/-- A load finds an image at a path that is not registered. -/
structure Opening (fs : FileSystem) (l : Loader) (path canonical : String) (bytes : List UInt8)
    (d : Descriptor) : Prop where
  place : fs.canonicalize path = .ok canonical
  fresh : l.index.find? (.file canonical) = none
  contents : fs.read canonical = .ok bytes
  decoded : decode bytes = .ok d

/-- The registry with the module of the file that a load begins with. -/
def opened (l : Loader) (canonical : String) (d : Descriptor) : Loader :=
  l.register (.ofDescriptor l.nextId (.file canonical) d)

namespace Opening

variable (h : Opening fs l path canonical bytes d)
include h

theorem resolveStep (worked : ModuleId → Prop) :
    ResolveStep fs l.nextId worked l (l.opened canonical d) :=
  .register l (FileSystem.canonicalize_of_canonicalize h.place) h.contents h.decoded h.fresh

theorem indexLive (hl : l.Sound) : (l.opened canonical d).IndexLive :=
  (h.resolveStep fun _ => False).extends.indexLive hl.live

/-- Resolution works on the new slots only. -/
theorem resolveSteps (hsteps : ResolveSteps fs l.nextId
    (fun id => id = l.nextId ∨ id ∈ newSlots (l.opened canonical d) mid) (l.opened canonical d)
      mid) : ResolveSteps fs l.nextId (fun id => id.isFrom l.arena.length = true) l mid := by
  refine .head (h.resolveStep _) (resolveSteps_widen hsteps fun id hid => ?_)
  rw [← List.mem_cons, opened,
    newSlots_register (extends_of_resolveSteps hsteps).length_le] at hid
  exact isFrom_of_mem_newSlots hid

/-- A load that resolves its dependencies has gathered what it needs. -/
theorem gathered (hl : l.Sound) {targets : List ModuleId}
    (hresolve : (l.opened canonical d).resolveFrom fs l.nextId = (.ok targets, mid)) :
    targets = newSlots l mid ∧ Gathered fs l canonical mid ∧
      ResolveSteps fs l.nextId (fun id => id.isFrom l.arena.length = true) l mid := by
  obtain ⟨hsteps, htargets⟩ := resolveFrom_spec (h.indexLive hl) hresolve
  obtain ⟨rfl, hmet⟩ := htargets targets rfl
  have hlater := extends_of_resolveSteps hsteps
  have hall := h.resolveSteps hsteps
  rw [opened, newSlots_register hlater.length_le] at hmet ⊢
  exact ⟨rfl, ⟨hl, extends_of_resolveSteps hall, hlater.find?_eq_some (find?_register ..), hmet⟩,
    hall⟩

theorem registerFile_eq : l.registerFile fs canonical = .ok (l.nextId, l.opened canonical d) :=
  (registerFile_eq_ok (FileSystem.canonicalize_of_canonicalize h.place)).mpr
    ⟨bytes, d, h.contents, h.decoded, rfl, rfl⟩

/-- Behind resolution the new modules are settled. -/
theorem load_eq {targets : List ModuleId}
    (hresolve : (l.opened canonical d).resolveFrom fs l.nextId = (.ok targets, mid)) :
    l.load fs path = match mid.settle targets with
      | (.error e, left) => (.error e, left.rollback l.arena.length none)
      | (.ok (), left) => (.ok l.nextId, left) := by
  rcases hsettle : mid.settle targets with ⟨_ | ⟨⟩, left⟩ <;>
    simp only [load, h.place, h.fresh, h.registerFile_eq, complete, hresolve, hsettle]

/-- A load that finds an image that is not registered comes to one of its ends. -/
theorem exists_loadEnds (hl : l.Sound) :
    ∃ r l', l.load fs path = (r, l') ∧ LoadEnds fs l canonical r l' := by
  rcases hresolve : (l.opened canonical d).resolveFrom fs l.nextId with ⟨resolved, mid⟩
  cases resolved with
  | error e =>
    have hroot : ∃ m, (l.opened canonical d).module? l.nextId = some m :=
      ⟨_, module?_register.mpr (.inr ⟨rfl, rfl⟩)⟩
    obtain ⟨stop, id, hsteps, hid, hstuck⟩ := resolveFrom_error (h.indexLive hl) hroot hresolve
    rw [← List.mem_cons, opened,
      newSlots_register (extends_of_resolveSteps hsteps).length_le] at hid
    exact ⟨.error e, mid.rollback l.arena.length none, by
      simp only [load, h.place, h.fresh, h.registerFile_eq, complete, hresolve],
      .stuck (extends_of_resolveSteps (h.resolveSteps hsteps)) (isFrom_of_mem_newSlots hid) hstuck⟩
  | ok targets =>
    obtain ⟨rfl, hgathered, -⟩ := h.gathered hl hresolve
    rw [h.load_eq hresolve]
    rcases hlink : mid.arena.linkAll (newSlots l mid) with ⟨_ | ⟨⟩, b⟩
    · exact ⟨_, _, by simp only [settle, hlink]; rfl, .unlinked hgathered hlink⟩
    · rcases hcycles : b.checkCycles (newSlots l mid) with _ | ⟨⟩
      · exact ⟨_, _, by simp only [settle, hlink, hcycles]; rfl, .cyclic hgathered hlink hcycles⟩
      · rcases hlayouts : b.computeLayouts (newSlots l mid) with ⟨_ | ⟨⟩, c⟩
        · exact ⟨_, _, by simp only [settle, hlink, hcycles, hlayouts]; rfl,
            .unplaced hgathered hlink hcycles hlayouts⟩
        · exact ⟨_, _, by simp only [settle, hlink, hcycles, hlayouts]; rfl,
            .done hgathered hlink hcycles hlayouts⟩

end Opening

/-- A load fails to find an image, finds it registered, or comes to one of its ends. -/
theorem load_ends (hl : l.Sound) (h : l.load fs path = (r, l')) :
    (∃ cause, r = .error (.decode cause)) ∨
    (∃ canonical id, fs.canonicalize path = .ok canonical ∧
      l.index.find? (.file canonical) = some id ∧ r = .ok id ∧ l' = l) ∨
    ∃ canonical, fs.canonicalize path = .ok canonical ∧
      l.index.find? (.file canonical) = none ∧ LoadEnds fs l canonical r l' := by
  cases hcanonical : fs.canonicalize path with
  | error cause =>
    simp only [load, hcanonical, Prod.mk.injEq] at h
    exact .inl ⟨_, h.1.symm⟩
  | ok canonical =>
    cases hfound : l.index.find? (.file canonical) with
    | some id =>
      simp only [load, hcanonical, hfound, Prod.mk.injEq] at h
      exact .inr (.inl ⟨canonical, id, rfl, hfound, h.1.symm, h.2.symm⟩)
    | none =>
      cases hregister : l.registerFile fs canonical with
      | error e =>
        simp only [load, hcanonical, hfound, hregister, Prod.mk.injEq] at h
        simp only [registerFile] at hregister
        split at hregister
        · next cause _ => exact .inl ⟨cause, by rw [← h.1, ← Except.error.inj hregister]⟩
        · cases hregister
      | ok registered =>
        have hself := FileSystem.canonicalize_of_canonicalize hcanonical
        obtain ⟨bytes, d, hread, hdecode, -⟩ := (registerFile_eq_ok hself).mp hregister
        have hopening : Opening fs l path canonical bytes d := ⟨hcanonical, hfound, hread, hdecode⟩
        obtain ⟨r', left, hload, hends⟩ := hopening.exists_loadEnds hl
        rw [hload, Prod.mk.injEq] at h
        exact .inr (.inr ⟨canonical, rfl, hfound, h.1 ▸ h.2 ▸ hends⟩)

namespace Gathered

variable (h : Gathered fs l canonical mid)
include h

/-- Once the new modules are linked. -/
theorem linkPhase (hlink : mid.arena.linkAll (newSlots l mid) = (.ok (), b)) :
    LinkPhase fs l.nextId (fun id => id.isFrom l.arena.length = true) l mid b := by
  obtain ⟨hlinks, hunlinked, hlinked⟩ :=
    Arena.linkAll_spec (h.sound.resolved.of_sameDone h.extending.sameDone) hlink
  exact {
    sound := h.sound
    extending := h.extending
    links := hlinks
    unlinked := fun id hid => hunlinked id fun hmem => hid (isFrom_of_mem_newSlots hmem)
    met := fun id hid m hm => h.met id ((Loading.mem_newSlots_iff hm).mpr hid) m hm
    linked := fun id m k hid hm => hlinked rfl id ((Loading.mem_newSlots_iff hm).mpr hid) m k hm }

/-- A load that has linked its modules and laid them out. -/
theorem loading {c : Arena} (hlink : mid.arena.linkAll (newSlots l mid) = (.ok (), b))
    (hlayouts : b.computeLayouts (newSlots l mid) = (.ok (), c)) :
    Loading fs l canonical (.ok ()) { mid with arena := c.markAll (newSlots l mid) } mid b c := by
  obtain ⟨hlinks, hunlinked, hlinked⟩ :=
    Arena.linkAll_spec (h.sound.resolved.of_sameDone h.extending.sameDone) hlink
  obtain ⟨hlays, hdone⟩ := Arena.computeLayouts_spec hlayouts
  exact {
    sound := h.sound
    extending := h.extending
    root := h.root
    settled := ⟨hlinks, hunlinked, hlays, fun hclosed => hclosed.computeLayouts hlayouts⟩
    left_eq := rfl
    failed := nofun
    built := fun _ => rfl
    linked := .inr ⟨h.met, hlinked rfl⟩
    done := hdone }

end Gathered
end Loader
end ModuleLinker
