import ModuleLinker.Proofs.Registry.LinkPhase

/-!
# How a load goes

A load that reads a file works on the slots that it adds and on no others. What a new module maps
leads into a new slot or into an older module that may be depended on, and such a module is laid
out as a whole. So whatever laying out the new modules comes to is new or has its layout already:
a load changes nothing in the older slots, even if it fails.
-/
namespace ModuleLinker.Loader

variable {fs : FileSystem} {l l' left mid : Loader} {r : Except LoadError Unit} {b c : Arena}
  {id : ModuleId} {canonical : String}

/-- A load of a file that is not registered yet: `mid` is what resolution leaves, `b` what linking
makes of its modules, `c` what layout makes of those, and `left` what is left before anything is
given up. -/
structure Loading (fs : FileSystem) (l : Loader) (canonical : String) (r : Except LoadError Unit)
    (left mid : Loader) (b c : Arena) : Prop where
  sound : l.Sound
  extending : l.Extends fs (fun id => id.isFrom l.arena.length = true) mid
  root : mid.index.find? (.file canonical) = some l.nextId
  settled : Arena.Settled (newSlots l mid) mid.arena b c
  left_eq : left = { mid with arena := left.arena }
  failed : ∀ e, r = .error e → left.arena = c
  built : r = .ok () → left.arena = c.markAll (newSlots l mid)
  linked : (c = b ∧ ∃ e, r = .error e) ∨
    (∀ id ∈ newSlots l mid, mid.AllMet fs l.nextId id) ∧
      ∀ id ∈ newSlots l mid, ∀ m k, mid.module? id = some m → b.module? id = some k →
        m.LinkedFrom b k
  done : r = .ok () → ∀ id s, id.owner ∈ newSlots l mid → c.structure? id = some s →
    s.layout.isDone = true

/-- Every load of a file that is not registered yet goes like this. -/
theorem exists_loading (hl : l.Sound) {path : String} {r : Except LoadError ModuleId}
    (h : l.load fs path = (r, l')) :
    l' = l ∧ (∀ id, r = .ok id → ∃ canonical, fs.canonicalize path = .ok canonical ∧
      l.index.find? (.file canonical) = some id) ∨
    ∃ canonical r' left mid b c, fs.canonicalize path = .ok canonical ∧
      Loading fs l canonical r' left mid b c ∧
      ((∃ e, r' = .error e ∧ r = .error e ∧ l' = left.rollback l.arena.length none) ∨
        r' = .ok () ∧ r = .ok l.nextId ∧ l' = left) := by
  rcases load_cases h with ⟨rfl, hr⟩ |
    ⟨canonical, bytes, d, r', left, hcanonical, hfresh, hread, hdecode, hcomplete, hend⟩
  · exact .inl ⟨rfl, hr⟩
  · refine .inr ⟨canonical, r', left, ?_⟩
    have hregister : ∀ worked, ResolveStep fs l.nextId worked l
        (l.register (.ofDescriptor l.nextId (.file canonical) d)) := fun _ =>
      .register l (FileSystem.canonicalize_of_canonicalize hcanonical) hread hdecode hfresh
    have hext := (hregister fun _ => False).extends
    obtain ⟨mid, b, c, hC⟩ := exists_completion (hext.indexLive hl.live)
      (hl.resolved.of_sameDone hext.sameDone) hcomplete
    have hfirst : newSlots l (l.register (.ofDescriptor l.nextId (.file canonical) d)) =
        [l.nextId] := by simp [newSlots, nextId]
    have hslots : l.nextId ::
        newSlots (l.register (.ofDescriptor l.nextId (.file canonical) d)) mid = newSlots l mid := by
      rw [← newSlots_append hext.length_le hC.extending.length_le, hfirst]
      rfl
    have hsteps : ResolveSteps fs l.nextId (fun id => id.isFrom l.arena.length = true) l mid := by
      refine .head (hregister _) (resolveSteps_widen hC.steps fun id hid => ?_)
      rw [← List.mem_cons, hslots] at hid
      exact isFrom_of_mem_newSlots hid
    have hsettled := hC.settled
    have hbuilt := hC.built
    have hlinked := hC.linked
    have hdone := hC.done
    rw [hslots] at hsettled hbuilt hlinked hdone
    exact ⟨mid, b, c, hcanonical, ⟨hl, extends_of_resolveSteps hsteps,
      hC.extending.find?_eq_some (find?_register ..), hsettled, hC.left_eq, hC.failed, hbuilt,
      hlinked, hdone⟩, hend⟩

namespace Loading

variable (h : Loading fs l canonical r left mid b c)
include h

omit h in
/-- The modules in the new slots are those that resolution registered. -/
theorem mem_newSlots_iff {m : Module} (hm : mid.module? id = some m) :
    id ∈ newSlots l mid ↔ id.isFrom l.arena.length = true := by
  obtain ⟨n, rfl, hn, -⟩ := Arena.exists_slot hm
  simp only [mem_newSlots, ModuleId.slot.injEq, exists_eq_left', hn, and_true, ModuleId.isFrom_slot]

/-- Modules in new slots come from files. -/
theorem isHosted_new {k : Module} (hnew : id.isFrom l.arena.length = true)
    (hk : c.module? id = some k) : k.isHosted = false := by
  obtain ⟨n, rfl, hn⟩ := ModuleId.exists_slot_of_isFrom hnew
  obtain ⟨m, hm, hmk⟩ := h.settled.exists_earlier hk
  rw [hmk.isHosted]
  exact (h.extending.registered n m hn hm).isHosted

/-- So there is nothing to count as built. -/
theorem arena_eq : left.arena = c := by
  cases r with
  | error e => exact h.failed e rfl
  | ok _ =>
    rw [h.built rfl]
    exact Arena.markAll_of_not_hosted fun id hid k hk =>
      h.isHosted_new (isFrom_of_mem_newSlots hid) hk

/-- A module that resolution left in an older slot was there before, as it is. -/
theorem module?_older {m : Module} (hid : ¬ id.isFrom l.arena.length = true)
    (hm : mid.module? id = some m) : l.module? id = some m := by
  rcases h.extending.module?_cases hm with ⟨m₀, hm₀, -⟩ | ⟨n, rfl, hn, -⟩
  · obtain ⟨k, hk, -, -, hsame⟩ := h.extending.kept id m₀ hm₀
    obtain rfl : k = m := Option.some.inj (hk.symm.trans hm)
    rw [hm₀, hsame hid]
  · exact absurd (ModuleId.isFrom_slot.mpr hn) hid

/-- The root comes from a file, so that nothing may be depended on before it is built. -/
theorem needsBuild_of_means {requester : ModulePath} {spec : String} {target : ModuleId}
    (ht : mid.Means fs l.nextId requester spec target) :
    ∃ t, mid.module? target = some t ∧ t.needsBuild = false := by
  obtain ⟨path, t, -, -, ht, hneeds⟩ := ht
  refine ⟨t, ht, ?_⟩
  rw [← Bool.not_eq_true]
  intro hbuild
  obtain rfl := hneeds hbuild
  rcases h.extending.module?_cases ht with ⟨m, hm, -⟩ | ⟨n, -, -, hregistered⟩
  · rw [Loader.module?, nextId, Arena.module?_eq_none_of_length_le (Nat.le_refl _)] at hm
    cases hm
  · obtain ⟨path, bytes, d, -, -, -, -, -, hfile, -⟩ := hregistered
    rw [hfile] at hbuild
    cases hbuild

/-- A load that has linked its modules. -/
theorem linkPhase (hmet : ∀ id ∈ newSlots l mid, mid.AllMet fs l.nextId id)
    (hlinked : ∀ id ∈ newSlots l mid, ∀ m k, mid.module? id = some m → b.module? id = some k →
      m.LinkedFrom b k) :
    LinkPhase fs l.nextId (fun id => id.isFrom l.arena.length = true) l mid b where
  sound := h.sound
  extending := h.extending
  links := h.settled.links
  unlinked id hid := h.settled.unlinked id fun hmem => hid (isFrom_of_mem_newSlots hmem)
  met id hid m hm := hmet id ((mem_newSlots_iff hm).mpr hid) m hm
  linked id m k hid hm hk := hlinked id ((mem_newSlots_iff hm).mpr hid) m k hm hk

/-- Laying out the new modules comes to new structures and to such as have their layout. -/
theorem reached_from_new {x y : StructureId} (hx : x.owner.isFrom l.arena.length = true)
    (hmet : ∀ id ∈ newSlots l mid, mid.AllMet fs l.nextId id)
    (hlinked : ∀ id ∈ newSlots l mid, ∀ m k, mid.module? id = some m → b.module? id = some k →
      m.LinkedFrom b k) (hy : b.Reaches x y) :
    y.owner.isFrom l.arena.length = true ∨ b.isLaidOut y = true := by
  rcases (h.linkPhase hmet hlinked).reached (.inr hx) hy with hnew | hdone | ⟨z, hz, hreaches⟩
  · exact .inl hnew
  · exact .inr hdone
  · -- The root was not there before the load, so nothing was reached from it.
    have hnew : z.owner.isFrom l.arena.length = true := by
      rw [hz]
      exact ModuleId.isFrom_slot.mpr (Nat.le_refl _)
    rcases hreaches.cases_head with rfl | ⟨w, hstep, -⟩
    · exact .inl hnew
    · obtain ⟨s, hs, -⟩ := Arena.mem_embedded.mp hstep.2
      obtain ⟨m, hm, -⟩ := Arena.structure?_eq_some.mp hs
      rw [hz, nextId, Arena.module?_eq_none_of_length_le (Nat.le_refl _)] at hm
      cases hm

/-- A load leaves every structure in an older slot as it is. -/
theorem structure?_older {x : StructureId} {s : Structure}
    (hx : ¬ x.owner.isFrom l.arena.length = true) (hs : b.structure? x = some s) :
    c.structure? x = some s := by
  rcases h.linked with ⟨rfl, -⟩ | ⟨hmet, hlinked⟩
  · exact hs
  · obtain ⟨t, ht, -⟩ := Arena.exists_structure?_of_outline_eq h.settled.laysOut.outline hs
    rcases h.settled.laysOut.settles x s t hs ht with rfl | ⟨⟨y, hy, hreaches⟩, hopen, -⟩
    · exact ht
    · rcases h.reached_from_new (isFrom_of_mem_newSlots hy) hmet hlinked hreaches with hnewx | hlaid
      · exact absurd hnewx hx
      · rw [Arena.isLaidOut_of_structure? hs, hopen] at hlaid
        cases hlaid

/-- A load leaves every module in an older slot as it is. -/
theorem module?_eq (hid : ¬ id.isFrom l.arena.length = true) : left.module? id = l.module? id := by
  have hnot : id ∉ newSlots l mid := fun hmem => hid (isFrom_of_mem_newSlots hmem)
  rw [Loader.module?, h.arena_eq]
  cases hm : l.module? id with
  | none =>
    refine h.settled.module?_none ?_
    cases hmid : mid.module? id with
    | none => exact hmid
    | some k =>
      have hk := h.module?_older hid hmid
      rw [hm] at hk
      cases hk
  | some m =>
    obtain ⟨k, hk, -, -, hsame⟩ := h.extending.kept id m hm
    obtain rfl : k = m := hsame hid
    have hb : b.module? id = some k := by rw [h.settled.unlinked id hnot]; exact hk
    obtain ⟨n, hn, hkn⟩ := Arena.exists_module?_of_outline_eq h.settled.laysOut.outline hb
    obtain ⟨hmodule, hstructures⟩ := Module.eq_of_outline_eq hkn
    have hlength : n.structures.length = k.structures.length := by
      simpa using congrArg List.length hstructures
    suffices hsame : n.structures = k.structures by rw [hn, hmodule, hsame]
    refine List.ext_getElem hlength fun i hi hi' => ?_
    have hlater := h.structure?_older (x := ⟨id, i⟩) hid
      (Arena.structure?_eq_some.mpr ⟨k, hb, List.getElem?_eq_getElem hi'⟩)
    rw [Arena.structure?_of_module? hn, List.getElem?_eq_getElem hi] at hlater
    exact Option.some.inj hlater

/-- Giving the new slots up after a failure leaves the modules from before the load. -/
theorem module?_rollback_eq (id : ModuleId) :
    (left.rollback l.arena.length none).module? id = l.module? id := by
  rw [module?_rollback]
  by_cases hid : id.isFrom l.arena.length = true
  · obtain ⟨n, rfl, hn⟩ := ModuleId.exists_slot_of_isFrom hid
    rw [if_pos (.inl hid), Loader.module?, Arena.module?_eq_none_of_length_le hn]
  · rw [if_neg (by simpa using hid), h.module?_eq hid]

end Loading
end ModuleLinker.Loader
