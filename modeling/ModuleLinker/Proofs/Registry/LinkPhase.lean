import ModuleLinker.Proofs.Registry.Sound

/-!
# What linked structures contain

Once the modules of a call are linked, a structure contains what it contained before and what its
mappings lead to. A mapping leads into the module that the call is about, into one that the call
registered, or into one that may be depended on, and such a module is laid out as a whole. A module
that was read from a file names no structures but its own, so laying it out goes into another
module through mappings only.
-/
namespace ModuleLinker.Loader

variable {fs : FileSystem} {root id : ModuleId} {worked : ModuleId → Prop} {l mid : Loader}
  {b : Arena}

/-- A call that got to the end of linking: `mid` is what resolution leaves, and `b` what linking
makes of the modules that are worked on, whose dependencies are met. -/
structure LinkPhase (fs : FileSystem) (root : ModuleId) (worked : ModuleId → Prop) (l mid : Loader)
    (b : Arena) : Prop where
  sound : l.Sound
  extending : l.Extends fs worked mid
  links : mid.arena.Links b
  unlinked : ∀ id, ¬ worked id → b.module? id = mid.module? id
  met : ∀ id, worked id → mid.AllMet fs root id
  linked : ∀ id m k, worked id → mid.module? id = some m → b.module? id = some k →
    m.LinkedFrom b k

namespace LinkPhase

variable (h : LinkPhase fs root worked l mid b)
include h

theorem exists_resolved {k : Module} (hk : b.module? id = some k) :
    ∃ m, mid.module? id = some m ∧ m.Evolves k :=
  h.links.evolves.exists_earlier h.links.module?_none hk

theorem numbered {k : Module} (hk : b.module? id = some k) : k.Numbered id := by
  obtain ⟨m, hm, hmk⟩ := h.exists_resolved hk
  exact (h.extending.numbered h.sound.numbered id m hm).of_evolves hmk

/-- A module that may be depended on is new, or laid out as a whole. -/
theorem done_of_needsBuild {t u : Module} (ht : mid.module? id = some t)
    (hbuilt : t.needsBuild = false) (hu : b.module? id = some u) :
    id.isFrom l.arena.length = true ∨ ∀ s ∈ u.structures, s.layout.isDone = true := by
  rcases h.extending.module?_cases ht with ⟨m, hm, htm, -⟩ | ⟨n, rfl, hn, -⟩
  · obtain ⟨k, hk, hmk⟩ := (h.extending.evolves.trans h.links.evolves) id m hm
    obtain rfl : k = u := Option.some.inj (hk.symm.trans hu)
    have hneeds : t.needsBuild = m.needsBuild := by rw [htm]; rfl
    rw [hneeds] at hbuilt
    exact .inr (hmk.done ((h.sound.finished id m hm).done hbuilt))
  · exact .inl (ModuleId.isFrom_slot.mpr hn)

/-- What a module maps leads into the root, into a new slot, or into a module that is laid out. -/
theorem mapsInto {m k t : Module} {x : Mapping} {target : ModuleId} (hid : worked id)
    (hm : mid.module? id = some m) (hk : b.module? id = some k) (ht : k.MapsInto b x target t) :
    target = root ∨ target.isFrom l.arena.length = true ∨
      ∀ s ∈ t.structures, s.layout.isDone = true := by
  obtain ⟨d, hd, htarget, ht⟩ := ht
  rw [h.links.dependencies id m k hm hk] at hd
  obtain ⟨target', htarget', path, t₀, -, -, ht₀, hneeds⟩ :=
    (h.met id hid).exists_means hm (List.mem_of_getElem? hd)
  obtain rfl : target = target' := Option.some.inj (htarget.symm.trans htarget')
  by_cases hroot : target = root
  · exact .inl hroot
  · refine .inr (h.done_of_needsBuild ht₀ ?_ ht)
    rw [← Bool.not_eq_true]
    exact fun hbuild => hroot (hneeds hbuild)

/-- A field of a linked structure has the type that it had, or the structure that it was mapped
to. -/
theorem exists_field {x : StructureId} {t : Structure} {g : Field} (hx : worked x.owner)
    (ht : b.structure? x = some t) (hg : g ∈ t.fields) :
    ∃ m k s f, mid.module? x.owner = some m ∧ b.module? x.owner = some k ∧
      m.structures[x.index]? = some s ∧ f ∈ s.fields ∧
      (f.type.isResolved = true ∧ g.type = f.type ∨
        ∃ index id, f.type = .mapped index ∧ k.mappedStructure b index = .ok id ∧
          g.type = .struct id) := by
  obtain ⟨k, hk, hkt⟩ := Arena.structure?_eq_some.mp ht
  obtain ⟨m, hm, hmk⟩ := h.exists_resolved hk
  obtain ⟨s, hs, -⟩ := hmk.exists_structure_of_later hkt
  obtain ⟨hi, rfl⟩ := List.getElem?_eq_some_iff.mp hs
  obtain ⟨hi', rfl⟩ := List.getElem?_eq_some_iff.mp hkt
  obtain ⟨j, hj, rfl⟩ := List.mem_iff_getElem.mp hg
  have hfields := (h.linked _ m k hx hm hk).fields.get hi hi'
  have hj' : j < m.structures[x.index].fields.length := hfields.length_eq ▸ hj
  exact ⟨m, k, _, _, hm, hk, hs, List.getElem_mem hj', hfields.get hj' hj⟩

/-- A mapping that was found is a structure of the module that it leads into. -/
theorem exists_structure_of_mapped {k : Module} {index : Nat} {y : StructureId}
    (hmapped : k.mappedStructure b index = .ok y) :
    ∃ x t v, k.MapsInto b x y.owner t ∧ v ∈ t.structures ∧ b.structure? y = some v := by
  obtain ⟨x, target, t, v, -, hinto, hv, rfl⟩ := Module.mappedStructure_eq_ok.mp hmapped
  obtain ⟨-, -, -, ht⟩ := id hinto
  have hnumbered := h.numbered ht
  obtain ⟨hplace, -⟩ := hnumbered.structureNamed? hv
  rw [hnumbered.id_eq]
  exact ⟨x, t, v, hinto, List.mem_of_getElem? hplace, Arena.structure?_eq_some.mpr ⟨t, ht, hplace⟩⟩

/-- What a structure of a linked module contains was contained in it before, or is mapped. -/
theorem embedded_of_worked {x y : StructureId} (hx : worked x.owner) (hy : y ∈ b.embedded x) :
    y ∈ mid.arena.embedded x ∨ y.owner = root ∨ y.owner.isFrom l.arena.length = true ∨
      b.isLaidOut y = true := by
  obtain ⟨t, ht, g, hg, hgy⟩ := Arena.mem_embedded.mp hy
  obtain ⟨m, k, s, f, hm, hk, hs, hf, ⟨-, htype⟩ | ⟨index, target, -, hmapped, htype⟩⟩ :=
    h.exists_field hx ht hg
  · refine .inl (Arena.mem_embedded.mpr ⟨s, Arena.structure?_eq_some.mpr ⟨m, hm, hs⟩, f, hf, ?_⟩)
    exact htype.symm.trans hgy
  · obtain rfl : target = y := FieldType.struct.inj (htype.symm.trans hgy)
    obtain ⟨mapping, u, v, hinto, hv, hstructure⟩ := h.exists_structure_of_mapped hmapped
    refine .inr ((h.mapsInto hx hm hk hinto).imp_right (.imp_right fun hdone => ?_))
    rw [Arena.isLaidOut_of_structure? hstructure]
    exact hdone v hv

/-- A module that was just read from a file names its own structures only. -/
theorem owner_of_embedded_new {x y : StructureId} (hx : x.owner.isFrom l.arena.length = true)
    (hy : y ∈ mid.arena.embedded x) : y.owner = x.owner := by
  obtain ⟨s, hs, f, hf, hfy⟩ := Arena.mem_embedded.mp hy
  obtain ⟨m, hm, hms⟩ := Arena.structure?_eq_some.mp hs
  obtain ⟨n, hn, hle⟩ := ModuleId.exists_slot_of_isFrom hx
  rw [hn] at hm ⊢
  exact (h.extending.registered n m hle hm).owner_of_struct (List.mem_of_getElem? hms) hf hfy

/-- Resolution changes nothing about what a structure in an older slot contains. -/
theorem embedded_of_old {x y : StructureId} (hx : ¬ x.owner.isFrom l.arena.length = true)
    (hy : y ∈ mid.arena.embedded x) : y ∈ l.arena.embedded x := by
  obtain ⟨s, hs, f, hf, hfy⟩ := Arena.mem_embedded.mp hy
  obtain ⟨k, hk, hks⟩ := Arena.structure?_eq_some.mp hs
  rcases h.extending.module?_cases hk with ⟨m, hm, hkm, -⟩ | ⟨n, hn, hle, -⟩
  · rw [hkm] at hks
    exact Arena.mem_embedded.mpr ⟨s, Arena.structure?_eq_some.mpr ⟨m, hm, hks⟩, f, hf, hfy⟩
  · rw [hn] at hx
    exact absurd (ModuleId.isFrom_slot.mpr hle) hx

/-- No structure gets a layout or loses one before structures are laid out. -/
theorem isLaidOut_eq (x : StructureId) : b.isLaidOut x = l.arena.isLaidOut x := by
  have hsame := h.extending.sameDone.trans h.links.sameDone
  rw [Bool.eq_iff_iff, Arena.isLaidOut_iff, Arena.isLaidOut_iff]
  constructor
  · rintro ⟨layout, hlayout⟩
    exact ⟨layout, hsame.symm.layoutOf?_eq_some hlayout⟩
  · rintro ⟨layout, hlayout⟩
    exact ⟨layout, hsame.layoutOf?_eq_some hlayout⟩

/-- What a structure contains once all is linked is in the root, or new, or laid out, unless it is
what a structure in an older slot contained before. -/
theorem embedded {x y : StructureId} (hy : y ∈ b.embedded x) :
    ¬ x.owner.isFrom l.arena.length = true ∧ y ∈ l.arena.embedded x ∨ y.owner = root ∨
      y.owner.isFrom l.arena.length = true ∨ b.isLaidOut y = true := by
  have hmid : y ∈ mid.arena.embedded x ∨ y.owner = root ∨ y.owner.isFrom l.arena.length = true ∨
      b.isLaidOut y = true := by
    by_cases hx : worked x.owner
    · exact h.embedded_of_worked hx hy
    · have hsame : b.structure? x = mid.arena.structure? x :=
        Arena.structure?_congr (h.unlinked _ hx)
      rw [Arena.embedded, hsame] at hy
      exact .inl hy
  rcases hmid with hown | hmapped
  · by_cases hx : x.owner.isFrom l.arena.length = true
    · exact .inr (.inr (.inl (h.owner_of_embedded_new hx hown ▸ hx)))
    · exact .inl ⟨hx, h.embedded_of_old hx hown⟩
  · exact .inr hmapped

/-- Laying out the root and the new modules comes to new structures, to such as have their layout,
and to those that the root led to before the call. -/
theorem reached {x y : StructureId} (hx : x.owner = root ∨ x.owner.isFrom l.arena.length = true)
    (hy : b.Reaches x y) :
    y.owner.isFrom l.arena.length = true ∨ b.isLaidOut y = true ∨
      ∃ z, z.owner = root ∧ l.arena.Reaches z y := by
  -- The third case carries the walk: as long as it stays in older slots, its steps are steps
  -- before the call.
  induction hy with
  | refl =>
    rcases hx with hroot | hnew
    · exact .inr (.inr ⟨x, hroot, .refl⟩)
    · exact .inl hnew
  | @tail y z _ hstep ih =>
    have hopen : b.isLaidOut y = false := hstep.1
    rcases h.embedded hstep.2 with ⟨hold, hbefore⟩ | hroot | hnew | hdone
    · rcases ih with hnew | hdone | ⟨w, hw, hreaches⟩
      · exact absurd hnew hold
      · rw [hopen] at hdone
        cases hdone
      · rw [h.isLaidOut_eq] at hopen
        exact .inr (.inr ⟨w, hw, hreaches.tail ⟨hopen, hbefore⟩⟩)
    · exact .inr (.inr ⟨z, hroot, .refl⟩)
    · exact .inl hnew
    · exact .inr (.inl hdone)

end LinkPhase
end ModuleLinker.Loader
