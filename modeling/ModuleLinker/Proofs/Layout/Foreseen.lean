import ModuleLinker.Proofs.Layout.Search
import ModuleLinker.Proofs.Registry.Evolution

/-!
# Layouts that are foreseen

Whether a structure can be laid out, and what its layout is then, is decided by its fields and by
the layouts of what it contains. So layouts that are known from elsewhere, say from another arena
with the same structures in it, foretell those that a pass finds: if they are what the placement
rules give, one structure from the other, then the pass goes well and finds just these.
-/
namespace ModuleLinker

/-- The layout of a type when those of structures are foretold. -/
def FieldType.layoutBy (foretold : StructureId → Option Layout) : FieldType → Option Layout
  | .fundamental t => if t.isStorable then some t.layout else none
  | .struct id => foretold id
  | .mapped _ => none

namespace Arena

/-- The layout that is foretold for a structure is the one that it has, or it has none and that
layout follows by the placement rules from those foretold for what it contains, which are foreseen
in the same way. -/
inductive Foreseen (a : Arena) (foretold : StructureId → Option Layout) : StructureId → Prop where
  | laidOut {id : StructureId} (same : foretold id = a.layoutOf? (.struct id))
      (there : a.isLaidOut id = true) : Foreseen a foretold id
  | opened {id : StructureId} {s : Structure} {layoutOf? : FieldType → Option Layout}
      {fields : List Field} {l : Layout} (there : a.structure? id = some s)
      (fresh : s.layout = .notComputed) (known : foretold id = some l)
      (placed : Placed layoutOf? fields l)
      (same : List.Forall₂ (fun f g => g.count = f.count ∧
        layoutOf? g.type = f.type.layoutBy foretold) s.fields fields)
      (below : ∀ y ∈ a.embedded id, Foreseen a foretold y) : Foreseen a foretold id

variable {a₀ a b : Arena} {foretold : StructureId → Option Layout} {path : List StructureId}
  {touched : StructureId → Prop} {id x : StructureId} {s : Structure}

/-- A structure that is foreseen is there. -/
theorem Foreseen.exists_structure? (h : a.Foreseen foretold id) :
    ∃ s, a.structure? id = some s := by
  cases h with
  | laidOut same there =>
    obtain ⟨s, hs, -⟩ := exists_structure?_of_isLaidOut there
    exact ⟨s, hs⟩
  | opened there => exact ⟨_, there⟩

theorem Foreseen.grounded (h : a.Foreseen foretold id) : a.Grounded id := by
  induction h with
  | laidOut same there => exact grounded_of_isLaidOut there
  | opened there fresh known placed same below ih => exact grounded_of_embedded ih

/-- A pass over the first arena is at the end of a path in the second one: whatever it has laid out
has the layout that was foretold. -/
structure Confirms (a₀ : Arena) (foretold : StructureId → Option Layout) (path : List StructureId)
    (a : Arena) : Prop where
  outline : a.outline = a₀.outline
  laidOut : ∀ x, a₀.isLaidOut x = true → a.isLaidOut x = true
  marks : ∀ x s, a.structure? x = some s → s.layout = .computing → x ∈ path
  agrees : ∀ x l, a₀.Foreseen foretold x → a.layoutOf? (.struct x) = some l → foretold x = some l

namespace Confirms

theorem start (hunmarked : ∀ x s, a.structure? x = some s → s.layout ≠ .computing) :
    Confirms a foretold [] a where
  outline := rfl
  laidOut := fun _ h => h
  marks := fun x s hs hmarked => absurd hmarked (hunmarked x s hs)
  agrees := by
    intro x l hx hl
    cases hx with
    | laidOut same there => rw [same, hl]
    | opened there fresh =>
      obtain ⟨s, hs, hdone⟩ := layoutOf?_struct.mp hl
      obtain rfl := Option.some.inj (hs.symm.trans there)
      rw [fresh] at hdone
      cases hdone

variable (h : Confirms a₀ foretold path a)
include h

theorem mark (hs : a.structure? id = some s) (hlayout : s.layout = .notComputed) :
    Confirms a₀ foretold (id :: path) (a.setStructure id { s with layout := .computing }) := by
  have hother : ∀ x l, (a.setStructure id { s with layout := .computing }).layoutOf? (.struct x) =
      some l ↔ a.layoutOf? (.struct x) = some l := by
    intro x l
    by_cases hx : x = id
    · subst hx
      simp [layoutOf?, structure?_setStructure_self hs, hs, hlayout, LayoutState.layout?]
    · simp [layoutOf?, structure?_setStructure_of_ne hx]
  refine ⟨?_, fun x hx => ?_, fun x t ht hmarked => ?_, fun x l hx hl => ?_⟩
  · exact (outline_setStructure hs (s.outline_layout .computing)).trans h.outline
  · obtain ⟨l, hl⟩ := isLaidOut_iff.mp (h.laidOut x hx)
    exact isLaidOut_iff.mpr ⟨l, (hother x l).mpr hl⟩
  · by_cases hx : x = id
    · rw [hx]
      exact List.mem_cons_self
    · rw [structure?_setStructure_of_ne hx] at ht
      exact List.mem_cons_of_mem _ (h.marks x t ht hmarked)
  · exact h.agrees x l hx ((hother x l).mp hl)

/-- What a pass finds for a structure that is foreseen is what was foretold, since it was so for all
that the structure contains. -/
theorem agrees_laysOut (hpass : LaysOut touched a b) (hx : a₀.Foreseen foretold x) :
    ∀ l, b.layoutOf? (.struct x) = some l → foretold x = some l := by
  induction hx with
  | @laidOut x same there =>
    intro l hl
    obtain ⟨l', hl'⟩ := isLaidOut_iff.mp (h.laidOut x there)
    obtain rfl : l' = l := Option.some.inj ((hpass.layoutOf?_eq_some hl').symm.trans hl)
    exact h.agrees x l' (.laidOut same there) hl'
  | @opened x s layoutOf' fields l there fresh known placed same below ih =>
    intro l' hl'
    obtain ⟨t, ht, hdone⟩ := layoutOf?_struct.mp hl'
    obtain ⟨u, hu, -⟩ := exists_structure?_of_outline_eq hpass.outline.symm ht
    rcases hpass.settles x u t hu ht with rfl | ⟨-, -, l'', hl'', hplaced⟩
    · exact h.agrees x l' (.opened there fresh known placed same below)
        (layoutOf?_struct.mpr ⟨t, hu, hdone⟩)
    · obtain rfl : l'' = l' := LayoutState.done.inj (hl''.symm.trans hdone)
      have houtline : t.outline = s.outline := by
        obtain ⟨v, hv, hvs⟩ := exists_structure?_of_outline_eq (hpass.outline.trans h.outline) there
        obtain rfl : v = t := Option.some.inj (hv.symm.trans ht)
        exact hvs
      have hfields := Structure.forall₂_fields_of_outline_eq houtline
      have hsame : List.Forall₂ (fun f g => g.count = f.count ∧
          ∀ l, b.layoutOf? f.type = some l → layoutOf' g.type = some l) t.fields fields := by
        refine List.forall₂_of_length_eq_of_get (hfields.length_eq.symm.trans same.length_eq)
          fun i hi hi' => ?_
        have hsi : i < s.fields.length := hfields.length_eq ▸ hi
        obtain ⟨hcount, htype⟩ := hfields.get hsi hi
        obtain ⟨hcount', htype'⟩ := same.get hsi hi'
        refine ⟨hcount'.trans hcount.symm, fun element helement => ?_⟩
        rw [htype] at helement
        rw [htype']
        cases hf : (s.fields.get ⟨i, hsi⟩).type with
        | fundamental t => rwa [hf] at helement
        | mapped index =>
          rw [hf] at helement
          cases helement
        | struct y =>
          rw [hf] at helement
          have hy := (mem_embedded_of_structure? there).mpr ⟨_, List.get_mem _ _, hf⟩
          exact ih y hy element helement
      obtain ⟨-, rfl⟩ := hplaced.unique placed hsame
      exact known

theorem laysOut (hpass : LaysOut touched a b) : Confirms a₀ foretold path b where
  outline := hpass.outline.trans h.outline
  laidOut := fun x hx => hpass.isLaidOut (h.laidOut x hx)
  marks := by
    intro x t ht hmarked
    obtain ⟨u, hu, -⟩ := exists_structure?_of_outline_eq hpass.outline.symm ht
    rcases hpass.settles x u t hu ht with rfl | ⟨-, -, l, hl, -⟩
    · exact h.marks x t hu hmarked
    · rw [hl] at hmarked
      cases hmarked
  agrees := fun x l hx => h.agrees_laysOut hpass hx l

end Confirms

/-! ## Fields -/

section
variable {fuel : Nat} {fs gs : List Field} {layoutOf' : FieldType → Option Layout}
  (hembed : ∀ a, Confirms a₀ foretold path a → ∀ f ∈ fs, ∀ y, f.type = .struct y →
    a₀.Foreseen foretold y ∧ ∃ l b, a.layOut fuel y = (.ok l, b))
include hembed

theorem elementLayout_foreseen (ha : Confirms a₀ foretold path a) {f : Field} (hf : f ∈ fs)
    {l : Layout} (hl : f.type.layoutBy foretold = some l) (invalid : LoadError) :
    ∃ b, a.elementLayout (layOut fuel) invalid f.type = (.ok l, b) ∧
      Confirms a₀ foretold path b := by
  cases htype : f.type with
  | fundamental t =>
    rw [htype] at hl
    simp only [FieldType.layoutBy] at hl
    split at hl
    · next hstorable => exact ⟨a, by simpa [elementLayout, hstorable] using hl, ha⟩
    · cases hl
  | mapped index =>
    rw [htype] at hl
    cases hl
  | struct y =>
    rw [htype] at hl
    obtain ⟨hy, l', b, hlay⟩ := hembed a ha f hf y htype
    obtain ⟨hpass, hl'⟩ := layOut_spec hlay
    have hb := ha.laysOut hpass
    obtain rfl : l = l' := Option.some.inj (hl.symm.trans (hb.agrees y l' hy (hl' l' rfl)))
    exact ⟨b, hlay, hb⟩

/-- Fields whose places were foretold are placed there. -/
theorem placeFields_foreseen (ha : Confirms a₀ foretold path a) {frame : Frame}
    {stop alignment : Nat}
    (hplaced : FieldsPlaced layoutOf' frame.extent frame.alignment gs stop alignment)
    (hsame : List.Forall₂ (fun f g => g.count = f.count ∧
      layoutOf' g.type = f.type.layoutBy foretold) fs gs)
    (hlt : stop < addressLimit) (owner : ModulePath) (name : String) :
    ∃ next b, a.placeFields (layOut fuel) owner name frame fs = (.ok next, b) ∧
      next.extent = stop := by
  induction hsame generalizing a frame with
  | nil =>
    cases hplaced
    exact ⟨frame, a, rfl, rfl⟩
  | @cons f g fs gs hfg _ ih =>
    cases hplaced with
    | @cons _ _ _ _ _ _ element type offset rest =>
      obtain ⟨b, helement, hb⟩ := elementLayout_foreseen hembed ha List.mem_cons_self
        (hfg.2 ▸ type) (.invalidFieldType name frame.placed.length)
      rw [offset, Frame.alignmentOf_congr hfg.1, Frame.extentOf_congr hfg.1] at rest
      let next : Frame :=
        ⟨frame.placed ++ [{ f with offset := alignUp frame.extent (Frame.alignmentOf f element) }],
          alignUp frame.extent (Frame.alignmentOf f element) + Frame.extentOf f element,
          max frame.alignment (Frame.alignmentOf f element)⟩
      have hrest : FieldsPlaced layoutOf' next.extent next.alignment gs stop alignment := rest
      have hplace : frame.place? f element = some next := if_pos (rest.start_le.trans_lt hlt)
      obtain ⟨last, c, hfields, hlast⟩ :=
        ih (fun a ha f hf => hembed a ha f (List.mem_cons_of_mem _ hf)) hb hrest
      refine ⟨last, c, ?_, hlast⟩
      simp only [placeFields, helement, hplace]
      exact hfields

end

/-! ## Structures -/

/-- A structure that is foreseen is laid out, whatever the pass has laid out before. -/
theorem layOut_foreseen {fuel : Nat} (ha : Confirms a₀ foretold path a) (hnodup : path.Nodup)
    (hthere : ∀ x ∈ path, ∃ s, a₀.structure? x = some s)
    (hleads : ∀ x ∈ path, Relation.TransGen a₀.Opens x id) (hid : a₀.Foreseen foretold id)
    (hfuel : fuel + path.length = a₀.structureCount + 1) :
    ∃ l b, a.layOut fuel id = (.ok l, b) := by
  induction fuel generalizing path a id with
  | zero =>
    have hlength := length_le_structureCount hnodup hthere
    omega
  | succ fuel ih =>
    obtain ⟨s₀, hs₀⟩ := hid.exists_structure?
    obtain ⟨s, hs, houtline⟩ := exists_structure?_of_outline_eq ha.outline hs₀
    obtain ⟨m, hm, hms⟩ := structure?_eq_some.mp hs
    have hfresh : id ∉ path := fun hmem => not_transGen_of_acc hid.grounded (hleads id hmem)
    cases hlayout : s.layout with
    | done l => exact ⟨l, a, by simp only [layOut, hm, hms, hlayout]⟩
    | computing => exact absurd (ha.marks id s hs hlayout) hfresh
    | notComputed =>
      have hnot : s.layout.isDone = false := by rw [hlayout]; rfl
      cases hid with
      | laidOut same there =>
        have hdone := ha.laidOut id there
        rw [isLaidOut_of_structure? hs, hnot] at hdone
        cases hdone
      | @opened _ t layoutOf' fields l there fresh known placed same below =>
        obtain rfl : t = s₀ := Option.some.inj (there.symm.trans hs₀)
        have hopen : a₀.isLaidOut id = false := by
          rw [isLaidOut_of_structure? hs₀, fresh]
          rfl
        have hembedded : ∀ f ∈ s.fields, ∀ y, f.type = .struct y → y ∈ a₀.embedded id := by
          intro f hf y hy
          rw [← embedded_eq_of_outline_eq ha.outline]
          exact (mem_embedded_of_structure? hs).mpr ⟨f, hf, hy⟩
        -- Below the structure the path is one longer, and all on it leads to what is contained.
        have hembed : ∀ c, Confirms a₀ foretold (id :: path) c → ∀ f ∈ s.fields, ∀ y,
            f.type = .struct y → a₀.Foreseen foretold y ∧ ∃ l b, c.layOut fuel y = (.ok l, b) := by
          intro c hc f hf y hy
          have hcontained := hembedded f hf y hy
          have hstep : a₀.Opens id y := ⟨hopen, hcontained⟩
          refine ⟨below y hcontained, ih hc (List.nodup_cons.mpr ⟨hfresh, hnodup⟩)
            (List.forall_mem_cons.mpr ⟨⟨t, there⟩, hthere⟩)
            (List.forall_mem_cons.mpr ⟨.single hstep, fun x hx => (hleads x hx).tail hstep⟩)
            (below y hcontained) ?_⟩
          rw [List.length_cons]
          omega
        have hsame : List.Forall₂ (fun f g => g.count = f.count ∧
            layoutOf' g.type = f.type.layoutBy foretold) s.fields fields :=
          forall₂_comp (Structure.forall₂_fields_of_outline_eq houtline.symm) same
            fun f g e hfg hge => ⟨hge.1.trans hfg.1, hfg.2 ▸ hge.2⟩
        have hstart : FieldsPlaced layoutOf' ({} : Frame).extent ({} : Frame).alignment fields
            l.rawSize l.rawAlignment := placed.fields
        obtain ⟨frame, c, hplace, hextent⟩ := placeFields_foreseen hembed (ha.mark hs hlayout)
          hstart hsame placed.rawSize_lt m.path s.name
        obtain ⟨l', hl'⟩ : ∃ l', frame.layout? = some l' := by
          have hbounded := placed.bounded
          rw [placed.size, ← hextent] at hbounded
          exact ⟨_, by rw [Frame.layout?, objectSize?, bounded?, if_pos hbounded]; rfl⟩
        refine ⟨l', c.setStructure id { s with fields := frame.placed, layout := .done l' }, ?_⟩
        simp only [layOut, hm, hms, hlayout, hplace, hl']

/-- A pass over structures that are foreseen goes well. -/
theorem layOutAll_foreseen {ids : List StructureId} (ha : Confirms a₀ foretold [] a)
    (hids : ∀ id ∈ ids, a₀.Foreseen foretold id) :
    ∃ b, a.layOutAll (a₀.structureCount + 1) ids = (.ok (), b) := by
  induction ids generalizing a with
  | nil => exact ⟨a, rfl⟩
  | cons id ids ih =>
    obtain ⟨l, b, hlay⟩ : ∃ l b, a.layOut (a₀.structureCount + 1) id = (.ok l, b) :=
      layOut_foreseen ha List.nodup_nil nofun nofun (hids id List.mem_cons_self) rfl
    have hb := ha.laysOut (layOut_spec hlay).1
    obtain ⟨c, hc⟩ := ih hb fun x hx => hids x (List.mem_cons_of_mem _ hx)
    refine ⟨c, ?_⟩
    simp only [layOutAll, hlay]
    exact hc

theorem computeLayouts_foreseen {targets : List ModuleId}
    (hunmarked : ∀ x s, a.structure? x = some s → s.layout ≠ .computing)
    (hids : ∀ id ∈ targets.flatMap a.structureIds, a.Foreseen foretold id) :
    ∃ b, a.computeLayouts targets = (.ok (), b) := layOutAll_foreseen (.start hunmarked) hids

end Arena
end ModuleLinker
