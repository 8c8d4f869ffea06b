import ModuleLinker.Proofs.Layout.Pass

/-!
# Closed layouts

The layouts of an arena are closed if a structure with a layout contains only structures that are
there and have layouts too, contains nothing that contains it, and has the offsets and the layout
that the placement rules give from the layouts of its field types as they are. Only structures
with a layout matter for this, and a layout pass finishes a structure when those that it contains
are finished, so a pass keeps the layouts closed, be it successful or not.
-/
namespace ModuleLinker.Arena

/-- A type of which a field can be once it is laid out: a built-in type with storage, or a
structure that is there and has a layout. -/
def Stored (a : Arena) (t : FieldType) : Prop :=
  (∃ b : Fundamental, t = .fundamental b ∧ b.isStorable = true) ∨
    ∃ id s, t = .struct id ∧ a.structure? id = some s ∧ s.layout.isDone = true

/-- A structure with a layout, and one that it contains by value. -/
def Embeds (a : Arena) (id child : StructureId) : Prop :=
  a.isLaidOut id = true ∧ child ∈ a.embedded id

/-- Layouts on which everything that has a layout can rely. -/
structure LayoutsClosed (a : Arena) : Prop where
  stored : ∀ id s, a.structure? id = some s → s.layout.isDone = true →
    ∀ f ∈ s.fields, a.Stored f.type
  acyclic : ∀ id, ¬ Relation.TransGen a.Embeds id id
  placed : ∀ id s l, a.structure? id = some s → s.layout = .done l →
    Placed a.layoutOf? s.fields l

/-- The two arenas have the same structures with a layout. -/
def SameDone (a b : Arena) : Prop :=
  ∀ id s, s.layout.isDone = true → (a.structure? id = some s ↔ b.structure? id = some s)

variable {a b c : Arena} {touched : StructureId → Prop}

theorem stored_iff {t : FieldType} : a.Stored t ↔ ∃ l, a.layoutOf? t = some l := by
  cases t with
  | fundamental t => cases h : t.isStorable <;> simp [Stored, layoutOf?, h]
  | mapped index => simp [Stored, layoutOf?]
  | struct id =>
    simp only [Stored, layoutOf?_struct, LayoutState.isDone_iff, reduceCtorEq, false_and,
      exists_false, false_or]
    constructor
    · rintro ⟨_, s, ⟨⟩, hs, l, hl⟩
      exact ⟨l, s, hs, hl⟩
    · rintro ⟨l, s, hs, hl⟩
      exact ⟨id, s, rfl, hs, l, hl⟩

/-- A type that has a layout takes room. -/
theorem takesRoom_of_layoutOf? {t : FieldType} {l : Layout} (h : a.layoutOf? t = some l) :
    t.TakesRoom := by
  cases t with
  | fundamental t =>
    simp only [layoutOf?] at h
    split at h
    · next hstorable => exact .inl hstorable
    · cases h
  | struct id => exact .inr ⟨id, rfl⟩
  | mapped index => cases h

/-- No types but those with storage are in a placed structure. -/
theorem stored_of_placed {fields : List Field} {l : Layout} (h : Placed a.layoutOf? fields l)
    {f : Field} (hf : f ∈ fields) : a.Stored f.type := stored_iff.mpr (h.exists_layout hf)

theorem isLaidOut_of_stored {id : StructureId} (h : a.Stored (.struct id)) :
    a.isLaidOut id = true := isLaidOut_iff.mpr (stored_iff.mp h)

namespace SameDone

theorem symm (h : SameDone a b) : SameDone b a := fun id s hs => (h id s hs).symm

theorem trans (h : SameDone a b) (k : SameDone b c) : SameDone a c :=
  fun id s hs => (h id s hs).trans (k id s hs)

theorem layoutOf?_eq_some (h : SameDone a b) {t : FieldType} {l : Layout}
    (ht : a.layoutOf? t = some l) : b.layoutOf? t = some l := by
  cases t with
  | fundamental t => exact ht
  | mapped index => exact ht
  | struct id =>
    obtain ⟨s, hs, hl⟩ := layoutOf?_struct.mp ht
    exact layoutOf?_struct.mpr ⟨s, (h id s (by simp [hl])).mp hs, hl⟩

theorem embeds (h : SameDone a b) {x y : StructureId} (hx : a.Embeds x y) : b.Embeds x y := by
  obtain ⟨hdone, hy⟩ := hx
  obtain ⟨s, hs, f, hf, hfy⟩ := mem_embedded.mp hy
  rw [isLaidOut_of_structure? hs] at hdone
  have hb := (h x s hdone).mp hs
  exact ⟨by rw [isLaidOut_of_structure? hb, hdone], mem_embedded.mpr ⟨s, hb, f, hf, hfy⟩⟩

end SameDone

/-- Replacing a structure without a layout by another one without a layout. -/
theorem sameDone_setStructure {id : StructureId} {old s : Structure}
    (h : a.structure? id = some old) (hold : old.layout.isDone = false)
    (hs : s.layout.isDone = false) : SameDone a (a.setStructure id s) := by
  intro x t ht
  by_cases hx : x = id
  · subst hx
    rw [h, structure?_setStructure_self h]
    constructor
    · rintro ⟨⟩
      simp [hold] at ht
    · rintro ⟨⟩
      simp [hs] at ht
  · rw [structure?_setStructure_of_ne hx]

namespace LayoutsClosed

theorem nil : LayoutsClosed [] := by
  have hnone : ∀ id, structure? [] id = none := by
    rintro ⟨id, index⟩
    cases id <;> simp [structure?, module?]
  refine ⟨fun id s hs => by simp [hnone] at hs, ?_, fun id s l hs => by simp [hnone] at hs⟩
  intro id hcycle
  obtain ⟨y, ⟨hlaid, -⟩, -⟩ := (Relation.TransGen.head'_iff).mp hcycle
  simp [isLaidOut, hnone] at hlaid

/-- Structures with a layout that stay what they were, with all that they contain. What has no
layout does not matter. -/
theorem of_kept (h : LayoutsClosed a)
    (hkept : ∀ id s, b.structure? id = some s → s.layout.isDone = true → a.structure? id = some s)
    (hwhole : ∀ id, b.isLaidOut id = true → ∀ y ∈ b.embedded id, b.isLaidOut y = true) :
    LayoutsClosed b := by
  have hlayout : ∀ id s, b.structure? id = some s → s.layout.isDone = true → ∀ f ∈ s.fields,
      ∀ l, a.layoutOf? f.type = some l → b.layoutOf? f.type = some l := by
    intro id s hs hdone f hf l hl
    cases htype : f.type with
    | fundamental t => rwa [htype] at hl
    | mapped index => rwa [htype] at hl
    | struct y =>
      have hlaid : b.isLaidOut id = true := by rw [isLaidOut_of_structure? hs, hdone]
      obtain ⟨t, ht, htdone⟩ := exists_structure?_of_isLaidOut
        (hwhole id hlaid y ((mem_embedded_of_structure? hs).mpr ⟨f, hf, htype⟩))
      rw [htype, layoutOf?_struct] at hl
      obtain ⟨t', ht', hl⟩ := hl
      obtain rfl : t = t' := Option.some.inj ((hkept y t ht htdone).symm.trans ht')
      exact layoutOf?_struct.mpr ⟨t, ht, hl⟩
  have hembeds : ∀ x y, b.Embeds x y → a.Embeds x y := by
    rintro x y ⟨hlaid, hy⟩
    obtain ⟨s, hs, f, hf, hfy⟩ := mem_embedded.mp hy
    have hdone : s.layout.isDone = true := by rwa [isLaidOut_of_structure? hs] at hlaid
    have ha := hkept x s hs hdone
    exact ⟨by rw [isLaidOut_of_structure? ha, hdone], mem_embedded.mpr ⟨s, ha, f, hf, hfy⟩⟩
  refine ⟨fun id s hs hdone f hf => ?_,
    fun id hcycle => h.acyclic id (Relation.TransGen.mono hembeds _ _ hcycle),
    fun id s l hs hl => ?_⟩
  · obtain ⟨l, hl⟩ := stored_iff.mp (h.stored id s (hkept id s hs hdone) hdone f hf)
    exact stored_iff.mpr ⟨l, hlayout id s hs hdone f hf l hl⟩
  · have hdone : s.layout.isDone = true := by simp [hl]
    exact (h.placed id s l (hkept id s hs hdone) hl).mono_of_mem (hlayout id s hs hdone)

/-- What a structure with a layout contains has a layout. -/
theorem isLaidOut_of_embeds (h : LayoutsClosed a) {x y : StructureId} (hxy : a.Embeds x y) :
    a.isLaidOut y = true := by
  obtain ⟨hlaid, hy⟩ := hxy
  obtain ⟨s, hs, f, hf, hfy⟩ := mem_embedded.mp hy
  rw [isLaidOut_of_structure? hs] at hlaid
  exact isLaidOut_of_stored (hfy ▸ h.stored x s hs hlaid f hf)

/-- Only structures with a layout matter. -/
theorem of_sameDone (h : LayoutsClosed a) (hab : SameDone a b) : LayoutsClosed b := by
  refine h.of_kept (fun id s hs hdone => (hab id s hdone).mpr hs) fun id hlaid y hy => ?_
  obtain ⟨s, hs, hdone⟩ :=
    exists_structure?_of_isLaidOut (h.isLaidOut_of_embeds (hab.symm.embeds ⟨hlaid, hy⟩))
  rw [isLaidOut_of_structure? ((hab y s hdone).mp hs), hdone]

/-- Nothing with a layout contains a structure that has just got its own. -/
theorem ne_of_embeds_setStructure (h : LayoutsClosed a) {id : StructureId} {old s : Structure}
    {l : Layout} (hid : a.structure? id = some old) (hold : old.layout.isDone = false)
    (hplaced : Placed a.layoutOf? s.fields l) {x y : StructureId}
    (hxy : (a.setStructure id s).Embeds x y) : y ≠ id := by
  rintro rfl
  obtain ⟨hdone, hy⟩ := hxy
  obtain ⟨t, ht, f, hf, hfy⟩ := mem_embedded.mp hy
  have hlaid : a.isLaidOut y = true := by
    apply isLaidOut_of_stored
    rw [← hfy]
    by_cases hx : x = y
    · subst hx
      obtain rfl : t = s := Option.some.inj (ht.symm.trans (structure?_setStructure_self hid s))
      exact stored_of_placed hplaced hf
    · rw [isLaidOut_of_structure? ht] at hdone
      rw [structure?_setStructure_of_ne hx] at ht
      exact h.stored x t ht hdone f hf
  rw [isLaidOut_of_structure? hid, hold] at hlaid
  cases hlaid

theorem acyclic_setStructure (h : LayoutsClosed a) {id : StructureId} {old s : Structure}
    {l : Layout} (hid : a.structure? id = some old) (hold : old.layout.isDone = false)
    (hplaced : Placed a.layoutOf? s.fields l) (x : StructureId) :
    ¬ Relation.TransGen (a.setStructure id s).Embeds x x := by
  have hnew := fun x y => h.ne_of_embeds_setStructure hid hold hplaced (x := x) (y := y)
  have hedge : ∀ x y, (a.setStructure id s).Embeds x y → x ≠ id → a.Embeds x y := by
    rintro x y ⟨hdone, hy⟩ hx
    rw [isLaidOut, structure?_setStructure_of_ne hx] at hdone
    rw [embedded, structure?_setStructure_of_ne hx] at hy
    exact ⟨hdone, hy⟩
  -- A way that does not start at the new structure never comes to it.
  have hway : ∀ x y, Relation.TransGen (a.setStructure id s).Embeds x y → x ≠ id →
      Relation.TransGen a.Embeds x y := by
    intro x y hxy
    induction hxy using Relation.TransGen.head_induction_on with
    | single hstep => exact fun hx => .single (hedge _ _ hstep hx)
    | head hstep _ ih => exact fun hx => .head (hedge _ _ hstep hx) (ih (hnew _ _ hstep))
  intro hcycle
  obtain ⟨y, -, hlast⟩ := Relation.TransGen.tail'_iff.mp hcycle
  exact h.acyclic x (hway x x hcycle (hnew _ _ hlast))

/-- A structure gets its layout when all that it contains have theirs. Nothing with a layout
contains it, since it had none, so it closes no cycle. -/
theorem setStructure (h : LayoutsClosed a) {id : StructureId} {old s : Structure} {l : Layout}
    (hid : a.structure? id = some old) (hold : old.layout.isDone = false)
    (hs : s.layout = .done l) (hplaced : Placed a.layoutOf? s.fields l) :
    LayoutsClosed (a.setStructure id s) := by
  have hnone : old.layout.layout? = none := by
    simpa [LayoutState.isDone] using hold
  have hself := structure?_setStructure_self hid s
  have hmono : ∀ t l, a.layoutOf? t = some l → (a.setStructure id s).layoutOf? t = some l :=
    fun t l => layoutOf?_setStructure hid hnone s
  have hstored : ∀ t, a.Stored t → (a.setStructure id s).Stored t := by
    intro t ht
    obtain ⟨l, hl⟩ := stored_iff.mp ht
    exact stored_iff.mpr ⟨l, hmono t l hl⟩
  refine ⟨?_, h.acyclic_setStructure hid hold hplaced, ?_⟩
  · intro x t ht hdone f hf
    by_cases hx : x = id
    · subst hx
      obtain rfl : t = s := Option.some.inj (ht.symm.trans hself)
      exact hstored _ (stored_of_placed hplaced hf)
    · rw [structure?_setStructure_of_ne hx] at ht
      exact hstored _ (h.stored x t ht hdone f hf)
  · intro x t l' ht hl'
    by_cases hx : x = id
    · subst hx
      obtain rfl : t = s := Option.some.inj (ht.symm.trans hself)
      obtain rfl : l = l' := by simpa [hs] using hl'
      exact hplaced.mono hmono
    · rw [structure?_setStructure_of_ne hx] at ht
      exact (h.placed x t l' ht hl').mono hmono

theorem elementLayout {embed : Arena → StructureId → Attempt Arena Layout}
    (hembed : ∀ a id r b, embed a id = (r, b) → LayoutsClosed a → LayoutsClosed b)
    (h : LayoutsClosed a) {invalid : LoadError} {t : FieldType} {r : Except LoadError Layout}
    (ht : a.elementLayout embed invalid t = (r, b)) : LayoutsClosed b := by
  cases t with
  | fundamental t =>
    simp only [Arena.elementLayout] at ht
    split at ht <;> cases ht <;> exact h
  | mapped index =>
    cases ht
    exact h
  | struct child => exact hembed a child r b ht h

theorem placeFields {embed : Arena → StructureId → Attempt Arena Layout}
    (hembed : ∀ a id r b, embed a id = (r, b) → LayoutsClosed a → LayoutsClosed b)
    (h : LayoutsClosed a) {owner : ModulePath} {name : String} {frame : Frame} {fs : List Field}
    {r : Except LoadError Frame} (hp : a.placeFields embed owner name frame fs = (r, b)) :
    LayoutsClosed b := by
  induction fs generalizing a frame with
  | nil =>
    cases hp
    exact h
  | cons f fs ih =>
    simp only [Arena.placeFields] at hp
    split at hp
    · next e c he =>
      cases hp
      exact h.elementLayout hembed he
    · next element c he =>
      have hc := h.elementLayout hembed he
      split at hp
      · cases hp
        exact hc
      · exact ih hc hp

/-- Laying a structure out keeps the layouts closed. -/
theorem layOut (h : LayoutsClosed a) {fuel : Nat} {id : StructureId} {r : Except LoadError Layout}
    (hl : a.layOut fuel id = (r, b)) : LayoutsClosed b := by
  induction fuel generalizing a b id r with
  | zero =>
    cases hl
    exact h
  | succ fuel ih =>
    rcases layOut_cases hl with ⟨rfl, -⟩ | ⟨s, l, -, -, -, rfl⟩ |
      ⟨s, fuel', owner, r', c, hfuel, hs, hlayout, hplace, hend⟩
    · exact h
    · exact h
    · obtain rfl : fuel = fuel' := Nat.succ.inj hfuel
      have hnot : s.layout.isDone = false := by rw [hlayout]; rfl
      have hc : LayoutsClosed c :=
        (h.of_sameDone (sameDone_setStructure hs hnot rfl)).placeFields
          (fun _ _ _ _ hl h => ih h hl) hplace
      obtain ⟨hlays, hframe⟩ := placeFields_spec (fun _ _ _ _ => layOut_spec) hplace
      obtain ⟨hmarked, -⟩ := hlays.of_marked hs hlayout (.inl rfl)
      rcases hend with ⟨e, -, rfl⟩ | ⟨frame, l, rfl, hlay, -, rfl⟩
      · exact hc.of_sameDone (sameDone_setStructure hmarked rfl hnot)
      · obtain ⟨gs, -, hplaced, hrule⟩ := hframe frame rfl
        obtain rfl : frame.placed = gs := by simpa using hplaced
        exact hc.setStructure hmarked rfl rfl (Frame.placed_of_layout? hlay hrule)

/-- A layout pass keeps the layouts closed. -/
theorem computeLayouts (h : LayoutsClosed a) {targets : List ModuleId} {r : Except LoadError Unit}
    (hl : a.computeLayouts targets = (r, b)) : LayoutsClosed b := by
  simp only [Arena.computeLayouts] at hl
  generalize targets.flatMap a.structureIds = ids at hl
  generalize a.structureCount + 1 = fuel at hl
  induction ids generalizing a with
  | nil =>
    cases hl
    exact h
  | cons id ids ih =>
    simp only [layOutAll] at hl
    split at hl
    · next hid =>
      cases hl
      exact h.layOut hid
    · next hid => exact ih (h.layOut hid) hl

end LayoutsClosed
end ModuleLinker.Arena
