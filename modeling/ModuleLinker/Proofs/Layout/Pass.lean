import ModuleLinker.Proofs.Layout.Outline
import Mathlib.Logic.Relation

/-!
# What a layout pass does

Laying out a structure changes nothing but structures without a layout that it leads to, and each
of those either stays as it is or has afterwards offsets and a layout that follow the placement
rules, judged by the layouts that are there at the end. That holds of a pass that fails as well:
what it has finished stays finished, and its marks are gone.
-/
namespace ModuleLinker.Arena

/-- The current layout of the type of a field. -/
def layoutOf? (a : Arena) : FieldType → Option Layout
  | .fundamental t => if t.isStorable then some t.layout else none
  | .struct id => (a.structure? id).bind fun s => s.layout.layout?
  | .mapped _ => none

/-- A structure without layout, and one that it contains. -/
def Opens (a : Arena) (id child : StructureId) : Prop :=
  a.isLaidOut id = false ∧ child ∈ a.embedded id

/-- The structures that laying out the given one may come to. -/
def Reaches (a : Arena) : StructureId → StructureId → Prop := Relation.ReflTransGen a.Opens

/-- What a structure may be after a pass: itself, or if it had no layout, a structure placed by
the rules. -/
def Settles (layoutOf? : FieldType → Option Layout) (s t : Structure) : Prop :=
  s.layout = .notComputed ∧ ∃ l, t.layout = .done l ∧ Placed layoutOf? t.fields l

/-- A pass over structures with the property `touched`: outlines stay, and a structure that is
not the same as before settled. -/
structure LaysOut (touched : StructureId → Prop) (a b : Arena) : Prop where
  outline : b.outline = a.outline
  settles : ∀ id s t, a.structure? id = some s → b.structure? id = some t →
    t = s ∨ touched id ∧ Settles b.layoutOf? s t

variable {a b c : Arena} {touched touched' : StructureId → Prop}

theorem layoutOf?_struct {id : StructureId} {l : Layout} :
    a.layoutOf? (.struct id) = some l ↔ ∃ s, a.structure? id = some s ∧ s.layout = .done l := by
  simp [layoutOf?, Option.bind_eq_some_iff]

theorem isLaidOut_iff {id : StructureId} :
    a.isLaidOut id = true ↔ ∃ l, a.layoutOf? (.struct id) = some l := by
  cases h : a.structure? id <;> simp [isLaidOut, layoutOf?, h]

theorem exists_structure?_of_isLaidOut {id : StructureId} (h : a.isLaidOut id = true) :
    ∃ s, a.structure? id = some s ∧ s.layout.isDone = true := by
  obtain ⟨l, hl⟩ := isLaidOut_iff.mp h
  obtain ⟨s, hs, hlayout⟩ := layoutOf?_struct.mp hl
  exact ⟨s, hs, LayoutState.isDone_iff.mpr ⟨l, hlayout⟩⟩

theorem isLaidOut_of_structure? {id : StructureId} {s : Structure}
    (h : a.structure? id = some s) : a.isLaidOut id = s.layout.isDone := by
  simp [isLaidOut, h]

theorem notComputed_of_not_isLaidOut {id : StructureId} {s : Structure}
    (h : a.structure? id = some s) (hopen : a.isLaidOut id = false)
    (hunmarked : s.layout ≠ .computing) : s.layout = .notComputed := by
  rw [isLaidOut_of_structure? h] at hopen
  cases hlayout : s.layout with
  | notComputed => rfl
  | computing => exact absurd hlayout hunmarked
  | done l =>
    rw [hlayout] at hopen
    cases hopen

/-- Layouts that are there stay when a structure without one is replaced. -/
theorem layoutOf?_setStructure {id : StructureId} {old : Structure}
    (h : a.structure? id = some old) (hold : old.layout.layout? = none) (s : Structure)
    {t : FieldType} {l : Layout} (ht : a.layoutOf? t = some l) :
    (a.setStructure id s).layoutOf? t = some l := by
  cases t with
  | fundamental t => exact ht
  | mapped index => exact ht
  | struct other =>
    have hne : other ≠ id := by
      rintro rfl
      simp [layoutOf?, h, hold] at ht
    simpa [layoutOf?, structure?_setStructure_of_ne hne] using ht

namespace LaysOut

@[refl] theorem refl (touched : StructureId → Prop) (a : Arena) : LaysOut touched a a :=
  ⟨rfl, fun _ _ _ hs ht => .inl (Option.some.inj (ht.symm.trans hs))⟩

theorem widen (h : LaysOut touched a b) (hw : ∀ id, touched id → touched' id) :
    LaysOut touched' a b :=
  ⟨h.outline, fun id s t hs ht => (h.settles id s t hs ht).imp_right (And.imp_left (hw id))⟩

/-- A structure with a layout is the same after a pass. -/
theorem structure?_of_done (h : LaysOut touched a b) {id : StructureId} {s : Structure}
    (hs : a.structure? id = some s) (hdone : s.layout.isDone = true) :
    b.structure? id = some s := by
  obtain ⟨t, ht, -⟩ := exists_structure?_of_outline_eq h.outline hs
  rcases h.settles id s t hs ht with rfl | ⟨-, hlayout, -⟩
  · exact ht
  · simp [hlayout] at hdone

theorem layoutOf?_eq_some (h : LaysOut touched a b) {t : FieldType} {l : Layout}
    (ht : a.layoutOf? t = some l) : b.layoutOf? t = some l := by
  cases t with
  | fundamental t => exact ht
  | mapped index => exact ht
  | struct id =>
    obtain ⟨s, hs, hl⟩ := layoutOf?_struct.mp ht
    exact layoutOf?_struct.mpr ⟨s, h.structure?_of_done hs (by simp [hl]), hl⟩

theorem isLaidOut (h : LaysOut touched a b) {id : StructureId} (hid : a.isLaidOut id = true) :
    b.isLaidOut id = true := by
  obtain ⟨l, hl⟩ := isLaidOut_iff.mp hid
  exact isLaidOut_iff.mpr ⟨l, h.layoutOf?_eq_some hl⟩

/-- After a pass no structure leads further than before. -/
theorem reaches (h : LaysOut touched a b) {id x : StructureId} (hx : b.Reaches id x) :
    a.Reaches id x := by
  refine Relation.ReflTransGen.mono ?_ _ _ hx
  rintro y z ⟨hy, hz⟩
  refine ⟨?_, by rwa [embedded_eq_of_outline_eq h.outline] at hz⟩
  cases hya : a.isLaidOut y with
  | false => rfl
  | true => simp [h.isLaidOut hya] at hy

theorem trans (h : LaysOut touched a b) (k : LaysOut touched b c) : LaysOut touched a c := by
  refine ⟨k.outline.trans h.outline, ?_⟩
  intro id s u hs hu
  obtain ⟨t, ht, -⟩ := exists_structure?_of_outline_eq h.outline hs
  have hmono : ∀ t l, b.layoutOf? t = some l → c.layoutOf? t = some l :=
    fun _ _ => k.layoutOf?_eq_some
  rcases h.settles id s t hs ht with rfl | ⟨htouched, hlayout, l, hl, hplaced⟩
  · exact k.settles id t u ht hu
  · have hu' := k.structure?_of_done ht (by simp [hl])
    obtain rfl : u = t := Option.some.inj (hu.symm.trans hu')
    exact .inr ⟨htouched, hlayout, l, hl, hplaced.mono hmono⟩

end LaysOut

/-! ## Placing fields -/

section
variable {embed : Arena → StructureId → Attempt Arena Layout}
  (hembed : ∀ a id r b, embed a id = (r, b) →
    LaysOut (a.Reaches id) a b ∧ ∀ l, r = .ok l → b.layoutOf? (.struct id) = some l)
include hembed

theorem elementLayout_spec {invalid : LoadError} {t : FieldType} {r : Except LoadError Layout}
    (h : a.elementLayout embed invalid t = (r, b)) :
    LaysOut (fun x => ∃ child, t = .struct child ∧ a.Reaches child x) a b ∧
      ∀ l, r = .ok l → b.layoutOf? t = some l := by
  cases t with
  | fundamental t =>
    simp only [elementLayout] at h
    split at h <;> cases h
    · next hstorable => exact ⟨.refl .., fun l hl => by cases hl; simp [layoutOf?, hstorable]⟩
    · exact ⟨.refl .., fun l hl => by cases hl⟩
  | mapped index =>
    cases h
    exact ⟨.refl .., fun l hl => by cases hl⟩
  | struct child =>
    obtain ⟨hlays, hl⟩ := hembed a child r b h
    exact ⟨hlays.widen fun x hx => ⟨child, rfl, hx⟩, hl⟩

theorem placeFields_spec {owner : ModulePath} {name : String} {frame : Frame} {fs : List Field}
    {r : Except LoadError Frame} (h : a.placeFields embed owner name frame fs = (r, b)) :
    LaysOut (fun x => ∃ f ∈ fs, ∃ child, f.type = .struct child ∧ a.Reaches child x) a b ∧
      ∀ next, r = .ok next → ∃ gs, gs.map Field.unplaced = fs.map Field.unplaced ∧
        next.placed = frame.placed ++ gs ∧
        FieldsPlaced b.layoutOf? frame.extent frame.alignment gs next.extent next.alignment := by
  induction fs generalizing a frame with
  | nil =>
    cases h
    exact ⟨.refl .., fun next hn => by cases hn; exact ⟨[], rfl, by simp, .nil ..⟩⟩
  | cons f fs ih =>
    simp only [placeFields] at h
    split at h
    · next e a₁ he =>
      cases h
      obtain ⟨hlays, -⟩ := elementLayout_spec hembed he
      refine ⟨hlays.widen ?_, fun next hn => nomatch hn⟩
      rintro x ⟨child, hchild, hx⟩
      exact ⟨f, List.mem_cons_self, child, hchild, hx⟩
    · next element a₁ he =>
      obtain ⟨hlays, hlayout⟩ := elementLayout_spec hembed he
      have hfirst : LaysOut
          (fun x => ∃ g ∈ f :: fs, ∃ child, g.type = .struct child ∧ a.Reaches child x) a a₁ := by
        refine hlays.widen ?_
        rintro x ⟨child, hchild, hx⟩
        exact ⟨f, List.mem_cons_self, child, hchild, hx⟩
      split at h
      · cases h
        exact ⟨hfirst, fun next hn => nomatch hn⟩
      · next frame₁ hplace =>
        obtain ⟨hrest, hgs⟩ := ih h
        refine ⟨hfirst.trans (hrest.widen ?_), ?_⟩
        · rintro x ⟨g, hg, child, hchild, hx⟩
          exact ⟨g, List.mem_cons_of_mem _ hg, child, hchild, hlays.reaches hx⟩
        · intro next hn
          obtain ⟨gs, hunplaced, hplaced, hrule⟩ := hgs next hn
          obtain ⟨g, hg, hframe, hone⟩ := Frame.fieldsPlaced_of_place? hplace (hlayout element rfl)
          refine ⟨g :: gs, by simp [hunplaced, hg], by simp [hplaced, hframe], ?_⟩
          exact (hone.mono fun _ _ => hrest.layoutOf?_eq_some).append hrule

end

/-! ## Laying a structure out -/

/-- What an attempt to lay a structure out can be: it stops at once, it finds the layout, or it
marks the structure, places its fields, and then either takes the mark back or leaves the layout
in its place. -/
theorem layOut_cases {fuel : Nat} {id : StructureId} {r : Except LoadError Layout}
    (h : a.layOut fuel id = (r, b)) :
    (b = a ∧ ∃ e, r = .error e) ∨
    (∃ s l, a.structure? id = some s ∧ s.layout = .done l ∧ r = .ok l ∧ b = a) ∨
    ∃ (s : Structure) (fuel' : Nat) (owner : ModulePath) (r' : Except LoadError Frame) (c : Arena),
      fuel = fuel' + 1 ∧ a.structure? id = some s ∧ s.layout = .notComputed ∧
      (a.setStructure id { s with layout := .computing }).placeFields (layOut fuel') owner s.name
        {} s.fields = (r', c) ∧
      ((∃ e, r = .error e ∧ b = c.setStructure id s) ∨
        ∃ frame l, r' = .ok frame ∧ frame.layout? = some l ∧ r = .ok l ∧
          b = c.setStructure id { s with fields := frame.placed, layout := .done l }) := by
  cases fuel with
  | zero =>
    cases h
    exact .inl ⟨rfl, _, rfl⟩
  | succ fuel =>
    simp only [layOut] at h
    split at h
    · cases h
      exact .inl ⟨rfl, _, rfl⟩
    · next m hm =>
      split at h
      · cases h
        exact .inl ⟨rfl, _, rfl⟩
      · next s hs =>
        have hid : a.structure? id = some s := structure?_eq_some.mpr ⟨m, hm, hs⟩
        split at h
        · next l hl =>
          cases h
          exact .inr (.inl ⟨s, l, hid, hl, rfl, rfl⟩)
        · cases h
          exact .inl ⟨rfl, _, rfl⟩
        · next hlayout =>
          refine .inr (.inr ?_)
          split at h
          · next e c hplace =>
            cases h
            exact ⟨s, fuel, m.path, .error e, c, rfl, hid, hlayout, hplace, .inl ⟨e, rfl, rfl⟩⟩
          · next frame c hplace =>
            split at h
            · cases h
              exact ⟨s, fuel, m.path, .ok frame, c, rfl, hid, hlayout, hplace,
                .inl ⟨_, rfl, rfl⟩⟩
            · next l hl =>
              cases h
              exact ⟨s, fuel, m.path, .ok frame, c, rfl, hid, hlayout, hplace,
                .inr ⟨frame, l, rfl, hl, rfl, rfl⟩⟩

/-- Marking a structure without a layout closes no way. -/
theorem reaches_of_mark {id : StructureId} {s t : Structure} (hs : a.structure? id = some s)
    (hdone : s.layout.isDone = false) (ht : t.outline = s.outline) {x y : StructureId}
    (h : (a.setStructure id t).Reaches x y) : a.Reaches x y := by
  refine Relation.ReflTransGen.mono ?_ _ _ h
  rintro u v ⟨hu, hv⟩
  rw [embedded_eq_of_outline_eq (outline_setStructure hs ht)] at hv
  refine ⟨?_, hv⟩
  by_cases hne : u = id
  · rw [hne, isLaidOut_of_structure? hs, hdone]
  · rwa [isLaidOut, structure?_setStructure_of_ne hne] at hu

/-- A pass over a marked structure that ends with the structure itself or with it settled is a
pass over the structure. -/
theorem LaysOut.of_marked {id : StructureId} {s t : Structure} (hs : a.structure? id = some s)
    (hlayout : s.layout = .notComputed)
    (h : LaysOut touched (a.setStructure id { s with layout := .computing }) c)
    (ht : t = s ∨ t.outline = s.outline ∧ Settles c.layoutOf? s t) :
    c.structure? id = some { s with layout := .computing } ∧
      LaysOut (fun x => x = id ∨ touched x) a (c.setStructure id t) := by
  have hmark := structure?_setStructure_self hs { s with layout := .computing }
  have hmarked : c.structure? id = some { s with layout := .computing } := by
    obtain ⟨u, hu, -⟩ := exists_structure?_of_outline_eq h.outline hmark
    rcases h.settles id _ u hmark hu with rfl | ⟨-, hnot, -⟩
    · exact hu
    · cases hnot
  have houtline : t.outline = s.outline := by
    rcases ht with rfl | ⟨ht, -⟩
    · rfl
    · exact ht
  have hmono : ∀ u l, c.layoutOf? u = some l → (c.setStructure id t).layoutOf? u = some l :=
    fun u l => layoutOf?_setStructure hmarked rfl t
  refine ⟨hmarked, ?_, ?_⟩
  · rw [outline_setStructure hmarked houtline, h.outline,
      outline_setStructure hs (s.outline_layout .computing)]
  · intro x u v hu hv
    by_cases hx : x = id
    · subst hx
      rw [structure?_setStructure_self hmarked] at hv
      cases hv
      obtain rfl : u = s := Option.some.inj (hu.symm.trans hs)
      rcases ht with rfl | ⟨-, -, l, hl, hplaced⟩
      · exact .inl rfl
      · exact .inr ⟨.inl rfl, hlayout, l, hl, hplaced.mono hmono⟩
    · rw [structure?_setStructure_of_ne hx] at hv
      rw [← structure?_setStructure_of_ne hx { s with layout := .computing }] at hu
      rcases h.settles x u v hu hv with rfl | ⟨htouched, hnot, l, hl, hplaced⟩
      · exact .inl rfl
      · exact .inr ⟨.inr htouched, hnot, l, hl, hplaced.mono hmono⟩

/-- Laying a structure out changes only what the structure leads to, and gives the layout that the
structure then has. -/
theorem layOut_spec {fuel : Nat} {id : StructureId} {r : Except LoadError Layout}
    (h : a.layOut fuel id = (r, b)) :
    LaysOut (a.Reaches id) a b ∧ ∀ l, r = .ok l → b.layoutOf? (.struct id) = some l := by
  induction fuel generalizing a b id r with
  | zero =>
    cases h
    exact ⟨.refl .., fun l hl => nomatch hl⟩
  | succ fuel ih =>
    rcases layOut_cases h with ⟨rfl, e, rfl⟩ | ⟨s, l, hs, hl, rfl, rfl⟩ |
      ⟨s, fuel', owner, r', c, hfuel, hs, hlayout, hplace, hend⟩
    · exact ⟨.refl .., fun l hl => nomatch hl⟩
    · refine ⟨.refl .., fun l' hl' => ?_⟩
      cases hl'
      exact layoutOf?_struct.mpr ⟨s, hs, hl⟩
    · obtain rfl : fuel = fuel' := Nat.succ.inj hfuel
      have hnot : s.layout.isDone = false := by rw [hlayout]; rfl
      obtain ⟨hlays, hframe⟩ := placeFields_spec (fun _ _ _ _ => ih) hplace
      -- Everything below a field of the structure is below the structure.
      have hbelow : ∀ x, (x = id ∨ ∃ f ∈ s.fields, ∃ child, f.type = .struct child ∧
          (a.setStructure id { s with layout := .computing }).Reaches child x) →
          a.Reaches id x := by
        rintro x (rfl | ⟨f, hf, child, hchild, hx⟩)
        · exact .refl
        · refine .head ⟨?_, mem_embedded.mpr ⟨s, hs, f, hf, hchild⟩⟩
            (reaches_of_mark hs hnot (s.outline_layout .computing) hx)
          rw [isLaidOut_of_structure? hs, hnot]
      rcases hend with ⟨e, rfl, rfl⟩ | ⟨frame, l, rfl, hl, rfl, rfl⟩
      · obtain ⟨-, hpass⟩ := hlays.of_marked hs hlayout (.inl rfl)
        exact ⟨hpass.widen hbelow, fun l hl => nomatch hl⟩
      · obtain ⟨gs, hunplaced, hplaced, hrule⟩ := hframe frame rfl
        obtain rfl : frame.placed = gs := by simpa using hplaced
        have hsettles : Settles c.layoutOf? s
            { s with fields := frame.placed, layout := .done l } :=
          ⟨hlayout, l, rfl, Frame.placed_of_layout? hl hrule⟩
        obtain ⟨hmarked, hpass⟩ := hlays.of_marked hs hlayout
          (.inr ⟨Structure.outline_fields _ hunplaced, hsettles⟩)
        refine ⟨hpass.widen hbelow, fun l' hl' => ?_⟩
        cases hl'
        exact layoutOf?_struct.mpr ⟨_, structure?_setStructure_self hmarked _, rfl⟩

/-- Laying structures out in order changes only what they lead to; a success leaves a layout in
each of them. -/
theorem layOutAll_spec {fuel : Nat} {ids : List StructureId} {r : Except LoadError Unit}
    (h : a.layOutAll fuel ids = (r, b)) :
    LaysOut (fun x => ∃ id ∈ ids, a.Reaches id x) a b ∧
      (r = .ok () → ∀ id ∈ ids, b.isLaidOut id = true) := by
  induction ids generalizing a with
  | nil =>
    cases h
    exact ⟨.refl .., fun _ _ hid => nomatch hid⟩
  | cons id ids ih =>
    simp only [layOutAll] at h
    split at h
    · next e c hid =>
      cases h
      refine ⟨(layOut_spec hid).1.widen fun x hx => ⟨id, List.mem_cons_self, hx⟩, ?_⟩
      exact fun hr => nomatch hr
    · next l c hid =>
      obtain ⟨hfirst, hl⟩ := layOut_spec hid
      obtain ⟨hrest, hdone⟩ := ih h
      refine ⟨(hfirst.widen fun x hx => ⟨id, List.mem_cons_self, hx⟩).trans
        (hrest.widen ?_), ?_⟩
      · rintro x ⟨other, hother, hx⟩
        exact ⟨other, List.mem_cons_of_mem _ hother, hfirst.reaches hx⟩
      · intro hr other hother
        rcases List.mem_cons.mp hother with rfl | hother
        · exact hrest.isLaidOut (isLaidOut_iff.mpr ⟨l, hl l rfl⟩)
        · exact hdone hr other hother

theorem mem_structureIds {owner : ModuleId} {id : StructureId} :
    id ∈ a.structureIds owner ↔ id.owner = owner ∧ ∃ s, a.structure? id = some s := by
  cases hm : a.module? owner with
  | none =>
    simp only [structureIds, hm, List.not_mem_nil, false_iff]
    rintro ⟨rfl, s, hs⟩
    simp [structure?_of_module?_none hm] at hs
  | some m =>
    simp only [structureIds, hm, List.mem_map, List.mem_range]
    constructor
    · rintro ⟨i, hi, rfl⟩
      exact ⟨rfl, m.structures[i], by rw [structure?_of_module? hm]; simp [hi]⟩
    · rintro ⟨rfl, s, hs⟩
      rw [structure?_of_module? hm] at hs
      exact ⟨id.index, (List.getElem?_eq_some_iff.mp hs).1, rfl⟩

/-- Laying out the structures of some modules changes only what they lead to; a success leaves a
layout in every structure of those modules. -/
theorem computeLayouts_spec {targets : List ModuleId} {r : Except LoadError Unit}
    (h : a.computeLayouts targets = (r, b)) :
    LaysOut (fun x => ∃ id, id.owner ∈ targets ∧ a.Reaches id x) a b ∧
      (r = .ok () → ∀ id s, id.owner ∈ targets → b.structure? id = some s →
        s.layout.isDone = true) := by
  obtain ⟨hlays, hdone⟩ := layOutAll_spec h
  refine ⟨hlays.widen ?_, ?_⟩
  · rintro x ⟨id, hid, hx⟩
    obtain ⟨owner, howner, hmem⟩ := List.mem_flatMap.mp hid
    rw [mem_structureIds] at hmem
    exact ⟨id, hmem.1 ▸ howner, hx⟩
  · intro hr id s howner hs
    obtain ⟨t, ht, -⟩ := exists_structure?_of_outline_eq hlays.outline.symm hs
    have hmem : id ∈ targets.flatMap a.structureIds :=
      List.mem_flatMap.mpr ⟨id.owner, howner, mem_structureIds.mpr ⟨rfl, t, ht⟩⟩
    rw [← isLaidOut_of_structure? hs]
    exact hdone hr id hmem

end ModuleLinker.Arena
