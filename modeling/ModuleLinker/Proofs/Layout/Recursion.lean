import ModuleLinker.Proofs.Layout.Search

/-!
# The recursion of a layout pass by its rules

Laying a structure out is written down once more as a relation without fuel. Its rules say what a
call does with the arena that it finds, and a derivation is a recursion that has ended. Every call
is held against a property of the structures that are being laid out around it, of the arena, and of
the structure that it is for. So a derivation also tells what the recursion meets on its way.

The pass follows these rules on every arena without marks, whatever cycles there are in it: the
structures around a call are exactly those that are marked, and a structure is entered only if it is
not, so that there are never more of them than the arena has structures. The rules leave no choice,
so that a pass has no other outcome by them.
-/
namespace ModuleLinker.Arena

mutual

/-- Lay a structure out. `path` holds the structures that are being laid out around it, the nearest
first. -/
inductive Lays (met : List StructureId → Arena → StructureId → Prop) :
    List StructureId → Arena → StructureId → Except LoadError Layout → Arena → Prop where
  | missing {path : List StructureId} {a : Arena} {id : StructureId}
      (hid : a.structure? id = none) : Lays met path a id (.error (.danglingStructure id)) a
  | laidOut {path : List StructureId} {a : Arena} {id : StructureId} {s : Structure} {l : Layout}
      (hs : a.structure? id = some s) (hdone : s.layout = .done l) : Lays met path a id (.ok l) a
  | marked {path : List StructureId} {a : Arena} {id : StructureId} {s : Structure}
      (hs : a.structure? id = some s) (hmark : s.layout = .computing) :
      Lays met path a id (.error (.structureCycle [a.cycleEntry id])) a
  | fails {path : List StructureId} {a c : Arena} {id : StructureId} {m : Module} {s : Structure}
      {e : LoadError} (hm : a.module? id.owner = some m) (hs : m.structures[id.index]? = some s)
      (hfresh : s.layout = .notComputed)
      (hplace : Places met (id :: path) (a.setStructure id { s with layout := .computing }) m.path
        s.name {} s.fields (.error e) c) : Lays met path a id (.error e) (c.setStructure id s)
  | overflows {path : List StructureId} {a c : Arena} {id : StructureId} {m : Module}
      {s : Structure} {frame : Frame} (hm : a.module? id.owner = some m)
      (hs : m.structures[id.index]? = some s) (hfresh : s.layout = .notComputed)
      (hplace : Places met (id :: path) (a.setStructure id { s with layout := .computing }) m.path
        s.name {} s.fields (.ok frame) c) (hlarge : frame.layout? = none) :
      Lays met path a id (.error (.layoutOverflow m.path s.name)) (c.setStructure id s)
  | finishes {path : List StructureId} {a c : Arena} {id : StructureId} {m : Module}
      {s : Structure} {frame : Frame} {l : Layout} (hm : a.module? id.owner = some m)
      (hs : m.structures[id.index]? = some s) (hfresh : s.layout = .notComputed)
      (hplace : Places met (id :: path) (a.setStructure id { s with layout := .computing }) m.path
        s.name {} s.fields (.ok frame) c) (hl : frame.layout? = some l) :
      Lays met path a id (.ok l)
        (c.setStructure id { s with fields := frame.placed, layout := .done l })

/-- Find the layout of the type of a field. -/
inductive Sizes (met : List StructureId → Arena → StructureId → Prop) :
    List StructureId → Arena → LoadError → FieldType → Except LoadError Layout → Arena → Prop where
  | stored {path : List StructureId} {a : Arena} {invalid : LoadError} {t : Fundamental}
      (ht : t.isStorable = true) : Sizes met path a invalid (.fundamental t) (.ok t.layout) a
  | unstored {path : List StructureId} {a : Arena} {invalid : LoadError} {t : Fundamental}
      (ht : t.isStorable = false) : Sizes met path a invalid (.fundamental t) (.error invalid) a
  | mapped {path : List StructureId} {a : Arena} {invalid : LoadError} (index : Nat) :
      Sizes met path a invalid (.mapped index) (.error invalid) a
  | embedded {path : List StructureId} {a b : Arena} {invalid : LoadError} {child : StructureId}
      {r : Except LoadError Layout} (hmet : met path a child) (hlays : Lays met path a child r b) :
      Sizes met path a invalid (.struct child) r b

/-- Place fields behind those that are placed already. -/
inductive Places (met : List StructureId → Arena → StructureId → Prop) :
    List StructureId → Arena → ModulePath → String → Frame → List Field →
      Except LoadError Frame → Arena → Prop where
  | done {path : List StructureId} {a : Arena} {owner : ModulePath} {name : String}
      {frame : Frame} : Places met path a owner name frame [] (.ok frame) a
  | fails {path : List StructureId} {a b : Arena} {owner : ModulePath} {name : String}
      {frame : Frame} {f : Field} {fs : List Field} {e : LoadError}
      (hsize : Sizes met path a (.invalidFieldType name frame.placed.length) f.type (.error e) b) :
      Places met path a owner name frame (f :: fs) (.error e) b
  | overflows {path : List StructureId} {a b : Arena} {owner : ModulePath} {name : String}
      {frame : Frame} {f : Field} {fs : List Field} {element : Layout}
      (hsize : Sizes met path a (.invalidFieldType name frame.placed.length) f.type (.ok element) b)
      (hlarge : frame.place? f element = none) :
      Places met path a owner name frame (f :: fs) (.error (.layoutOverflow owner name)) b
  | next {path : List StructureId} {a b c : Arena} {owner : ModulePath} {name : String}
      {frame after : Frame} {f : Field} {fs : List Field} {element : Layout}
      {r : Except LoadError Frame}
      (hsize : Sizes met path a (.invalidFieldType name frame.placed.length) f.type (.ok element) b)
      (hplace : frame.place? f element = some after)
      (hrest : Places met path b owner name after fs r c) :
      Places met path a owner name frame (f :: fs) r c

end

/-- Lay structures out one after the other, up to the first failure. -/
inductive LaysAll (met : List StructureId → Arena → StructureId → Prop) :
    Arena → List StructureId → Except LoadError Unit → Arena → Prop where
  | done {a : Arena} : LaysAll met a [] (.ok ()) a
  | fails {a b : Arena} {id : StructureId} {ids : List StructureId} {e : LoadError}
      (hmet : met [] a id) (hlays : Lays met [] a id (.error e) b) :
      LaysAll met a (id :: ids) (.error e) b
  | next {a b c : Arena} {id : StructureId} {ids : List StructureId} {l : Layout}
      {r : Except LoadError Unit} (hmet : met [] a id) (hlays : Lays met [] a id (.ok l) b)
      (hrest : LaysAll met b ids r c) : LaysAll met a (id :: ids) r c

/-- A structure that is marked as being laid out. -/
def IsMarked (a : Arena) (id : StructureId) : Prop :=
  ∃ s, a.structure? id = some s ∧ s.layout = .computing

/-- What is marked in an arena is a path, on which no structure is twice. -/
structure Marks (path : List StructureId) (a : Arena) : Prop where
  nodup : path.Nodup
  mem_iff : ∀ x, x ∈ path ↔ a.IsMarked x

variable {met inv : List StructureId → Arena → StructureId → Prop} {a₀ a b : Arena}
  {path : List StructureId} {id : StructureId} {s : Structure} {touched : StructureId → Prop}

namespace Marks

theorem start (hunmarked : ∀ id s, a.structure? id = some s → s.layout ≠ .computing) :
    Marks [] a := by
  refine ⟨List.nodup_nil, fun x => iff_of_false (by simp) ?_⟩
  rintro ⟨s, hs, hmark⟩
  exact hunmarked x s hs hmark

theorem not_mem (h : Marks path a) (hs : a.structure? id = some s)
    (hfresh : s.layout = .notComputed) : id ∉ path := by
  rw [h.mem_iff]
  rintro ⟨t, ht, hmark⟩
  obtain rfl : s = t := Option.some.inj (hs.symm.trans ht)
  rw [hfresh] at hmark
  cases hmark

/-- Entering a structure. -/
theorem mark (h : Marks path a) (hs : a.structure? id = some s) (hfresh : s.layout = .notComputed) :
    Marks (id :: path) (a.setStructure id { s with layout := .computing }) := by
  refine ⟨List.nodup_cons.mpr ⟨h.not_mem hs hfresh, h.nodup⟩, fun x => ?_⟩
  by_cases hx : x = id
  · subst hx
    exact iff_of_true List.mem_cons_self ⟨_, structure?_setStructure_self hs _, rfl⟩
  · simp only [List.mem_cons, hx, false_or, h.mem_iff, IsMarked, structure?_setStructure_of_ne hx]

/-- A pass leaves no mark of its own and takes none away. -/
theorem laysOut (h : Marks path a) (hpass : LaysOut touched a b) : Marks path b := by
  refine ⟨h.nodup, fun x => (h.mem_iff x).trans ⟨?_, ?_⟩⟩
  · rintro ⟨s, hs, hmark⟩
    obtain ⟨t, ht, -⟩ := exists_structure?_of_outline_eq hpass.outline hs
    rcases hpass.settles x s t hs ht with rfl | ⟨-, hfresh, -⟩
    · exact ⟨t, ht, hmark⟩
    · rw [hfresh] at hmark
      cases hmark
  · rintro ⟨t, ht, hmark⟩
    obtain ⟨s, hs, -⟩ := exists_structure?_of_outline_eq hpass.outline.symm ht
    rcases hpass.settles x s t hs ht with rfl | ⟨-, -, l, hl, -⟩
    · exact ⟨t, hs, hmark⟩
    · rw [hl] at hmark
      cases hmark

/-- A path of marks is not longer than an arena of the same outline has structures. -/
theorem length_le (h : Marks path a) (houtline : a.outline = a₀.outline) :
    path.length ≤ a₀.structureCount := by
  refine length_le_structureCount h.nodup fun x hx => ?_
  obtain ⟨s, hs, -⟩ := (h.mem_iff x).mp hx
  obtain ⟨t, ht, -⟩ := exists_structure?_of_outline_eq houtline.symm hs
  exact ⟨t, ht⟩

end Marks

/-! ## A pass with fuel follows the rules -/

/-- A property of calls that goes over to the calls that they make: those for the structures that
a structure contains, once it is marked, after any pass over what it contains in front of them. -/
structure Inherited (a₀ : Arena) (inv : List StructureId → Arena → StructureId → Prop) : Prop where
  outline : ∀ path a id, inv path a id → a.outline = a₀.outline
  marks : ∀ path a id, inv path a id → Marks path a
  below : ∀ path a id s touched c child, inv path a id → a.structure? id = some s →
    s.layout = .notComputed → child ∈ a.embedded id →
    LaysOut touched (a.setStructure id { s with layout := .computing }) c → inv (id :: path) c child

section
variable (hmet : ∀ path a id, inv path a id → met path a id)
include hmet

theorem sizes_elementLayout {fuel : Nat} {invalid : LoadError} {t : FieldType}
    {r : Except LoadError Layout}
    (hembed : ∀ child r b, inv path a child → a.layOut fuel child = (r, b) →
      Lays met path a child r b)
    (hcall : ∀ child, t = .struct child → inv path a child)
    (h : a.elementLayout (layOut fuel) invalid t = (r, b)) : Sizes met path a invalid t r b := by
  cases t with
  | fundamental t =>
    simp only [elementLayout] at h
    split at h
    · next ht =>
      cases h
      exact .stored ht
    · next ht =>
      cases h
      exact .unstored (by simpa using ht)
  | mapped index =>
    cases h
    exact .mapped index
  | struct child =>
    have hid := hcall child rfl
    exact .embedded (hmet path a child hid) (hembed child r b hid h)

theorem places_placeFields {fuel : Nat} {owner : ModulePath} {name : String} {frame : Frame}
    {fs : List Field} {r : Except LoadError Frame}
    (hembed : ∀ a child r b, inv path a child → a.layOut fuel child = (r, b) →
      Lays met path a child r b)
    (hcalls : ∀ touched c, LaysOut touched a c → ∀ f ∈ fs, ∀ child, f.type = .struct child →
      inv path c child)
    (h : a.placeFields (layOut fuel) owner name frame fs = (r, b)) :
    Places met path a owner name frame fs r b := by
  induction fs generalizing a frame with
  | nil =>
    cases h
    exact .done
  | cons f fs ih =>
    have hsizes : ∀ invalid r c, a.elementLayout (layOut fuel) invalid f.type = (r, c) →
        Sizes met path a invalid f.type r c := fun invalid r c =>
      sizes_elementLayout hmet (hembed a)
        (hcalls (fun _ => False) a (.refl _ a) f List.mem_cons_self)
    simp only [placeFields] at h
    split at h
    · next e c hsize =>
      cases h
      exact .fails (hsizes _ _ _ hsize)
    · next element c hsize =>
      have hpass := (elementLayout_spec (fun _ _ _ _ => layOut_spec) hsize).1
      split at h
      · next hlarge =>
        cases h
        exact .overflows (hsizes _ _ _ hsize) hlarge
      · next after hplace =>
        refine .next (hsizes _ _ _ hsize) hplace (ih (fun touched d hd g hg => ?_) h)
        refine hcalls (fun _ => True) d ?_ g (List.mem_cons_of_mem _ hg)
        exact (hpass.widen fun _ _ => trivial).trans (hd.widen fun _ _ => trivial)

/-- With fuel for every structure that is not marked the recursion ends by the rules. -/
theorem lays_layOut (hinv : Inherited a₀ inv) {fuel : Nat} {r : Except LoadError Layout}
    (hid : inv path a id) (hfuel : fuel + path.length = a₀.structureCount + 1)
    (h : a.layOut fuel id = (r, b)) : Lays met path a id r b := by
  induction fuel generalizing path a id r b with
  | zero =>
    have hlength := (hinv.marks path a id hid).length_le (hinv.outline path a id hid)
    omega
  | succ fuel ih =>
    simp only [layOut] at h
    split at h
    · next hm =>
      cases h
      exact .missing (structure?_of_module?_none hm)
    · next m hm =>
      split at h
      · next hs =>
        cases h
        exact .missing (by rw [structure?_of_module? hm, hs])
      · next s hms =>
        have hs : a.structure? id = some s := structure?_eq_some.mpr ⟨m, hm, hms⟩
        split at h
        · next l hdone =>
          cases h
          exact .laidOut hs hdone
        · next hmark =>
          cases h
          exact .marked hs hmark
        · next hfresh =>
          have hplaces : ∀ r c,
              (a.setStructure id { s with layout := .computing }).placeFields (layOut fuel) m.path
                s.name {} s.fields = (r, c) →
              Places met (id :: path) (a.setStructure id { s with layout := .computing }) m.path
                s.name {} s.fields r c := by
            intro r c
            refine places_placeFields hmet (fun d child r e hd => ih hd ?_)
              fun touched d hd f hf child hchild => ?_
            · rw [List.length_cons]
              omega
            · exact hinv.below path a id s touched d child hid hs hfresh
                ((mem_embedded_of_structure? hs).mpr ⟨f, hf, hchild⟩) hd
          split at h
          · next e c hplace =>
            cases h
            exact .fails hm hms hfresh (hplaces _ _ hplace)
          · next frame c hplace =>
            split at h
            · next hlarge =>
              cases h
              exact .overflows hm hms hfresh (hplaces _ _ hplace) hlarge
            · next l hl =>
              cases h
              exact .finishes hm hms hfresh (hplaces _ _ hplace) hl

/-- A pass that begins without marks ends by the rules. -/
theorem laysAll_layOutAll (hinv : Inherited a₀ inv) {ids : List StructureId}
    {r : Except LoadError Unit}
    (hcalls : ∀ touched c, LaysOut touched a c → ∀ id ∈ ids, inv [] c id)
    (h : a.layOutAll (a₀.structureCount + 1) ids = (r, b)) : LaysAll met a ids r b := by
  induction ids generalizing a with
  | nil =>
    cases h
    exact .done
  | cons id ids ih =>
    have hid : inv [] a id := hcalls (fun _ => False) a (.refl _ a) id List.mem_cons_self
    simp only [layOutAll] at h
    split at h
    · next e c hlays =>
      cases h
      exact .fails (hmet _ _ _ hid) (lays_layOut hmet hinv hid rfl hlays)
    · next l c hlays =>
      refine .next (hmet _ _ _ hid) (lays_layOut hmet hinv hid rfl hlays)
        (ih (fun touched d hd x hx => ?_) h)
      refine hcalls (fun _ => True) d ?_ x (List.mem_cons_of_mem _ hx)
      exact ((layOut_spec hlays).1.widen fun _ _ => trivial).trans (hd.widen fun _ _ => trivial)

end

/-! ## The rules have one outcome -/

/-- What holds from some fuel on, and also one further. -/
theorem exists_fuel_succ {p : Nat → Prop} (h : ∃ n, ∀ fuel, n ≤ fuel → p (fuel + 1)) :
    ∃ n, ∀ fuel, n ≤ fuel → p fuel := by
  obtain ⟨n, hn⟩ := h
  refine ⟨n + 1, fun fuel hfuel => ?_⟩
  obtain ⟨k, rfl⟩ := Nat.exists_eq_add_of_le' hfuel
  exact hn (k + n) (Nat.le_add_left n k)

theorem exists_fuel_and {p q : Nat → Prop} (hp : ∃ n, ∀ fuel, n ≤ fuel → p fuel)
    (hq : ∃ n, ∀ fuel, n ≤ fuel → q fuel) : ∃ n, ∀ fuel, n ≤ fuel → p fuel ∧ q fuel := by
  obtain ⟨n, hn⟩ := hp
  obtain ⟨k, hk⟩ := hq
  exact ⟨max n k, fun fuel hfuel =>
    ⟨hn fuel (le_of_max_le_left hfuel), hk fuel (le_of_max_le_right hfuel)⟩⟩

theorem layOut_missing (fuel : Nat) (h : a.structure? id = none) :
    a.layOut (fuel + 1) id = (.error (.danglingStructure id), a) := by
  simp only [layOut]
  cases hm : a.module? id.owner with
  | none => rfl
  | some m =>
    rw [structure?_of_module? hm] at h
    simp only [h]

theorem layOut_laidOut (fuel : Nat) {l : Layout} (hs : a.structure? id = some s)
    (hdone : s.layout = .done l) : a.layOut (fuel + 1) id = (.ok l, a) := by
  obtain ⟨m, hm, hms⟩ := structure?_eq_some.mp hs
  simp only [layOut, hm, hms, hdone]

theorem layOut_marked (fuel : Nat) (hs : a.structure? id = some s) (hmark : s.layout = .computing) :
    a.layOut (fuel + 1) id = (.error (.structureCycle [a.cycleEntry id]), a) := by
  obtain ⟨m, hm, hms⟩ := structure?_eq_some.mp hs
  simp only [layOut, hm, hms, hmark]

mutual

/-- What the rules come to is what the recursion comes to with enough fuel. -/
theorem Lays.exists_fuel {path : List StructureId} {a b : Arena} {id : StructureId}
    {r : Except LoadError Layout} (h : Lays met path a id r b) :
    ∃ n, ∀ fuel, n ≤ fuel → a.layOut (fuel + 1) id = (r, b) :=
  match h with
  | .missing hid => ⟨0, fun fuel _ => layOut_missing fuel hid⟩
  | .laidOut hs hdone => ⟨0, fun fuel _ => layOut_laidOut fuel hs hdone⟩
  | .marked hs hmark => ⟨0, fun fuel _ => layOut_marked fuel hs hmark⟩
  | .fails hm hs hfresh hplace => hplace.exists_fuel.imp fun n hn fuel hfuel => by
      simp only [layOut, hm, hs, hfresh, hn fuel hfuel]
  | .overflows hm hs hfresh hplace hlarge => hplace.exists_fuel.imp fun n hn fuel hfuel => by
      simp only [layOut, hm, hs, hfresh, hn fuel hfuel, hlarge]
  | .finishes hm hs hfresh hplace hl => hplace.exists_fuel.imp fun n hn fuel hfuel => by
      simp only [layOut, hm, hs, hfresh, hn fuel hfuel, hl]

theorem Sizes.exists_fuel {path : List StructureId} {a b : Arena} {invalid : LoadError}
    {t : FieldType} {r : Except LoadError Layout} (h : Sizes met path a invalid t r b) :
    ∃ n, ∀ fuel, n ≤ fuel → a.elementLayout (layOut fuel) invalid t = (r, b) :=
  match h with
  | .stored ht => ⟨0, fun _ _ => if_pos ht⟩
  | .unstored ht => ⟨0, fun _ _ => by simp [elementLayout, ht]⟩
  | .mapped _ => ⟨0, fun _ _ => rfl⟩
  | .embedded _ hlays => exists_fuel_succ hlays.exists_fuel

theorem Places.exists_fuel {path : List StructureId} {a b : Arena} {owner : ModulePath}
    {name : String} {frame : Frame} {fs : List Field} {r : Except LoadError Frame}
    (h : Places met path a owner name frame fs r b) :
    ∃ n, ∀ fuel, n ≤ fuel → a.placeFields (layOut fuel) owner name frame fs = (r, b) :=
  match h with
  | .done => ⟨0, fun _ _ => rfl⟩
  | .fails hsize => hsize.exists_fuel.imp fun n hn fuel hfuel => by
      simp only [placeFields, hn fuel hfuel]
  | .overflows hsize hlarge => hsize.exists_fuel.imp fun n hn fuel hfuel => by
      simp only [placeFields, hn fuel hfuel, hlarge]
  | .next hsize hplace hrest =>
      (exists_fuel_and hsize.exists_fuel hrest.exists_fuel).imp fun n hn fuel hfuel => by
        simp only [placeFields, (hn fuel hfuel).1, hplace, (hn fuel hfuel).2]

end

theorem Lays.exists_layOut_eq {r : Except LoadError Layout} (h : Lays met path a id r b) :
    ∃ n, ∀ fuel, n ≤ fuel → a.layOut fuel id = (r, b) := exists_fuel_succ h.exists_fuel

theorem LaysAll.exists_fuel {ids : List StructureId} {r : Except LoadError Unit}
    (h : LaysAll met a ids r b) : ∃ n, ∀ fuel, n ≤ fuel → a.layOutAll fuel ids = (r, b) := by
  induction h with
  | done => exact ⟨0, fun _ _ => rfl⟩
  | fails _ hlays =>
    refine hlays.exists_layOut_eq.imp fun n hn fuel hfuel => ?_
    simp only [layOutAll, hn fuel hfuel]
  | next _ hlays _ ih =>
    refine (exists_fuel_and hlays.exists_layOut_eq ih).imp fun n hn fuel hfuel => ?_
    simp only [layOutAll, (hn fuel hfuel).1, (hn fuel hfuel).2]

/-- Whatever a pass by the rules is held against, it has one outcome. -/
theorem LaysAll.unique {met' : List StructureId → Arena → StructureId → Prop} {b' : Arena}
    {ids : List StructureId} {r r' : Except LoadError Unit} (h : LaysAll met a ids r b)
    (h' : LaysAll met' a ids r' b') : (r', b') = (r, b) := by
  obtain ⟨n, hn⟩ := exists_fuel_and h.exists_fuel h'.exists_fuel
  obtain ⟨hr, hr'⟩ := hn n (Nat.le_refl n)
  exact hr'.symm.trans hr

/-! ## Recursions that meet no mark -/

mutual

/-- A recursion that enters no structure which is marked reports no cycle. -/
theorem Lays.ne_cycle (hunmarked : ∀ path a id, met path a id → ¬ a.IsMarked id)
    {path : List StructureId} {a b : Arena} {id : StructureId} {r : Except LoadError Layout}
    {cycle : List CycleEntry} (h : Lays met path a id r b) (hmet : met path a id) :
    r ≠ .error (.structureCycle cycle) :=
  match h with
  | .missing _ => fun hr => by cases hr
  | .laidOut _ _ => fun hr => by cases hr
  | .marked hs hmark => absurd ⟨_, hs, hmark⟩ (hunmarked _ _ _ hmet)
  | .fails _ _ _ hplace => fun hr =>
    hplace.ne_cycle hunmarked (congrArg Except.error (Except.error.inj hr))
  | .overflows _ _ _ _ _ => fun hr => by cases hr
  | .finishes _ _ _ _ _ => fun hr => by cases hr

theorem Sizes.ne_cycle (hunmarked : ∀ path a id, met path a id → ¬ a.IsMarked id)
    {path : List StructureId} {a b : Arena} {invalid : LoadError} {t : FieldType}
    {r : Except LoadError Layout} {cycle : List CycleEntry}
    (h : Sizes met path a invalid t r b) (hinvalid : invalid ≠ .structureCycle cycle) :
    r ≠ .error (.structureCycle cycle) :=
  match h with
  | .stored _ => fun hr => by cases hr
  | .unstored _ => fun hr => hinvalid (Except.error.inj hr)
  | .mapped _ => fun hr => hinvalid (Except.error.inj hr)
  | .embedded hmet hlays => hlays.ne_cycle hunmarked hmet

theorem Places.ne_cycle (hunmarked : ∀ path a id, met path a id → ¬ a.IsMarked id)
    {path : List StructureId} {a b : Arena} {owner : ModulePath} {name : String} {frame : Frame}
    {fs : List Field} {r : Except LoadError Frame} {cycle : List CycleEntry}
    (h : Places met path a owner name frame fs r b) : r ≠ .error (.structureCycle cycle) :=
  match h with
  | .done => fun hr => by cases hr
  | .fails hsize => fun hr =>
    hsize.ne_cycle hunmarked (fun h => by cases h) (congrArg Except.error (Except.error.inj hr))
  | .overflows _ _ => fun hr => by cases hr
  | .next _ _ hrest => hrest.ne_cycle hunmarked

end

theorem LaysAll.ne_cycle (hunmarked : ∀ path a id, met path a id → ¬ a.IsMarked id)
    {ids : List StructureId} {r : Except LoadError Unit} {cycle : List CycleEntry}
    (h : LaysAll met a ids r b) : r ≠ .error (.structureCycle cycle) := by
  induction h with
  | done => exact fun hr => by cases hr
  | fails hmet hlays =>
    intro hr
    exact hlays.ne_cycle hunmarked hmet (congrArg Except.error (Except.error.inj hr))
  | next _ _ _ ih => exact ih

end ModuleLinker.Arena
