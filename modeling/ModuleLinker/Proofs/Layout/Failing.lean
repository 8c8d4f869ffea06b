import ModuleLinker.Proofs.Layout.Closed

/-!
# When a layout pass fails

A pass that comes to no missing structure and to no field of a type without storage can fail in two
ways: it meets a structure on its own path, or something is too large for the address limit.
-/
namespace ModuleLinker

/-- The failures of laying out structures that are put together well. -/
def LoadError.IsOfLayout (e : LoadError) : Prop := e.kind = .structureCycle ∨ e.kind = .overflow

namespace Arena

variable {a b : Arena} {id : StructureId} {s : Structure} {e : LoadError}
  {touched : StructureId → Prop}

/-- A structure that is there, with fields that take room. -/
def Sturdy (a : Arena) (id : StructureId) : Prop :=
  ∃ s, a.structure? id = some s ∧ ∀ f ∈ s.fields, f.type.TakesRoom

/-- All that laying a structure out may come to is laid out or sturdy. -/
def SturdyBelow (a : Arena) (id : StructureId) : Prop :=
  ∀ x, a.Reaches id x → a.isLaidOut x = true ∨ a.Sturdy x

theorem Sturdy.of_outline_eq (h : b.outline = a.outline) (hid : a.Sturdy id) : b.Sturdy id := by
  obtain ⟨s, hs, hroom⟩ := hid
  obtain ⟨t, ht, hts⟩ := exists_structure?_of_outline_eq h hs
  refine ⟨t, ht, fun f hf => ?_⟩
  have hmem : f.type ∈ s.fields.map Field.type := by
    rw [← Structure.map_type_of_outline_eq hts]
    exact List.mem_map_of_mem hf
  obtain ⟨g, hg, hgf⟩ := List.mem_map.mp hmem
  exact hgf ▸ hroom g hg

namespace SturdyBelow

variable (h : a.SturdyBelow id)
include h

theorem laysOut (hpass : LaysOut touched a b) : b.SturdyBelow id := fun x hx =>
  (h x (hpass.reaches hx)).imp hpass.isLaidOut (Sturdy.of_outline_eq hpass.outline)

/-- Below a structure that was marked its fields are as before. -/
theorem mark (hs : a.structure? id = some s) (hlayout : s.layout = .notComputed) {f : Field}
    (hf : f ∈ s.fields) {child : StructureId} (hchild : f.type = .struct child) :
    (a.setStructure id { s with layout := .computing }).SturdyBelow child := by
  intro x hx
  have hnot : s.layout.isDone = false := by rw [hlayout]; rfl
  have hstep : a.Opens id child :=
    ⟨by rw [isLaidOut_of_structure? hs, hnot], mem_embedded.mpr ⟨s, hs, f, hf, hchild⟩⟩
  have hreaches : a.Reaches id x :=
    .head hstep (reaches_of_mark hs hnot (s.outline_layout .computing) hx)
  have hsame := sameDone_setStructure (s := { s with layout := .computing }) hs hnot rfl
  refine (h x hreaches).imp (fun hlaid => ?_)
    (Sturdy.of_outline_eq (outline_setStructure hs (s.outline_layout .computing)))
  obtain ⟨l, hl⟩ := isLaidOut_iff.mp hlaid
  exact isLaidOut_iff.mpr ⟨l, hsame.layoutOf?_eq_some hl⟩

end SturdyBelow

/-- Fields that take room, of structures below which all is sturdy, fail like these structures or
for their size. -/
theorem placeFields_error {fuel : Nat} {fs : List Field} {frame : Frame} {owner : ModulePath}
    {name : String}
    (hembed : ∀ (a : Arena) (child : StructureId) (e : LoadError) (b : Arena),
      a.SturdyBelow child → a.layOut fuel child = (.error e, b) → e.IsOfLayout)
    (hroom : ∀ f ∈ fs, f.type.TakesRoom)
    (hbelow : ∀ f ∈ fs, ∀ child, f.type = .struct child → a.SturdyBelow child)
    (h : a.placeFields (layOut fuel) owner name frame fs = (.error e, b)) : e.IsOfLayout := by
  induction fs generalizing a frame with
  | nil => cases h
  | cons f fs ih =>
    simp only [placeFields] at h
    split at h
    · next e' a' helement =>
      cases h
      rcases FieldType.takesRoom_iff.mp (hroom f List.mem_cons_self) with
        ⟨t, htype, hstorable⟩ | ⟨child, htype⟩
      · simp [htype, elementLayout, hstorable] at helement
      · rw [htype] at helement
        exact hembed a child e b (hbelow f List.mem_cons_self child htype) helement
    · next element next helement =>
      have hpass := (elementLayout_spec (fun _ _ _ _ => layOut_spec) helement).1
      split at h
      · cases h
        exact .inr rfl
      · exact ih (fun g hg => hroom g (List.mem_cons_of_mem _ hg))
          (fun g hg child hchild => (hbelow g (List.mem_cons_of_mem _ hg) child hchild).laysOut
            hpass) h

/-- A structure below which all is sturdy fails for a cycle or for its size. -/
theorem layOut_error {fuel : Nat} (hbelow : a.SturdyBelow id)
    (h : a.layOut fuel id = (.error e, b)) : e.IsOfLayout := by
  induction fuel generalizing a b id e with
  | zero =>
    cases h
    exact .inl rfl
  | succ fuel ih =>
    have hself := hbelow id .refl
    obtain ⟨s, hs⟩ : ∃ s, a.structure? id = some s := by
      rcases hself with hlaid | ⟨s, hs, -⟩
      · obtain ⟨s, hs, -⟩ := exists_structure?_of_isLaidOut hlaid
        exact ⟨s, hs⟩
      · exact ⟨s, hs⟩
    obtain ⟨m, hm, hms⟩ := structure?_eq_some.mp hs
    simp only [layOut, hm, hms] at h
    split at h
    · cases h
    · cases h
      exact .inl rfl
    · next hlayout =>
      have hroom : ∀ f ∈ s.fields, f.type.TakesRoom := by
        rcases hself with hlaid | ⟨s', hs', hroom⟩
        · rw [isLaidOut_of_structure? hs, hlayout] at hlaid
          cases hlaid
        · obtain rfl : s' = s := Option.some.inj (hs'.symm.trans hs)
          exact hroom
      split at h
      · next e' c hplace =>
        cases h
        exact placeFields_error (fun _ _ _ _ => ih) hroom
          (fun f hf child hchild => hbelow.mark hs hlayout hf hchild) hplace
      · split at h
        · cases h
          exact .inr rfl
        · cases h

theorem layOutAll_error {fuel : Nat} {ids : List StructureId}
    (hbelow : ∀ id ∈ ids, a.SturdyBelow id) (h : a.layOutAll fuel ids = (.error e, b)) :
    e.IsOfLayout := by
  induction ids generalizing a with
  | nil => cases h
  | cons id ids ih =>
    simp only [layOutAll] at h
    split at h
    · next e' c hfails =>
      cases h
      exact layOut_error (hbelow id List.mem_cons_self) hfails
    · next layout c hlays =>
      have hpass := (layOut_spec hlays).1
      exact ih (fun x hx => (hbelow x (List.mem_cons_of_mem _ hx)).laysOut hpass) h

end Arena
end ModuleLinker
