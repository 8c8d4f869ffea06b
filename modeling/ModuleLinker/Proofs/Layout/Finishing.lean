import ModuleLinker.Proofs.Layout.Following
import ModuleLinker.Proofs.Layout.Foreseen

/-!
# When a layout pass goes well

The reference foretells layouts. A structure that has a reference with a size within the address
limit is foreseen: if it is laid out already, then by the reference, and if it is not, the reference
places its fields from the references of what it contains, which are no larger. So a pass over such
structures goes well.
-/
namespace ModuleLinker

/-- Fields that have a reference can be placed by the rules. -/
theorem Reference.exists_fieldsPlaced {below : StructureId → Option Reference}
    {layoutOf? : FieldType → Option Layout} {stop alignment : Nat} {fs : List Field} {r : Reference}
    (hpos : ∀ id r, below id = some r → 0 < r.rawAlignment)
    (htypes : ∀ t p, type? below t = some p →
      ∃ l, layoutOf? t = some l ∧ p = (l.rawSize, l.rawAlignment))
    (hr : fields? below stop alignment fs = some r) :
    ∃ gs, List.Forall₂ (fun f g => g.count = f.count ∧ g.type = f.type) fs gs ∧
      FieldsPlaced layoutOf? stop alignment gs r.rawSize r.rawAlignment := by
  induction fs generalizing stop alignment r with
  | nil =>
    cases hr
    exact ⟨[], .nil, .nil ..⟩
  | cons f fs ih =>
    obtain ⟨bytes, own, rest, htype, hrest, rfl⟩ := fields?_cons_eq_some.mp hr
    obtain ⟨l, hl, hp⟩ := htypes f.type _ htype
    cases hp
    obtain ⟨gs, hsame, hplaced⟩ := ih hrest
    have hoffset : leastMultiple stop (align f l.rawAlignment) =
        alignUp stop (Frame.alignmentOf f l) := by
      rw [align_eq, alignUp_eq_leastMultiple (align_pos (type?_pos hpos htype))]
    rw [hoffset, ← align_eq, ← extent_eq] at hplaced
    exact ⟨{ f with offset := alignUp stop (Frame.alignmentOf f l) } :: gs,
      .cons ⟨rfl, rfl⟩ hsame, .cons hl rfl hplaced⟩

namespace Arena

variable {a : Arena} {foretold : StructureId → Option Layout} {id : StructureId} {r : Reference}

/-- What is foretold for a structure with a reference is the layout of the reference. -/
def Foretells (a : Arena) (foretold : StructureId → Option Layout) : Prop :=
  ∀ x r, a.HasReference x r → foretold x = some r.layout

theorem exists_foretells (a : Arena) : ∃ foretold, a.Foretells foretold := by
  classical
  refine ⟨fun x => if h : ∃ r, a.HasReference x r then some h.choose.layout else none,
    fun x r hr => ?_⟩
  have hx : ∃ r, a.HasReference x r := ⟨r, hr⟩
  exact (dif_pos hx).trans (by rw [hx.choose_spec.unique hr])

theorem Foretells.exists_layoutBy (h : a.Foretells foretold) {fuel : Nat} {t : FieldType}
    {p : Nat × Nat} (ht : Reference.type? (a.reference? fuel) t = some p) :
    ∃ l, t.layoutBy foretold = some l ∧ p = (l.rawSize, l.rawAlignment) := by
  cases t with
  | fundamental t =>
    simp only [Reference.type?] at ht
    split at ht
    · next hstorable =>
      have hraw : t.layout.rawSize = t.width ∧ t.layout.rawAlignment = t.width := by
        simp [Fundamental.layout, hstorable]
      refine ⟨t.layout, if_pos hstorable, ?_⟩
      rw [hraw.1, hraw.2, Option.some.inj ht]
    · cases ht
  | mapped index => cases ht
  | struct y =>
    obtain ⟨r, hr, rfl⟩ := Option.map_eq_some_iff.mp ht
    exact ⟨r.layout, h y r ⟨fuel, hr⟩, rfl⟩

section
variable (hunmarked : ∀ x s, a.structure? x = some s → s.layout ≠ .computing)
  (hrules : a.FollowsRules)
include hunmarked hrules

/-- A structure with a reference within the limit is foreseen. -/
theorem foreseen_of_hasReference (hforetold : a.Foretells foretold) (hr : a.HasReference id r)
    (hsize : r.size < addressLimit) : a.Foreseen foretold id := by
  induction hr.acc generalizing r with
  | intro id _ ih =>
    cases hlaid : a.isLaidOut id with
    | true =>
      obtain ⟨s, hs, hdone, -⟩ := hrules.laidOutBy hr hlaid
      exact .laidOut ((hforetold id r hr).trans (layoutOf?_struct.mpr ⟨s, hs, hdone⟩).symm) hlaid
    | false =>
      obtain ⟨s, hs⟩ := hr.exists_structure?
      have hfresh := notComputed_of_not_isLaidOut hs hlaid (hunmarked id s hs)
      obtain ⟨fuel, hfields⟩ := hr.exists_fields? hs
      obtain ⟨gs, hsame, hplaced⟩ := Reference.exists_fieldsPlaced rawAlignment_pos
        (fun t p => hforetold.exists_layoutBy) hfields
      have hwhole : r.layout.size = alignUp (r.layout.rawSize + headerBytes) wordBytes := by
        rw [headerBytes, wordBytes, alignUp_eq_leastMultiple (by decide)]
        rfl
      refine .opened hs hfresh (hforetold id r hr) ⟨hplaced, hwhole, hsize⟩
        (hsame.imp fun f g hfg => ⟨hfg.1, by rw [hfg.2]⟩) fun y hy => ?_
      obtain ⟨r', hr', hle⟩ := hr.of_embedded hy
      exact ih y hy hr' (hle.trans_lt hsize)

/-- So a pass over such structures goes well. -/
theorem exists_computeLayouts {targets : List ModuleId}
    (hids : ∀ id ∈ targets.flatMap a.structureIds,
      ∃ r, a.HasReference id r ∧ r.size < addressLimit) :
    ∃ b, a.computeLayouts targets = (.ok (), b) := by
  obtain ⟨foretold, hforetold⟩ := a.exists_foretells
  have hforeseen : ∀ id ∈ targets.flatMap a.structureIds, a.Foreseen foretold id := by
    intro id hid
    obtain ⟨r, hr, hsize⟩ := hids id hid
    exact foreseen_of_hasReference hunmarked hrules hforetold hr hsize
  exact computeLayouts_foreseen hunmarked hforeseen

end
end Arena
end ModuleLinker
