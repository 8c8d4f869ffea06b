import ModuleLinker.Proofs.Layout.Reference

/-!
# Layouts by the rules are those of the reference

The placement rules are said field by field, from the layouts that the types of the fields have.
Where the way down from a structure ends, layouts that follow them are what the reference says.
Where it does not end the rules can be kept as well, by structures that contain each other and have
one layout, and the reference has no value. A layout pass keeps the rules in either case.
-/
namespace ModuleLinker.Arena

variable {a b : Arena} {touched : StructureId → Prop} {id x y : StructureId} {s : Structure}

/-- Whatever is laid out follows the placement rules, as the layouts of the types of its fields are;
so all that it contains is laid out too. -/
def FollowsRules (a : Arena) : Prop :=
  ∀ id s l, a.structure? id = some s → s.layout = .done l → Placed a.layoutOf? s.fields l

theorem followsRules_iff : a.FollowsRules ↔ ∀ id ∈ a.allStructureIds,
    ∀ s ∈ a.structure? id, ∀ l ∈ s.layout.layout?, Placed a.layoutOf? s.fields l := by
  rw [← forall_structure?_iff, FollowsRules]
  simp only [Option.mem_def, LayoutState.layout?_eq_some]
  exact forall₂_congr fun _ _ => forall_comm

instance (a : Arena) : Decidable a.FollowsRules := decidable_of_iff' _ followsRules_iff

/-- A layout that follows the rules has the size of the reference. -/
theorem layout_eq_of_placed {fields : List Field} {l : Layout} (h : Placed a.layoutOf? fields l)
    {offsets : List Nat} : Reference.layout ⟨offsets, l.rawSize, l.rawAlignment⟩ = l := by
  have hsize : l.size = leastMultiple (l.rawSize + 8) 8 := by
    rw [h.size, headerBytes, wordBytes, alignUp_eq_leastMultiple (by decide)]
  rw [Reference.layout, Reference.size, ← hsize]

namespace FollowsRules

variable (h : a.FollowsRules)
include h

theorem stored (hs : a.structure? id = some s) (hdone : s.layout.isDone = true) :
    ∀ f ∈ s.fields, a.Stored f.type := by
  intro f hf
  obtain ⟨l, hl⟩ := LayoutState.isDone_iff.mp hdone
  exact stored_of_placed (h id s l hs hl) hf

/-- What a structure with a layout contains has a layout. -/
theorem isLaidOut_of_embeds (hxy : a.Embeds x y) : a.isLaidOut y = true := by
  obtain ⟨hlaid, hy⟩ := hxy
  obtain ⟨s, hs, f, hf, hfy⟩ := mem_embedded.mp hy
  rw [isLaidOut_of_structure? hs] at hlaid
  exact isLaidOut_of_stored (hfy ▸ h.stored hs hlaid f hf)

/-- A pass keeps the rules, since what it lays out follows them and what was laid out stays. -/
theorem laysOut (hpass : LaysOut touched a b) : b.FollowsRules := by
  intro id t l ht hl
  obtain ⟨s, hs, -⟩ := exists_structure?_of_outline_eq hpass.outline.symm ht
  rcases hpass.settles id s t hs ht with rfl | ⟨-, -, l', hl', hplaced⟩
  · exact (h id t l hs hl).mono fun _ _ => hpass.layoutOf?_eq_some
  · obtain rfl : l' = l := LayoutState.done.inj (hl'.symm.trans hl)
    exact hplaced

/-- The way down from a structure with a layout ends if it comes to none that contains itself. -/
theorem acc_of_isLaidOut (hlaid : a.isLaidOut id = true)
    (hacyclic : ∀ x, Relation.ReflTransGen (fun x y => y ∈ a.embedded x) id x →
      ¬ Relation.TransGen a.Embeds x x) : Acc (fun y x => y ∈ a.embedded x) id := by
  have hembeds : Acc (fun y x => a.Embeds x y) id :=
    acc_of_acyclic (fun x y hxy => exists_structure?_of_mem_embedded hxy.2) fun x hx =>
      hacyclic x (Relation.ReflTransGen.mono (fun _ _ hstep => hstep.2) _ _ hx)
  clear hacyclic
  induction hembeds with
  | intro id _ ih =>
    exact ⟨_, fun y hy => ih y ⟨hlaid, hy⟩ (h.isLaidOut_of_embeds ⟨hlaid, hy⟩)⟩

/-- So does that from a grounded structure, which leads to structures with a layout at last. -/
theorem acc_of_grounded (hgrounded : a.Grounded id)
    (hacyclic : ∀ x, Relation.ReflTransGen (fun x y => y ∈ a.embedded x) id x →
      ¬ Relation.TransGen a.Embeds x x) : Acc (fun y x => y ∈ a.embedded x) id := by
  induction hgrounded with
  | intro id _ ih =>
    cases hlaid : a.isLaidOut id with
    | true => exact h.acc_of_isLaidOut hlaid hacyclic
    | false => exact ⟨_, fun y hy => ih y ⟨hlaid, hy⟩ fun x hx => hacyclic x (.head hy hx)⟩

/-- Where the way down ends, what is laid out has the layout and the offsets of its reference. -/
theorem exists_reference (hends : Acc (fun y x => y ∈ a.embedded x) id)
    (hs : a.structure? id = some s) (hdone : s.layout.isDone = true) :
    ∃ r, a.HasReference id r ∧ s.LaidOutBy r ∧ r.size < addressLimit := by
  induction hends generalizing s with
  | intro id _ ih =>
    obtain ⟨l, hl⟩ := LayoutState.isDone_iff.mp hdone
    have hplaced := h id s l hs hl
    obtain ⟨fuel, hfuel⟩ : ∃ fuel, ∀ f ∈ s.fields,
        Reference.Agrees (a.reference? fuel) a.layoutOf? f.type := by
      refine exists_nat_of_forall_mem
        (fun f n m hle hn => hn.mono (reference?_mono hle)) fun f hf => ?_
      rcases h.stored hs hdone f hf with ⟨t, ht, -⟩ | ⟨y, t, hy, ht, htdone⟩
      · rw [ht]
        exact ⟨0, Reference.agrees_fundamental _ a t⟩
      · obtain ⟨r, ⟨fuel, hr⟩, hlaid, -⟩ :=
          ih y ((mem_embedded_of_structure? hs).mpr ⟨f, hf, hy⟩) ht htdone
        refine ⟨fuel, fun l' hl' => ?_⟩
        rw [hy] at hl' ⊢
        obtain ⟨t', ht', hlayout⟩ := layoutOf?_struct.mp hl'
        obtain rfl : t = t' := Option.some.inj (ht.symm.trans ht')
        obtain rfl : r.layout = l' := LayoutState.done.inj (hlaid.1.symm.trans hlayout)
        exact ⟨Option.map_eq_some_iff.mpr ⟨r, hr, rfl⟩, rawAlignment_pos y r hr⟩
    refine ⟨⟨s.fields.map Field.offset, l.rawSize, l.rawAlignment⟩, ⟨fuel + 1, ?_⟩, ⟨?_, rfl⟩, ?_⟩
    · exact reference?_succ_eq_some.mpr
        ⟨s, hs, Reference.fields?_of_placed hfuel hplaced.fields⟩
    · rw [hl, layout_eq_of_placed hplaced]
    · have hbounded := hplaced.bounded
      rwa [← layout_eq_of_placed hplaced] at hbounded

/-- A layout is that of the reference wherever there is one. -/
theorem laidOutBy {r : Reference} (hr : a.HasReference id r) (hlaid : a.isLaidOut id = true) :
    ∃ s, a.structure? id = some s ∧ s.LaidOutBy r := by
  obtain ⟨s, hs, hdone⟩ := exists_structure?_of_isLaidOut hlaid
  obtain ⟨r', hr', hlaid, -⟩ := h.exists_reference hr.acc hs hdone
  exact ⟨s, hs, hr.unique hr' ▸ hlaid⟩

end FollowsRules

/-- Where layouts are closed, what is laid out has the layout and the offsets of its reference. -/
theorem LayoutsClosed.exists_reference (h : a.LayoutsClosed) (hs : a.structure? id = some s)
    (hdone : s.layout.isDone = true) :
    ∃ r, a.HasReference id r ∧ s.LaidOutBy r ∧ r.size < addressLimit := by
  have hrules : a.FollowsRules := h.placed
  have hlaid : a.isLaidOut id = true := by rw [isLaidOut_of_structure? hs, hdone]
  exact hrules.exists_reference (hrules.acc_of_isLaidOut hlaid fun x _ => h.acyclic x) hs hdone

end ModuleLinker.Arena
