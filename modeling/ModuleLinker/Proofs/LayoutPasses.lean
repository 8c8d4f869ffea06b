import ModuleLinker.Proofs.Layout.Recursion

/-!
# Layout passes over any arena

A pass takes the arena as it comes: it may lead to cycles, to structures that are not there, to
mapped types, and to structures that get too large. Unless something is marked beforehand, the
recursion still ends, and what it leaves is either untouched or finished.

After a check for cycles that went well the recursion does not even meet a mark. The check walks
over the arena as it was before the pass, while the pass is stopped by the layouts that it finds on
its way, but these only get more. So whatever the pass enters, the check has seen to be grounded.
-/
namespace ModuleLinker

/-- A structure after a pass: as it was, or if it had no layout, with one and with other offsets. -/
def Structure.Finishes (s t : Structure) : Prop :=
  t = s ∨ s.layout = .notComputed ∧ t.fields.map Field.unplaced = s.fields.map Field.unplaced ∧
    ∃ l, t = { s with fields := t.fields, layout := .done l }

/-- A module after a pass. -/
structure Module.Finishes (m k : Module) : Prop where
  module_eq : k = { m with structures := k.structures }
  structures : List.Forall₂ Structure.Finishes m.structures k.structures

namespace Arena

open Relation (TransGen)

/-- What a pass leaves of an arena, be it successful or not. -/
structure LeavesClean (a b : Arena) : Prop where
  length_eq : b.length = a.length
  modules : ∀ id, Option.Rel Module.Finishes (a.module? id) (b.module? id)
  unmarked : ∀ id s, b.structure? id = some s → s.layout ≠ .computing
  done : ∀ id s, a.structure? id = some s → s.layout.isDone = true → b.structure? id = some s

variable {a a₀ b c : Arena} {touched : StructureId → Prop} {path : List StructureId}
  {id : StructureId} {s t : Structure} {targets : List ModuleId}

/-! ## What a pass leaves -/

namespace LaysOut

theorem finishes (h : LaysOut touched a b) (hs : a.structure? id = some s)
    (ht : b.structure? id = some t) : s.Finishes t := by
  rcases h.settles id s t hs ht with hsame | ⟨-, hfresh, l, hl, -⟩
  · exact .inl hsame
  · obtain ⟨u, hu, houtline⟩ := exists_structure?_of_outline_eq h.outline hs
    obtain rfl : u = t := Option.some.inj (hu.symm.trans ht)
    obtain ⟨heq, hfields⟩ := Structure.eq_of_outline_eq houtline
    rw [hl] at heq
    exact .inr ⟨hfresh, hfields, l, heq⟩

theorem finishes_module (h : LaysOut touched a b) (id : ModuleId) :
    Option.Rel Module.Finishes (a.module? id) (b.module? id) := by
  cases hm : a.module? id with
  | none =>
    rw [module?_eq_none_of_outline_eq h.outline hm]
    exact .none
  | some m =>
    obtain ⟨k, hk, houtline⟩ := exists_module?_of_outline_eq h.outline hm
    obtain ⟨heq, hstructures⟩ := Module.eq_of_outline_eq houtline
    have hlength : m.structures.length = k.structures.length := by
      simpa using (congrArg List.length hstructures).symm
    rw [hk]
    refine .some ⟨heq, List.forall₂_of_length_eq_of_get hlength fun i hi hi' => ?_⟩
    have hs : a.structure? ⟨id, i⟩ = some m.structures[i] := by
      rw [structure?_of_module? hm, List.getElem?_eq_getElem hi]
    have ht : b.structure? ⟨id, i⟩ = some k.structures[i] := by
      rw [structure?_of_module? hk, List.getElem?_eq_getElem hi']
    exact h.finishes hs ht

theorem leavesClean (h : LaysOut touched a b)
    (hunmarked : ∀ id s, a.structure? id = some s → s.layout ≠ .computing) : a.LeavesClean b where
  length_eq := by rw [← length_outline, h.outline, length_outline]
  modules := h.finishes_module
  unmarked := by
    intro id t ht hmark
    have hmarks : Marks [] b := (Marks.start hunmarked).laysOut h
    exact List.not_mem_nil ((hmarks.mem_iff id).mpr ⟨t, ht, hmark⟩)
  done := fun _ _ => h.structure?_of_done

end LaysOut

theorem inherited_marks (a : Arena) :
    Inherited a fun path c _ => c.outline = a.outline ∧ Marks path c where
  outline := fun _ _ _ hc => hc.1
  marks := fun _ _ _ hc => hc.2
  below := by
    rintro path c id s touched d child ⟨houtline, hmarks⟩ hs hfresh - hpass
    refine ⟨?_, (hmarks.mark hs hfresh).laysOut hpass⟩
    rw [hpass.outline, outline_setStructure hs (s.outline_layout .computing), houtline]

/-- A pass over an arena without marks follows its rules to an end, whatever the arena holds, and at
every call the structures that are being laid out are those that are marked. No other outcome is
possible by the rules. The pass leaves no mark, and changes nothing but structures that had no
layout and have one then. -/
theorem computeLayouts_leavesClean (a : Arena)
    (hunmarked : ∀ id s, a.structure? id = some s → s.layout ≠ .computing)
    (targets : List ModuleId) :
    LaysAll (fun path c _ => Marks path c) a (targets.flatMap a.structureIds)
      (a.computeLayouts targets).1 (a.computeLayouts targets).2 ∧
    (∀ met r b, LaysAll met a (targets.flatMap a.structureIds) r b →
      a.computeLayouts targets = (r, b)) ∧
    a.LeavesClean (a.computeLayouts targets).2 := by
  have heq := (Prod.eta (a.computeLayouts targets)).symm
  have hrun : LaysAll (fun path c _ => Marks path c) a (targets.flatMap a.structureIds)
      (a.computeLayouts targets).1 (a.computeLayouts targets).2 := by
    refine laysAll_layOutAll (fun _ _ _ hc => hc.2) (inherited_marks a) ?_ heq
    intro touched c hpass id _
    exact ⟨hpass.outline, (Marks.start hunmarked).laysOut hpass⟩
  exact ⟨hrun, fun met r b h => heq.trans (h.unique hrun),
    (computeLayouts_spec heq).1.leavesClean hunmarked⟩

/-- Two structures of two modules that hold each other, one of them behind one that is sound. -/
def knotted : Arena :=
  [some { Module.hosted (.slot 0) (.virtual "/v") with
      structures := [
        { name := "A", owner := .slot 0, index := 0,
          fields := [{ type := .struct ⟨.slot 0, 1⟩ }, { type := .struct ⟨.slot 1, 0⟩ }] },
        { name := "C", owner := .slot 0, index := 1, fields := [{ type := .fundamental .int }] }] },
    some { Module.hosted (.slot 1) (.virtual "/w") with
      structures := [{
        name := "B", owner := .slot 1, index := 0,
        fields := [{ type := .struct ⟨.slot 0, 0⟩ }] }] }]

/-- A pass without a check fails at the structure that it began with. The sound one keeps its
layout. -/
theorem computeLayouts_leavesClean_knotted :
    (knotted.computeLayouts [.slot 0]).1 = .error (.structureCycle [⟨⟨.slot 0, 0⟩, "A"⟩]) ∧
      knotted.LeavesClean (knotted.computeLayouts [.slot 0]).2 ∧
      (knotted.computeLayouts [.slot 0]).2.isLaidOut ⟨.slot 0, 1⟩ = true := by
  have hunmarked : ∀ id s, knotted.structure? id = some s → s.layout ≠ .computing :=
    forall_structure?_iff.mpr (by decide +kernel)
  obtain ⟨-, -, hclean⟩ := computeLayouts_leavesClean knotted hunmarked [.slot 0]
  exact ⟨by decide +kernel, hclean, by decide +kernel⟩

/-! ## Passes after the check for cycles -/

/-- A call on the way from structures that the check went through: it is for a grounded structure,
to which every structure leads that is being laid out. -/
structure Checked (a₀ : Arena) (path : List StructureId) (a : Arena) (id : StructureId) :
    Prop where
  outline : a.outline = a₀.outline
  marks : Marks path a
  laidOut : ∀ x, a₀.isLaidOut x = true → a.isLaidOut x = true
  grounded : a₀.Grounded id
  leads : ∀ x ∈ path, TransGen a₀.Opens x id

namespace Checked

theorem not_mem (h : Checked a₀ path a id) : id ∉ path :=
  fun hid => not_transGen_of_acc h.grounded (h.leads id hid)

theorem not_isMarked (h : Checked a₀ path a id) : ¬ a.IsMarked id :=
  fun hmark => h.not_mem ((h.marks.mem_iff id).mpr hmark)

/-- The layouts that a pass adds close ways but open none. -/
theorem opens (h : Checked a₀ path a id) (hs : a.structure? id = some s)
    (hfresh : s.layout = .notComputed) {child : StructureId} (hchild : child ∈ a.embedded id) :
    a₀.Opens id child := by
  refine ⟨?_, by rwa [embedded_eq_of_outline_eq h.outline] at hchild⟩
  by_contra hlaid
  rw [Bool.not_eq_false] at hlaid
  have hdone : s.layout.isDone = true := isLaidOut_of_structure? hs ▸ h.laidOut id hlaid
  rw [hfresh] at hdone
  cases hdone

end Checked

theorem isLaidOut_mark (hs : a.structure? id = some s) (hfresh : s.layout = .notComputed)
    {x : StructureId} (hx : a.isLaidOut x = true) :
    (a.setStructure id { s with layout := .computing }).isLaidOut x = true := by
  have hne : x ≠ id := by
    rintro rfl
    rw [isLaidOut_of_structure? hs, hfresh] at hx
    cases hx
  rwa [isLaidOut, structure?_setStructure_of_ne hne]

theorem inherited_checked (a₀ : Arena) : Inherited a₀ (Checked a₀) where
  outline := fun _ _ _ hc => hc.outline
  marks := fun _ _ _ hc => hc.marks
  below := by
    intro path c id s touched d child hc hs hfresh hchild hpass
    have hopens : a₀.Opens id child := hc.opens hs hfresh hchild
    exact {
      outline := by
        rw [hpass.outline, outline_setStructure hs (s.outline_layout .computing), hc.outline]
      marks := (hc.marks.mark hs hfresh).laysOut hpass
      laidOut := fun x hx => hpass.isLaidOut (isLaidOut_mark hs hfresh (hc.laidOut x hx))
      grounded := hc.grounded.inv hopens
      leads := List.forall_mem_cons.mpr
        ⟨.single hopens, fun x hx => (hc.leads x hx).tail hopens⟩ }

/-- After a check that went well, a pass over the same modules calls itself for no structure that is
being laid out, and for none that is marked. So it reports no cycle. -/
theorem computeLayouts_of_checkCycles (a : Arena)
    (hunmarked : ∀ id s, a.structure? id = some s → s.layout ≠ .computing)
    (targets : List ModuleId) (hcheck : a.checkCycles targets = .ok ()) :
    LaysAll (fun path c id => id ∉ path ∧ ¬ c.IsMarked id) a (targets.flatMap a.structureIds)
      (a.computeLayouts targets).1 (a.computeLayouts targets).2 ∧
    ∀ cycle, (a.computeLayouts targets).1 ≠ .error (.structureCycle cycle) := by
  have hrun : LaysAll (fun path c id => id ∉ path ∧ ¬ c.IsMarked id) a
      (targets.flatMap a.structureIds) (a.computeLayouts targets).1
      (a.computeLayouts targets).2 := by
    refine laysAll_layOutAll (fun _ _ _ hc => ⟨hc.not_mem, hc.not_isMarked⟩)
      (inherited_checked a) ?_ (Prod.eta (a.computeLayouts targets)).symm
    intro touched c hpass id hid
    exact {
      outline := hpass.outline
      marks := (Marks.start hunmarked).laysOut hpass
      laidOut := fun x => hpass.isLaidOut
      grounded := grounded_of_checkCycles hcheck id hid
      leads := by simp }
  exact ⟨hrun, fun cycle => hrun.ne_cycle fun _ _ _ hmet => hmet.2⟩

/-- A structure that holds one which is laid out although it holds itself, and one which is not
there. -/
def frayed : Arena :=
  [some { Module.hosted (.slot 0) (.virtual "/v") with
      structures := [
        { name := "S", owner := .slot 0, index := 0,
          fields := [{ type := .struct ⟨.slot 0, 1⟩ }, { type := .struct ⟨.slot 5, 0⟩ }] },
        { name := "D", owner := .slot 0, index := 1, fields := [{ type := .struct ⟨.slot 0, 1⟩ }],
          layout := .done ⟨16, 4, 4⟩ }] }]

/-- The check goes well there, and the pass fails, but not for a cycle. -/
theorem computeLayouts_of_checkCycles_frayed :
    frayed.checkCycles [.slot 0] = .ok () ∧
      (frayed.computeLayouts [.slot 0]).1 = .error (.danglingStructure ⟨.slot 5, 0⟩) ∧
      LaysAll (fun path c id => id ∉ path ∧ ¬ c.IsMarked id) frayed [⟨.slot 0, 0⟩, ⟨.slot 0, 1⟩]
        (frayed.computeLayouts [.slot 0]).1 (frayed.computeLayouts [.slot 0]).2 := by
  have hunmarked : ∀ id s, frayed.structure? id = some s → s.layout ≠ .computing :=
    forall_structure?_iff.mpr (by decide +kernel)
  have hcheck : frayed.checkCycles [.slot 0] = .ok () := by decide +kernel
  obtain ⟨hrun, -⟩ := computeLayouts_of_checkCycles frayed hunmarked [.slot 0] hcheck
  have hids : [ModuleId.slot 0].flatMap frayed.structureIds = [⟨.slot 0, 0⟩, ⟨.slot 0, 1⟩] := by
    decide +kernel
  rw [hids] at hrun
  exact ⟨hcheck, by decide +kernel, hrun⟩

end Arena
end ModuleLinker
