import ModuleLinker.Proofs.Layout.Finishing
import ModuleLinker.Registry.Operation

/-!
# The layout pass computes the reference layout

On an arena that nothing is being laid out in, and where whatever is laid out follows the placement
rules, a pass over modules from which no way leads into a cycle goes well exactly if all that their
structures contain is there and of types that can be stored, and no structure of theirs gets too
large by the reference. What it leaves is then the reference layout of every structure that it came
to, whichever way it took. So the order of the modules does not matter, and neither does what was
laid out before. The check for cycles sees to this as far as structures without a layout go; the
others are taken to be free of cycles.
-/
namespace ModuleLinker

theorem Field.map_eq_of_unplaced {fs gs : List Field}
    (hfields : fs.map Field.unplaced = gs.map Field.unplaced)
    (hoffsets : fs.map Field.offset = gs.map Field.offset) : fs = gs := by
  induction fs generalizing gs with
  | nil => cases gs with
    | nil => rfl
    | cons g gs => cases hfields
  | cons f fs ih =>
    cases gs with
    | nil => cases hfields
    | cons g gs =>
      simp only [List.map_cons, List.cons.injEq] at hfields hoffsets
      rw [ih hfields.2 hoffsets.2]
      cases f
      cases g
      simp_all [unplaced]

/-- An outline and a reference leave one structure. -/
theorem Structure.LaidOutBy.eq_of_outline_eq {s t : Structure} {r : Reference}
    (hs : s.LaidOutBy r) (ht : t.LaidOutBy r) (h : t.outline = s.outline) : t = s := by
  obtain ⟨heq, hfields⟩ := Structure.eq_of_outline_eq h
  rw [heq, Field.map_eq_of_unplaced hfields (ht.2.trans hs.2.symm), ht.1.trans hs.1.symm]

namespace Arena

variable {a b : Arena} {targets : List ModuleId} {id x : StructureId} {r : Reference}

/-- An outline and the structures leave one arena. -/
theorem eq_of_structure?_eq (houtline : b.outline = a.outline)
    (h : ∀ id, b.structure? id = a.structure? id) : b = a := by
  have hlength : b.length = a.length := by
    rw [← length_outline, houtline, length_outline]
  refine eq_of_module?_eq hlength fun id => ?_
  cases hm : a.module? id with
  | none => exact module?_eq_none_of_outline_eq houtline hm
  | some m =>
    obtain ⟨k, hk, hkm⟩ := exists_module?_of_outline_eq houtline hm
    have hstructures : k.structures = m.structures := by
      apply List.ext_getElem?
      intro i
      have hbefore : a.structure? ⟨id, i⟩ = m.structures[i]? := structure?_of_module? hm
      have hafter : b.structure? ⟨id, i⟩ = k.structures[i]? := structure?_of_module? hk
      rw [← hbefore, ← hafter, h ⟨id, i⟩]
    rw [hk, (Module.eq_of_outline_eq hkm).1, hstructures]

/-! ## What a pass comes to -/

/-- The structures of some modules, and all that is embedded in them, however deep. -/
def ReachedFrom (a : Arena) (targets : List ModuleId) (x : StructureId) : Prop :=
  ∃ id ∈ targets.flatMap a.structureIds, Relation.ReflTransGen (fun x y => y ∈ a.embedded x) id x

/-- A structure that is there, with fields of types that can be stored. -/
def WellTyped (a : Arena) (x : StructureId) : Prop :=
  ∃ s, a.structure? x = some s ∧ ∀ f ∈ s.fields, f.type.TakesRoom

theorem mem_flatMap_structureIds :
    id ∈ targets.flatMap a.structureIds ↔ id.owner ∈ targets ∧ ∃ s, a.structure? id = some s := by
  simp only [List.mem_flatMap, mem_structureIds]
  constructor
  · rintro ⟨owner, howner, rfl, hs⟩
    exact ⟨howner, hs⟩
  · rintro ⟨howner, hs⟩
    exact ⟨id.owner, howner, rfl, hs⟩

theorem reachedFrom_congr {targets' : List ModuleId} (h : ∀ id, id ∈ targets' ↔ id ∈ targets) :
    a.ReachedFrom targets' x ↔ a.ReachedFrom targets x := by
  simp only [ReachedFrom, mem_flatMap_structureIds, h]

/-- A pass leaves alone what it does not come to. -/
theorem structure?_computeLayouts (hx : ¬ a.ReachedFrom targets x) :
    (a.computeLayouts targets).2.structure? x = a.structure? x := by
  obtain ⟨hlays, -⟩ := computeLayouts_spec (Prod.eta (a.computeLayouts targets)).symm
  cases hs : a.structure? x with
  | none => exact structure?_eq_none_of_outline_eq hlays.outline hs
  | some s =>
    obtain ⟨t, ht, -⟩ := exists_structure?_of_outline_eq hlays.outline hs
    rcases hlays.settles x s t hs ht with rfl | ⟨⟨id, howner, hreaches⟩, -⟩
    · exact ht
    · have hid : ∃ s, a.structure? id = some s := by
        rcases Relation.ReflTransGen.cases_head hreaches with rfl | ⟨y, ⟨-, hy⟩, -⟩
        · exact ⟨s, hs⟩
        · exact exists_structure?_of_mem_embedded hy
      refine absurd ⟨id, mem_flatMap_structureIds.mpr ⟨howner, hid⟩, ?_⟩ hx
      exact Relation.ReflTransGen.mono (fun _ _ hstep => hstep.2) _ _ hreaches

/-- The way down ends from all that modules come to if it ends from their own structures. -/
theorem acc_of_reachedFrom
    (hends : ∀ id ∈ targets.flatMap a.structureIds, Acc (fun y x => y ∈ a.embedded x) id)
    (hx : a.ReachedFrom targets x) : Acc (fun y x => y ∈ a.embedded x) x := by
  obtain ⟨id, hid, hreaches⟩ := hx
  have hacc := hends id hid
  induction hreaches with
  | refl => exact hacc
  | tail _ hstep ih => exact ih.inv hstep

/-- A structure has a reference if the way down from it ends and everything on it is well typed. -/
theorem exists_reference_of_acc (hends : Acc (fun y x => y ∈ a.embedded x) id)
    (htyped : ∀ x, Relation.ReflTransGen (fun x y => y ∈ a.embedded x) id x → a.WellTyped x) :
    ∃ r, a.HasReference id r := by
  induction hends with
  | intro id _ ih =>
    obtain ⟨s, hs, hroom⟩ := htyped id .refl
    exact exists_hasReference hs hroom fun y hy => ih y hy fun x hx => htyped x (.head hy hx)

section
variable (hrules : a.FollowsRules)
  (hends : ∀ id ∈ targets.flatMap a.structureIds, Acc (fun y x => y ∈ a.embedded x) id)
include hrules

/-- A pass that goes well lays out all that it comes to. -/
theorem isLaidOut_of_reachedFrom (hok : (a.computeLayouts targets).1 = .ok ())
    (hx : a.ReachedFrom targets x) : (a.computeLayouts targets).2.isLaidOut x = true := by
  obtain ⟨hlays, hdone⟩ := computeLayouts_spec (Prod.eta (a.computeLayouts targets)).symm
  obtain ⟨id, hid, hreaches⟩ := hx
  obtain ⟨howner, s, hs⟩ := mem_flatMap_structureIds.mp hid
  induction hreaches with
  | refl =>
    obtain ⟨t, ht, -⟩ := exists_structure?_of_outline_eq hlays.outline hs
    rw [isLaidOut_of_structure? ht]
    exact hdone hok id t howner ht
  | tail _ hz ih =>
    rw [← embedded_eq_of_outline_eq hlays.outline] at hz
    exact (hrules.laysOut hlays).isLaidOut_of_embeds ⟨ih, hz⟩

/-- So all that it comes to is well typed. -/
theorem wellTyped_of_reachedFrom (hok : (a.computeLayouts targets).1 = .ok ())
    (hx : a.ReachedFrom targets x) : a.WellTyped x := by
  obtain ⟨hlays, -⟩ := computeLayouts_spec (Prod.eta (a.computeLayouts targets)).symm
  obtain ⟨t, ht, hdone⟩ := exists_structure?_of_isLaidOut (isLaidOut_of_reachedFrom hrules hok hx)
  obtain ⟨s, hs, hst⟩ := exists_structure?_of_outline_eq hlays.outline.symm ht
  refine ⟨s, hs, fun f hf => ?_⟩
  have htype : f.type ∈ t.fields.map Field.type := by
    rw [← Structure.map_type_of_outline_eq hst]
    exact List.mem_map_of_mem hf
  obtain ⟨g, hg, hgf⟩ := List.mem_map.mp htype
  obtain ⟨l, hl⟩ := stored_iff.mp ((hrules.laysOut hlays).stored ht hdone g hg)
  rw [← hgf]
  exact takesRoom_of_layoutOf? hl

include hends

/-- A pass that goes well leaves the reference layout of all that it comes to. -/
theorem exists_laidOutBy (hok : (a.computeLayouts targets).1 = .ok ())
    (hx : a.ReachedFrom targets x) :
    ∃ s r, (a.computeLayouts targets).2.structure? x = some s ∧ a.HasReference x r ∧
      s.LaidOutBy r ∧ r.size < addressLimit := by
  obtain ⟨hlays, -⟩ := computeLayouts_spec (Prod.eta (a.computeLayouts targets)).symm
  obtain ⟨s, hs, hdone⟩ := exists_structure?_of_isLaidOut (isLaidOut_of_reachedFrom hrules hok hx)
  have hacc := acc_of_reachedFrom hends hx
  simp only [← embedded_eq_of_outline_eq hlays.outline] at hacc
  obtain ⟨r, hr, hlaid, hsize⟩ := (hrules.laysOut hlays).exists_reference hacc hs hdone
  exact ⟨s, r, hs, (hasReference_of_outline_eq hlays.outline).mp hr, hlaid, hsize⟩

/-- Passes over the same modules that go well leave the same arena. -/
theorem computeLayouts_eq_of_ok {targets' : List ModuleId}
    (hsame : ∀ id, id ∈ targets' ↔ id ∈ targets) (hok : (a.computeLayouts targets).1 = .ok ())
    (hok' : (a.computeLayouts targets').1 = .ok ()) :
    a.computeLayouts targets' = a.computeLayouts targets := by
  obtain ⟨hlays, -⟩ := computeLayouts_spec (Prod.eta (a.computeLayouts targets)).symm
  obtain ⟨hlays', -⟩ := computeLayouts_spec (Prod.eta (a.computeLayouts targets')).symm
  have houtline := hlays'.outline.trans hlays.outline.symm
  have hends' : ∀ id ∈ targets'.flatMap a.structureIds, Acc (fun y x => y ∈ a.embedded x) id := by
    simpa only [mem_flatMap_structureIds, hsame] using hends
  refine Prod.ext (hok'.trans hok.symm) (eq_of_structure?_eq houtline fun x => ?_)
  by_cases hx : a.ReachedFrom targets x
  · obtain ⟨s, r, hs, hr, hlaid, -⟩ := exists_laidOutBy hrules hends hok hx
    obtain ⟨s', r', hs', hr', hlaid', -⟩ :=
      exists_laidOutBy hrules hends' hok' ((reachedFrom_congr hsame).mpr hx)
    obtain rfl := hr.unique hr'
    obtain ⟨t, ht, hst⟩ := exists_structure?_of_outline_eq houtline hs
    obtain rfl : s' = t := Option.some.inj (hs'.symm.trans ht)
    rw [hs, hs', hlaid.eq_of_outline_eq hlaid' hst]
  · have hx' : ¬ a.ReachedFrom targets' x := fun h => hx ((reachedFrom_congr hsame).mp h)
    rw [structure?_computeLayouts hx, structure?_computeLayouts hx']

/-- A pass over modules from whose structures all ways down end goes well exactly if all that it
comes to is well typed, and no structure of the modules is too large by the reference. -/
theorem computeLayouts_ok_iff
    (hunmarked : ∀ id s, a.structure? id = some s → s.layout ≠ .computing) :
    (a.computeLayouts targets).1 = .ok () ↔
      (∀ x, a.ReachedFrom targets x → a.WellTyped x) ∧
        ∀ id ∈ targets.flatMap a.structureIds, ∀ r, a.HasReference id r →
          r.size < addressLimit := by
  constructor
  · intro hok
    refine ⟨fun x hx => wellTyped_of_reachedFrom hrules hok hx, fun id hid r hr => ?_⟩
    obtain ⟨-, r', -, hr', -, hsize⟩ := exists_laidOutBy hrules hends hok ⟨id, hid, .refl⟩
    rwa [hr.unique hr']
  · rintro ⟨htyped, hsizes⟩
    have hall : ∀ id ∈ targets.flatMap a.structureIds,
        ∃ r, a.HasReference id r ∧ r.size < addressLimit := by
      intro id hid
      obtain ⟨r, hr⟩ := exists_reference_of_acc (hends id hid) fun x hx => htyped x ⟨id, hid, hx⟩
      exact ⟨r, hr, hsizes id hid r hr⟩
    obtain ⟨b, hb⟩ := exists_computeLayouts hunmarked hrules hall
    exact congrArg Prod.fst hb

end

/-! ## The reference layout -/

/-- On an arena without marks, where whatever is laid out follows the placement rules, and for
modules in which the check finds no cycle and which come to nothing laid out that contains itself,
the layout pass goes well exactly if everything embedded in their structures is there and has only
fields of types that can be stored, and the reference size of each of their structures, a natural
number, is below the address limit. It then leaves everything embedded in them with exactly the
offsets, sizes and alignment of the reference, and it does so in any order of the modules. -/
theorem computeLayouts_reference
    (hunmarked : ∀ id s, a.structure? id = some s → s.layout ≠ .computing)
    (hrules : a.FollowsRules) (hcheck : a.checkCycles targets = .ok ())
    (hacyclic : ∀ x, a.ReachedFrom targets x → ¬ Relation.TransGen a.Embeds x x) :
    ((a.computeLayouts targets).1 = .ok () ↔
      (∀ x, a.ReachedFrom targets x → a.WellTyped x) ∧
        ∀ id ∈ targets.flatMap a.structureIds, ∀ r, a.HasReference id r →
          r.size < addressLimit) ∧
    ((a.computeLayouts targets).1 = .ok () → ∀ x, a.ReachedFrom targets x →
      ∃ s r, (a.computeLayouts targets).2.structure? x = some s ∧ a.HasReference x r ∧
        s.LaidOutBy r ∧ r.size < addressLimit) ∧
    ∀ targets', (∀ id, id ∈ targets' ↔ id ∈ targets) →
      ((a.computeLayouts targets').1 = .ok () ↔ (a.computeLayouts targets).1 = .ok ()) ∧
      ((a.computeLayouts targets).1 = .ok () →
        a.computeLayouts targets' = a.computeLayouts targets) := by
  have hends : ∀ id ∈ targets.flatMap a.structureIds, Acc (fun y x => y ∈ a.embedded x) id :=
    fun id hid => hrules.acc_of_grounded (grounded_of_checkCycles hcheck id hid)
      fun x hx => hacyclic x ⟨id, hid, hx⟩
  have hiff := computeLayouts_ok_iff hrules hends hunmarked
  refine ⟨hiff, fun hok x => exists_laidOutBy hrules hends hok, fun targets' hsame => ?_⟩
  have hmem : ∀ id, id ∈ targets'.flatMap a.structureIds ↔ id ∈ targets.flatMap a.structureIds := by
    simp only [mem_flatMap_structureIds, hsame, implies_true]
  have hiff' : (a.computeLayouts targets').1 = .ok () ↔ (a.computeLayouts targets).1 = .ok () := by
    rw [hiff, computeLayouts_ok_iff hrules (fun id hid => hends id ((hmem id).mp hid)) hunmarked]
    simp only [reachedFrom_congr hsame, hmem]
  exact ⟨hiff', fun hok => computeLayouts_eq_of_ok hrules hends hsame hok (hiff'.mpr hok)⟩

/-- An array of a structure of another module that was laid out before. -/
theorem computeLayouts_reference_of_array :
    let p : Structure := ⟨"P", .slot 0, 0, [{ type := .fundamental .int }], .done ⟨16, 4, 4⟩⟩
    let q : Structure := ⟨"Q", .slot 1, 0, [{ type := .fundamental .int },
      { type := .struct ⟨.slot 0, 0⟩, count := 3 }, { type := .fundamental .long }], .notComputed⟩
    let a : Arena := [some { Module.hosted (.slot 0) (.virtual "/base") with structures := [p] },
      some { Module.hosted (.slot 1) (.virtual "/app") with structures := [q] }]
    (∀ id s, a.structure? id = some s → s.layout ≠ .computing) ∧ a.FollowsRules ∧
      a.checkCycles [.slot 1] = .ok () ∧ (∀ x, ¬ Relation.TransGen a.Embeds x x) ∧
      (a.computeLayouts [.slot 1]).1 = .ok () ∧
      ∃ s, (a.computeLayouts [.slot 1]).2.structure? ⟨.slot 1, 0⟩ = some s ∧
        s.LaidOutBy ⟨[0, 8, 32], 40, 8⟩ := by
  intro p q a
  have hunmarked := forall_structure?_iff.mpr
    (by decide +kernel : ∀ id ∈ a.allStructureIds, ∀ s ∈ a.structure? id, s.layout ≠ .computing)
  have hrules : a.FollowsRules := by decide +kernel
  have hcheck : a.checkCycles [.slot 1] = .ok () := by decide +kernel
  have hflat : ∀ x ∈ a.allStructureIds, a.isLaidOut x = true → a.embedded x = [] := by
    decide +kernel
  have hacyclic : ∀ x, ¬ Relation.TransGen a.Embeds x x := by
    intro x hcycle
    obtain ⟨y, ⟨hlaid, hy⟩, -⟩ := Relation.TransGen.head'_iff.mp hcycle
    rw [hflat x (mem_allStructureIds.mpr (exists_structure?_of_mem_embedded hy)) hlaid] at hy
    cases hy
  have hok : (a.computeLayouts [.slot 1]).1 = .ok () := by decide +kernel
  have hreached : a.ReachedFrom [.slot 1] ⟨.slot 1, 0⟩ := ⟨_, by decide +kernel, .refl⟩
  obtain ⟨s, r, hs, hr, hlaid, -⟩ :=
    (computeLayouts_reference hunmarked hrules hcheck fun x _ => hacyclic x).2.1 hok _ hreached
  obtain rfl : r = ⟨[0, 8, 32], 40, 8⟩ := hr.unique ⟨2, by decide +kernel⟩
  exact ⟨hunmarked, hrules, hcheck, hacyclic, hok, s, hs, hlaid⟩

/-- A registry in which two structures contain each other and are laid out with one layout. The
second structure of the first module is cut off by a failed build after the other module was built
with it, and the structure that takes its place contains the one that contained it. Both follow the
rules, all that is met is there and well typed, and a pass over the first module goes well; but the
two have no reference, nor has the structure that was added last. -/
theorem laid_out_cycle_has_no_reference :
    let a := ((Loader.ofDirectories []).run
      [.create "/v", .addStructure (.slot 0) "A" [{ type := .fundamental .int }],
        .build {} (.slot 0), .addStructure (.slot 0) "B" [{ type := .fundamental .int }],
        .create "/w", .addStructure (.slot 1) "T" [{ type := .struct ⟨.slot 0, 1⟩ }],
        .build {} (.slot 1), .addDependency (.slot 0) "/missing", .build {} (.slot 0),
        .addStructure (.slot 0) "C" [{ type := .struct ⟨.slot 1, 0⟩ }], .build {} (.slot 0),
        .addStructure (.slot 0) "D" [{ type := .struct ⟨.slot 0, 1⟩ }]]).arena
    (∀ id s, a.structure? id = some s → s.layout ≠ .computing) ∧ a.FollowsRules ∧
      a.checkCycles [.slot 0] = .ok () ∧ (a.computeLayouts [.slot 0]).1 = .ok () ∧
      (∀ x, a.ReachedFrom [.slot 0] x → a.WellTyped x) ∧
      ∀ x ∈ [⟨.slot 0, 1⟩, ⟨.slot 1, 0⟩, ⟨.slot 0, 2⟩], a.ReachedFrom [.slot 0] x ∧
        ∀ r, ¬ a.HasReference x r := by
  intro a
  have hunmarked := forall_structure?_iff.mpr
    (by decide +kernel : ∀ id ∈ a.allStructureIds, ∀ s ∈ a.structure? id, s.layout ≠ .computing)
  have hrules : a.FollowsRules := by decide +kernel
  have hok : (a.computeLayouts [.slot 0]).1 = .ok () := by decide +kernel
  have hT : ⟨.slot 1, 0⟩ ∈ a.embedded ⟨.slot 0, 1⟩ := by decide +kernel
  have hC : ⟨.slot 0, 1⟩ ∈ a.embedded ⟨.slot 1, 0⟩ := by decide +kernel
  have hC' : ⟨.slot 0, 1⟩ ∈ a.embedded ⟨.slot 0, 2⟩ := by decide +kernel
  have hnone : ∀ r, ¬ a.HasReference ⟨.slot 0, 1⟩ r :=
    fun r hr => not_transGen_of_acc hr.acc (.tail (.single hT) hC)
  refine ⟨hunmarked, hrules, by decide +kernel, hok,
    fun x => wellTyped_of_reachedFrom hrules hok, ?_⟩
  simp only [List.forall_mem_cons]
  refine ⟨⟨⟨_, by decide +kernel, .refl⟩, hnone⟩,
    ⟨⟨_, by decide +kernel, .single hT⟩, fun r hr => ?_⟩,
    ⟨⟨_, by decide +kernel, .refl⟩, fun r hr => ?_⟩, by simp⟩
  · obtain ⟨r', hr', -⟩ := hr.of_embedded hC
    exact hnone r' hr'
  · obtain ⟨r', hr', -⟩ := hr.of_embedded hC'
    exact hnone r' hr'

end Arena
end ModuleLinker
