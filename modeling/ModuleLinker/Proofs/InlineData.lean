import ModuleLinker.Proofs.Layout.Inline

/-!
# Inline data never overlap

Whatever layout passes were made over an arena, those that failed among them, the data of a
structure with a layout come one after the other inside its payload. Those that are not in an array
of structures are aligned wherever the structure itself is, and an object of the structure is its
header and its payload in whole words.
-/
namespace ModuleLinker.Arena

/-- Arenas with layouts from layout passes only, be these successful or not. Before a pass
structures may come, change and go, but one that keeps its layout keeps its fields, and those that
it contains keep theirs. -/
inductive LaidOutByPasses : Arena → Prop where
  | start {a : Arena} (none : ∀ id, a.isLaidOut id = false) : LaidOutByPasses a
  | change {a b : Arena} (before : LaidOutByPasses a)
      (kept : ∀ id s, b.structure? id = some s → s.layout.isDone = true →
        a.structure? id = some s)
      (whole : ∀ id, b.isLaidOut id = true → ∀ y ∈ b.embedded id, b.isLaidOut y = true) :
      LaidOutByPasses b
  | pass {a : Arena} (before : LaidOutByPasses a) (targets : List ModuleId) :
      LaidOutByPasses (a.computeLayouts targets).2

variable {a : Arena} {id : StructureId} {s : Structure} {l : Layout}

/-- Nothing that has a layout is nothing to close. -/
theorem LayoutsClosed.of_none (h : ∀ id, a.isLaidOut id = false) : a.LayoutsClosed := by
  refine LayoutsClosed.nil.of_kept (fun id s hs hdone => ?_) fun id hlaid => ?_
  · have hnot := h id
    rw [isLaidOut_of_structure? hs, hdone] at hnot
    cases hnot
  · rw [h id] at hlaid
    cases hlaid

/-- Passes leave closed layouts. -/
theorem LaidOutByPasses.closed (h : a.LaidOutByPasses) : a.LayoutsClosed := by
  induction h with
  | start none => exact .of_none none
  | change _ kept whole ih => exact ih.of_kept kept whole
  | @pass a _ targets ih => exact ih.computeLayouts (Prod.eta (a.computeLayouts targets)).symm

/-- A structure with a layout can be taken apart, in one way. Its data lie in its payload, one after
the other. If the payload is at a multiple of its alignment, each of them that is not in an array of
structures is at a multiple of its own. An object is at least as large as its header and its
payload, in whole words. -/
theorem inline_data (ha : a.LaidOutByPasses) (hs : a.structure? id = some s)
    (hl : s.layout = .done l) :
    ∃ data, (∀ data', a.InlineData id data' ↔ data' = data) ∧
      data.Pairwise Datum.Before ∧
      (∀ d ∈ data, d.stop ≤ l.rawSize) ∧
      (∀ base, l.rawAlignment ∣ base → ∀ d ∈ data, d.strided = false →
        d.kind.alignment ∣ base + d.start) ∧
      8 ∣ l.size ∧ l.rawSize + 8 ≤ l.size := by
  have hclosed := ha.closed
  obtain ⟨data, hdata⟩ := hclosed.exists_inlineData hs (by simp [hl])
  have hfill := (hclosed.fits_of_inlineData hdata hs hl).fill
  have hsize := (hclosed.placed id s l hs hl).size
  refine ⟨data, fun data' => ⟨fun h => h.unique hdata, fun h => h ▸ hdata⟩, hfill.ordered,
    hfill.upper, ?_, ?_, ?_⟩
  · intro base hbase d hd hfree
    obtain ⟨halignment, hstart⟩ := hfill.aligned d hd hfree
    exact Nat.dvd_add (Nat.dvd_trans halignment hbase) hstart
  · rw [hsize]
    exact dvd_alignUp (by decide)
  · rw [hsize]
    exact le_alignUp _ _

/-- Values of twelve bytes that need eight: in an array the second `long` is at a multiple of four,
and by itself behind an array without bytes the value is padded. -/
theorem inline_data_of_array :
    let p : Structure := ⟨"P", .slot 0, 0, [{ type := .fundamental .long },
      { type := .fundamental .int }], .notComputed⟩
    let e : Structure := ⟨"E", .slot 0, 1, [], .notComputed⟩
    let q : Structure := ⟨"Q", .slot 1, 0, [{ type := .fundamental .int },
      { type := .struct ⟨.slot 0, 0⟩, count := 2 }, { type := .struct ⟨.slot 0, 1⟩, count := 3 },
      { type := .struct ⟨.slot 0, 0⟩ }], .notComputed⟩
    let before : Arena := [some { Module.hosted (.slot 0) (.virtual "/base") with
      structures := [p, e] },
      some { Module.hosted (.slot 1) (.virtual "/app") with structures := [q] }]
    let a := (before.computeLayouts [.slot 1]).2
    a.LaidOutByPasses ∧
      (∃ s, a.structure? ⟨.slot 1, 0⟩ = some s ∧ s.layout = .done ⟨72, 60, 8⟩) ∧
      ∃ data, data = [⟨0, .scalar .int, false⟩, ⟨8, .count 2, false⟩, ⟨16, .scalar .long, true⟩,
        ⟨24, .scalar .int, true⟩, ⟨28, .scalar .long, true⟩, ⟨36, .scalar .int, true⟩,
        ⟨40, .count 3, false⟩, ⟨48, .scalar .long, false⟩, ⟨56, .scalar .int, false⟩] ∧
        (∀ data', a.InlineData ⟨.slot 1, 0⟩ data' ↔ data' = data) ∧ data.Pairwise Datum.Before := by
  intro p e q before a
  have hall : ∀ id ∈ before.allStructureIds, before.isLaidOut id = false := by decide +kernel
  have hstart : before.LaidOutByPasses := by
    refine .start fun id => ?_
    by_contra hlaid
    obtain ⟨s, hs, -⟩ := exists_structure?_of_isLaidOut (eq_true_of_ne_false hlaid)
    exact hlaid (hall id (mem_allStructureIds.mpr ⟨s, hs⟩))
  have ha : a.LaidOutByPasses := hstart.pass [.slot 1]
  have hlayout : (a.structure? ⟨.slot 1, 0⟩).map Structure.layout = some (.done ⟨72, 60, 8⟩) := by
    decide +kernel
  obtain ⟨s, hs, hl⟩ := Option.map_eq_some_iff.mp hlayout
  obtain ⟨data, hdata, hordered, -⟩ := inline_data ha hs hl
  exact ⟨ha, ⟨s, hs, hl⟩, data, ((hdata _).mp ⟨2, by decide +kernel⟩).symm, hdata, hordered⟩

end ModuleLinker.Arena
