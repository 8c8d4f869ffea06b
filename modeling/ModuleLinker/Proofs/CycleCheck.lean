import ModuleLinker.Proofs.ReferenceLayout
import Mathlib.Data.List.Chain

/-!
# What the check for cycles reports

The search is written down once more as a relation without fuel: its rules say what happens at each
field of a structure, and a derivation is a search that has ended. The fuel of the check is enough
for the check to follow these rules to an end on every arena.

Along a derivation the path is a chain of structures without a layout, each containing the one
before it. A search that fails closes this chain, so what it reports is a cycle. It fails exactly if
there is a cycle to be found, because the ways down from a structure that leads to no cycle all end.
-/
namespace ModuleLinker
namespace Arena

open Relation (ReflTransGen TransGen)

variable {a : Arena}

/-! ## Containment -/

/-- A structure that is there and has no layout. -/
def LacksLayout (a : Arena) (id : StructureId) : Prop :=
  ∃ s, a.structure? id = some s ∧ s.layout.isDone = false

/-- A structure has a field, be it an array, of the type of another. -/
def Holds (a : Arena) (id child : StructureId) : Prop :=
  ∃ s, a.structure? id = some s ∧ ∃ f ∈ s.fields, f.type = .struct child

/-- Containment among the structures that are there and have no layout. -/
structure Contains (a : Arena) (id child : StructureId) : Prop where
  holds : a.Holds id child
  outer : a.LacksLayout id
  inner : a.LacksLayout child

/-- A cycle as it is reported. -/
structure IsCycle (a : Arena) (cycle : List CycleEntry) : Prop where
  nonempty : cycle ≠ []
  nodup : (cycle.map CycleEntry.id).Nodup
  lacksLayout : ∀ e ∈ cycle, a.LacksLayout e.id
  name : ∀ e ∈ cycle, ∃ s, a.structure? e.id = some s ∧ e.name = s.name
  /-- Each entry holds the next one, and the last holds the first. -/
  holds : (cycle ++ cycle.take 1).IsChain fun e next => a.Holds e.id next.id

theorem Opens.holds {id child : StructureId} (h : a.Opens id child) : a.Holds id child :=
  mem_embedded.mp h.2

theorem Opens.lacksLayout {id child : StructureId} (h : a.Opens id child) : a.LacksLayout id := by
  obtain ⟨s, hs⟩ := exists_structure?_of_mem_embedded h.2
  exact ⟨s, hs, by rw [← isLaidOut_of_structure? hs, h.1]⟩

theorem Contains.opens {id child : StructureId} (h : a.Contains id child) : a.Opens id child := by
  obtain ⟨s, hs, hopen⟩ := h.outer
  exact ⟨by rw [isLaidOut_of_structure? hs, hopen], mem_embedded.mpr h.holds⟩

/-- A way down to a structure that is there without a layout is a way through such structures. -/
theorem contains_of_reaches {id x : StructureId} (h : a.Reaches id x) (hx : a.LacksLayout x) :
    ReflTransGen a.Contains id x ∧ a.LacksLayout id := by
  induction h using ReflTransGen.head_induction_on with
  | refl => exact ⟨.refl, hx⟩
  | head hopens _ ih =>
    obtain ⟨hrest, hinner⟩ := ih
    exact ⟨.head ⟨hopens.holds, hopens.lacksLayout, hinner⟩ hrest, hopens.lacksLayout⟩

theorem contains_of_transGen_opens {x : StructureId} (h : TransGen a.Opens x x) :
    TransGen a.Contains x x ∧ a.LacksLayout x := by
  obtain ⟨y, hxy, hyx⟩ := TransGen.head'_iff.mp h
  obtain ⟨hrest, hinner⟩ := contains_of_reaches hyx hxy.lacksLayout
  exact ⟨.head' ⟨hxy.holds, hxy.lacksLayout, hinner⟩ hrest, hxy.lacksLayout⟩

theorem Grounded.of_reaches {id x : StructureId} (h : a.Grounded id) (hx : a.Reaches id x) :
    a.Grounded x := by
  induction hx with
  | refl => exact h
  | tail _ hstep ih => exact ih.inv hstep

/-- A structure from which one gets to no cycle is grounded, and no other is. -/
theorem not_grounded_iff {id : StructureId} :
    ¬ a.Grounded id ↔ ∃ x, a.Reaches id x ∧ TransGen a.Opens x x := by
  constructor
  · intro hnot
    by_contra hacyclic
    refine hnot (acc_of_acyclic (fun x y hstep => exists_structure?_of_mem_embedded hstep.2)
      fun x hreaches hcycle => ?_)
    exact hacyclic ⟨x, hreaches, hcycle⟩
  · rintro ⟨x, hreaches, hcycle⟩ hgrounded
    exact not_transGen_of_acc (hgrounded.of_reaches hreaches) hcycle

/-! ## The search by its rules -/

/-- A search below some of the fields of the first structure of `path`, one field after the other:
`finished` holds the structures below which it knows that there is no cycle, and the result is all
of these at the end, or a cycle. -/
inductive Explores (a : Arena) : List StructureId → List StructureId → List StructureId →
    Except (List StructureId) (List StructureId) → Prop where
  | done (path finished : List StructureId) : Explores a path [] finished (.ok finished)
  | skip {path children finished : List StructureId} {child : StructureId}
      {r : Except (List StructureId) (List StructureId)} (hfinished : child ∈ finished)
      (hrest : Explores a path children finished r) : Explores a path (child :: children) finished r
  | cycle {path children finished : List StructureId} {child : StructureId}
      (hfresh : child ∉ finished) (hactive : child ∈ path) :
      Explores a path (child :: children) finished
        (.error (child :: (path.takeWhile (· ≠ child)).reverse))
  | laidOut {path children finished : List StructureId} {child : StructureId}
      {r : Except (List StructureId) (List StructureId)} (hfresh : child ∉ finished)
      (hidle : child ∉ path) (hdone : a.isLaidOut child = true)
      (hrest : Explores a path children (child :: finished) r) :
      Explores a path (child :: children) finished r
  | fails {path children finished cycle : List StructureId} {child : StructureId}
      (hfresh : child ∉ finished) (hidle : child ∉ path) (hopen : a.isLaidOut child = false)
      (hbelow : Explores a (child :: path) (a.embedded child) finished (.error cycle)) :
      Explores a path (child :: children) finished (.error cycle)
  | enters {path children finished below : List StructureId} {child : StructureId}
      {r : Except (List StructureId) (List StructureId)} (hfresh : child ∉ finished)
      (hidle : child ∉ path) (hopen : a.isLaidOut child = false)
      (hbelow : Explores a (child :: path) (a.embedded child) finished (.ok below))
      (hrest : Explores a path children (child :: below) r) :
      Explores a path (child :: children) finished r

/-- A search below one structure after the other, each of which starts a path. -/
inductive ExploresAll (a : Arena) : List StructureId → List StructureId →
    Except (List StructureId) (List StructureId) → Prop where
  | done (finished : List StructureId) : ExploresAll a [] finished (.ok finished)
  | skip {ids finished : List StructureId} {id : StructureId}
      {r : Except (List StructureId) (List StructureId)}
      (hknown : id ∈ finished ∨ a.isLaidOut id = true) (hrest : ExploresAll a ids finished r) :
      ExploresAll a (id :: ids) finished r
  | fails {ids finished cycle : List StructureId} {id : StructureId} (hfresh : id ∉ finished)
      (hopen : a.isLaidOut id = false)
      (hbelow : Explores a [id] (a.embedded id) finished (.error cycle)) :
      ExploresAll a (id :: ids) finished (.error cycle)
  | enters {ids finished below : List StructureId} {id : StructureId}
      {r : Except (List StructureId) (List StructureId)} (hfresh : id ∉ finished)
      (hopen : a.isLaidOut id = false)
      (hbelow : Explores a [id] (a.embedded id) finished (.ok below))
      (hrest : ExploresAll a ids (id :: below) r) : ExploresAll a (id :: ids) finished r

/-- What the search with fuel does at one field. -/
def visit (a : Arena) (fuel : Nat) (path finished : List StructureId) (child : StructureId) :
    Except (List StructureId) (List StructureId) :=
  if child ∈ finished then .ok finished
  else if child ∈ path then .error (child :: (path.takeWhile (· ≠ child)).reverse)
  else if a.isLaidOut child then .ok (child :: finished)
  else a.explore fuel path finished child

theorem explore_succ (fuel : Nat) (path finished : List StructureId) (id : StructureId) :
    a.explore (fuel + 1) path finished id =
      ((a.embedded id).foldlM (a.visit fuel (id :: path)) finished).map (id :: ·) := rfl

/-- The search goes through the fields by the rules if it does so below each of them. -/
theorem explores_foldlM {fuel : Nat} {path children : List StructureId}
    (hbelow : ∀ child ∈ children, child ∉ path → ∀ finished, ∃ r,
      a.Explores (child :: path) (a.embedded child) finished r ∧
        a.explore fuel path finished child = r.map (child :: ·)) (finished : List StructureId) :
    a.Explores path children finished (children.foldlM (a.visit fuel path) finished) := by
  induction children generalizing finished with
  | nil => exact .done path finished
  | cons child children ih =>
    have hrest := ih fun x hx => hbelow x (List.mem_cons_of_mem _ hx)
    rw [List.foldlM_cons, visit]
    split
    · next hfinished => exact .skip hfinished (hrest finished)
    · next hfresh =>
      split
      · next hactive => exact .cycle hfresh hactive
      · next hidle =>
        split
        · next hdone => exact .laidOut hfresh hidle hdone (hrest _)
        · next hopen =>
          rw [Bool.not_eq_true] at hopen
          obtain ⟨r, hr, heq⟩ := hbelow child List.mem_cons_self hidle finished
          rw [heq]
          cases r with
          | error cycle => exact .fails hfresh hidle hopen hr
          | ok below => exact .enters hfresh hidle hopen hr (hrest _)

/-- A search with fuel for all structures that are not on its path comes to an end by the rules. -/
theorem exists_explores {fuel : Nat} {path : List StructureId} {id : StructureId}
    (hfuel : fuel + path.length = a.structureCount + 1) (hnodup : path.Nodup)
    (hthere : ∀ x ∈ path, ∃ s, a.structure? x = some s) (hid : id ∉ path)
    (finished : List StructureId) :
    ∃ r, a.Explores (id :: path) (a.embedded id) finished r ∧
      a.explore fuel path finished id = r.map (id :: ·) := by
  induction fuel generalizing path finished id with
  | zero =>
    have hlength := length_le_structureCount hnodup hthere
    omega
  | succ fuel ih =>
    refine ⟨_, explores_foldlM (fun child hchild hidle finished => ?_) finished, explore_succ ..⟩
    have hself : ∃ s, a.structure? id = some s := exists_structure?_of_mem_embedded hchild
    refine ih ?_ (List.nodup_cons.mpr ⟨hid, hnodup⟩) (List.forall_mem_cons.mpr ⟨hself, hthere⟩)
      hidle finished
    rw [List.length_cons]
    omega

theorem exploresAll_exploreAll (ids finished : List StructureId) :
    a.ExploresAll ids finished (a.exploreAll (a.structureCount + 1) finished ids) := by
  induction ids generalizing finished with
  | nil => exact .done finished
  | cons id ids ih =>
    rw [exploreAll]
    split
    · next hknown =>
      rw [Bool.or_eq_true, decide_eq_true_eq] at hknown
      exact .skip hknown (ih finished)
    · next hnew =>
      rw [Bool.or_eq_true, decide_eq_true_eq, not_or, Bool.not_eq_true] at hnew
      obtain ⟨r, hr, heq⟩ : ∃ r, a.Explores [id] (a.embedded id) finished r ∧
          a.explore (a.structureCount + 1) [] finished id = r.map (id :: ·) :=
        exists_explores rfl List.nodup_nil (by simp) (by simp) finished
      rw [heq]
      cases r with
      | error cycle => exact .fails hnew.1 hnew.2 hr
      | ok below => exact .enters hnew.1 hnew.2 hr (ih _)

/-! ## What a search reports -/

/-- Structures each of which holds the next, and the last the first, and that have no layout. -/
structure Circles (a : Arena) (cycle : List StructureId) : Prop where
  nonempty : cycle ≠ []
  nodup : cycle.Nodup
  opens : (cycle ++ cycle.take 1).IsChain a.Opens

/-- A structure that is on the path already closes it from there. -/
theorem circles_of_mem {path : List StructureId} {child : StructureId} (hnodup : path.Nodup)
    (hchain : (child :: path).IsChain fun y x => a.Opens x y) (hmem : child ∈ path) :
    a.Circles (child :: (path.takeWhile (· ≠ child)).reverse) := by
  obtain ⟨above, rest, rfl, hout⟩ := List.eq_append_cons_of_mem hmem
  have habove : (above ++ child :: rest).takeWhile (· ≠ child) = above := by
    rw [List.takeWhile_append_of_pos fun x hx => by simpa using ne_of_mem_of_not_mem hx hout]
    simp
  have hloop : (child :: (above ++ [child])).IsChain fun y x => a.Opens x y :=
    hchain.prefix ⟨rest, by simp⟩
  rw [habove]
  refine ⟨List.cons_ne_nil _ _, ?_, ?_⟩
  · rw [List.nodup_cons, List.mem_reverse, List.nodup_reverse]
    exact ⟨hout, hnodup.of_append_left⟩
  · rw [← List.isChain_reverse] at hloop
    simpa using hloop

/-- A search that fails reports structures in a circle: its path is a chain down to the structure
whose fields it is at. -/
theorem Explores.circles {path children finished cycle : List StructureId}
    (h : a.Explores path children finished (.error cycle)) (hnodup : path.Nodup)
    (hchain : ∀ child ∈ children, (child :: path).IsChain fun y x => a.Opens x y) :
    a.Circles cycle := by
  generalize hr : Except.error cycle = r at h
  induction h with
  | done => cases hr
  | skip _ _ ih => exact ih hnodup (fun x hx => hchain x (List.mem_cons_of_mem _ hx)) hr
  | cycle _ hactive =>
    cases hr
    exact circles_of_mem hnodup (hchain _ List.mem_cons_self) hactive
  | laidOut _ _ _ _ ih => exact ih hnodup (fun x hx => hchain x (List.mem_cons_of_mem _ hx)) hr
  | fails _ hidle hopen _ ih =>
    refine ih (List.nodup_cons.mpr ⟨hidle, hnodup⟩) (fun x hx => ?_) hr
    exact .cons_cons ⟨hopen, hx⟩ (hchain _ List.mem_cons_self)
  | enters _ _ _ _ _ _ ih => exact ih hnodup (fun x hx => hchain x (List.mem_cons_of_mem _ hx)) hr

theorem ExploresAll.circles {ids finished cycle : List StructureId}
    (h : a.ExploresAll ids finished (.error cycle)) : a.Circles cycle := by
  generalize hr : Except.error cycle = r at h
  induction h with
  | done => cases hr
  | skip _ _ ih => exact ih hr
  | fails _ hopen hbelow =>
    cases hr
    exact hbelow.circles (List.nodup_singleton _) fun x hx => .cons_cons ⟨hopen, hx⟩ (.singleton _)
  | enters _ _ _ _ ih => exact ih hr

theorem Circles.lacksLayout {cycle : List StructureId} (h : a.Circles cycle) {id : StructureId}
    (hid : id ∈ cycle) : a.LacksLayout id := by
  obtain ⟨before, after, hcycle⟩ := List.append_of_mem hid
  obtain ⟨next, rest, hnext⟩ : ∃ next rest, after ++ cycle.take 1 = next :: rest :=
    List.exists_cons_of_ne_nil (by simp [h.nonempty])
  have hopens : (cycle ++ cycle.take 1).IsChain a.Opens := h.opens
  nth_rewrite 1 [hcycle] at hopens
  rw [List.append_assoc, List.cons_append, hnext] at hopens
  exact (List.isChain_cons_cons.mp hopens.right_of_append).1.lacksLayout

/-- What the search reports is a cycle once its structures are given with their names. -/
theorem Circles.isCycle {cycle : List StructureId} (h : a.Circles cycle) :
    a.IsCycle (cycle.map a.cycleEntry) := by
  have hids : (cycle.map a.cycleEntry).map CycleEntry.id = cycle := by
    rw [List.map_map]
    exact List.map_id cycle
  refine ⟨?_, ?_, ?_, ?_, ?_⟩
  · simpa using h.nonempty
  · rw [hids]
    exact h.nodup
  · intro e he
    obtain ⟨id, hid, rfl⟩ := List.mem_map.mp he
    exact h.lacksLayout hid
  · intro e he
    obtain ⟨id, hid, rfl⟩ := List.mem_map.mp he
    obtain ⟨s, hs, -⟩ := h.lacksLayout hid
    exact ⟨s, hs, by rw [cycleEntry, hs]⟩
  · rw [← List.map_take, ← List.map_append, List.isChain_map]
    exact h.opens.imp fun _ _ hopens => hopens.holds

/-! ## The check -/

theorem checkCycles_error_iff {targets : List ModuleId} :
    (∃ e, a.checkCycles targets = .error e) ↔
      ∃ root x, root.owner ∈ targets ∧ a.LacksLayout root ∧ ReflTransGen a.Contains root x ∧
        TransGen a.Contains x x := by
  have hfails : (∃ e, a.checkCycles targets = .error e) ↔ ¬ a.checkCycles targets = .ok () := by
    cases a.checkCycles targets <;> simp
  rw [hfails, checkCycles_ok_iff]
  push Not
  constructor
  · rintro ⟨root, hroot, hnot⟩
    obtain ⟨x, hreaches, hcycle⟩ := not_grounded_iff.mp hnot
    obtain ⟨hcontains, hx⟩ := contains_of_transGen_opens hcycle
    obtain ⟨hway, hlacks⟩ := contains_of_reaches hreaches hx
    exact ⟨root, x, (mem_flatMap_structureIds.mp hroot).1, hlacks, hway, hcontains⟩
  · rintro ⟨root, x, howner, ⟨s, hs, -⟩, hway, hcycle⟩
    refine ⟨root, mem_flatMap_structureIds.mpr ⟨howner, s, hs⟩, not_grounded_iff.mpr ⟨x, ?_, ?_⟩⟩
    · exact ReflTransGen.mono (fun _ _ hstep => hstep.opens) _ _ hway
    · exact TransGen.mono (fun _ _ hstep => hstep.opens) _ _ hcycle

/-- On every arena and for all modules the check follows the rules of the search to an end. It fails
exactly if structures without a layout lead from one of the modules to a cycle among such
structures, and then it reports one. -/
theorem checkCycles_exact (a : Arena) (targets : List ModuleId) :
    (∃ r, a.ExploresAll (targets.flatMap a.structureIds) [] r ∧
      a.checkCycles targets =
        (r.map fun _ => ()).mapError fun cycle => .structureCycle (cycle.map a.cycleEntry)) ∧
    ((∃ e, a.checkCycles targets = .error e) ↔
      ∃ root x, root.owner ∈ targets ∧ a.LacksLayout root ∧ ReflTransGen a.Contains root x ∧
        TransGen a.Contains x x) ∧
    ∀ e, a.checkCycles targets = .error e →
      ∃ cycle, e = .structureCycle cycle ∧ a.IsCycle cycle := by
  have hsearch := exploresAll_exploreAll (a := a) (targets.flatMap a.structureIds) []
  refine ⟨⟨_, hsearch, ?_⟩, checkCycles_error_iff, fun e he => ?_⟩
  · rw [checkCycles]
    cases a.exploreAll (a.structureCount + 1) [] (targets.flatMap a.structureIds) <;> rfl
  · rw [checkCycles] at he
    cases hr : a.exploreAll (a.structureCount + 1) [] (targets.flatMap a.structureIds) with
    | ok finished =>
      rw [hr] at he
      cases he
    | error cycle =>
      rw [hr] at he hsearch
      cases he
      exact ⟨_, rfl, hsearch.circles.isCycle⟩

/-- Two modules: the structure of the first leads to those of the second, which hold each other, one
of them in an array. -/
def entangled : Arena :=
  [some { Module.hosted (.slot 0) (.virtual "/v") with
      structures := [{
        name := "R", owner := .slot 0, index := 0, fields := [{ type := .struct ⟨.slot 1, 1⟩ }] }] },
    some { Module.hosted (.slot 1) (.virtual "/w") with
      structures := [{
        name := "A", owner := .slot 1, index := 0,
        fields := [{ type := .struct ⟨.slot 1, 1⟩, count := 3 }] },
        { name := "B", owner := .slot 1, index := 1, fields := [{ type := .struct ⟨.slot 1, 0⟩ }] }] }]

/-- The check of the first module reports the cycle in the second, and not the structure that it
started at. -/
theorem checkCycles_exact_entangled :
    ∃ cycle, entangled.checkCycles [.slot 0] = .error (.structureCycle cycle) ∧
      cycle.map CycleEntry.name = ["B", "A"] ∧ entangled.IsCycle cycle := by
  have hcheck : entangled.checkCycles [.slot 0] =
      .error (.structureCycle [⟨⟨.slot 1, 1⟩, "B"⟩, ⟨⟨.slot 1, 0⟩, "A"⟩]) := by decide +kernel
  obtain ⟨cycle, hcycle, hreal⟩ := (checkCycles_exact entangled [.slot 0]).2.2 _ hcheck
  cases hcycle
  exact ⟨_, hcheck, rfl, hreal⟩

end Arena
end ModuleLinker
