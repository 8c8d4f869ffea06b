import ModuleLinker.Proofs.Layout.Pass
import ModuleLinker.Proofs.Success
import Mathlib.Data.Fintype.Card
import Mathlib.Data.List.Induction
import Mathlib.Data.List.Perm.Subperm
import Mathlib.Data.Set.Finite.Basic

/-!
# What the search for cycles finds out

A structure is grounded if the ways down from it through structures without a layout all end. The
search counts a structure as finished when it has finished all that it contains, and it ends early
at a structure that it is below of already. So when it goes well, whatever it has finished is
grounded. The paths that it takes are never longer than the arena has structures, which is why its
fuel lasts.
-/
namespace ModuleLinker

open Relation (ReflTransGen TransGen)

/-- What the ways down from end does not come back to itself. -/
theorem not_transGen_of_acc {α : Type} {r : α → α → Prop} {x : α} (h : Acc (fun y x => r x y) x) :
    ¬ TransGen r x x := by
  induction h with
  | intro x _ ih =>
    intro hcycle
    obtain ⟨y, hxy, hyx⟩ := TransGen.head'_iff.mp hcycle
    exact ih y hxy (.tail' hyx hxy)

/-- Among finitely many things a relation without circles ends. -/
theorem wellFounded_of_acyclic {α : Type} [Finite α] {r : α → α → Prop}
    (h : ∀ x, ¬ TransGen r x x) : WellFounded fun y x => r x y := by
  have : IsTrans α fun y x => TransGen r x y := ⟨fun _ _ _ hyx hzy => hzy.trans hyx⟩
  have : Std.Irrefl fun y x => TransGen r x y := ⟨h⟩
  have hwf := Finite.wellFounded_of_trans_of_irrefl fun y x => TransGen r x y
  exact Subrelation.wf (fun hstep => TransGen.single hstep) hwf

/-- So it does where it leads out of finitely many things without circles only to where it ends. -/
theorem acc_of_finite {α : Type} {p : α → Prop} [Finite {x // p x}] {r : α → α → Prop} {x : α}
    (hacyclic : ∀ x, p x → ¬ TransGen r x x)
    (hout : ∀ x y, p x → r x y → ¬ p y → ∀ z, ¬ r y z) (hx : p x) : Acc (fun y x => r x y) x := by
  have hwf : WellFounded fun y x : {x // p x} => r x.1 y.1 :=
    wellFounded_of_acyclic fun x hcycle =>
      hacyclic x.1 x.2 (hcycle.lift Subtype.val fun _ _ hstep => hstep)
  suffices hall : ∀ z : {x // p x}, Acc (fun y x => r x y) z.1 from hall ⟨x, hx⟩
  intro z
  induction z using hwf.induction with
  | _ z ih =>
    refine ⟨_, fun y hy => ?_⟩
    by_cases hp : p y
    · exact ih ⟨y, hp⟩ hy
    · exact ⟨_, fun w hw => absurd hw (hout z.1 y z.2 hy hp w)⟩

namespace Arena

variable {a : Arena}

/-! ## Counting structures -/

/-- Identities of all structures of an arena. -/
def allStructureIds (a : Arena) : List StructureId :=
  (List.range a.length).flatMap fun n => a.structureIds (.slot n)

theorem mem_allStructureIds {id : StructureId} :
    id ∈ a.allStructureIds ↔ ∃ s, a.structure? id = some s := by
  simp only [allStructureIds, List.mem_flatMap, List.mem_range, mem_structureIds]
  constructor
  · rintro ⟨n, -, -, hs⟩
    exact hs
  · rintro ⟨s, hs⟩
    obtain ⟨m, hm, -⟩ := structure?_eq_some.mp hs
    obtain ⟨n, hn, hlt, -⟩ := exists_slot hm
    exact ⟨n, hlt, hn, s, hs⟩

/-- What is said of all structures can be found out, since they are finitely many. -/
theorem forall_structure?_iff {p : StructureId → Structure → Prop} :
    (∀ id s, a.structure? id = some s → p id s) ↔
      ∀ id ∈ a.allStructureIds, ∀ s ∈ a.structure? id, p id s := by
  constructor
  · exact fun h id _ s hs => h id s hs
  · exact fun h id s hs => h id (mem_allStructureIds.mpr ⟨s, hs⟩) s hs

theorem foldr_structures_length (ms : List Module) (n : Nat) :
    ms.foldr (fun m n => m.structures.length + n) n =
      ms.foldr (fun m n => m.structures.length + n) 0 + n := by
  induction ms with
  | nil => simp
  | cons m ms ih => simp only [List.foldr_cons, ih, Nat.add_assoc]

theorem length_allStructureIds (a : Arena) : a.allStructureIds.length = a.structureCount := by
  induction a using List.reverseRecOn with
  | nil => rfl
  | append_singleton a o ih =>
    have hbefore : (List.range a.length).flatMap (fun n => structureIds (a ++ [o]) (.slot n)) =
        allStructureIds a := by
      refine List.flatMap_congr fun n hn => ?_
      rw [structureIds, structureIds, module?_append_of_lt (List.mem_range.mp hn)]
    rw [allStructureIds, List.length_append, List.length_singleton, List.range_succ,
      List.flatMap_append, hbefore, List.length_append, ih]
    cases o with
    | none => simp [structureCount, live, structureIds, module?]
    | some m =>
      simp [structureCount, live, structureIds, module?, foldr_structures_length _ m.structures.length]

/-- Structures without repetition are at most as many as the arena has. -/
theorem length_le_structureCount {path : List StructureId} (hnodup : path.Nodup)
    (hthere : ∀ x ∈ path, ∃ s, a.structure? x = some s) : path.length ≤ a.structureCount := by
  rw [← length_allStructureIds]
  exact (hnodup.subperm fun x hx => mem_allStructureIds.mpr (hthere x hx)).length_le

/-- A relation that leads away from structures of the arena only ends below a structure from which
it comes to no circle, whatever circles there are elsewhere. -/
theorem acc_of_acyclic {r : StructureId → StructureId → Prop} {id : StructureId}
    (hthere : ∀ x y, r x y → ∃ s, a.structure? x = some s)
    (hacyclic : ∀ x, ReflTransGen r id x → ¬ TransGen r x x) :
    Acc (fun y x => r x y) id := by
  have hfinite : Finite {x // (∃ s, a.structure? x = some s) ∧ ReflTransGen r id x} :=
    Set.Finite.subset (List.finite_toSet a.allStructureIds)
      fun x hx => mem_allStructureIds.mpr hx.1
  by_cases hid : ∃ s, a.structure? id = some s
  · refine acc_of_finite (p := fun x => (∃ s, a.structure? x = some s) ∧ ReflTransGen r id x)
      (fun x hx => hacyclic x hx.2) (fun x y hx hy hnot z hz => ?_) ⟨hid, .refl⟩
    exact hnot ⟨hthere y z hz, hx.2.tail hy⟩
  · exact ⟨_, fun y hy => absurd (hthere id y hy) hid⟩

/-! ## Grounded structures -/

/-- The ways down from a structure through structures without a layout all end. -/
def Grounded (a : Arena) (id : StructureId) : Prop := Acc (fun y x => a.Opens x y) id

theorem grounded_of_isLaidOut {id : StructureId} (h : a.isLaidOut id = true) : a.Grounded id := by
  refine ⟨_, fun y hy => ?_⟩
  rw [hy.1] at h
  cases h

/-- A structure is grounded if all that it contains is. -/
theorem grounded_of_embedded {id : StructureId} (h : ∀ y ∈ a.embedded id, a.Grounded y) :
    a.Grounded id := ⟨_, fun y hy => h y hy.2⟩

/-! ## The search -/

/-- A search below children one after the other: what it keeps, and what each child adds. -/
theorem foldlM_finished {step : List StructureId → StructureId →
      Except (List StructureId) (List StructureId)} {children finished after : List StructureId}
    (hstep : ∀ child ∈ children, ∀ finished after, (∀ x ∈ finished, a.Grounded x) →
      step finished child = .ok after →
        (∀ x ∈ after, a.Grounded x) ∧ finished ⊆ after ∧ child ∈ after)
    (hfinished : ∀ x ∈ finished, a.Grounded x) (h : children.foldlM step finished = .ok after) :
    (∀ x ∈ after, a.Grounded x) ∧ finished ⊆ after ∧ children ⊆ after := by
  induction children generalizing finished with
  | nil =>
    obtain rfl := except_pure_eq_ok.mp h
    exact ⟨hfinished, List.Subset.refl _, List.nil_subset _⟩
  | cons child children ih =>
    rw [List.foldlM_cons, except_bind_eq_ok] at h
    obtain ⟨next, hnext, hrest⟩ := h
    obtain ⟨hgrounded, hkept, hchild⟩ := hstep child List.mem_cons_self _ _ hfinished hnext
    obtain ⟨hall, hlater, hchildren⟩ :=
      ih (fun x hx => hstep x (List.mem_cons_of_mem _ hx)) hgrounded hrest
    exact ⟨hall, List.Subset.trans hkept hlater, List.cons_subset.mpr ⟨hlater hchild, hchildren⟩⟩

/-- What a search below a structure has finished is grounded, and so is the structure. Its path holds
structures of the arena without repetition, so with the fuel it has it gets to every end. -/
theorem explore_spec {fuel : Nat} {path finished after : List StructureId} {id : StructureId}
    (hfuel : fuel + path.length = a.structureCount + 1) (hnodup : path.Nodup)
    (hthere : ∀ x ∈ path, ∃ s, a.structure? x = some s) (hid : id ∉ path)
    (hfinished : ∀ x ∈ finished, a.Grounded x)
    (h : a.explore fuel path finished id = .ok after) :
    (∀ x ∈ after, a.Grounded x) ∧ finished ⊆ after ∧ id ∈ after := by
  induction fuel generalizing path finished after id with
  | zero =>
    have hlength := length_le_structureCount hnodup hthere
    omega
  | succ fuel ih =>
    simp only [explore, except_bind_eq_ok, except_pure_eq_ok] at h
    obtain ⟨below, hfold, rfl⟩ := h
    have hstep : ∀ child ∈ a.embedded id, ∀ finished after, (∀ x ∈ finished, a.Grounded x) →
        (if child ∈ finished then Except.ok finished
          else if child ∈ id :: path then
            .error (child :: ((id :: path).takeWhile (· ≠ child)).reverse)
          else if a.isLaidOut child then .ok (child :: finished)
          else a.explore fuel (id :: path) finished child) = .ok after →
        (∀ x ∈ after, a.Grounded x) ∧ finished ⊆ after ∧ child ∈ after := by
      intro child hchild finished after hfinished hafter
      split at hafter
      · next hmem =>
        cases hafter
        exact ⟨hfinished, List.Subset.refl _, hmem⟩
      · split at hafter
        · cases hafter
        · next hfresh =>
          split at hafter
          · next hlaid =>
            cases hafter
            exact ⟨List.forall_mem_cons.mpr ⟨grounded_of_isLaidOut hlaid, hfinished⟩,
              List.subset_cons_self _ _, List.mem_cons_self⟩
          · refine ih ?_ (List.nodup_cons.mpr ⟨hid, hnodup⟩) (List.forall_mem_cons.mpr
              ⟨exists_structure?_of_mem_embedded hchild, hthere⟩) hfresh hfinished hafter
            rw [List.length_cons]
            omega
    obtain ⟨hgrounded, hkept, hchildren⟩ := foldlM_finished hstep hfinished hfold
    have hself : a.Grounded id := grounded_of_embedded fun y hy => hgrounded y (hchildren hy)
    exact ⟨List.forall_mem_cons.mpr ⟨hself, hgrounded⟩, List.subset_cons_of_subset _ hkept,
      List.mem_cons_self⟩

theorem exploreAll_spec {ids finished after : List StructureId}
    (hfinished : ∀ x ∈ finished, a.Grounded x)
    (h : a.exploreAll (a.structureCount + 1) finished ids = .ok after) :
    ∀ id ∈ ids, a.Grounded id := by
  induction ids generalizing finished with
  | nil => simp
  | cons id ids ih =>
    simp only [exploreAll] at h
    intro x hx
    split at h
    · next hskip =>
      rcases List.mem_cons.mp hx with rfl | hx
      · rw [Bool.or_eq_true, decide_eq_true_eq] at hskip
        rcases hskip with hmem | hlaid
        · exact hfinished x hmem
        · exact grounded_of_isLaidOut hlaid
      · exact ih hfinished h x hx
    · obtain ⟨next, hnext, hrest⟩ := except_bind_eq_ok.mp h
      have hfuel : a.structureCount + 1 + ([] : List StructureId).length = a.structureCount + 1 := rfl
      obtain ⟨hgrounded, -, hid⟩ :=
        explore_spec hfuel List.nodup_nil (by simp) (by simp) hfinished hnext
      rcases List.mem_cons.mp hx with rfl | hx
      · exact hgrounded x hid
      · exact ih hgrounded hrest x hx

/-- If the check finds no cycle, every structure of the modules is grounded. -/
theorem grounded_of_checkCycles {targets : List ModuleId} (h : a.checkCycles targets = .ok ()) :
    ∀ id ∈ targets.flatMap a.structureIds, a.Grounded id := by
  simp only [checkCycles] at h
  split at h
  · next hexplore => exact exploreAll_spec (by simp) hexplore
  · cases h

/-! ## When the search goes well -/

/-- A search below a grounded structure without a layout closes no cycle: what is on its path leads
to the structure, so that a structure which is met again would lead to itself. -/
theorem exists_explore {fuel : Nat} {path : List StructureId} (finished : List StructureId)
    {id : StructureId} (hopen : a.isLaidOut id = false) (hgrounded : a.Grounded id)
    (hleads : ∀ x ∈ path, TransGen a.Opens x id) :
    ∃ after, a.explore fuel path finished id = .ok after := by
  induction fuel generalizing path finished id with
  | zero => exact ⟨finished, rfl⟩
  | succ fuel ih =>
    have hleads' : ∀ child ∈ a.embedded id, ∀ x ∈ id :: path, TransGen a.Opens x child := by
      intro child hchild
      have hopens : a.Opens id child := ⟨hopen, hchild⟩
      exact List.forall_mem_cons.mpr ⟨.single hopens, fun x hx => (hleads x hx).tail hopens⟩
    have hstep : ∀ child ∈ a.embedded id, ∀ finished : List StructureId, ∃ after,
        (if child ∈ finished then Except.ok finished
          else if child ∈ id :: path then
            .error (child :: ((id :: path).takeWhile (· ≠ child)).reverse)
          else if a.isLaidOut child then .ok (child :: finished)
          else a.explore fuel (id :: path) finished child) = .ok after := by
      intro child hchild finished
      have hbelow : a.Grounded child := hgrounded.inv ⟨hopen, hchild⟩
      split
      · exact ⟨_, rfl⟩
      · split
        · next hmem => exact absurd (hleads' child hchild child hmem) (not_transGen_of_acc hbelow)
        · split
          · exact ⟨_, rfl⟩
          · next hnot => exact ih finished (by simpa using hnot) hbelow (hleads' child hchild)
    obtain ⟨below, hfold⟩ := exists_foldlM_ok hstep finished
    exact ⟨id :: below, by simp only [explore, hfold]; rfl⟩

theorem exists_exploreAll {fuel : Nat} {ids : List StructureId} (h : ∀ id ∈ ids, a.Grounded id)
    (finished : List StructureId) : ∃ after, a.exploreAll fuel finished ids = .ok after := by
  induction ids generalizing finished with
  | nil => exact ⟨finished, rfl⟩
  | cons id ids ih =>
    have hrest := ih fun x hx => h x (List.mem_cons_of_mem _ hx)
    simp only [exploreAll]
    split
    · exact hrest finished
    · next hskip =>
      have hopen : a.isLaidOut id = false := by
        rw [Bool.or_eq_true, not_or] at hskip
        simpa using hskip.2
      obtain ⟨next, hnext⟩ : ∃ next, a.explore fuel [] finished id = .ok next :=
        exists_explore finished hopen (h id List.mem_cons_self) nofun
      rw [hnext]
      exact hrest next

/-- The check goes well exactly if every structure of the modules is grounded. -/
theorem checkCycles_ok_iff {targets : List ModuleId} :
    a.checkCycles targets = .ok () ↔ ∀ id ∈ targets.flatMap a.structureIds, a.Grounded id := by
  refine ⟨grounded_of_checkCycles, fun h => ?_⟩
  obtain ⟨after, hafter⟩ : ∃ after, a.exploreAll (a.structureCount + 1) []
      (targets.flatMap a.structureIds) = .ok after := exists_exploreAll h []
  simp only [checkCycles, hafter]

end Arena
end ModuleLinker
