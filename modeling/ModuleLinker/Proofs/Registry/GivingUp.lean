import ModuleLinker.Proofs.Registry.Resolving
import ModuleLinker.Registry.Completion

/-!
# Giving slots up

Slots that are given up are empty afterwards, and the paths of their modules are free; nothing
else changes. A call that failed gives up the slots it added. A module of the host that it worked
on goes back to the tables of its last build, or is given up too if it never was built.
-/
namespace ModuleLinker

/-- A module of the host cut back to a checkpoint. -/
def Module.cutTo (c : Checkpoint) (m : Module) : Module :=
  { m with
    origin := .host true (some c)
    dependencies := m.dependencies.take c.dependencies
    mappings := m.mappings.truncate c.structureMappings c.functionMappings
    functionLinks := m.functionLinks.take c.functionMappings
    structures := m.structures.take c.structures
    functions := m.functions.take c.functions }

theorem Module.restored?_eq_some {m k : Module} :
    m.restored? = some k ↔ ∃ built c, m.origin = .host built (some c) ∧ k = m.cutTo c := by
  cases ho : m.origin with
  | file => simp [restored?, ho]
  | host built checkpoint =>
    cases checkpoint with
    | none => simp [restored?, ho]
    | some c => simp [restored?, ho, cutTo, eq_comm]

namespace Loader

variable {l : Loader} {id other : ModuleId} {mark : Nat} {ns : List Nat}

/-- Whether a path stays in the index when some slots are given up: no module there has it. -/
def spares (l : Loader) (ns : List Nat) (path : ModulePath) : Bool :=
  ns.all fun n => (l.module? (.slot n)).all fun m => path.identity ≠ m.path.identity

theorem spares_eq_true {path : ModulePath} : l.spares ns path = true ↔
    ∀ n ∈ ns, ∀ m, l.module? (.slot n) = some m → path.identity ≠ m.path.identity := by
  simp [spares, Option.all_eq_true]

theorem length_discard (l : Loader) (ns : List Nat) :
    (l.discard ns).arena.length = l.arena.length := by
  induction ns generalizing l with
  | nil => rfl
  | cons n ns ih =>
    simp only [discard]
    split
    · exact ih l
    · rw [ih, List.length_set]

theorem libraryDirectories_discard (l : Loader) (ns : List Nat) :
    (l.discard ns).libraryDirectories = l.libraryDirectories := by
  induction ns generalizing l with
  | nil => rfl
  | cons n ns ih =>
    simp only [discard]
    split <;> rw [ih]

theorem module?_vacated (n : Nat) (index : PathIndex) (id : ModuleId) :
    ({ l with arena := l.arena.set n none, index } : Loader).module? id =
      if id = .slot n then none else l.module? id := Arena.module?_set_none n id

theorem module?_discard (l : Loader) (ns : List Nat) (id : ModuleId) :
    (l.discard ns).module? id = if ∃ n ∈ ns, id = .slot n then none else l.module? id := by
  induction ns generalizing l with
  | nil => simp [discard]
  | cons n ns ih =>
    simp only [discard]
    split
    · next hnone =>
      rw [ih]
      by_cases hid : id = .slot n
      · simp [hid, hnone]
      · simp [hid]
    · rw [ih, module?_vacated]
      by_cases hid : id = .slot n
      · simp [hid]
      · simp [hid]

/-- Asking about the module of a slot first, and then about the others when that slot is empty. -/
theorem spares_cons {n : Nat} {m : Module} (hm : l.module? (.slot n) = some m) {l' : Loader}
    (hvacated : ∀ id, l'.module? id = if id = .slot n then none else l.module? id)
    (path : ModulePath) :
    l.spares (n :: ns) path = (l'.spares ns path && path.identity ≠ m.path.identity) := by
  rw [Bool.eq_iff_iff, Bool.and_eq_true, spares_eq_true, spares_eq_true, decide_eq_true_iff]
  constructor
  · intro hspares
    refine ⟨fun k hk x hx => ?_, hspares n List.mem_cons_self m hm⟩
    rw [hvacated] at hx
    split at hx
    · cases hx
    · exact hspares k (List.mem_cons_of_mem _ hk) x hx
  · rintro ⟨hspares, hpath⟩ k hk x hx
    by_cases hkn : k = n
    · subst hkn
      obtain rfl : m = x := Option.some.inj (hm.symm.trans hx)
      exact hpath
    · refine hspares k ((List.mem_cons.mp hk).resolve_left hkn) x ?_
      rw [hvacated, if_neg (by simpa using hkn), hx]

theorem index_discard (l : Loader) (ns : List Nat) :
    (l.discard ns).index = l.index.filter fun e => l.spares ns e.1 := by
  induction ns generalizing l with
  | nil => simp [discard, spares]
  | cons n ns ih =>
    simp only [discard]
    split
    · next hnone =>
      rw [ih]
      simp [spares, hnone]
    · next m hm =>
      rw [ih, PathIndex.remove, List.filter_filter]
      exact List.filter_congr fun e _ => (spares_cons hm (module?_vacated n _) e.1).symm

/-- Every path of the index is still that of a module: a slot is given up with all its paths. -/
theorem IndexLive.discard (h : l.IndexLive) (ns : List Nat) : (l.discard ns).IndexLive := by
  intro e he
  rw [index_discard, List.mem_filter, spares_eq_true] at he
  obtain ⟨m, hm, hpath⟩ := h e he.1
  refine ⟨m, ?_, hpath⟩
  rw [module?_discard, if_neg ?_, hm]
  rintro ⟨n, hn, hslot⟩
  rw [hslot] at hm
  exact he.2 n hn m hm hpath.symm

/-! ## Rollback -/

/-- The slots that a rollback gives up. -/
def givenUp (l : Loader) (mark : Nat) (also : Option ModuleId) : List Nat :=
  List.range' mark (l.arena.length - mark) ++ (also.bind ModuleId.number?).toList

theorem mem_givenUp {also : Option ModuleId} {n : Nat} :
    n ∈ l.givenUp mark also ↔ mark ≤ n ∧ n < l.arena.length ∨ also = some (.slot n) := by
  simp only [givenUp, List.mem_append, List.mem_range'_1, Option.mem_toList,
    Option.bind_eq_some_iff, ModuleId.number?_eq_some]
  constructor
  · rintro (h | ⟨id, rfl, rfl⟩)
    · omega
    · exact .inr rfl
  · rintro (h | rfl)
    · exact .inl (by omega)
    · exact .inr ⟨_, rfl, rfl⟩

theorem rollback_eq (l : Loader) (mark : Nat) (also : Option ModuleId) :
    l.rollback mark also = l.discard (l.givenUp mark also) := rfl

theorem module?_rollback (l : Loader) (mark : Nat) (also : Option ModuleId) (id : ModuleId) :
    (l.rollback mark also).module? id =
      if id.isFrom mark ∨ also = some id then none else l.module? id := by
  rw [rollback_eq, module?_discard]
  cases id with
  | pending => simp [Loader.module?]
  | slot n =>
    simp only [ModuleId.slot.injEq, exists_eq_right', mem_givenUp, ModuleId.isFrom_slot]
    by_cases halso : also = some (.slot n)
    · simp [halso]
    · by_cases hlt : n < l.arena.length
      · simp [halso, hlt]
      · have hnone : l.module? (.slot n) = none :=
          Arena.module?_eq_none_of_length_le (Nat.le_of_not_lt hlt)
        simp [hnone]

/-- Slots in which no module is found are empty. -/
theorem eq_none_of_mem_drop (h : ∀ id : ModuleId, id.isFrom mark = true → l.module? id = none)
    {slot : Option Module} (hslot : slot ∈ l.arena.drop mark) : slot = none := by
  obtain ⟨n, hn⟩ := List.mem_iff_getElem?.mp hslot
  rw [List.getElem?_drop] at hn
  have hnone := h (.slot (mark + n)) (ModuleId.isFrom_slot.mpr (Nat.le_add_right ..))
  simpa [Loader.module?, Arena.module?, hn] using hnone

/-- Giving one more slot up takes the path of its module out of the index. -/
theorem index_rollback_also {n : Nat} {m : Module} (hm : l.module? (.slot n) = some m) :
    (l.rollback mark (some (.slot n))).index = (l.rollback mark none).index.remove m.path := by
  have hspares : ∀ path, l.spares (l.givenUp mark (some (.slot n))) path =
      (decide (path.identity ≠ m.path.identity) && l.spares (l.givenUp mark none) path) := by
    intro path
    rw [Bool.eq_iff_iff, Bool.and_eq_true, decide_eq_true_iff]
    simp only [givenUp, spares, List.all_append, Bool.and_eq_true]
    simp [ModuleId.number?, hm, and_comm]
  rw [rollback_eq, rollback_eq, index_discard, index_discard, PathIndex.remove, List.filter_filter]
  exact List.filter_congr fun e _ => hspares e.1

/-- Giving up the slots that resolution added takes exactly the new paths out of the index, whatever
became of the modules, if only their paths stayed. -/
theorem index_rollback_of_extends {fs : FileSystem} {worked : ModuleId → Prop} {mid left : Loader}
    (h : l.Extends fs worked mid) (hindex : left.index = mid.index)
    (hpaths : ∀ id, (left.module? id).map Module.path = (mid.module? id).map Module.path) :
    (left.rollback l.arena.length none).index = l.index := by
  obtain ⟨new, hmid, hnew⟩ := h.index
  rw [rollback_eq, index_discard, hindex, hmid, List.filter_append]
  have hgone : new.filter (fun e => left.spares (left.givenUp l.arena.length none) e.1) = [] := by
    refine List.filter_eq_nil_iff.mpr fun e he hspares => ?_
    obtain ⟨n, m, hn, -, hm, hpath⟩ := hnew e he
    have hleft := hpaths (.slot n)
    rw [hm, Option.map_some, Option.map_eq_some_iff] at hleft
    obtain ⟨k, hk, hkm⟩ := hleft
    obtain ⟨n', hslot, hlt, -⟩ := Arena.exists_slot hk
    obtain rfl : n = n' := ModuleId.slot.inj hslot
    refine spares_eq_true.mp hspares n (mem_givenUp.mpr (.inl ⟨hn, hlt⟩)) k hk ?_
    rw [hpath, hkm]
  have hkept : l.index.filter (fun e => left.spares (left.givenUp l.arena.length none) e.1) =
      l.index := by
    refine List.filter_eq_self.mpr fun e he => spares_eq_true.mpr fun n hn k hk => ?_
    have hn := (mem_givenUp.mp hn).resolve_right nofun
    have hmid := hpaths (.slot n)
    rw [hk, Option.map_some, eq_comm, Option.map_eq_some_iff] at hmid
    obtain ⟨m, hm, hmk⟩ := hmid
    obtain ⟨path, bytes, d, -, -, -, hfresh, -, hfile, -⟩ := h.registered n m hn.1 hm
    have hpath : k.path = .file path := by rw [← hmk, hfile]; rfl
    rw [hpath]
    exact PathIndex.find?_eq_none_iff.mp hfresh e he
  rw [hgone, hkept, List.nil_append]

/-! ## Going back after a build that failed -/

theorem restored?_path {m k : Module} (h : m.restored? = some k) : k.path = m.path := by
  obtain ⟨built, c, -, rfl⟩ := Module.restored?_eq_some.mp h
  rfl

/-- After a failed build the module is what its last build left of it, the new slots are empty
and the others are as the build left them. -/
theorem module?_revert (l : Loader) (mark : Nat) (id other : ModuleId) :
    (l.revert mark id).module? other =
      if other.isFrom mark then none
      else if other = id then (l.module? id).bind Module.restored? else l.module? other := by
  simp only [revert]
  split
  · next restored hrestored =>
    obtain ⟨m, hm, hmr⟩ := Option.bind_eq_some_iff.mp hrestored
    rw [module?_rollback, module?_loader_update, hrestored, hm]
    simp
  · next hnone =>
    rw [module?_rollback, hnone]
    by_cases hother : other = id
    · subst hother
      simp
    · simp [hother, Ne.symm hother]

theorem module?_revert_self (hold : ¬ id.isFrom mark = true) :
    (l.revert mark id).module? id = (l.module? id).bind Module.restored? := by
  rw [module?_revert, if_neg hold, if_pos rfl]

theorem length_revert : (l.revert mark id).arena.length = l.arena.length := by
  simp only [revert]
  split
  · rw [rollback_eq, length_discard]
    exact Arena.length_update ..
  · rw [rollback_eq, length_discard]

theorem IndexLive.revert (h : l.IndexLive) : (l.revert mark id).IndexLive := by
  simp only [Loader.revert]
  split
  · next restored hrestored =>
    refine IndexLive.discard ?_ _
    obtain ⟨m, hm, hmr⟩ := Option.bind_eq_some_iff.mp hrestored
    intro e he
    obtain ⟨k, hk, hpath⟩ := h e he
    by_cases hid : e.2 = id
    · rw [hid] at hk
      obtain rfl : m = k := Option.some.inj (hm.symm.trans hk)
      refine ⟨restored, ?_, by rw [restored?_path hmr, hpath]⟩
      rw [module?_loader_update, if_pos hid, hm]; rfl
    · exact ⟨k, by rw [module?_loader_update, if_neg hid, hk], hpath⟩
  · exact IndexLive.discard h _

/-- The path of a module that never was built is free after a failed build. -/
theorem find?_revert_of_restored?_none {n : Nat} {m : Module} (hm : l.module? (.slot n) = some m)
    (hrestored : m.restored? = none) : (l.revert mark (.slot n)).index.find? m.path = none := by
  have hbind : (l.module? (.slot n)).bind Module.restored? = none := by rw [hm]; exact hrestored
  simp only [revert, hbind, rollback_eq, index_discard]
  rw [PathIndex.find?_eq_none_iff]
  intro e he
  rw [List.mem_filter, spares_eq_true] at he
  exact he.2 n (mem_givenUp.mpr (.inr rfl)) m hm

/-! ## Structures of what is left -/

theorem restored?_structure {m k : Module} (h : m.restored? = some k) {i : Nat} {s : Structure}
    (hs : k.structures[i]? = some s) : m.structures[i]? = some s := by
  obtain ⟨built, c, -, rfl⟩ := Module.restored?_eq_some.mp h
  rw [Module.cutTo, List.getElem?_take] at hs
  split at hs
  · exact hs
  · cases hs

theorem structure?_of_rollback {also : Option ModuleId} {x : StructureId} {s : Structure}
    (h : (l.rollback mark also).arena.structure? x = some s) : l.arena.structure? x = some s := by
  obtain ⟨m, hm, hs⟩ := Arena.structure?_eq_some.mp h
  have hm' : (l.rollback mark also).module? x.owner = some m := hm
  rw [module?_rollback] at hm'
  split at hm'
  · cases hm'
  · exact Arena.structure?_eq_some.mpr ⟨m, hm', hs⟩

theorem structure?_of_revert {x : StructureId} {s : Structure}
    (h : (l.revert mark id).arena.structure? x = some s) : l.arena.structure? x = some s := by
  obtain ⟨m, hm, hs⟩ := Arena.structure?_eq_some.mp h
  have hm' : (l.revert mark id).module? x.owner = some m := hm
  rw [module?_revert] at hm'
  split at hm'
  · cases hm'
  · split at hm'
    · next howner =>
      obtain ⟨k, hk, hkm⟩ := Option.bind_eq_some_iff.mp hm'
      rw [← howner] at hk
      exact Arena.structure?_eq_some.mpr ⟨k, hk, restored?_structure hkm hs⟩
    · exact Arena.structure?_eq_some.mpr ⟨m, hm', hs⟩

end Loader
end ModuleLinker
