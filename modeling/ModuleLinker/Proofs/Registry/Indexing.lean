import ModuleLinker.Proofs.Path.Normal
import ModuleLinker.Proofs.Registry.Sound
import Mathlib.Data.List.Nodup

/-!
# The index and the slots

The index and the arena are two tables that have to say the same: a path is in the index exactly as
long as its module is in its slot. Both only change together. A module enters both when it is
registered under a path that was free, what a call does to it afterwards leaves its path, and a slot
is given up with the path of its module.
-/
namespace ModuleLinker

/-- A path as it may stand in the index: a virtual one is absolute and in normal form. -/
def ModulePath.Normal : ModulePath → Prop
  | .file _ => True
  | .hosted text => Lexical.isAbsolute text = true ∧ Lexical.normalize text = text

theorem ModulePath.normal_virtual {text : String} (h : Lexical.isAbsolute text = true) :
    (ModulePath.virtual text).Normal := ⟨by simpa using h, Lexical.normalize_normalize text⟩

namespace Loader

variable {fs : FileSystem} {root id : ModuleId} {worked : ModuleId → Prop} {l l' left mid : Loader}
  {r : Except LoadError Unit} {b c : Arena} {m : Module} {path : ModulePath}

/-- The index has the paths of the registered modules, each once and under its module, and no
others. -/
structure Indexed (l : Loader) : Prop where
  entry : ∀ id m, l.module? id = some m → (m.path, id) ∈ l.index
  live : ∀ e ∈ l.index, ∃ m, l.module? e.2 = some m ∧ m.path = e.1
  nodup : (l.index.map fun e => e.1.identity).Nodup
  normal : ∀ e ∈ l.index, e.1.Normal

namespace Indexed

theorem ofDirectories (directories : List String) : (Loader.ofDirectories directories).Indexed where
  entry := by
    intro id m hm
    obtain ⟨n, -, hn, -⟩ := Arena.exists_slot hm
    cases hn
  live := nofun
  nodup := List.nodup_nil
  normal := nofun

variable (h : l.Indexed)
include h

/-- Entries of the same identity are the same. -/
theorem entry_eq {e e' : ModulePath × ModuleId} (he : e ∈ l.index) (he' : e' ∈ l.index)
    (hidentity : e.1.identity = e'.1.identity) : e = e' :=
  List.inj_on_of_nodup_map h.nodup he he' hidentity

/-- No two modules are registered under one path. -/
theorem eq_of_identity {other : ModuleId} {k : Module} (hm : l.module? id = some m)
    (hk : l.module? other = some k) (hidentity : m.path.identity = k.path.identity) : id = other :=
  congrArg Prod.snd (h.entry_eq (h.entry id m hm) (h.entry other k hk) hidentity)

/-- A path leads to a module exactly if the module has it. -/
theorem find?_eq_some :
    l.index.find? path = some id ↔ ∃ m, l.module? id = some m ∧ m.path.identity = path.identity := by
  constructor
  · intro hfind
    obtain ⟨e, he, hidentity, rfl⟩ := PathIndex.exists_mem_of_find? hfind
    obtain ⟨m, hm, hpath⟩ := h.live e he
    exact ⟨m, hm, by rw [hpath, hidentity]⟩
  · rintro ⟨m, hm, hidentity⟩
    cases hfind : l.index.find? path with
    | none =>
      exact absurd hidentity (PathIndex.find?_eq_none_iff.mp hfind _ (h.entry id m hm))
    | some other =>
      obtain ⟨e, he, hother, rfl⟩ := PathIndex.exists_mem_of_find? hfind
      rw [h.entry_eq he (h.entry id m hm) (hother.trans hidentity.symm)]

/-! ## What keeps the index in step -/

/-- Nothing but slots and paths matters. -/
theorem of_path (hindex : l'.index = l.index)
    (hpath : ∀ id, (l'.module? id).map Module.path = (l.module? id).map Module.path) :
    l'.Indexed where
  entry := by
    intro id k hk
    have hsame := hpath id
    rw [hk, Option.map_some, eq_comm, Option.map_eq_some_iff] at hsame
    obtain ⟨m, hm, hmk⟩ := hsame
    rw [hindex, ← hmk]
    exact h.entry id m hm
  live := by
    intro e he
    rw [hindex] at he
    obtain ⟨m, hm, hme⟩ := h.live e he
    have hsame := hpath e.2
    rw [hm, Option.map_some, Option.map_eq_some_iff] at hsame
    obtain ⟨k, hk, hkm⟩ := hsame
    exact ⟨k, hk, hkm.trans hme⟩
  nodup := hindex ▸ h.nodup
  normal := hindex ▸ h.normal

/-- A module is registered under a path that was free. -/
theorem register (hid : m.id = l.nextId) (hfresh : l.index.find? m.path = none)
    (hnormal : m.path.Normal) : (l.register m).Indexed := by
  have hindex : (l.register m).index = (m.path, l.nextId) :: l.index := by
    simp only [Loader.register, PathIndex.insert, PathIndex.remove_eq_self hfresh, hid]
  refine ⟨fun id k hk => ?_, fun e he => ?_, ?_, fun e he => ?_⟩
  · rw [hindex]
    rcases module?_register.mp hk with hk | ⟨rfl, rfl⟩
    · exact List.mem_cons_of_mem _ (h.entry id k hk)
    · exact List.mem_cons_self
  · rw [hindex] at he
    rcases List.mem_cons.mp he with rfl | he
    · exact ⟨m, module?_register.mpr (.inr ⟨rfl, rfl⟩), rfl⟩
    · obtain ⟨k, hk, hke⟩ := h.live e he
      exact ⟨k, module?_register.mpr (.inl hk), hke⟩
  · rw [hindex, List.map_cons, List.nodup_cons]
    refine ⟨fun hmem => ?_, h.nodup⟩
    obtain ⟨e, he, hidentity⟩ := List.mem_map.mp hmem
    exact PathIndex.find?_eq_none_iff.mp hfresh e he hidentity
  · rw [hindex] at he
    rcases List.mem_cons.mp he with rfl | he
    · exact hnormal
    · exact h.normal e he

/-- A slot is given up with the path of its module, which no other module has. -/
theorem discard (ns : List Nat) : (l.discard ns).Indexed := by
  refine ⟨fun id m hm => ?_, fun e he => ?_, ?_, fun e he => ?_⟩
  · rw [module?_discard] at hm
    split at hm
    · cases hm
    · next hkept =>
      rw [index_discard, List.mem_filter, spares_eq_true]
      refine ⟨h.entry id m hm, fun n hn k hk hidentity => hkept ⟨n, hn, ?_⟩⟩
      exact h.eq_of_identity hm hk hidentity
  · rw [index_discard, List.mem_filter, spares_eq_true] at he
    obtain ⟨m, hm, hme⟩ := h.live e he.1
    refine ⟨m, ?_, hme⟩
    rw [module?_discard, if_neg ?_, hm]
    rintro ⟨n, hn, hslot⟩
    rw [hslot] at hm
    exact he.2 n hn m hm (congrArg ModulePath.identity hme.symm)
  · rw [index_discard]
    exact h.nodup.sublist (List.filter_sublist.map _)
  · rw [index_discard] at he
    exact h.normal e (List.mem_filter.mp he).1

/-! ## Calls -/

theorem resolveStep (hstep : ResolveStep fs root worked l l') : l'.Indexed := by
  cases hstep with
  | register canonical contents decoded fresh =>
    exact h.register rfl fresh trivial
  | @target id m position d target working there declared means =>
    refine h.of_path rfl fun other => ?_
    rw [module?_loader_update]
    split
    · next hother => rw [hother, Option.map_map]; rfl
    · rfl

theorem resolveSteps (hsteps : ResolveSteps fs root worked l l') : l'.Indexed := by
  induction hsteps with
  | refl => exact h
  | tail _ hstep ih => exact ih.resolveStep hstep

theorem completion (hC : Completion fs root l r left mid b c) : left.Indexed := by
  refine (h.resolveSteps hC.steps).of_path hC.index_eq fun id => ?_
  have hpath := hC.settled.map_path id
  rcases hC.arena_eq with harena | harena
  · rw [Loader.module?, harena]
    exact hpath
  · rw [Loader.module?, harena, Arena.module?_markAll, Loader.module?, ← hpath]
    split
    · cases c.module? id <;> simp
    · rfl

theorem revert (mark : Nat) (id : ModuleId) : (l.revert mark id).Indexed := by
  simp only [Loader.revert]
  split
  · next restored hrestored =>
    obtain ⟨m, hm, hmr⟩ := Option.bind_eq_some_iff.mp hrestored
    have hrestoring : (l.update id fun _ => restored).Indexed := by
      refine h.of_path rfl fun other => ?_
      rw [module?_loader_update]
      split
      · next hother =>
        rw [hother, hm, Option.map_some, Option.map_some, Option.map_some, restored?_path hmr]
      · rfl
    exact hrestoring.discard _
  · exact h.discard _

/-! ## Every operation keeps it -/

theorem load (hl : l.Sound) (fs : FileSystem) (path : String) : (l.load fs path).2.Indexed := by
  rcases load_cases (Prod.eta (l.load fs path)).symm with ⟨hsame, -⟩ |
    ⟨canonical, bytes, d, r, left, -, hfresh, -, hdecode, hcomplete, hend⟩
  · rw [hsame]
    exact h
  · obtain ⟨hlive, hres, -⟩ := hl.register_ofDescriptor hdecode (.file canonical)
    obtain ⟨mid, b, c, hC⟩ := exists_completion hlive hres hcomplete
    have hregistered : (l.register (.ofDescriptor l.nextId (.file canonical) d)).Indexed :=
      h.register rfl hfresh trivial
    have hleft := hregistered.completion hC
    rcases hend with ⟨e, -, -, hl'⟩ | ⟨-, -, hl'⟩
    · rw [hl']
      exact hleft.discard _
    · rw [hl']
      exact hleft

theorem create (path : String) : (l.create path).2.Indexed := by
  simp only [Loader.create]
  split
  · exact h
  · next habsolute =>
    split
    · exact h
    · next hfresh =>
      exact h.register rfl hfresh (ModulePath.normal_virtual (by simpa using habsolute))

theorem build (hl : l.Sound) (fs : FileSystem) (id : ModuleId) : (l.build fs id).2.Indexed := by
  rcases build_cases (Prod.eta (l.build fs id)).symm with ⟨hsame, -⟩ |
    ⟨m, left, -, -, hcomplete, hend⟩
  · rw [hsame]
    exact h
  · obtain ⟨mid, b, c, hC⟩ := exists_completion hl.live hl.resolved hcomplete
    have hleft := h.completion hC
    rcases hend with ⟨-, hl'⟩ | ⟨-, hl'⟩
    · rw [hl']
      exact hleft.revert _ _
    · rw [hl']
      exact hleft

theorem authored (hl' : l.Authored l') : l'.Indexed := by
  cases hl' with
  | refused => exact h
  | @grown id m k there hosted grows =>
    refine h.of_path rfl fun other => ?_
    rw [module?_loader_update]
    split
    · next hother =>
      rw [hother, there, Option.map_some, Option.map_some, Option.map_some, grows.path]
    · rfl

theorem apply (hl : l.Sound) (o : Operation) : (l.apply o).Indexed := by
  cases o with
  | load fs path => exact h.load hl fs path
  | create path => exact h.create path
  | build fs id => exact h.build hl fs id
  | clear => exact ofDirectories l.libraryDirectories
  | addLibraryDirectory fs path => exact ⟨h.entry, h.live, h.nodup, h.normal⟩
  | _ => exact h.authored (l.authored_apply rfl)

end Indexed

/-- In every registry that can arise the index is in step with the slots. -/
theorem Reachable.indexed (h : l.Reachable) : l.Indexed :=
  h.induction .ofDirectories fun _ o hl hindexed => hindexed.apply hl.sound o

end Loader
end ModuleLinker
