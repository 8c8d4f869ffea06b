import ModuleLinker.Proofs.Registry.Sound

/-!
# Properties of every structure

A structure enters a registry without a layout and owned by its module. After that only two things
happen to it: its module is linked, and it is laid out. A property that holds at first and is kept by
these two therefore holds of every structure of every registry, whichever operations fail on the way.
-/
namespace ModuleLinker

/-- A property of structures that holds when they are given to a module, and that linking and layout
keep. -/
structure StructureInvariant (P : Structure → Prop) : Prop where
  given : ∀ (owner : ModuleId) (s : Structure), owner.isAssigned = true → s.layout = .notComputed →
    P (s.assign owner)
  linked : ∀ (a : Arena) (m : Module) (s t : Structure),
    (∀ id k, a.module? id = some k → k.id = id) → m.linkedStructure a s = .ok t → P s → P t
  laidOut : ∀ (a : Arena) (s t : Structure), t.outline = s.outline → Arena.Settles a.layoutOf? s t →
    P s → P t

namespace Arena

variable {P : Structure → Prop} {a b : Arena}

/-- Every structure of the arena has the property. -/
def Every (P : Structure → Prop) (a : Arena) : Prop := ∀ id s, a.structure? id = some s → P s

theorem every_nil (P : Structure → Prop) : Every P [] := by
  intro x s hs
  obtain ⟨m, hm, -⟩ := structure?_eq_some.mp hs
  obtain ⟨n, -, hn, -⟩ := exists_slot hm
  cases hn

theorem Every.of_subset (h : a.Every P)
    (hsub : ∀ id s, b.structure? id = some s → a.structure? id = some s) : b.Every P :=
  fun id s hs => h id s (hsub id s hs)

theorem every_iff :
    a.Every P ↔ ∀ id m, a.module? id = some m → ∀ s ∈ m.structures, P s := by
  constructor
  · intro h id m hm s hs
    obtain ⟨i, hi⟩ := List.mem_iff_getElem?.mp hs
    exact h ⟨id, i⟩ s (structure?_eq_some.mpr ⟨m, hm, hi⟩)
  · intro h x s hs
    obtain ⟨m, hm, hms⟩ := structure?_eq_some.mp hs
    exact h x.owner m hm s (List.mem_of_getElem? hms)

end Arena

/-! ## The phases of a call -/

namespace StructureInvariant

variable {P : Structure → Prop} (hP : StructureInvariant P) {a b : Arena}
include hP

theorem laysOut {touched : StructureId → Prop} (h : a.Every P) (hpass : Arena.LaysOut touched a b) :
    b.Every P := by
  intro id t ht
  obtain ⟨s, hs, hst⟩ := Arena.exists_structure?_of_outline_eq hpass.outline.symm ht
  rcases hpass.settles id s t hs ht with rfl | ⟨-, hsettles⟩
  · exact h id t hs
  · exact hP.laidOut _ s t hst.symm hsettles (h id s hs)

/-- Linking a module links its structures and leaves all others. -/
theorem link (h : a.Every P) (hslots : ∀ id m, a.module? id = some m → m.id = id) {id : ModuleId}
    (hlink : a.link id = .ok b) :
    b.Every P ∧ ∀ id m, b.module? id = some m → m.id = id := by
  obtain ⟨m, k, hm, hk, rfl⟩ := Arena.link_eq_ok.mp hlink
  obtain ⟨hmodule, hstructures, -⟩ := Module.linked_eq_ok.mp hk
  rw [Arena.every_iff] at h ⊢
  have hcases : ∀ other n, (a.update id fun _ => k).module? other = some n →
      other = id ∧ n = k ∨ a.module? other = some n := by
    intro other n hn
    rw [Arena.module?_update] at hn
    split at hn
    · next hother => exact .inl ⟨hother, by simpa [hm] using hn.symm⟩
    · exact .inr hn
  constructor
  · intro other n hn t ht
    rcases hcases other n hn with ⟨-, rfl⟩ | hn
    · obtain ⟨i, hi, rfl⟩ := List.getElem_of_mem ht
      have hi' : i < m.structures.length := hstructures.length_eq ▸ hi
      exact hP.linked a m _ _ hslots (hstructures.get hi' hi) (h id m hm _ (List.getElem_mem hi'))
    · exact h other n hn t ht
  · intro other n hn
    rcases hcases other n hn with ⟨rfl, rfl⟩ | hn
    · rw [hmodule]
      exact hslots other m hm
    · exact hslots other n hn

theorem linkAll (h : a.Every P) (hslots : ∀ id m, a.module? id = some m → m.id = id)
    (ids : List ModuleId) : (a.linkAll ids).2.Every P := by
  induction ids generalizing a with
  | nil => exact h
  | cons id ids ih =>
    simp only [Arena.linkAll]
    split
    · exact h
    · next hlink =>
      obtain ⟨hb, hslots'⟩ := hP.link h hslots hlink
      exact ih hb hslots'

end StructureInvariant

theorem Loader.every_register {P : Structure → Prop} {l : Loader} {m : Module}
    (h : l.arena.Every P) (hm : ∀ s ∈ m.structures, P s) : (l.register m).arena.Every P := by
  rw [Arena.every_iff] at h ⊢
  intro id k hk
  rcases module?_register.mp hk with hk | ⟨-, rfl⟩
  · exact h id k hk
  · exact hm

namespace StructureInvariant

open Loader

variable {P : Structure → Prop} (hP : StructureInvariant P) {fs : FileSystem} {root : ModuleId}
  {l l' left mid : Loader} {r : Except LoadError Unit} {b c : Arena}
include hP

/-- The structures that an image gives to a module in a slot. -/
theorem ofImage {bytes : List UInt8} {d : Descriptor} (hdecode : decode bytes = .ok d) (n : Nat) :
    ∀ s ∈ d.structures.map (Structure.assign (.slot n)), P s := by
  intro s hs
  obtain ⟨t, ht, rfl⟩ := List.mem_map.mp hs
  obtain ⟨i, hi⟩ := List.mem_iff_getElem?.mp ht
  exact hP.given (.slot n) t rfl ((unregistered_of_decode hdecode).structures i t hi).layout

theorem extending {worked : ModuleId → Prop} (h : l.arena.Every P) (hext : l.Extends fs worked l') :
    l'.arena.Every P := by
  rw [Arena.every_iff] at h ⊢
  intro id k hk
  rcases hext.module?_cases hk with ⟨m, hm, hkm, -⟩ | ⟨n, -, -, hregistered⟩
  · rw [hkm]
    exact h id m hm
  · obtain ⟨path, bytes, d, -, -, hdecode, -, -, hkd, -⟩ := hregistered
    rw [hkd]
    exact hP.ofImage hdecode n

theorem completion (h : l.arena.Every P) (hnumbered : ∀ id m, l.module? id = some m → m.Numbered id)
    (hC : Completion fs root l r left mid b c) : left.arena.Every P := by
  have hmid := hP.extending h hC.extending
  have hb : b.Every P := by
    obtain ⟨resolved, -, rfl⟩ := hC.phases
    cases resolved with
    | error e => exact hmid
    | ok targets =>
      exact hP.linkAll hmid (fun id m hm => (hC.extending.numbered hnumbered id m hm).id_eq) targets
  refine (hP.laysOut hb hC.settled.laysOut).of_subset fun x s hs => ?_
  rwa [hC.structure?_eq] at hs

/-! ## Every operation keeps it -/

theorem load (h : l.arena.Every P) (hl : l.Sound) (fs : FileSystem) (path : String) :
    (l.load fs path).2.arena.Every P := by
  rcases load_cases (Prod.eta (l.load fs path)).symm with ⟨hsame, -⟩ |
    ⟨canonical, bytes, d, r, left, -, -, -, hdecode, hcomplete, hend⟩
  · rw [hsame]
    exact h
  · obtain ⟨hlive, hres, hnumbered⟩ := hl.register_ofDescriptor hdecode (.file canonical)
    obtain ⟨mid, b, c, hC⟩ := exists_completion hlive hres hcomplete
    have hleft := hP.completion (every_register h (hP.ofImage hdecode _)) hnumbered hC
    rcases hend with ⟨e, -, -, hl'⟩ | ⟨-, -, hl'⟩
    · rw [hl']
      exact hleft.of_subset fun _ _ => structure?_of_rollback
    · rw [hl']
      exact hleft

theorem build (h : l.arena.Every P) (hl : l.Sound) (fs : FileSystem) (id : ModuleId) :
    (l.build fs id).2.arena.Every P := by
  rcases build_cases (Prod.eta (l.build fs id)).symm with ⟨hsame, -⟩ |
    ⟨m, left, -, -, hcomplete, hend⟩
  · rw [hsame]
    exact h
  · obtain ⟨mid, b, c, hC⟩ := exists_completion hl.live hl.resolved hcomplete
    have hleft := hP.completion h hl.numbered hC
    rcases hend with ⟨-, hl'⟩ | ⟨-, hl'⟩
    · rw [hl']
      exact hleft.of_subset fun _ _ => structure?_of_revert
    · rw [hl']
      exact hleft

theorem authored (h : l.arena.Every P) (hl : l.Sound) (hl' : l.Authored l') :
    l'.arena.Every P := by
  cases hl' with
  | refused => exact h
  | @grown id m k there hosted grows =>
    rw [Arena.every_iff] at h ⊢
    intro other n hn s hs
    have hmodule := module?_loader_update (l := l) id other fun _ => k
    rw [Loader.module?] at hmodule
    split at hmodule
    · rw [there] at hmodule
      obtain rfl : k = n := Option.some.inj (hmodule.symm.trans hn)
      rcases grows.assigned s hs with hold | ⟨t, ht, rfl⟩
      · exact h id m there s hold
      · obtain ⟨slot, rfl, -⟩ := Arena.exists_slot there
        refine hP.given m.id t ?_ ht
        rw [(hl.numbered _ m there).id_eq]
        rfl
    · exact h other n (hmodule.symm.trans hn) s hs

theorem apply (h : l.arena.Every P) (hl : l.Sound) (o : Operation) : (l.apply o).arena.Every P := by
  cases o with
  | load fs path => exact hP.load h hl fs path
  | create path =>
    rcases l.create_cases path with hsame | hregister
    · rw [show l.apply (.create path) = l from hsame]
      exact h
    · rw [show l.apply (.create path) = _ from hregister]
      exact every_register h nofun
  | build fs id => exact hP.build h hl fs id
  | clear => exact Arena.every_nil P
  | addLibraryDirectory fs path => exact h
  | _ => exact hP.authored h hl (l.authored_apply rfl)

end StructureInvariant

/-- An invariant of structures holds of every structure of every registry that can arise. -/
theorem Loader.Reachable.every {P : Structure → Prop} (hP : StructureInvariant P) {l : Loader}
    (h : l.Reachable) : l.arena.Every P :=
  h.induction (fun _ => Arena.every_nil P) fun _ o hl hevery => hP.apply hevery hl.sound o

end ModuleLinker
