import ModuleLinker.Proofs.Registry.Sound

/-!
# What a call does to its root

Resolution overwrites the targets of the root's dependencies one after the other, up to the first
spec that it does not get through; the modules it works on later are others. Linking comes when all
of resolution is done, and starts with the root: either it gets through the root, and then all
function links are new, or it leaves them alone.
-/
namespace ModuleLinker

namespace Arena

variable {a a' b : Arena} {id : ModuleId} {ids : List ModuleId} {r : Except LoadError Unit}

/-- The first of some modules to be linked is as its own linking leaves it. -/
theorem module?_linkAll_head (hres : a.Resolved) (hid : id ∉ ids) (hlink : a.link id = .ok a')
    (h : a.linkAll (id :: ids) = (r, b)) : b.module? id = a'.module? id := by
  simp only [linkAll, hlink] at h
  obtain ⟨-, hframe, -⟩ := linkAll_spec (hres.of_sameDone (links_of_link hres hlink).sameDone) h
  exact hframe id hid

end Arena

namespace Loader

variable {fs : FileSystem} {root id : ModuleId} {l left mid : Loader} {r : Except LoadError Unit}
  {b c : Arena} {m o k : Module}

/-- Whether completing a module gets so far that its function links are overwritten: all of
resolution is done and the module itself is linked. -/
def Relinks (fs : FileSystem) (l : Loader) (root : ModuleId) : Prop :=
  ∃ targets mid a, l.resolveFrom fs root = (.ok targets, mid) ∧ mid.arena.link root = .ok a

/-- The dependencies of the root that resolution gets to are met afterwards; the others are as
before. -/
theorem resolveFrom_root (hlive : l.IndexLive) (hm : l.module? root = some m)
    {resolved : Except LoadError (List ModuleId)} (h : l.resolveFrom fs root = (resolved, mid)) :
    ∃ o, mid.module? root = some o ∧ ∀ i < m.dependencies.length,
      (l.Passes fs root root m.path 0 ((m.dependencies.map Dependency.spec).take (i + 1)) →
        mid.Met fs root root i) ∧
      (¬ l.Passes fs root root m.path 0 ((m.dependencies.map Dependency.spec).take (i + 1)) →
        o.dependencies[i]? = m.dependencies[i]?) := by
  obtain ⟨n, rfl, hn, -⟩ := Arena.exists_slot hm
  simp only [resolveFrom, resolveWaiting, hm] at h
  rcases hspecs : l.resolveSpecs fs (.slot n) (.slot n) m.path 0
    (m.dependencies.map Dependency.spec) with ⟨added, first⟩
  obtain ⟨hsteps, hadded, o, ho, -, hdone⟩ := resolveSpecs_spec hlive ⟨hm, rfl⟩ hspecs
  simp only [List.drop_zero, List.length_map, Nat.zero_add] at hdone
  have hextends := extends_of_resolveSteps hsteps
  rw [hspecs] at h
  cases added with
  | error e =>
    cases h
    exact ⟨o, ho, hdone⟩
  | ok added =>
    rcases hwaiting : first.resolveWaiting fs (.slot n) fs.entries.length ([] ++ added) with
      ⟨rest, last⟩
    obtain ⟨hlater, -⟩ := resolveWaiting_spec (hextends.indexLive hlive) hwaiting
    obtain rfl : last = mid := by
      simp only [hwaiting] at h
      cases rest <;> exact congrArg Prod.snd h
    have hold : ¬ (.slot n ∈ [] ++ added ∨ .slot n ∈ newSlots first last) := by
      simp only [List.nil_append, hadded added rfl, mem_newSlots, ModuleId.slot.injEq,
        exists_eq_left']
      have := hextends.length_le
      omega
    obtain ⟨o', ho', -, -, hsame⟩ := (extends_of_resolveSteps hlater).kept _ o ho
    obtain rfl : o' = o := hsame hold
    exact ⟨o', ho', fun i hi => ⟨fun hpasses => met_of_resolveSteps hlater ((hdone i hi).1 hpasses),
      (hdone i hi).2⟩⟩

namespace Completion

variable (h : Completion fs root l r left mid b c)
include h

/-- The root's function links are those from before, or all of them are new. -/
theorem functionLinks_root (hlive : l.IndexLive) (hres : l.arena.Resolved)
    (hm : l.module? root = some m) (ho : mid.module? root = some o)
    (hk : b.module? root = some k) :
    ¬ l.Relinks fs root ∧ k.functionLinks = m.functionLinks ∨
      l.Relinks fs root ∧ List.Forall₂ (fun x f => o.mappedFunction mid.arena x = .ok f)
        m.mappings.functions k.functionLinks := by
  obtain ⟨n, rfl, hn, -⟩ := Arena.exists_slot hm
  have hmid := hres.of_sameDone h.extending.sameDone
  obtain ⟨o', ho', hom, -⟩ := h.extending.kept _ m hm
  obtain rfl : o' = o := Option.some.inj (ho'.symm.trans ho)
  have hstays : b = mid.arena → k.functionLinks = m.functionLinks := by
    rintro rfl
    obtain rfl : o' = k := Option.some.inj (ho.symm.trans hk)
    rw [hom]
  obtain ⟨resolved, hresolve, hb⟩ := h.phases
  cases resolved with
  | error e =>
    refine .inl ⟨?_, hstays hb⟩
    rintro ⟨targets, mid', a, hok, -⟩
    rw [hresolve] at hok
    cases hok
  | ok targets =>
    obtain ⟨rfl, -⟩ := (resolveFrom_spec hlive hresolve).2 targets rfl
    cases hlink : mid.arena.link (.slot n) with
    | error e =>
      refine .inl ⟨?_, hstays ?_⟩
      · rintro ⟨targets, mid', a, hok, ha⟩
        obtain ⟨-, rfl⟩ := Prod.mk.inj (hok.symm.trans hresolve)
        rw [hlink] at ha
        cases ha
      · simp only [hb, Arena.linkAll, hlink]
    | ok a =>
      refine .inr ⟨⟨_, mid, a, hresolve, hlink⟩, ?_⟩
      have hroot : .slot n ∉ newSlots l mid := by
        simp only [mem_newSlots, ModuleId.slot.injEq, exists_eq_left']
        omega
      rw [hb, Arena.module?_linkAll_head hmid hroot hlink (Prod.eta _).symm] at hk
      obtain ⟨o, k', ho', hlinked, rfl⟩ := Arena.link_eq_ok.mp hlink
      obtain rfl : o' = o := Option.some.inj (ho.symm.trans ho')
      rw [Arena.module?_update, if_pos rfl, ho'] at hk
      obtain rfl : k' = k := Option.some.inj hk
      have hmappings : o'.mappings = m.mappings := by rw [hom]
      rw [← hmappings]
      exact (Module.linked_eq_ok.mp hlinked).2.2

end Completion
end Loader
end ModuleLinker
