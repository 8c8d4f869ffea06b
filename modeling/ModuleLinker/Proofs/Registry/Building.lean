import ModuleLinker.Proofs.Registry.LinkPhase
import ModuleLinker.Proofs.Registry.Restoring

/-!
# How a build goes

A build works on its module and on those that it registers. Into any other module it only comes
through what the structures of its module contain: a structure there that has no layout may be laid
out on the way. That happens in a module that has to be built first, because the structures of all
others have their layouts. When a build fails, such layouts stay; the new slots are given up, and
with them the paths that were registered.
-/
namespace ModuleLinker

/-- What may become of a structure that laying out comes to: it may get offsets and a layout. -/
def Structure.MaybeLaidOut (reached : Prop) (s t : Structure) : Prop :=
  t = s ∨ reached ∧ s.layout = .notComputed ∧ t.layout.isDone = true ∧ t.outline = s.outline

/-- What may become of a module that is not the one that is built: structures of it that are
reached may be laid out, if it has to be built itself. -/
structure Module.Relaid (reached : Nat → Prop) (m k : Module) : Prop where
  eq : k = { m with structures := k.structures }
  built : m.needsBuild = false → k = m
  structures : ∀ i, Option.Rel (Structure.MaybeLaidOut (reached i)) m.structures[i]? k.structures[i]?

theorem Module.Relaid.refl (reached : Nat → Prop) (m : Module) : m.Relaid reached m where
  eq := rfl
  built _ := rfl
  structures i := by
    cases m.structures[i]? with
    | none => exact .none
    | some s => exact .some (.inl rfl)

namespace Loader

variable {fs : FileSystem} {root id other : ModuleId} {l l' left mid : Loader}
  {r : Except LoadError Unit} {b c : Arena} {m : Module}

namespace Completion

variable (h : Completion fs root l r left mid b c)
include h

/-- Up to linking a module that is neither the root nor new is as it was. -/
theorem module?_linked (hid : id ≠ root) (hold : ¬ id.isFrom l.arena.length = true)
    (hm : l.module? id = some m) : b.module? id = some m := by
  have hnot : id ∉ root :: newSlots l mid := not_mem_targets hid hold
  obtain ⟨k, hk, -, -, hsame⟩ := h.extending.kept id m hm
  obtain rfl : k = m := hsame fun hworked => hnot (List.mem_cons.mpr hworked)
  rw [h.settled.unlinked id hnot]
  exact hk

/-- A call that got through linking. -/
theorem linkPhase (hl : l.Sound)
    (hmet : ∀ id ∈ root :: newSlots l mid, mid.AllMet fs root id)
    (hlinked : ∀ id ∈ root :: newSlots l mid, ∀ m k, mid.module? id = some m →
      b.module? id = some k → m.LinkedFrom b k) :
    LinkPhase fs root (fun id => id = root ∨ id ∈ newSlots l mid) l mid b where
  sound := hl
  extending := h.extending
  links := h.settled.links
  unlinked id hid := h.settled.unlinked id fun hmem => hid (List.mem_cons.mp hmem)
  met id hid := hmet id (List.mem_cons.mpr hid)
  linked id m k hid hm hk := hlinked id (List.mem_cons.mpr hid) m k hm hk

/-- A structure of a module that is neither the root nor new stays, unless the root led to it and
it had no layout. -/
theorem structure?_older (hl : l.Sound) {x : StructureId} (hid : x.owner ≠ root)
    (hold : ¬ x.owner.isFrom l.arena.length = true) :
    Option.Rel (Structure.MaybeLaidOut (∃ y, y.owner = root ∧ l.arena.Reaches y x))
      (l.arena.structure? x) (left.arena.structure? x) := by
  rw [h.structure?_eq]
  have hbefore : b.structure? x = l.arena.structure? x := by
    cases hm : l.module? x.owner with
    | none =>
      rw [Arena.structure?_of_module?_none hm, Arena.structure?_of_module?_none]
      cases hk : b.module? x.owner with
      | none => rfl
      | some k =>
        obtain ⟨n, hn, -⟩ := Arena.exists_module?_of_outline_eq h.settled.laysOut.outline hk
        obtain ⟨m, hm', -⟩ := h.exists_earlier hn (Bool.not_eq_true _ ▸ hold)
        rw [hm] at hm'
        cases hm'
    | some m => exact Arena.structure?_congr ((h.module?_linked hid hold hm).trans hm.symm)
  rw [← hbefore]
  cases hs : b.structure? x with
  | none =>
    rw [Arena.structure?_eq_none_of_outline_eq h.settled.laysOut.outline hs]
    exact .none
  | some s =>
    obtain ⟨t, ht, houtline⟩ := Arena.exists_structure?_of_outline_eq h.settled.laysOut.outline hs
    rw [ht]
    refine .some ?_
    rcases h.settled.laysOut.settles x s t hs ht with hsame |
      ⟨⟨y, hy, hreaches⟩, hopen, layout, hlayout, -⟩
    · exact .inl hsame
    · rcases h.linked with ⟨rfl, -⟩ | ⟨hmet, hlinked⟩
      · exact .inl (Option.some.inj (ht.symm.trans hs))
      · have hstart : y.owner = root ∨ y.owner.isFrom l.arena.length = true :=
          (List.mem_cons.mp hy).imp_right isFrom_of_mem_newSlots
        rcases (h.linkPhase hl hmet hlinked).reached hstart hreaches with hnew | hdone | hroot
        · exact absurd hnew hold
        · rw [Arena.isLaidOut_of_structure? hs, hopen] at hdone
          cases hdone
        · exact .inr ⟨hroot, hopen, by rw [hlayout]; rfl, houtline⟩

/-- A module that is neither the root nor new only gets structures laid out that the root led to,
and none at all if it may be depended on. -/
theorem relaid (hl : l.Sound) (hid : id ≠ root) (hold : ¬ id.isFrom l.arena.length = true) :
    Option.Rel (Module.Relaid fun i => ∃ y, y.owner = root ∧ l.arena.Reaches y ⟨id, i⟩)
      (l.module? id) (left.module? id) := by
  rcases h.module?_older hid hold with ⟨hm, hn⟩ | ⟨m, n, hm, hn, hmn, heq⟩
  · rw [hm, hn]
    exact .none
  · rw [hm, hn]
    refine .some ⟨heq, fun hbuilt => ?_, fun i => ?_⟩
    · have hdone := (hl.finished id m hm).done hbuilt
      have hall := hmn.take_structures (n := m.structures.length)
        fun s hs => hdone s (List.mem_of_mem_take hs)
      rw [List.take_length, ← hmn.length_structures, List.take_length] at hall
      rw [heq, hall]
    · have hbefore : l.arena.structure? ⟨id, i⟩ = m.structures[i]? :=
        Arena.structure?_of_module? hm
      have hafter : left.arena.structure? ⟨id, i⟩ = n.structures[i]? :=
        Arena.structure?_of_module? hn
      rw [← hbefore, ← hafter]
      exact h.structure?_older hl hid hold

/-- Resolution, linking and layout leave every module its path. -/
theorem map_path (hr : r ≠ .ok ()) (id : ModuleId) :
    (left.module? id).map Module.path = (mid.module? id).map Module.path := by
  cases r with
  | ok _ => exact absurd rfl hr
  | error e =>
    rw [Loader.module?, h.failed e rfl]
    exact h.settled.map_path id

/-- Going back after a failure leaves the paths from before, less that of the root if it never was
built. -/
theorem index_revert (hl : l.Sound) (hr : r ≠ .ok ()) (hm : l.module? root = some m) :
    (left.revert l.arena.length root).index =
      if m.restored?.isSome then l.index else l.index.remove m.path := by
  obtain ⟨n, hn, hmn⟩ : ∃ n, left.module? root = some n ∧ m.Evolves n := by
    cases r with
    | ok _ => exact absurd rfl hr
    | error e =>
      obtain ⟨n, hn, hmn⟩ := h.evolves root m hm
      exact ⟨n, by rw [Loader.module?, h.failed e rfl, hn], hmn⟩
  have hrel := Module.rel_restored? (hl.finished root m hm) hmn
  have hbind : (left.module? root).bind Module.restored? = n.restored? := by rw [hn]; rfl
  rw [← isSome_eq_of_rel hrel]
  cases hk : n.restored? with
  | none =>
    rw [hk] at hbind
    obtain ⟨slot, rfl, -⟩ := Arena.exists_slot hm
    have hrollback := index_rollback_of_extends h.extending h.index_eq (h.map_path hr)
    simp only [revert, hbind, index_rollback_also hn, hrollback, hmn.path]
    rfl
  | some k =>
    rw [hk] at hbind
    simp only [revert, hbind, Option.isSome_some, if_true]
    refine index_rollback_of_extends h.extending h.index_eq fun other => ?_
    rw [module?_loader_update, ← h.map_path hr]
    by_cases hother : other = root
    · rw [if_pos hother, hother, hn, Option.map_some, Option.map_some, Option.map_some,
        restored?_path hk]
    · rw [if_neg hother]

end Completion

/-! ## A whole build -/

/-- A build leaves the modules in the other older slots as they are, but for layouts. -/
theorem relaid_build (h : l.Sound) (fs : FileSystem) (hid : other ≠ id)
    (hold : ¬ other.isFrom l.arena.length = true) :
    Option.Rel (Module.Relaid fun i => ∃ x, x.owner = id ∧ l.arena.Reaches x ⟨other, i⟩)
      (l.module? other) ((l.build fs id).2.module? other) := by
  rcases build_cases (Prod.eta (l.build fs id)).symm with ⟨hsame, -⟩ |
    ⟨m, left, -, -, hcomplete, hend⟩
  · rw [hsame]
    cases l.module? other with
    | none => exact .none
    | some m => exact .some (.refl _ m)
  · obtain ⟨mid, b, c, hC⟩ := exists_completion h.live h.resolved hcomplete
    have hleft := hC.relaid h hid hold
    rcases hend with ⟨-, hl'⟩ | ⟨-, hl'⟩
    · rw [hl', module?_revert, if_neg hold, if_neg hid]
      exact hleft
    · rw [hl']
      exact hleft

theorem length_le_build (h : l.Sound) (fs : FileSystem) (id : ModuleId) :
    l.arena.length ≤ (l.build fs id).2.arena.length := by
  rcases build_cases (Prod.eta (l.build fs id)).symm with ⟨hsame, -⟩ |
    ⟨m, left, -, -, hcomplete, hend⟩
  · rw [hsame]
  · obtain ⟨mid, b, c, hC⟩ := exists_completion h.live h.resolved hcomplete
    have hleft : l.arena.length ≤ left.arena.length := hC.length_eq ▸ hC.extending.length_le
    rcases hend with ⟨-, hl'⟩ | ⟨-, hl'⟩
    · rw [hl', length_revert]
      exact hleft
    · rw [hl']
      exact hleft

/-- After a build that failed there is no module that was not there before. -/
theorem module?_new_of_build_failed {e : LoadError} (hfails : l.build fs id = (.error e, l'))
    (hnew : other.isFrom l.arena.length = true) : l'.module? other = none := by
  rcases build_cases hfails with ⟨rfl, -⟩ | ⟨m, left, -, -, -, ⟨-, rfl⟩ | ⟨hr, -⟩⟩
  · exact module?_none_of_isFrom hnew
  · rw [module?_revert, if_pos hnew]
  · cases hr

/-- After a build that failed the index has the paths from before, less that of the module if it is
one of the host's that never was built. -/
theorem index_of_build_failed (h : l.Sound) {e : LoadError}
    (hfails : l.build fs id = (.error e, l')) :
    l'.index = match l.module? id with
      | some m => if m.isHosted && m.restored?.isNone then l.index.remove m.path else l.index
      | none => l.index := by
  rcases build_cases hfails with ⟨rfl, -, hrefused⟩ |
    ⟨m, left, hm, hhosted, hcomplete, ⟨-, rfl⟩ | ⟨hr, -⟩⟩
  · cases hm : l'.module? id with
    | none => rfl
    | some m => simp [hrefused m hm]
  · obtain ⟨mid, b, c, hC⟩ := exists_completion h.live h.resolved hcomplete
    rw [hC.index_revert h nofun hm, hm]
    cases hrestored : m.restored? <;> simp [hhosted, hrestored]
  · cases hr

end Loader
end ModuleLinker
