import ModuleLinker.Proofs.Registry.Ledger

/-!
# Structures that stay for life

A structure is completed when its module comes from a file, or when the last successful build of
its module had it. Whatever the host does later, short of forgetting all, the structure stays as it
is, with its layout. What its mapped fields were linked to is completed as well, and goes on to be
what the mapped name means in its module.
-/
namespace ModuleLinker

/-- What a field that was given is once its structure is completed: as it was given, or in the
place of a mapped type a structure that `reaches` under the mapped name. -/
def Field.Linked (reaches : StructureId → String → Prop) (mappings : List Mapping) (g f : Field) :
    Prop :=
  f.count = g.count ∧ match g.type with
    | .mapped index => ∃ x y, mappings[index]? = some x ∧ f.type = .struct y ∧ reaches y x.name
    | t => f.type = t

theorem Field.Traced.linked {holds reaches : StructureId → String → Prop}
    {mappings mappings' : List Mapping} {g f : Field} (h : g.Traced holds mappings f)
    (hresolved : f.type.isResolved = true) (hreaches : ∀ y name, holds y name → reaches y name)
    (hmappings : mappings <+: mappings') : g.Linked reaches mappings' f := by
  have hlater := h.mono hreaches hmappings
  refine ⟨hlater.1, ?_⟩
  cases htype : g.type with
  | mapped index =>
    rcases hlater.2 with hsame | ⟨index', x, y, hg, hx, hf, hname⟩
    · rw [hsame, htype] at hresolved
      cases hresolved
    · obtain rfl : index = index' := FieldType.mapped.inj (htype.symm.trans hg)
      exact ⟨x, y, hx, hf, hname⟩
  | fundamental t =>
    rcases hlater.2 with hsame | ⟨index, x, y, hg, -⟩
    · exact hsame.trans htype
    · rw [htype] at hg
      cases hg
  | struct id =>
    rcases hlater.2 with hsame | ⟨index, x, y, hg, -⟩
    · exact hsame.trans htype
    · rw [htype] at hg
      cases hg

/-- The part of a module that stays is laid out. -/
theorem Module.Finished.done_of_kept? {m k : Module} (h : m.Finished) (hk : m.kept? = some k) :
    ∀ s ∈ k.structures, s.layout.isDone = true := by
  rcases Module.kept?_eq_some.mp hk with ⟨hfile, rfl⟩ | ⟨-, hrestored⟩
  · refine h.done ?_
    cases ho : k.origin with
    | file => simp [needsBuild, ho]
    | host => simp [isHosted, ho] at hfile
  · refine (h.of_restored? hrestored).done ?_
    obtain ⟨built, c, -, rfl⟩ := Module.restored?_eq_some.mp hrestored
    rfl

/-- What is there to stay of a module stays over a run in which the registry forgets nothing. -/
theorem Loader.retains_run {l : Loader} (h : l.Sound) {os : List Operation}
    (hos : ∀ o ∈ os, o ≠ .clear) : l.Retains (l.run os) := by
  induction os generalizing l with
  | nil => rfl
  | cons o os ih =>
    have hstep := Loader.retains_apply h (hos o List.mem_cons_self)
    exact hstep.trans (ih (h.apply o) fun o' ho' => hos o' (List.mem_cons_of_mem _ ho'))

namespace Chronicle

/-- A structure of a module from a file, or one that the last successful build of its module
had. -/
def Completed (c : Chronicle) (x : StructureId) : Prop :=
  (∃ m, c.loader.module? x.owner = some m ∧ m.isHosted = false ∧ x.index < m.structures.length) ∨
    ∃ m, c.lastBuild x.owner = some m ∧ x.index < m.structures.length

/-- A structure is completed in both states, the same in both, and in both it is what a name means
in its module. -/
structure Endures (c c' : Chronicle) (x : StructureId) (name : String) : Prop where
  before : c.Completed x
  after : c'.Completed x
  named : ∃ m m' s, c.loader.module? x.owner = some m ∧ c'.loader.module? x.owner = some m' ∧
    m.structureNamed? name = some s ∧ m'.structureNamed? name = some s ∧ s.id = x

variable {c c' : Chronicle} {x : StructureId}

/-- The completed structures are those of the parts that stay. -/
theorem Faithful.completed_iff (h : c.Faithful) :
    c.Completed x ↔ ∃ k, c.loader.kept? x.owner = some k ∧ x.index < k.structures.length := by
  have htables := h.tables x.owner
  constructor
  · rintro (⟨m, hm, hfile, hindex⟩ | ⟨m, hlast, hindex⟩)
    · refine ⟨m, ?_, hindex⟩
      rw [Loader.kept?, hm]
      exact Module.kept?_eq_some.mpr (.inl ⟨hfile, rfl⟩)
    · rw [hlast] at htables
      obtain ⟨k, hrestored, hsame⟩ := exists_of_rel_left htables
      obtain ⟨n, hn, hnk⟩ := Option.bind_eq_some_iff.mp hrestored
      refine ⟨k, ?_, ?_⟩
      · rw [Loader.kept?, hn]
        exact Module.kept?_of_restored? hnk
      · rw [hsame.eq]
        exact hindex
  · rintro ⟨k, hk, hindex⟩
    obtain ⟨m, hm, hmk⟩ := Option.bind_eq_some_iff.mp hk
    rcases Module.kept?_eq_some.mp hmk with ⟨hfile, rfl⟩ | ⟨-, hrestored⟩
    · exact .inl ⟨k, hm, hfile, hindex⟩
    · rw [Loader.restored?_of_module? hm, hrestored] at htables
      obtain ⟨m₀, hlast, hsame⟩ := exists_of_rel_right htables
      refine .inr ⟨m₀, hlast, ?_⟩
      rw [hsame.eq] at hindex
      exact hindex

/-- A structure that a name means in a part that stays endures. -/
theorem Faithful.endures (h : c.Faithful) (h' : c'.Faithful)
    (hretains : c.loader.Retains c'.loader) {name : String} (hx : c.loader.Holds x name) :
    c.Endures c' x name := by
  obtain ⟨k, s, hk, hs, hindex⟩ := hx
  obtain ⟨k', hk', hprecedes⟩ := hretains _ k hk
  obtain ⟨m, hm, hmk⟩ := Option.bind_eq_some_iff.mp hk
  obtain ⟨m', hm', hmk'⟩ := Option.bind_eq_some_iff.mp hk'
  have hnamed := (Module.precedes_of_kept? hmk).structureNamed? hs
  have hnamed' := (Module.precedes_of_kept? hmk').structureNamed? (hprecedes.structureNamed? hs)
  have hnumbered := h.sound.numbered _ m hm
  have hplace := (hnumbered.structureNamed? hnamed).1
  have hid : s.id = x := by
    rw [hnumbered.structures _ s hplace, hindex]
  have hlength : x.index < k.structures.length := by
    obtain ⟨i, hi, hget⟩ := List.mem_iff_getElem.mp (List.mem_of_find?_eq_some hs)
    have hplace' : m.structures[i]? = some s := by
      rw [← hget]
      exact List.prefix_iff_getElem?.mp (Module.precedes_of_kept? hmk).structures i hi
    have hi' : s.index = i := congrArg StructureId.index (hnumbered.structures i s hplace')
    rwa [← hindex, hi']
  exact
    { before := h.completed_iff.mpr ⟨k, hk, hlength⟩
      after := h'.completed_iff.mpr ⟨k', hk',
        hlength.trans_le hprecedes.structures.length_le⟩
      named := ⟨m, m', s, hm, hm', hnamed, hnamed', hid⟩ }

end Chronicle

namespace Ledger

/-- A completed structure stays completed and as it is over every run in which the registry forgets
nothing. Its fields have the counts and types that they were given, and in the place of a mapped
type a structure that is completed, stays so, and goes on to be what the mapped name means. -/
theorem completed_structures {c : Ledger} (h : c.Reachable) {os : List Operation}
    (hos : ∀ o ∈ os, o ≠ .clear) {x : StructureId} (hx : c.Completed x) :
    (c.run os).Completed x ∧ ∃ m s g, c.loader.module? x.owner = some m ∧
      c.loader.arena.structure? x = some s ∧ (c.run os).loader.arena.structure? x = some s ∧
      c.given x = some g ∧ s.name = g.name ∧
      List.Forall₂ (Field.Linked (c.Endures (c.run os).toChronicle) m.mappings.structures)
        g.fields s.fields := by
  have haccounts := h.accounts
  have haccounts' := haccounts.run os
  have hsound := haccounts.sound
  have hretains : c.loader.Retains (c.run os).loader := by
    rw [toChronicle_run, Chronicle.loader_run]
    exact Loader.retains_run hsound hos
  obtain ⟨k, hk, hindex⟩ := haccounts.faithful.completed_iff.mp hx
  obtain ⟨k', hk', hprecedes⟩ := hretains _ k hk
  obtain ⟨m, hm, hmk⟩ := Option.bind_eq_some_iff.mp hk
  obtain ⟨m', hm', hmk'⟩ := Option.bind_eq_some_iff.mp hk'
  have hprefix := Module.precedes_of_kept? hmk
  have hprefix' := hprecedes.trans (Module.precedes_of_kept? hmk')
  have hs : k.structures[x.index]? = some k.structures[x.index] := List.getElem?_eq_getElem hindex
  have hbefore : c.loader.arena.structure? x = some k.structures[x.index] :=
    Arena.structure?_eq_some.mpr
      ⟨m, hm, List.prefix_iff_getElem?.mp hprefix.structures x.index hindex⟩
  have hafter : (c.run os).loader.arena.structure? x = some k.structures[x.index] :=
    Arena.structure?_eq_some.mpr
      ⟨m', hm', List.prefix_iff_getElem?.mp hprefix'.structures x.index hindex⟩
  have hdone := (hsound.finished _ m hm).done_of_kept? hmk _ (List.getElem_mem hindex)
  have hresolved := hsound.resolved x _ hbefore hdone
  obtain ⟨g, hg, hgiven⟩ := haccounts.kept _ k hk _ _ hs
  refine ⟨haccounts'.faithful.completed_iff.mpr
    ⟨k', hk', hindex.trans_le hprecedes.structures.length_le⟩,
    m, _, g, hm, hbefore, hafter, hg, hgiven.name, ?_⟩
  refine List.forall₂_of_length_eq_of_get hgiven.fields.length_eq fun i hi hi' => ?_
  exact (hgiven.fields.get hi hi').linked (hresolved _ (List.getElem_mem hi'))
    (fun _ _ => haccounts.faithful.endures haccounts'.faithful hretains) hprefix.structureMappings

/-- A structure that is mapped out of another module, over a rebuild of that module that fails. -/
theorem completed_structures_of_failed_rebuild :
    let c := (ofDirectories []).run
      [.create "/base", .addStructure (.slot 0) "P" [{ type := .fundamental .int }],
        .build {} (.slot 0), .create "/app", .addDependency (.slot 1) "/base",
        .addStructureMapping (.slot 1) 0 "P", .addStructure (.slot 1) "Q" [{ type := .mapped 0 }],
        .build {} (.slot 1)]
    let os : List Operation := [.addDependency (.slot 0) "/missing", .build {} (.slot 0)]
    c.Completed ⟨.slot 1, 0⟩ ∧ (∀ o ∈ os, o ≠ .clear) ∧
      (c.run os).Completed ⟨.slot 1, 0⟩ ∧ ∃ s,
        (c.run os).loader.arena.structure? ⟨.slot 1, 0⟩ = some s ∧
        List.Forall₂ (Field.Linked (c.Endures (c.run os).toChronicle) [⟨0, "P"⟩])
          [{ type := .mapped 0 }] s.fields := by
  intro c os
  have hx : c.Completed ⟨.slot 1, 0⟩ := .inr ⟨_, rfl, by decide +kernel⟩
  have hos : ∀ o ∈ os, o ≠ .clear := by
    intro o ho
    simp only [os, List.mem_cons, List.not_mem_nil, or_false] at ho
    rcases ho with rfl | rfl
    · nofun
    · nofun
  obtain ⟨hstays, m, s, g, hm, -, hs, hg, -, hfields⟩ :=
    completed_structures (c := c) ⟨_, _, rfl⟩ hos hx
  refine ⟨hx, hos, hstays, s, hs, ?_⟩
  have hmappings : (c.loader.module? (.slot 1)).map (fun m => m.mappings.structures) =
      some [⟨0, "P"⟩] := by decide +kernel
  have hgiven : (c.given ⟨.slot 1, 0⟩).map Structure.fields = some [{ type := .mapped 0 }] := by
    decide +kernel
  rw [hm, Option.map_some, Option.some.injEq] at hmappings
  rw [hg, Option.map_some, Option.some.injEq] at hgiven
  rw [← hmappings, ← hgiven]
  exact hfields

end Ledger
end ModuleLinker
