import ModuleLinker.Image.Encode
import ModuleLinker.Proofs.Registry.LoadWithin
import Mathlib.Data.List.Perm.Subperm
import Mathlib.Logic.Equiv.Defs

/-!
# The order of loads

Two loads that succeed one after the other succeed in the other order as well, whatever they share,
and leave the same registry but for the numbers of the modules that they bring in. Either order
loads each file inside what the other one leaves; so both leave modules under the same paths, and
the path of a module tells its other number.
-/
namespace ModuleLinker.Loader

variable {fs : FileSystem} {l l₁ l₂ F M N : Loader} {id i j : ModuleId} {m : Module}
  {p q canonical canonical' : String} {ρ : Equiv.Perm ModuleId}

/-- The second registry is the first one with other numbers for the slots from a mark on: the older
slots are the same in both, and each module from a later slot is in the second registry under its
new number, with the new numbers wherever it refers to a module. -/
structure EqualUpTo (ρ : Equiv.Perm ModuleId) (mark : Nat) (l l' : Loader) : Prop where
  directories : l'.libraryDirectories = l.libraryDirectories
  length_eq : l'.arena.length = l.arena.length
  older : ∀ id, ¬ id.isFrom mark = true → ρ id = id ∧ l'.module? id = l.module? id
  newer : ∀ id, id.isFrom mark = true → l'.module? (ρ id) = (l.module? id).map (Module.rename ρ)
  index : l'.index.Perm (l.index.map fun e => (e.1, ρ e.2))

/-! ## The index under other numbers -/

theorem Indexed.mem_index (h : l.Indexed) {path : ModulePath} :
    (path, id) ∈ l.index ↔ (l.module? id).map Module.path = some path := by
  rw [Option.map_eq_some_iff]
  constructor
  · exact h.live (path, id)
  · rintro ⟨m, hm, rfl⟩
    exact h.entry id m hm

theorem Indexed.index_perm (hN : N.Indexed) (hF : F.Indexed)
    (h : ∀ id, (F.module? (ρ id)).map Module.path = (N.module? id).map Module.path) :
    F.index.Perm (N.index.map fun e => (e.1, ρ e.2)) := by
  have hinjective : Function.Injective fun e : ModulePath × ModuleId => (e.1, ρ e.2) :=
    Function.injective_id.prodMap ρ.injective
  refine (List.perm_ext_iff_of_nodup (hF.nodup.of_map _)
    ((hN.nodup.of_map _).map hinjective)).mpr fun ⟨path, other⟩ => ?_
  obtain ⟨id, rfl⟩ := ρ.surjective other
  rw [hF.mem_index, h, ← hN.mem_index]
  exact (List.mem_map_of_injective hinjective (a := (path, id))).symm

/-! ## Counterparts both ways -/

theorem counterpart_of_module? (hm : N.module? id = some m) :
    N.counterpart F id = (F.index.find? m.path).getD id := by
  simp only [counterpart, hm]

theorem counterpart_of_module?_none (hm : N.module? id = none) : N.counterpart F id = id := by
  simp only [counterpart, hm]

/-- The path of a module leads back to it. -/
theorem Within.counterpart_counterpart (h : N.Within F) (hN : N.Indexed) (hF : F.Indexed)
    (hm : N.module? id = some m) : F.counterpart N (N.counterpart F id) = id := by
  obtain ⟨k, hk, hpath⟩ := hF.find?_eq_some.mp ((h.counterparts hN).find?_path hN hm)
  rw [counterpart_of_module? hk, PathIndex.find?_congr hpath, hN.find?_path hm, Option.getD_some]

section
variable (hl : l.Indexed) (hM : l.LoadsTo fs M) (hF : l.LoadsTo fs F) (hw : M.Within F)
include hl hM hF hw

/-- New modules have different counterparts, and these are new as well. -/
theorem Within.length_le : M.arena.length ≤ F.arena.length := by
  have hρ := hw.counterparts hM.withFiles.indexed
  have hsubset : (newSlots l M).map (M.counterpart F) ⊆ newSlots l F := by
    intro other ho
    obtain ⟨id, hid, rfl⟩ := List.mem_map.mp ho
    obtain ⟨m, hm⟩ := hM.live id hid
    have hnew := isFrom_of_mem_newSlots hid
    obtain ⟨k, hk, -⟩ := hρ.exists_sameNames hl hM.withFiles hF.withFiles hm
    exact (Loading.mem_newSlots_iff hk).mpr (hρ.isFrom hl hM.withFiles hF.withFiles hnew hm)
  have hnodup : ((newSlots l M).map (M.counterpart F)).Nodup := by
    refine List.Nodup.map_on (fun id hid other ho hsame => ?_)
      (List.Nodup.map (fun _ _ => ModuleId.slot.inj) List.nodup_range')
    obtain ⟨m, hm⟩ := hM.live id hid
    obtain ⟨k, hk⟩ := hM.live other ho
    have hback := congrArg (F.counterpart M) hsame
    rwa [hw.counterpart_counterpart hM.withFiles.indexed hF.withFiles.indexed hm,
      hw.counterpart_counterpart hM.withFiles.indexed hF.withFiles.indexed hk] at hback
  have hcount := (List.subperm_of_subset hnodup hsubset).length_le
  have hle := hF.withFiles.length_le
  simp only [newSlots, List.length_map, List.length_range'] at hcount
  omega

/-- Where the second registry has no module, neither has the first: new slots are all in use. -/
theorem Within.module?_none (hnone : F.module? id = none) : M.module? id = none := by
  by_cases hid : id.isFrom l.arena.length = true
  · by_contra hm
    obtain ⟨m, hm⟩ := Option.ne_none_iff_exists'.mp hm
    obtain ⟨n, rfl, hle, hlt⟩ := mem_newSlots.mp ((Loading.mem_newSlots_iff hm).mpr hid)
    have hlt' := Nat.lt_of_lt_of_le hlt (hw.length_le hl hM hF)
    obtain ⟨k, hk⟩ := hF.live _ (mem_newSlots.mpr ⟨n, rfl, hle, hlt'⟩)
    rw [hnone] at hk
    cases hk
  · rw [hM.withFiles.older id hid, ← hF.withFiles.older id hid, hnone]

theorem Within.leftInverse (hw' : F.Within M) :
    Function.LeftInverse (F.counterpart M) (M.counterpart F) := by
  intro id
  cases hm : M.module? id with
  | some m => exact hw.counterpart_counterpart hM.withFiles.indexed hF.withFiles.indexed hm
  | none =>
    rw [counterpart_of_module?_none hm,
      counterpart_of_module?_none (hw'.module?_none hl hF hM hm)]

/-- Registries that loads have made of one and that are inside each other are the same but for
numbers. -/
theorem Within.exists_equalUpTo (hw' : F.Within M) :
    ∃ ρ : Equiv.Perm ModuleId, Matches ρ M F ∧ M.EqualUpTo ρ l.arena.length F := by
  let ρ : Equiv.Perm ModuleId :=
    ⟨M.counterpart F, F.counterpart M, hw.leftInverse hl hM hF hw', hw'.leftInverse hl hF hM hw⟩
  have hρ : Matches ρ M F := hw.counterparts hM.withFiles.indexed
  have hnone : ∀ id, M.module? id = none → ρ id = id ∧ F.module? id = none := fun id hm =>
    ⟨counterpart_of_module?_none hm, hw'.module?_none hl hF hM hm⟩
  have holder : ∀ id, ¬ id.isFrom l.arena.length = true →
      ρ id = id ∧ F.module? id = M.module? id := by
    refine fun id hid => ⟨?_, (hF.withFiles.older id hid).trans (hM.withFiles.older id hid).symm⟩
    cases hm : M.module? id with
    | some m => exact hρ.eq_of_older hl hM.withFiles hF.withFiles hid hm
    | none => exact (hnone id hm).1
  have hnewer : ∀ id, id.isFrom l.arena.length = true →
      F.module? (ρ id) = (M.module? id).map (Module.rename ρ) := by
    intro id hid
    cases hm : M.module? id with
    | some m => exact hρ.module?_rename hl hM hF hid hm
    | none => rw [(hnone id hm).1, (hnone id hm).2, Option.map_none]
  refine ⟨ρ, hρ, ?_, ?_, holder, hnewer, ?_⟩
  · rw [hF.withFiles.directories, hM.withFiles.directories]
  · exact Nat.le_antisymm (hw'.length_le hl hF hM) (hw.length_le hl hM hF)
  · refine hM.withFiles.indexed.index_perm hF.withFiles.indexed fun id => ?_
    by_cases hid : id.isFrom l.arena.length = true
    · rw [hnewer id hid, Option.map_map]
      rfl
    · rw [(holder id hid).1, (holder id hid).2]

end

/-! ## Two loads -/

/-- Two files that are loaded in a registry are loaded one after the other, and bring in nothing
that is not loaded there. -/
theorem exists_loads_within (hl : l.Reachable) (hF : l.LoadsTo fs F)
    (hp : fs.canonicalize p = .ok canonical) (hi : F.index.find? (.file canonical) = some i)
    (hq : fs.canonicalize q = .ok canonical') (hj : F.index.find? (.file canonical') = some j) :
    ∃ i' j' M N, l.load fs p = (.ok i', M) ∧ M.load fs q = (.ok j', N) ∧ N.Within F := by
  have hw : l.Within F := fun path id hfind => ⟨id, hF.withFiles.find?_eq_some path id hfind⟩
  obtain ⟨i', M, hpload, hM⟩ := exists_load_within hl (.refl hl) hF hw hp hi
  obtain ⟨j', N, hqload, hN⟩ := exists_load_within hl (.of_load hl hpload) hF hM hq hj
  exact ⟨i', j', M, N, hpload, hqload, hN⟩

/-- The order of two loads does not matter: if they succeed in one order, they do in the other one,
and the registries that they leave are equal up to the numbers of the modules that they bring in,
those of the files that were asked for included. The older slots are as they were. -/
theorem load_comm (h : l.Reachable) (hp : l.load fs p = (.ok i, l₁))
    (hq : l₁.load fs q = (.ok j, l₂)) :
    ∃ (ρ : Equiv.Perm ModuleId) (k₁ k₂ : Loader), l.load fs q = (.ok (ρ j), k₁) ∧
      k₁.load fs p = (.ok (ρ i), k₂) ∧ l₂.EqualUpTo ρ l.arena.length k₂ ∧
      l.arena <+: l₂.arena ∧ l.arena <+: k₂.arena := by
  have hl₁ := LoadsTo.of_load h hp
  have hl₂ := LoadsTo.of_load hl₁.reachable hq
  have hl := hl₁.trans hl₂
  obtain ⟨canonical, hpplace, hi⟩ := find?_of_load h hp
  obtain ⟨canonical', hqplace, hj⟩ := find?_of_load hl₁.reachable hq
  have hi₂ := hl₂.withFiles.find?_eq_some _ _ hi
  obtain ⟨j', i', k₁, k₂, hqload, hpload, hk⟩ :=
    exists_loads_within h hl hqplace hj hpplace hi₂
  have hk₁ := LoadsTo.of_load h hqload
  have hk₂ := LoadsTo.of_load hk₁.reachable hpload
  have hother := hk₁.trans hk₂
  obtain ⟨_, hqplace', hj₁⟩ := find?_of_load h hqload
  obtain ⟨_, hpplace', hi'⟩ := find?_of_load hk₁.reachable hpload
  obtain rfl := Except.ok.inj (hqplace.symm.trans hqplace')
  obtain rfl := Except.ok.inj (hpplace.symm.trans hpplace')
  have hj' := hk₂.withFiles.find?_eq_some _ _ hj₁
  -- The first order run again, now inside what the second one leaves.
  have hback : l₂.Within k₂ := by
    obtain ⟨_, _, M, N, hp', hq', hN⟩ := exists_loads_within h hother hpplace hi' hqplace hj'
    obtain rfl : l₁ = M := congrArg Prod.snd (hp.symm.trans hp')
    obtain rfl : l₂ = N := congrArg Prod.snd (hq.symm.trans hq')
    exact hN
  obtain ⟨ρ, hρ, hequal⟩ := hback.exists_equalUpTo h.indexed hl hother hk
  obtain rfl : ρ j = j' := Option.some.inj ((hρ _ _ hj).symm.trans hj')
  obtain rfl : ρ i = i' := Option.some.inj ((hρ _ _ hi₂).symm.trans hi')
  exact ⟨ρ, k₁, k₂, hqload, hpload, hequal,
    Arena.prefix_of_module?_eq hl.withFiles.length_le hl.withFiles.older,
    Arena.prefix_of_module?_eq hother.withFiles.length_le hother.withFiles.older⟩

/-- Two files beside a module of the host. They share a dependency, which each maps a structure of,
and one depends on the other: loaded first it brings in all three, loaded second only itself. The
three slots go round. -/
theorem load_comm_of_shared_dependency :
    let base : Descriptor := Descriptor.addStructure {} "Point" [{ type := .fundamental .int }]
    let app : Descriptor := Descriptor.addStructure
      { dependencies := [⟨"base", none⟩], mappings := ⟨[⟨0, "Point"⟩], []⟩ }
      "Line" [{ type := .mapped 0 }, { type := .mapped 0 }]
    let other : Descriptor := Descriptor.addStructure
      { dependencies := [⟨"app", none⟩, ⟨"base", none⟩],
        mappings := ⟨[⟨0, "Line"⟩, ⟨1, "Point"⟩], []⟩ }
      "Area" [{ type := .mapped 0 }, { type := .mapped 1 }]
    let image (d : Descriptor) : Node := .file ((encode .latest .latest d).toOption.getD [])
    let fs : FileSystem :=
      { entries := [(["app"], image app), (["base"], image base), (["other"], image other)] }
    let l := (ofDirectories []).run [.create "/host"]
    let l₁ := (l.load fs "/app").2
    let l₂ := (l₁.load fs "/other").2
    let k₁ := (l.load fs "/other").2
    let k₂ := (k₁.load fs "/app").2
    (l.load fs "/app").1 = .ok (.slot 1) ∧ (l₁.load fs "/other").1 = .ok (.slot 3) ∧
      ∃ ρ : Equiv.Perm ModuleId, (l.load fs "/other").1 = .ok (ρ (.slot 3)) ∧
        (k₁.load fs "/app").1 = .ok (ρ (.slot 1)) ∧
        ρ (.slot 3) = .slot 1 ∧ ρ (.slot 1) = .slot 2 ∧ l₂.EqualUpTo ρ 1 k₂ := by
  intro base app other image fs l l₁ l₂ k₁ k₂
  have happ : (l.load fs "/app").1 = .ok (.slot 1) := by decide +kernel
  have hother : (l₁.load fs "/other").1 = .ok (.slot 3) := by decide +kernel
  have hother₁ : (l.load fs "/other").1 = .ok (.slot 1) := by decide +kernel
  have happ₂ : (k₁.load fs "/app").1 = .ok (.slot 2) := by decide +kernel
  have hlength : l.arena.length = 1 := by decide +kernel
  obtain ⟨ρ, k, k', hq, hp, hequal, -⟩ := load_comm (l := l) ⟨[], [.create "/host"], rfl⟩
    (show l.load fs "/app" = (.ok (.slot 1), l₁) from Prod.ext happ rfl)
    (show l₁.load fs "/other" = (.ok (.slot 3), l₂) from Prod.ext hother rfl)
  obtain rfl : k₁ = k := congrArg Prod.snd hq
  obtain rfl : k₂ = k' := congrArg Prod.snd hp
  rw [hlength] at hequal
  exact ⟨happ, hother, ρ, congrArg Prod.fst hq, congrArg Prod.fst hp,
    Except.ok.inj ((congrArg Prod.fst hq).symm.trans hother₁),
    Except.ok.inj ((congrArg Prod.fst hp).symm.trans happ₂), hequal⟩

end ModuleLinker.Loader
