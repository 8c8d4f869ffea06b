import ModuleLinker.Proofs.Registry.Leading
import ModuleLinker.Proofs.Registry.Unlinked
import Mathlib.Data.List.Induction

/-!
# Mapped fields and function links after rebuilds

Every build resolves all dependencies anew and links all function mappings anew, so function links
lie in the modules that the dependencies are resolved to. Of the fields it links those that the
module got since its last build; the others keep the structures that they were linked to. So the
fields of one mapping agree, and lie where its dependency leads, exactly as long as no build finds
another module than the last one for a dependency that fields of then are mapped through.
-/
namespace ModuleLinker.Ledger

variable {c : Ledger} {fs : FileSystem} {id : ModuleId} {left : Loader} {m k k₀ : Module}

/-- After every module's last successful build, its fields led where their mappings said. -/
def Coherent (c : Ledger) : Prop :=
  ∀ id m, c.lastBuild id = some m → m.CoherentFields c.given id

/-- A build that goes well, and for which a dependency does not mean the module of the last build
any more, though a field of then is mapped through it. -/
def Redirects (fs : FileSystem) (id : ModuleId) (c : Ledger) : Prop :=
  (c.loader.build fs id).1 = .ok () ∧
    ∃ k i s g index x d, c.lastBuild id = some k ∧ i < k.structures.length ∧
      c.given ⟨id, i⟩ = some s ∧ g ∈ s.fields ∧ g.type = .mapped index ∧
      k.mappings.structures[index]? = some x ∧ k.dependencies[x.dependency.toNat]? = some d ∧
      ¬ ∃ path, resolveSpec fs c.loader.libraryDirectories k.path d.spec = .ok path ∧
        c.loader.index.find? path = d.target

/-! ## One operation -/

/-- The last build of a module is there still: its structures and the specs of its dependencies
stand in front. -/
theorem Reachable.exists_of_lastBuild (h : c.Reachable) (hlast : c.lastBuild id = some k₀) :
    ∃ m, c.loader.module? id = some m ∧ k₀.path = m.path ∧ k₀.structures <+: m.structures ∧
      k₀.dependencies.map Dependency.spec <+: m.dependencies.map Dependency.spec := by
  have htables := h.accounts.faithful.tables id
  rw [hlast] at htables
  obtain ⟨kept, hkept, hsame⟩ := exists_of_rel_left htables
  obtain ⟨m, hm, hrestored⟩ := Option.bind_eq_some_iff.mp hkept
  obtain ⟨built, lengths, -, rfl⟩ := Module.restored?_eq_some.mp hrestored
  refine ⟨m, hm, ?_, ?_, ?_⟩
  · exact (congrArg Module.path hsame.eq).symm
  · rw [← congrArg Module.structures hsame.eq]
    exact List.take_prefix ..
  · rw [← hsame.specs]
    exact (List.take_prefix ..).map _

/-- What was given for the structures of a last build stays on record. -/
theorem Reachable.given_apply (h : c.Reachable) (hlast : c.lastBuild id = some k₀) (o : Operation)
    {i : Nat} (hi : i < k₀.structures.length) : (c.apply o).given ⟨id, i⟩ = c.given ⟨id, i⟩ := by
  obtain ⟨m, hm, -, hstructures, -⟩ := h.exists_of_lastBuild hlast
  refine given_apply_of_there (s := k₀.structures[i]) ?_ o
  exact Arena.structure?_eq_some.mpr ⟨m, hm, List.prefix_iff_getElem?.mp hstructures i hi⟩

/-- What a build that goes well makes of its module. -/
theorem Reachable.exists_built (h : c.Reachable) (hbuild : c.loader.build fs id = (.ok (), left))
    (hk : left.module? id = some k) :
    ∃ m n mid b a, c.loader.module? id = some m ∧ m.isHosted = true ∧
      Loader.Completion fs id c.loader (.ok ()) left mid b a ∧ a.module? id = some n ∧
      k.dependencies = n.dependencies ∧ k.mappings = n.mappings ∧ k.structures = n.structures := by
  have hsound := h.accounts.sound
  rcases Loader.build_cases hbuild with ⟨-, ⟨_, he⟩, -⟩ |
    ⟨m, left', hm, hhosted, hcomplete, ⟨⟨_, he⟩, -⟩ | ⟨-, rfl⟩⟩
  · cases he
  · cases he
  · obtain ⟨mid, b, a, hC⟩ := Loader.exists_completion hsound.live hsound.resolved hcomplete
    obtain ⟨n, hn, -⟩ := hC.evolves id m hm
    have hbuilt := hC.module?_built hn
    rw [if_pos List.mem_cons_self, hk, Option.some.injEq] at hbuilt
    refine ⟨m, n, mid, b, a, hm, hhosted, hC, hn, ?_⟩
    cases ho : n.origin <;> simp [hbuilt, Module.markBuilt, ho]

section
variable (h : c.Reachable) (hbuild : c.loader.build fs id = (.ok (), left))
  (hk : left.module? id = some k)
include h hbuild hk

/-- The last build stands in front of the next one. -/
theorem precedes_built (hlast : c.lastBuild id = some k₀) : k₀.Precedes k := by
  obtain ⟨m, k', hm, hk', hprecedes, -⟩ := Loader.anchored_of_build h.accounts.sound hbuild
  obtain rfl : k = k' := Option.some.inj (hk.symm.trans hk')
  have htables := h.accounts.faithful.tables id
  rw [hlast, Loader.restored?_of_module? hm] at htables
  obtain ⟨kept, hkept, hsame⟩ := exists_of_rel_left htables
  exact hsame.precedes.trans (hprecedes kept hkept)

/-- Fields of structures that were added since the last build lead where their mappings say. -/
theorem leads_added {i : Nat} {s t : Structure}
    (hbehind : ∀ k₀, c.lastBuild id = some k₀ → k₀.structures.length ≤ i)
    (hs : c.given ⟨id, i⟩ = some s) (ht : k.structures[i]? = some t) :
    List.Forall₂ k.Leads s.fields t.fields := by
  obtain ⟨m, n, mid, b, a, hm, hhosted, hC, hn, hd, hx, hstructures⟩ := h.exists_built hbuild hk
  obtain ⟨o, ho, hom, -⟩ := hC.extending.kept id m hm
  obtain ⟨n', hn', hon⟩ := hC.settled.evolves id o ho
  obtain rfl : n = n' := Option.some.inj (hn.symm.trans hn')
  rw [hstructures] at ht
  obtain ⟨u, hu, -⟩ := hon.exists_structure_of_later ht
  have hum : m.structures[i]? = some u := by
    rw [← hu, hom]
  have hcut : ∀ kept, m.restored? = some kept → kept.structures.length ≤ i := by
    intro kept hkept
    have htables := h.accounts.faithful.tables id
    rw [Loader.restored?_of_module? hm, hkept] at htables
    obtain ⟨k₀, hlast, hsame⟩ := exists_of_rel_right htables
    rw [hsame.eq]
    exact hbehind k₀ hlast
  obtain ⟨s', hs', hus⟩ := h.unlinked id m hm hhosted i u hum hcut
  obtain rfl : s = s' := Option.some.inj (hs.symm.trans hs')
  have hlinked := hC.leads_linked h.accounts.sound List.mem_cons_self ho hn hu ht
  refine forall₂_comp (Structure.forall₂_fields_of_outline_eq hus) hlinked ?_
  intro g f f' hgf hleads
  have hgiven : n.Leads g f' := fun index hmapped => hleads index (hgf.2.trans hmapped)
  exact hgiven.congr hd hx

/-- Fields that the last build linked lead where their mappings say exactly if the specs that they
are mapped through still mean the modules of then. -/
theorem leads_kept_iff (hlast : c.lastBuild id = some k₀) {s t : Structure}
    (hleads : List.Forall₂ k₀.Leads s.fields t.fields) :
    List.Forall₂ k.Leads s.fields t.fields ↔
      ∀ g ∈ s.fields, ∀ index x d, g.type = .mapped index →
        k₀.mappings.structures[index]? = some x →
          k₀.dependencies[x.dependency.toNat]? = some d →
            ∃ path, resolveSpec fs c.loader.libraryDirectories k₀.path d.spec = .ok path ∧
              c.loader.index.find? path = d.target := by
  obtain ⟨m, n, mid, b, a, hm, -, hC, hn, hd, -⟩ := h.exists_built hbuild hk
  obtain ⟨m', hm', hpath, -, hspecs⟩ := h.exists_of_lastBuild hlast
  obtain rfl : m = m' := Option.some.inj (hm.symm.trans hm')
  have hmappings := (precedes_built h hbuild hk hlast).structureMappings
  have htarget : ∀ (x : Mapping) (d : Dependency),
      k₀.dependencies[x.dependency.toNat]? = some d → (k.targetOf? x = d.target ↔
        ∃ path, resolveSpec fs c.loader.libraryDirectories k₀.path d.spec = .ok path ∧
          c.loader.index.find? path = d.target) := by
    intro x d hdx
    rw [Module.targetOf?, hd]
    exact hC.target_eq_iff hm hn (h.accounts.faithful.anchored id k₀ hlast) hpath hspecs hdx
  constructor
  · intro hall g hg index x d hmapped hindex hdx
    obtain ⟨j, hj, rfl⟩ := List.mem_iff_getElem.mp hg
    have hj' : j < t.fields.length := hall.length_eq ▸ hj
    exact (htarget x d hdx).mp (((hleads.get hj hj').iff_target hmappings).mp (hall.get hj hj')
      index x d hmapped hindex hdx)
  · intro hall
    refine List.forall₂_of_length_eq_of_get hleads.length_eq fun j hj hj' => ?_
    refine ((hleads.get hj hj').iff_target hmappings).mpr fun index x d hmapped hindex hdx => ?_
    exact (htarget x d hdx).mpr (hall _ (List.getElem_mem hj) index x d hmapped hindex hdx)

/-- From a last build that was coherent, a build that goes well makes a coherent one exactly if it
redirects nothing. -/
theorem coherentFields_built_iff
    (hcoherent : ∀ k₀, c.lastBuild id = some k₀ → k₀.CoherentFields c.given id) :
    k.CoherentFields (c.apply (.build fs id)).given id ↔ ¬ c.Redirects fs id := by
  have hgiven : ∀ i (hi : i < k.structures.length),
      (c.apply (.build fs id)).given ⟨id, i⟩ = c.given ⟨id, i⟩ := by
    intro i hi
    obtain ⟨m, n, mid, b, a, hm, -, hC, hn, -, -, hstructures⟩ := h.exists_built hbuild hk
    obtain ⟨n', hn', hmn⟩ := hC.evolves id m hm
    obtain rfl : n = n' := Option.some.inj (hn.symm.trans hn')
    have hi' : i < m.structures.length := by
      rwa [hstructures, hmn.length_structures] at hi
    refine given_apply_of_there (s := m.structures[i]) ?_ _
    exact Arena.structure?_eq_some.mpr ⟨m, hm, List.getElem?_eq_getElem hi'⟩
  constructor
  · rintro hbuilt ⟨-, k₀, i, s, g, index, x, d, hlast, hi, hs, hg, hmapped, hx, hd, hmeans⟩
    have hbefore := (hcoherent k₀ hlast).leads (List.getElem?_eq_getElem hi) hs
    have ht := List.prefix_iff_getElem?.mp (precedes_built h hbuild hk hlast).structures i hi
    have hafter := hbuilt.leads ht ((hgiven i (List.getElem?_eq_some_iff.mp ht).1).trans hs)
    exact hmeans ((leads_kept_iff h hbuild hk hlast hbefore).mp hafter g hg index x d hmapped hx hd)
  · intro hsafe
    have hlive : (c.apply (.build fs id)).loader.module? id = some k := by
      have hleft : (c.apply (.build fs id)).loader = left := congrArg Prod.snd hbuild
      rw [hleft, hk]
    refine Loader.coherentFields_of_leads ((h.apply _).accounts.live id k hlive)
      fun i s t ht hs => ?_
    rw [hgiven i (List.getElem?_eq_some_iff.mp ht).1] at hs
    by_cases hkept : ∃ k₀, c.lastBuild id = some k₀ ∧ i < k₀.structures.length
    · obtain ⟨k₀, hlast, hi⟩ := hkept
      have hsame := List.prefix_iff_getElem?.mp (precedes_built h hbuild hk hlast).structures i hi
      obtain rfl : k₀.structures[i] = t := Option.some.inj (hsame.symm.trans ht)
      have hbefore := (hcoherent k₀ hlast).leads (List.getElem?_eq_getElem hi) hs
      refine (leads_kept_iff h hbuild hk hlast hbefore).mpr fun g hg index x d hmapped hx hd => ?_
      by_contra hmeans
      exact hsafe ⟨congrArg Prod.fst hbuild, k₀, i, s, g, index, x, d, hlast, hi, hs, hg, hmapped,
        hx, hd, hmeans⟩
    · refine leads_added h hbuild hk (fun k₀ hlast => ?_) hs ht
      by_contra hlt
      exact hkept ⟨k₀, hlast, Nat.not_le.mp hlt⟩

end

/-- A build that goes well is on record. -/
theorem lastBuild_built (hbuild : c.loader.build fs id = (.ok (), left)) (other : ModuleId) :
    (c.apply (.build fs id)).lastBuild other =
      if other = id then left.module? id else c.lastBuild other := by
  have hlast : (c.toChronicle.apply (.build fs id)).lastBuild =
      fun other => if other = id then left.module? id else c.lastBuild other := by
    simp only [Chronicle.apply, hbuild]
  exact congrFun hlast other

/-- The record of a module's last build stays unless the module is built or all is forgotten. -/
theorem lastBuild_apply {o : Operation} (hlast : (c.apply o).lastBuild id = some k) :
    c.lastBuild id = some k ∨ ∃ fs left, o = .build fs id ∧
      c.loader.build fs id = (.ok (), left) ∧ left.module? id = some k := by
  cases o with
  | clear => cases hlast
  | build fs root =>
    rcases hbuild : c.loader.build fs root with ⟨_ | _, left⟩
    · have hsame : (c.toChronicle.apply (.build fs root)).lastBuild = c.lastBuild := by
        simp only [Chronicle.apply, hbuild]
      exact .inl (hsame ▸ hlast)
    · rw [lastBuild_built hbuild] at hlast
      split at hlast
      · next hid =>
        subst hid
        exact .inr ⟨fs, left, rfl, hbuild, hlast⟩
      · exact .inl hlast
  | _ => exact .inl hlast

/-- One operation keeps the last builds coherent, unless it is a build that redirects. -/
theorem coherent_apply (h : c.Reachable) (hcoherent : c.Coherent) (o : Operation)
    (hsafe : ∀ fs id, o = .build fs id → ¬ c.Redirects fs id) : (c.apply o).Coherent := by
  intro id k hlast
  rcases lastBuild_apply hlast with hbefore | ⟨fs, left, rfl, hbuild, hk⟩
  · exact (hcoherent id k hbefore).congr fun i hi => h.given_apply hbefore o hi
  · exact (coherentFields_built_iff h hbuild hk (hcoherent id)).mpr (hsafe fs id rfl)

/-! ## Whole runs -/

/-- In a run from an empty registry the function links of every last build lie where the
dependencies are resolved to. The mapped fields do so too, and those of one mapping agree, all the
time just if no build on the way redirects a dependency that fields of the last build are mapped
through. -/
theorem mappings_coherent_iff (directories : List String) (operations : List Operation) :
    (∀ os, os <+: operations → ∀ id m,
      ((ofDirectories directories).run os).lastBuild id = some m → m.CoherentLinks) ∧
    ((∀ os, os <+: operations → ((ofDirectories directories).run os).Coherent) ↔
      ∀ os fs id, os ++ [.build fs id] <+: operations →
        ¬ ((ofDirectories directories).run os).Redirects fs id) := by
  refine ⟨fun os _ id m hlast => ?_, fun hcoherent os fs id hprefix hredirects => ?_,
    fun hsafe os => ?_⟩
  · have hreachable : ((ofDirectories directories).run os).Reachable := ⟨directories, os, rfl⟩
    exact (hreachable.accounts.faithful.anchored id m hlast).coherentLinks
  · have hreachable : ((ofDirectories directories).run os).Reachable := ⟨directories, os, rfl⟩
    have hbefore := hcoherent os ((List.prefix_append ..).trans hprefix)
    have hafter := hcoherent _ hprefix
    rw [run_append, run_cons, run_nil] at hafter
    obtain ⟨left, hbuild⟩ : ∃ left, ((ofDirectories directories).run os).loader.build fs id =
        (.ok (), left) := ⟨_, Prod.ext hredirects.1 rfl⟩
    obtain ⟨-, k, -, hk, -⟩ := Loader.anchored_of_build hreachable.accounts.sound hbuild
    have hlast := (lastBuild_built hbuild id).trans (if_pos rfl)
    exact (coherentFields_built_iff hreachable hbuild hk (hbefore id)).mp
      (hafter id k (hlast.trans hk)) hredirects
  · induction os using List.reverseRecOn with
    | nil => exact fun _ id m hlast => by cases hlast
    | append_singleton os o ih =>
      intro hprefix
      rw [run_append, run_cons, run_nil]
      refine coherent_apply ⟨directories, os, rfl⟩ (ih ((List.prefix_append ..).trans hprefix)) o
        fun fs id ho => ?_
      exact hsafe os fs id (ho ▸ hprefix)

/-- A file that comes to stand before the dependency of the last build: of two fields that were given
as the same mapping, the one of the last build keeps the structure of then, and the one that was
added since gets that of the file. -/
theorem mapped_fields_disagree :
    let file := (encode .latest .latest ((({} : Descriptor).addStructure "N"
      [{ type := .fundamental .long }]).addStructure "P"
        [{ type := .fundamental .int }])).toOption.getD []
    let fs : FileSystem :=
      { entries := [(["lib"], .directory), (["lib", "base"], .file file)] }
    ¬ ((ofDirectories []).run
      [.create "/base", .addStructure (.slot 0) "P" [{ type := .fundamental .int }],
        .build fs (.slot 0), .create "/app", .addDependency (.slot 1) "/base",
        .addStructureMapping (.slot 1) 0 "P", .addStructure (.slot 1) "Q" [{ type := .mapped 0 }],
        .build fs (.slot 1), .addLibraryDirectory fs "/lib",
        .addStructure (.slot 1) "R" [{ type := .mapped 0 }], .build fs (.slot 1)]).Coherent := by
  intro file fs hcoherent
  let q : Structure :=
    { name := "Q", owner := .slot 1, index := 0, fields := [{ type := .mapped 0 }] }
  let r : Structure :=
    { name := "R", owner := .slot 1, index := 1, fields := [{ type := .mapped 0 }] }
  let layout : LayoutState := .done ⟨16, 4, 4⟩
  let built : Module :=
    { id := .slot 1, path := .virtual "/app", origin := .host true (some ⟨1, 1, 0, 2, 0⟩),
      dependencies := [⟨"/base", some (.slot 2)⟩], mappings := { structures := [⟨0, "P"⟩] },
      structures := [{ q with fields := [{ type := .struct ⟨.slot 0, 0⟩ }], layout },
        { r with fields := [{ type := .struct ⟨.slot 2, 1⟩ }], layout }] }
  obtain ⟨y, hy⟩ := hcoherent (.slot 1) built (by decide +kernel) 0
  obtain ⟨s, hs, hfirst⟩ := hy 0 _ rfl
  obtain ⟨t, ht, hsecond⟩ := hy 1 _ rfl
  obtain rfl : s = q := Option.some.inj (hs.symm.trans (by decide +kernel))
  obtain rfl : t = r := Option.some.inj (ht.symm.trans (by decide +kernel))
  have hkept := ((List.forall₂_cons.mp hfirst).1 rfl).1
  have hadded := ((List.forall₂_cons.mp hsecond).1 rfl).1
  cases hkept.trans hadded.symm

end ModuleLinker.Ledger
