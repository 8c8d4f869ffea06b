import ModuleLinker.Proofs.Layout.Closed
import ModuleLinker.Proofs.Success
import ModuleLinker.Proofs.Registry.Evolution
import ModuleLinker.Registry.Link

/-!
# What linking does

A linked module has in the place of every mapped type the structure that its mapping leads to, and
one function link for every function mapping. What a mapping leads to is read off the resolved
dependencies, and in the module there off its identity and the names in its tables. Linking
changes none of these, so a mapping leads to the same place before and after modules are linked.
-/
namespace ModuleLinker

namespace Module

variable {a b : Arena} {m k : Module}

/-- The module that the dependency of a mapping was resolved to, with its identity. -/
def MapsInto (a : Arena) (m : Module) (x : Mapping) (target : ModuleId) (t : Module) : Prop :=
  ∃ d, m.dependencies[x.dependency.toNat]? = some d ∧ d.target = some target ∧
    a.module? target = some t

theorem mappedModule_eq_ok {x : Mapping} {t : Module} {spec : String} :
    m.mappedModule a x = .ok (t, spec) ↔
      ∃ d target, m.dependencies[x.dependency.toNat]? = some d ∧ d.target = some target ∧
        a.module? target = some t ∧ d.spec = spec := by
  simp only [mappedModule]
  cases hd : m.dependencies[x.dependency.toNat]? with
  | none => simp
  | some d =>
    cases ht : d.target with
    | none => simp [ht]
    | some target => cases hm : a.module? target <;> simp [ht, hm]

theorem mappedStructure_eq_ok {index : Nat} {id : StructureId} :
    m.mappedStructure a index = .ok id ↔
      ∃ x target t s, m.mappings.structures[index]? = some x ∧ m.MapsInto a x target t ∧
        t.structureNamed? x.name = some s ∧ id = ⟨t.id, s.index⟩ := by
  simp only [mappedStructure]
  cases hx : m.mappings.structures[index]? with
  | none => simp
  | some x =>
    simp only [except_bind_eq_ok, Prod.exists, mappedModule_eq_ok, MapsInto, Option.some.injEq]
    constructor
    · rintro ⟨t, spec, ⟨d, target, hd, htarget, ht, rfl⟩, h⟩
      cases hs : t.structureNamed? x.name with
      | none => simp [hs] at h
      | some s =>
        simp only [hs, Except.ok.injEq] at h
        exact ⟨x, target, t, s, rfl, ⟨d, hd, htarget, ht⟩, hs, h.symm⟩
    · rintro ⟨_, target, t, s, rfl, ⟨d, hd, htarget, ht⟩, hs, rfl⟩
      exact ⟨t, d.spec, ⟨d, target, hd, htarget, ht, rfl⟩, by simp [hs]⟩

theorem mappedFunction_eq_ok {x : Mapping} {id : FunctionId} :
    m.mappedFunction a x = .ok id ↔
      ∃ target t f, m.MapsInto a x target t ∧ t.functionNamed? x.name = some f ∧
        id = ⟨t.id, f.index⟩ := by
  simp only [mappedFunction, except_bind_eq_ok, Prod.exists, mappedModule_eq_ok, MapsInto]
  constructor
  · rintro ⟨t, spec, ⟨d, target, hd, htarget, ht, rfl⟩, h⟩
    cases hf : t.functionNamed? x.name with
    | none => simp [hf] at h
    | some f =>
      simp only [hf, Except.ok.injEq] at h
      exact ⟨target, t, f, ⟨d, hd, htarget, ht⟩, hf, h.symm⟩
  · rintro ⟨target, t, f, ⟨d, hd, htarget, ht⟩, hf, rfl⟩
    exact ⟨t, d.spec, ⟨d, target, hd, htarget, ht, rfl⟩, by simp [hf]⟩

/-! ## Mappings lead to the same place later on -/

theorem MapsInto.evolves (h : a.Evolves b) (hk : k.dependencies = m.dependencies) {x : Mapping}
    {target : ModuleId} {t : Module} (ht : m.MapsInto a x target t) :
    ∃ u, k.MapsInto b x target u ∧ t.Evolves u := by
  obtain ⟨d, hd, htarget, ht⟩ := ht
  obtain ⟨u, hu, htu⟩ := h target t ht
  exact ⟨u, ⟨d, by rw [hk, hd], htarget, hu⟩, htu⟩

theorem Evolves.structureNamed? {t u : Module} (h : t.Evolves u) {name : String} {s : Structure}
    (hs : t.structureNamed? name = some s) :
    ∃ v, u.structureNamed? name = some v ∧ s.Evolves v := by
  simp only [Module.structureNamed?, List.find?_eq_some_iff_getElem] at hs ⊢
  obtain ⟨hname, i, hi, rfl, hbefore⟩ := hs
  have hi' : i < u.structures.length := h.length_structures ▸ hi
  have hnames : ∀ j (hj : j < t.structures.length) (hj' : j < u.structures.length),
      u.structures[j].name = t.structures[j].name := fun j hj hj' => (h.structures.get hj hj').name
  refine ⟨u.structures[i], ⟨?_, i, hi', rfl, ?_⟩, h.structures.get hi hi'⟩
  · rwa [hnames i hi hi']
  · intro j hj
    rw [hnames j (hj.trans hi) (hj.trans hi')]
    exact hbefore j hj

theorem Evolves.functionNamed? {t u : Module} (h : t.Evolves u) (name : String) :
    u.functionNamed? name = t.functionNamed? name := by
  simp [Module.functionNamed?, h.functions]

theorem mappedStructure_evolves (h : a.Evolves b) (hd : k.dependencies = m.dependencies)
    (hx : k.mappings = m.mappings) {index : Nat} {id : StructureId}
    (hid : m.mappedStructure a index = .ok id) : k.mappedStructure b index = .ok id := by
  obtain ⟨x, target, t, s, hindex, ht, hs, rfl⟩ := mappedStructure_eq_ok.mp hid
  obtain ⟨u, hu, htu⟩ := ht.evolves h hd
  obtain ⟨v, hv, hsv⟩ := htu.structureNamed? hs
  exact mappedStructure_eq_ok.mpr
    ⟨x, target, u, v, by rw [hx, hindex], hu, hv, by rw [htu.id, hsv.index]⟩

theorem mappedFunction_evolves (h : a.Evolves b) (hd : k.dependencies = m.dependencies)
    {x : Mapping} {id : FunctionId} (hid : m.mappedFunction a x = .ok id) :
    k.mappedFunction b x = .ok id := by
  obtain ⟨target, t, f, ht, hf, rfl⟩ := mappedFunction_eq_ok.mp hid
  obtain ⟨u, hu, htu⟩ := ht.evolves h hd
  exact mappedFunction_eq_ok.mpr
    ⟨target, u, f, hu, by rw [htu.functionNamed?, hf], by rw [htu.id]⟩

/-! ## Linked modules -/

theorem linkedField_eq_ok {f g : Field} :
    m.linkedField a f = .ok g ↔
      f.type.isResolved = true ∧ g = f ∨
        ∃ index id, f.type = .mapped index ∧ m.mappedStructure a index = .ok id ∧
          g = { f with type := .struct id } := by
  simp only [linkedField]
  cases ht : f.type with
  | fundamental t => simp [FieldType.isResolved, eq_comm]
  | struct id => simp [FieldType.isResolved, eq_comm]
  | mapped index =>
    simp only [except_bind_eq_ok, except_pure_eq_ok, FieldType.isResolved, Bool.false_eq_true,
      false_and, false_or, FieldType.mapped.injEq]
    constructor
    · rintro ⟨id, hid, rfl⟩
      exact ⟨index, id, rfl, hid, rfl⟩
    · rintro ⟨_, id, rfl, hid, rfl⟩
      exact ⟨id, hid, rfl⟩

theorem linkedStructure_eq_ok {s t : Structure} :
    m.linkedStructure a s = .ok t ↔
      t = { s with fields := t.fields } ∧
        List.Forall₂ (fun f g => m.linkedField a f = .ok g) s.fields t.fields := by
  simp only [linkedStructure, except_bind_eq_ok, mapM_eq_ok_iff, except_pure_eq_ok]
  constructor
  · rintro ⟨fields, hfields, rfl⟩
    exact ⟨rfl, hfields⟩
  · rintro ⟨ht, hfields⟩
    exact ⟨t.fields, hfields, ht.symm⟩

/-- The linked module has the structures and the function links that its mappings lead to. -/
theorem linked_eq_ok :
    m.linked a = .ok k ↔
      k = { m with structures := k.structures, functionLinks := k.functionLinks } ∧
        List.Forall₂ (fun s t => m.linkedStructure a s = .ok t) m.structures k.structures ∧
        List.Forall₂ (fun x f => m.mappedFunction a x = .ok f) m.mappings.functions
          k.functionLinks := by
  simp only [linked, except_bind_eq_ok, mapM_eq_ok_iff, except_pure_eq_ok]
  constructor
  · rintro ⟨structures, hstructures, links, hlinks, rfl⟩
    exact ⟨rfl, hstructures, hlinks⟩
  · rintro ⟨hk, hstructures, hlinks⟩
    exact ⟨k.structures, hstructures, k.functionLinks, hlinks, hk.symm⟩

/-- A structure without mapped types is linked as it is. -/
theorem linkedStructure_of_resolved {s : Structure}
    (h : ∀ f ∈ s.fields, f.type.isResolved = true) : m.linkedStructure a s = .ok s :=
  linkedStructure_eq_ok.mpr
    ⟨rfl, List.forall₂_same.mpr fun f hf => linkedField_eq_ok.mpr (.inl ⟨h f hf, rfl⟩)⟩

theorem field_evolves_of_linkedField {f g : Field} (h : m.linkedField a f = .ok g) :
    f.Evolves g := by
  rcases linkedField_eq_ok.mp h with ⟨-, rfl⟩ | ⟨index, id, hf, -, rfl⟩
  · rfl
  · exact ⟨rfl, .inr ⟨index, id, hf, rfl⟩⟩

theorem structure_evolves_of_linkedStructure {s t : Structure}
    (h : m.linkedStructure a s = .ok t)
    (hdone : s.layout.isDone = true → ∀ f ∈ s.fields, f.type.isResolved = true) :
    s.Evolves t := by
  obtain ⟨ht, hfields⟩ := linkedStructure_eq_ok.mp h
  refine ⟨by rw [ht], by rw [ht], by rw [ht], ?_, ?_⟩
  · exact hfields.imp fun _ _ => field_evolves_of_linkedField
  · intro hlaid
    rw [linkedStructure_of_resolved (hdone hlaid)] at h
    exact (Except.ok.inj h).symm

theorem evolves_of_linked (h : m.linked a = .ok k)
    (hdone : ∀ s ∈ m.structures, s.layout.isDone = true →
      ∀ f ∈ s.fields, f.type.isResolved = true) : m.Evolves k := by
  obtain ⟨hk, hstructures, -⟩ := linked_eq_ok.mp h
  refine ⟨by rw [hk], by rw [hk], by rw [hk], by rw [hk], by rw [hk], ?_, by rw [hk]⟩
  refine List.forall₂_of_length_eq_of_get hstructures.length_eq ?_
  intro i hi hi'
  exact structure_evolves_of_linkedStructure (hstructures.get hi hi')
    (hdone _ (List.get_mem _ _))

/-- The structures of the second module are those of the first with every mapped type replaced by
the structure that its mapping leads to, and its function links are what its function mappings
lead to. -/
structure LinkedFrom (a : Arena) (m k : Module) : Prop where
  fields : List.Forall₂ (fun s t => List.Forall₂ (fun f g =>
      f.type.isResolved = true ∧ g.type = f.type ∨
        ∃ index id, f.type = .mapped index ∧ k.mappedStructure a index = .ok id ∧
          g.type = .struct id) s.fields t.fields) m.structures k.structures
  functionLinks : List.Forall₂ (fun x f => k.mappedFunction a x = .ok f) k.mappings.functions
    k.functionLinks

theorem linkedFrom_of_linked (hab : a.Evolves b) (h : m.linked a = .ok k) :
    m.LinkedFrom b k := by
  obtain ⟨hk, hstructures, hlinks⟩ := linked_eq_ok.mp h
  have hdependencies : k.dependencies = m.dependencies := by rw [hk]
  have hmappings : k.mappings = m.mappings := by rw [hk]
  constructor
  · refine hstructures.imp fun s t hst => ?_
    refine (linkedStructure_eq_ok.mp hst).2.imp fun f g hfg => ?_
    rcases linkedField_eq_ok.mp hfg with ⟨hresolved, rfl⟩ | ⟨index, id, hf, hid, rfl⟩
    · exact .inl ⟨hresolved, rfl⟩
    · exact .inr ⟨index, id, hf, mappedStructure_evolves hab hdependencies hmappings hid, rfl⟩
  · rw [hmappings]
    exact hlinks.imp fun x f => mappedFunction_evolves hab hdependencies

/-- A linked module stays linked when it evolves without being resolved again. -/
theorem LinkedFrom.evolves {n : Module} (h : m.LinkedFrom a k) (hab : a.Evolves b)
    (hkn : k.Evolves n) (hd : n.dependencies = k.dependencies)
    (hlinks : List.Forall₂ (fun x f => n.mappedFunction b x = .ok f) n.mappings.functions
      n.functionLinks) : m.LinkedFrom b n := by
  refine ⟨forall₂_comp h.fields hkn.structures fun s t u hst htu => ?_, hlinks⟩
  refine forall₂_comp hst htu.fields fun f g e hfg hge => ?_
  rcases hfg with ⟨hresolved, htype⟩ | ⟨index, id, hf, hid, hg⟩
  · refine .inl ⟨hresolved, ?_⟩
    rcases hge.2 with hsame | ⟨index, id, hmapped, -⟩
    · exact hsame.trans htype
    · rw [← htype, hmapped] at hresolved
      cases hresolved
  · refine .inr ⟨index, id, hf, mappedStructure_evolves hab hd hkn.mappings hid, ?_⟩
    rcases hge.2 with hsame | ⟨index', id', hmapped, -⟩
    · exact hsame.trans hg
    · rw [hg] at hmapped
      cases hmapped

end Module

/-! ## Linking modules of an arena -/

namespace Arena

variable {a b c : Arena}

/-- No structure with a layout has a mapped type. -/
def Resolved (a : Arena) : Prop :=
  ∀ id s, a.structure? id = some s → s.layout.isDone = true →
    ∀ f ∈ s.fields, f.type.isResolved = true

/-- What linking does to an arena as a whole: modules evolve, but what was resolved and what was
laid out stays. -/
structure Links (a b : Arena) : Prop where
  length_eq : b.length = a.length
  evolves : a.Evolves b
  module?_none : ∀ id, a.module? id = none → b.module? id = none
  dependencies : ∀ id m k, a.module? id = some m → b.module? id = some k →
    k.dependencies = m.dependencies
  sameDone : SameDone a b

theorem Resolved.of_sameDone (h : a.Resolved) (hab : SameDone a b) : b.Resolved :=
  fun id s hs hdone => h id s ((hab id s hdone).mpr hs) hdone

namespace Links

@[refl] theorem refl (a : Arena) : a.Links a where
  length_eq := rfl
  evolves := .refl a
  module?_none := fun _ h => h
  dependencies := fun _ _ _ hm hk => by rw [Option.some.inj (hm.symm.trans hk)]
  sameDone := fun _ _ _ => .rfl

theorem trans (h : a.Links b) (k : b.Links c) : a.Links c where
  length_eq := k.length_eq.trans h.length_eq
  evolves := h.evolves.trans k.evolves
  module?_none := fun id hid => k.module?_none id (h.module?_none id hid)
  dependencies := by
    intro id m o hm ho
    obtain ⟨n, hn, -⟩ := h.evolves id m hm
    exact (k.dependencies id n o hn ho).trans (h.dependencies id m n hm hn)
  sameDone := h.sameDone.trans k.sameDone

end Links

theorem link_eq_ok {id : ModuleId} :
    a.link id = .ok b ↔ ∃ m k, a.module? id = some m ∧ m.linked a = .ok k ∧
      b = a.update id fun _ => k := by
  simp only [link]
  cases hm : a.module? id with
  | none => simp
  | some m =>
    simp only [except_bind_eq_ok, except_pure_eq_ok, Option.some.injEq]
    constructor
    · rintro ⟨k, hk, rfl⟩
      exact ⟨m, k, rfl, hk, rfl⟩
    · rintro ⟨_, k, rfl, hk, rfl⟩
      exact ⟨k, hk, rfl⟩

/-- Linking one module. -/
theorem links_of_link (hres : a.Resolved) {id : ModuleId} (h : a.link id = .ok b) : a.Links b := by
  obtain ⟨m, k, hm, hk, rfl⟩ := link_eq_ok.mp h
  have hevolves : m.Evolves k := by
    refine Module.evolves_of_linked hk fun s hs hdone => ?_
    obtain ⟨i, hi⟩ := List.mem_iff_getElem?.mp hs
    exact hres ⟨id, i⟩ s (structure?_eq_some.mpr ⟨m, hm, hi⟩) hdone
  obtain ⟨hfields, hstructures, -⟩ := Module.linked_eq_ok.mp hk
  refine ⟨length_update .., Evolves.update hm hevolves rfl, ?_, ?_, ?_⟩
  · intro other hother
    rw [module?_update]
    split
    · next ho => rw [← ho, hother]; rfl
    · exact hother
  · intro other n o hn ho
    rw [module?_update] at ho
    split at ho
    · next hid =>
      rw [hm] at ho
      obtain rfl : k = o := Option.some.inj ho
      obtain rfl : m = n := Option.some.inj (hm.symm.trans (hid ▸ hn))
      rw [hfields]
    · rw [Option.some.inj (hn.symm.trans ho)]
  · intro x s hdone
    by_cases hx : x.owner = id
    · subst hx
      have hlater : (a.update x.owner fun _ => k).module? x.owner = some k := by
        rw [module?_update, if_pos rfl, hm]; rfl
      rw [structure?_of_module? hm, structure?_of_module? hlater]
      constructor
      · intro hs
        obtain ⟨t, ht, hst⟩ := hevolves.exists_structure hs
        rwa [hst.done hdone] at ht
      · intro hs
        obtain ⟨t, ht, hts⟩ := hevolves.exists_structure_of_later hs
        obtain ⟨hi, rfl⟩ := List.getElem?_eq_some_iff.mp hs
        obtain ⟨hi', rfl⟩ := List.getElem?_eq_some_iff.mp ht
        have hlayout : k.structures[x.index].layout = m.structures[x.index].layout := by
          have hlinked : m.linkedStructure a m.structures[x.index] = .ok k.structures[x.index] :=
            hstructures.get hi' hi
          rw [(Module.linkedStructure_eq_ok.mp hlinked).1]
        rw [hts.done (hlayout ▸ hdone)]
        exact ht
    · have hsame : (a.update id fun _ => k).module? x.owner = a.module? x.owner := by
        rw [module?_update, if_neg hx]
      rw [structure?_congr hsame]

theorem module?_of_link {id other : ModuleId} (h : a.link id = .ok b) (ho : other ≠ id) :
    b.module? other = a.module? other := by
  obtain ⟨m, k, -, -, rfl⟩ := link_eq_ok.mp h
  rw [module?_update, if_neg ho]

/-- Linking modules in order changes those only, and a success links every one of them. -/
theorem linkAll_spec (hres : a.Resolved) {ids : List ModuleId} {r : Except LoadError Unit}
    (h : a.linkAll ids = (r, b)) :
    a.Links b ∧ (∀ id, id ∉ ids → b.module? id = a.module? id) ∧
      (r = .ok () → ∀ id ∈ ids, ∀ m k, a.module? id = some m → b.module? id = some k →
        m.LinkedFrom b k) := by
  induction ids generalizing a with
  | nil =>
    cases h
    exact ⟨.refl _, fun _ _ => rfl, fun _ _ hid => nomatch hid⟩
  | cons id ids ih =>
    simp only [linkAll] at h
    split at h
    · cases h
      exact ⟨.refl _, fun _ _ => rfl, fun hr => nomatch hr⟩
    · next c hc =>
      have hfirst := links_of_link hres hc
      obtain ⟨hrest, hframe, hlinked⟩ := ih (hres.of_sameDone hfirst.sameDone) h
      refine ⟨hfirst.trans hrest, ?_, ?_⟩
      · intro other ho
        rw [List.mem_cons, not_or] at ho
        rw [hframe other ho.2, module?_of_link hc ho.1]
      · intro hr other ho m k hm hk
        by_cases hid : other = id
        · subst hid
          obtain ⟨m', n, hm', hn, hcn⟩ := link_eq_ok.mp hc
          obtain rfl : m' = m := Option.some.inj (hm'.symm.trans hm)
          have hn' : c.module? other = some n := by
            rw [hcn, module?_update, if_pos rfl, hm]; rfl
          obtain ⟨k', hk', hnk⟩ := hrest.evolves other n hn'
          obtain rfl : k' = k := Option.some.inj (hk'.symm.trans hk)
          have hd := hrest.dependencies other n k' hn' hk
          by_cases hmem : other ∈ ids
          · exact (Module.linkedFrom_of_linked hfirst.evolves hn).evolves hrest.evolves hnk hd
              (hlinked hr other hmem n k' hn' hk).functionLinks
          · rw [hframe other hmem, hn'] at hk
            obtain rfl : n = k' := Option.some.inj hk
            exact Module.linkedFrom_of_linked (hfirst.evolves.trans hrest.evolves) hn
        · have hmem : other ∈ ids := (List.mem_cons.mp ho).resolve_left hid
          exact hlinked hr other hmem m k (by rw [module?_of_link hc hid, hm]) hk

end Arena
end ModuleLinker
