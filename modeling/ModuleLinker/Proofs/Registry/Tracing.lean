import ModuleLinker.Proofs.Registry.Anchored

/-!
# What has become of given structures

A structure is given to the registry by the image of its module or by the host. Its fields keep the
counts and the types that they were given, until the module is linked: then a structure takes the
place of a mapped type. It has the mapped name, and it is in a part of its module that stays.
-/
namespace ModuleLinker

/-- What a field that was given has become: its type is the one that was given, or in the place of
a mapped type a structure that `holds` under the name of the mapping. -/
def Field.Traced (holds : StructureId → String → Prop) (mappings : List Mapping) (g f : Field) :
    Prop :=
  f.count = g.count ∧ (f.type = g.type ∨ ∃ index x y, g.type = .mapped index ∧
    mappings[index]? = some x ∧ f.type = .struct y ∧ holds y x.name)

/-- What a structure that was given has become. -/
structure Structure.Traced (holds : StructureId → String → Prop) (mappings : List Mapping)
    (s t : Structure) : Prop where
  name : t.name = s.name
  fields : List.Forall₂ (Field.Traced holds mappings) s.fields t.fields

/-- Every structure of a module was given, and what it has become can be told. -/
def Module.Traced (holds : StructureId → String → Prop) (given : StructureId → Option Structure)
    (id : ModuleId) (m : Module) : Prop :=
  ∀ (i : Nat) (t : Structure), m.structures[i]? = some t →
    ∃ s, given ⟨id, i⟩ = some s ∧ s.Traced holds m.mappings.structures t

section
variable {holds holds' : StructureId → String → Prop} {mappings mappings' : List Mapping}

namespace Field.Traced

@[refl] theorem refl (f : Field) : f.Traced holds mappings f := ⟨rfl, .inl rfl⟩

theorem trans {f g h : Field} (hfg : f.Traced holds mappings g) (hgh : g.Traced holds mappings h) :
    f.Traced holds mappings h := by
  refine ⟨hgh.1.trans hfg.1, ?_⟩
  rcases hgh.2 with hsame | ⟨index, x, y, hg, hx, hy, hholds⟩
  · rw [hsame]
    exact hfg.2
  · rcases hfg.2 with hgiven | ⟨-, -, y', -, -, hstruct, -⟩
    · exact .inr ⟨index, x, y, hgiven ▸ hg, hx, hy, hholds⟩
    · rw [hstruct] at hg
      cases hg

theorem mono {f g : Field} (h : f.Traced holds mappings g)
    (hholds : ∀ y name, holds y name → holds' y name) (hmappings : mappings <+: mappings') :
    f.Traced holds' mappings' g := by
  refine ⟨h.1, h.2.imp_right ?_⟩
  rintro ⟨index, x, y, hf, hx, hy, hname⟩
  obtain ⟨added, rfl⟩ := hmappings
  refine ⟨index, x, y, hf, ?_, hy, hholds y x.name hname⟩
  rw [List.getElem?_append_left (List.getElem?_eq_some_iff.mp hx).1, hx]

end Field.Traced

namespace Structure.Traced

variable {s t u : Structure}

@[refl] theorem refl (s : Structure) : s.Traced holds mappings s :=
  ⟨rfl, List.forall₂_same.mpr fun f _ => .refl f⟩

theorem trans (h : s.Traced holds mappings t) (h' : t.Traced holds mappings u) :
    s.Traced holds mappings u where
  name := h'.name.trans h.name
  fields := forall₂_comp h.fields h'.fields fun _ _ _ => Field.Traced.trans

theorem mono (h : s.Traced holds mappings t) (hholds : ∀ y name, holds y name → holds' y name)
    (hmappings : mappings <+: mappings') : s.Traced holds' mappings' t :=
  ⟨h.name, h.fields.imp fun _ _ hf => hf.mono hholds hmappings⟩

/-- Layout changes nothing that is traced. -/
theorem of_outline (h : t.outline = s.outline) : s.Traced holds mappings t := by
  obtain ⟨ht, -⟩ := Structure.eq_of_outline_eq h
  refine ⟨by rw [ht], ?_⟩
  exact (Structure.forall₂_fields_of_outline_eq h).imp fun _ _ hfg => ⟨hfg.1, .inl hfg.2⟩

end Structure.Traced

namespace Module.Traced

variable {given given' : StructureId → Option Structure} {id : ModuleId} {m k : Module}

/-- A module whose structures are traced back to those of another one. -/
theorem trans (h : m.Traced holds given id)
    (hmappings : m.mappings.structures <+: k.mappings.structures)
    (hstructures : ∀ (i : Nat) (u : Structure), k.structures[i]? = some u →
      ∃ t, m.structures[i]? = some t ∧ t.Traced holds k.mappings.structures u) :
    k.Traced holds given id := by
  intro i u hu
  obtain ⟨t, ht, htu⟩ := hstructures i u hu
  obtain ⟨s, hs, hst⟩ := h i t ht
  exact ⟨s, hs, (hst.mono (fun _ _ hname => hname) hmappings).trans htu⟩

/-- A module with the same structures and mappings. -/
theorem congr (h : m.Traced holds given id) (hstructures : k.structures = m.structures)
    (hmappings : k.mappings = m.mappings) : k.Traced holds given id := by
  intro i t ht
  rw [hstructures] at ht
  rw [hmappings]
  exact h i t ht

theorem mono (h : m.Traced holds given id) (hholds : ∀ y name, holds y name → holds' y name)
    (hgiven : ∀ i < m.structures.length, given' ⟨id, i⟩ = given ⟨id, i⟩) :
    m.Traced holds' given' id := by
  intro i t ht
  obtain ⟨s, hs, hst⟩ := h i t ht
  exact ⟨s, (hgiven i (List.getElem?_eq_some_iff.mp ht).1).trans hs,
    hst.mono hholds List.prefix_rfl⟩

/-- A module that was just given. -/
theorem of_given (h : ∀ i < m.structures.length, given ⟨id, i⟩ = m.structures[i]?) :
    m.Traced holds given id :=
  fun i t ht => ⟨t, (h i (List.getElem?_eq_some_iff.mp ht).1).trans ht, .refl t⟩

end Module.Traced
end

namespace Loader

variable {fs : FileSystem} {root id : ModuleId} {l l' left mid : Loader} {b c : Arena}
  {m n k : Module} {given : StructureId → Option Structure}

/-- A name means a structure in the part of its module that stays. -/
def Holds (l : Loader) (y : StructureId) (name : String) : Prop :=
  ∃ k s, l.kept? y.owner = some k ∧ k.structureNamed? name = some s ∧ s.index = y.index

theorem Holds.retains {y : StructureId} {name : String} (h : l.Holds y name)
    (hr : l.Retains l') : l'.Holds y name := by
  obtain ⟨k, s, hk, hs, hindex⟩ := h
  obtain ⟨k', hk', hprecedes⟩ := hr _ k hk
  exact ⟨k', s, hk', hprecedes.structureNamed? hs, hindex⟩

/-! ## After a call that succeeds -/

namespace Completion

variable (h : Completion fs root l (.ok ()) left mid b c)
include h

/-- What a mapping of a linked module leads to holds under the mapped name. -/
theorem holds_of_mapped (hleft : left.Sound) (hid : id ∈ root :: newSlots l mid)
    (hn : c.module? id = some n) {index : Nat} {y : StructureId}
    (hy : n.mappedStructure c index = .ok y) :
    ∃ x, n.mappings.structures[index]? = some x ∧ left.Holds y x.name := by
  obtain ⟨x, target, t, s, hx, ⟨d, hd, htarget, ht⟩, hs, rfl⟩ := Module.mappedStructure_eq_ok.mp hy
  obtain ⟨m, hm, -⟩ := h.settled.exists_earlier hn
  have hmet : mid.AllMet fs root id := by
    rcases h.linked with ⟨-, _, he⟩ | ⟨hmet, -⟩
    · cases he
    · exact hmet id hid
  rw [h.settled.dependencies hm hn] at hd
  obtain ⟨target', htarget', hmeans⟩ := hmet.exists_means hm (List.mem_of_getElem? hd)
  obtain rfl : target = target' := Option.some.inj (htarget.symm.trans htarget')
  obtain ⟨t', kept, ht', hkept, hstructures, -⟩ := h.kept?_of_means hleft.finished hmeans
  obtain rfl : t = t' := Option.some.inj (ht.symm.trans ht')
  have hnumbered : t.id = target := by
    have hlast := (hleft.numbered target _ (h.module?_built ht)).id_eq
    split at hlast
    · rwa [Module.markBuilt_id] at hlast
    · exact hlast
  refine ⟨x, hx, kept, s, by rw [hnumbered]; exact hkept, ?_, rfl⟩
  rw [Module.structureNamed?, hstructures]
  exact hs

/-- The structures of a linked module are traced back to what they were before. -/
theorem traced_linked (hleft : left.Sound) (hid : id ∈ root :: newSlots l mid)
    (hm : mid.module? id = some m) (hn : c.module? id = some n) {i : Nat} {u : Structure}
    (hu : n.structures[i]? = some u) :
    ∃ t, m.structures[i]? = some t ∧ t.Traced left.Holds n.mappings.structures u := by
  obtain ⟨n', hn', hmn⟩ := h.settled.evolves id m hm
  obtain rfl : n = n' := Option.some.inj (hn.symm.trans hn')
  obtain ⟨t, ht, htu⟩ := hmn.exists_structure_of_later hu
  have hlinked : m.LinkedFrom c n := by
    rcases h.linked with ⟨-, _, he⟩ | ⟨-, hlinked⟩
    · cases he
    · obtain ⟨q, hq, -⟩ := h.settled.links.evolves id m hm
      exact h.settled.linkedFrom hq hn (hlinked id hid m q hm hq)
  obtain ⟨hi, rfl⟩ := List.getElem?_eq_some_iff.mp ht
  obtain ⟨hi', rfl⟩ := List.getElem?_eq_some_iff.mp hu
  refine ⟨_, ht, htu.name, ?_⟩
  have hfields := hlinked.fields.get hi hi'
  refine List.forall₂_of_length_eq_of_get hfields.length_eq fun j hj hj' => ?_
  refine ⟨(htu.fields.get hj hj').1, ?_⟩
  rcases hfields.get hj hj' with ⟨-, hsame⟩ | ⟨index, y, hmapped, hy, hstruct⟩
  · exact .inl hsame
  · obtain ⟨x, hx, hholds⟩ := h.holds_of_mapped hleft hid hn hy
    exact .inr ⟨index, x, y, hmapped, hx, hstruct, hholds⟩

/-- A module from a file keeps what tells which file it was. -/
theorem exists_file (hm : mid.module? id = some m) (hfile : m.isHosted = false) :
    ∃ k, left.module? id = some k ∧ k.id = m.id ∧ k.path = m.path ∧ k.origin = m.origin := by
  obtain ⟨n, hn, hmn⟩ := h.settled.evolves id m hm
  have hleft := h.module?_built hn
  rw [Module.markBuilt_of_not_hosted (hmn.isHosted.trans hfile), ite_self] at hleft
  exact ⟨n, hleft, hmn.id, hmn.path, hmn.origin⟩

/-- What was traced before a call that succeeds is traced after it, and so are the modules that the
call read from files. -/
theorem traced (hleft : left.Sound)
    (hold : ∀ id m, l.module? id = some m → m.Traced left.Holds given id)
    (hnew : ∀ n m, l.arena.length ≤ n → mid.module? (.slot n) = some m → Registered fs l mid n m →
      ∀ i < m.structures.length, given ⟨.slot n, i⟩ = m.structures[i]?)
    (hk : left.module? id = some k) : k.Traced left.Holds given id := by
  obtain ⟨n, hn, hkn⟩ := h.module?_cases hk
  obtain ⟨m, hm, hmn⟩ := h.settled.exists_earlier hn
  have hmid : m.Traced left.Holds given id := by
    rcases h.extending.module?_cases hm with ⟨m₀, hm₀, heq, -⟩ | ⟨slot, rfl, hle, hregistered⟩
    · refine (hold id m₀ hm₀).congr ?_ ?_
      · rw [heq]
      · rw [heq]
    · exact .of_given (hnew slot m hle hm hregistered)
  have hlaid : n.Traced left.Holds given id := by
    have hmappings : m.mappings.structures <+: n.mappings.structures :=
      hmn.mappings ▸ List.prefix_rfl
    refine hmid.trans hmappings fun i u hu => ?_
    by_cases hid : id ∈ root :: newSlots l mid
    · exact h.traced_linked hleft hid hm hn hu
    · -- A module that is not linked can only have been laid out.
      have hb : b.module? id = some m := (h.settled.unlinked id hid).trans hm
      obtain ⟨n', hn', hmn'⟩ := Arena.exists_module?_of_outline_eq h.settled.laysOut.outline hb
      obtain rfl : n = n' := Option.some.inj (hn.symm.trans hn')
      obtain ⟨t, ht, -⟩ := hmn.exists_structure_of_later hu
      refine ⟨t, ht, .of_outline ?_⟩
      have houtline := congrArg (·[i]?) (Module.eq_of_outline_eq hmn').2
      simpa [ht, hu] using houtline
  rcases hkn with rfl | ⟨-, rfl⟩
  · exact hlaid
  · refine hlaid.congr ?_ ?_
    · cases ho : n.origin <;> simp [Module.markBuilt, ho]
    · cases ho : n.origin <;> simp [Module.markBuilt, ho]

end Completion
end Loader
end ModuleLinker
