import ModuleLinker.Proofs.FailedBuild
import ModuleLinker.Proofs.Registry.Ledger

/-!
# Where mapped fields lead

A mapping names a structure in the module that one of the dependencies is resolved to. Linking puts
that structure into the field, and it stays there; the dependency may get another target later. This
module says when a field still leads where its mapping says: right after it was linked, and later as
long as the spec of the dependency means the module of then.
-/
namespace ModuleLinker

namespace Module

variable {m k : Module} {given : StructureId → Option Structure} {id : ModuleId}

/-- The module that the dependency of a mapping is resolved to. -/
def targetOf? (m : Module) (x : Mapping) : Option ModuleId :=
  m.dependencies[x.dependency.toNat]?.bind Dependency.target

/-- All fields that were given as one mapping are of one structure, and it is in the module that
the dependency of the mapping is resolved to. -/
def CoherentFields (given : StructureId → Option Structure) (id : ModuleId) (m : Module) : Prop :=
  ∀ index : Nat, ∃ y : StructureId, ∀ (i : Nat) (t : Structure), m.structures[i]? = some t →
    ∃ s, given ⟨id, i⟩ = some s ∧ List.Forall₂ (fun g f => g.type = .mapped index →
      f.type = .struct y ∧ ∃ x, m.mappings.structures[index]? = some x ∧
        m.targetOf? x = some y.owner) s.fields t.fields

/-- Every function link is in the module that the dependency of its mapping is resolved to. -/
def CoherentLinks (m : Module) : Prop :=
  List.Forall₂ (fun x f => m.targetOf? x = some f.owner) m.mappings.functions m.functionLinks

/-- What has become of a given field: if it was given as mapped, it is of a structure in the module
that the dependency of the mapping is resolved to. -/
def Leads (m : Module) (g f : Field) : Prop :=
  ∀ index, g.type = .mapped index → ∃ x y, m.mappings.structures[index]? = some x ∧
    f.type = .struct y ∧ m.targetOf? x = some y.owner

theorem Leads.congr {g f : Field} (h : m.Leads g f) (hd : k.dependencies = m.dependencies)
    (hx : k.mappings = m.mappings) : k.Leads g f := by
  intro index hg
  obtain ⟨x, y, hindex, hf, htarget⟩ := h index hg
  refine ⟨x, y, by rw [hx, hindex], hf, ?_⟩
  rw [targetOf?, hd]
  exact htarget

/-- A field that led where its mapping said still does, if the dependency has the same target. -/
theorem Leads.iff_target {g f : Field} (h : m.Leads g f)
    (hx : m.mappings.structures <+: k.mappings.structures) :
    k.Leads g f ↔ ∀ index x d, g.type = .mapped index →
      m.mappings.structures[index]? = some x →
        m.dependencies[x.dependency.toNat]? = some d → k.targetOf? x = d.target := by
  constructor
  · intro hk index x d hmapped hindex hd
    obtain ⟨x', y, hindex', hf, htarget⟩ := h index hmapped
    obtain rfl : x = x' := Option.some.inj (hindex.symm.trans hindex')
    obtain ⟨z, w, hz, hw, hlater⟩ := hk index hmapped
    obtain rfl : x = z := Option.some.inj ((getElem?_of_isPrefix hx hindex).symm.trans hz)
    obtain rfl : y = w := FieldType.struct.inj (hf.symm.trans hw)
    rw [targetOf?, hd, Option.bind_some] at htarget
    rw [hlater, htarget]
  · intro hall index hmapped
    obtain ⟨x, y, hindex, hf, htarget⟩ := h index hmapped
    obtain ⟨d, hd, hdtarget⟩ := Option.bind_eq_some_iff.mp htarget
    refine ⟨x, y, getElem?_of_isPrefix hx hindex, hf, ?_⟩
    rw [hall index x d hmapped hindex hd, hdtarget]

/-- In a coherent module every field leads where its mapping says. -/
theorem CoherentFields.leads (h : m.CoherentFields given id) {i : Nat} {s t : Structure}
    (ht : m.structures[i]? = some t) (hs : given ⟨id, i⟩ = some s) :
    List.Forall₂ m.Leads s.fields t.fields := by
  have hone : ∀ index : Nat, ∃ y : StructureId, List.Forall₂ (fun g f => g.type = .mapped index →
      f.type = .struct y ∧ ∃ x, m.mappings.structures[index]? = some x ∧
        m.targetOf? x = some y.owner) s.fields t.fields := by
    intro index
    obtain ⟨y, hy⟩ := h index
    obtain ⟨s', hs', hfields⟩ := hy i t ht
    obtain rfl : s = s' := Option.some.inj (hs.symm.trans hs')
    exact ⟨y, hfields⟩
  obtain ⟨_, hzero⟩ := hone 0
  refine List.forall₂_of_length_eq_of_get hzero.length_eq fun j hj hj' index hmapped => ?_
  obtain ⟨y, hfields⟩ := hone index
  obtain ⟨hf, x, hx, htarget⟩ := hfields.get hj hj' hmapped
  exact ⟨x, y, hx, hf, htarget⟩

/-- A coherent module over another record of its structures. -/
theorem CoherentFields.congr {given' : StructureId → Option Structure}
    (h : m.CoherentFields given id)
    (hgiven : ∀ i < m.structures.length, given' ⟨id, i⟩ = given ⟨id, i⟩) :
    m.CoherentFields given' id := by
  intro index
  obtain ⟨y, hy⟩ := h index
  refine ⟨y, fun i t ht => ?_⟩
  rw [hgiven i (List.getElem?_eq_some_iff.mp ht).1]
  exact hy i t ht

end Module

namespace Loader

variable {fs : FileSystem} {root id : ModuleId} {l left mid : Loader} {b c : Arena} {m n k : Module}
  {given : StructureId → Option Structure}

/-- A name means one structure of a module at most. -/
theorem Holds.unique {y z : StructureId} {name : String} (hy : l.Holds y name)
    (hz : l.Holds z name) (howner : y.owner = z.owner) : y = z := by
  obtain ⟨k, s, hk, hs, hindex⟩ := hy
  obtain ⟨k', s', hk', hs', hindex'⟩ := hz
  rw [howner] at hk
  obtain rfl : k = k' := Option.some.inj (hk.symm.trans hk')
  obtain rfl : s = s' := Option.some.inj (hs.symm.trans hs')
  cases y
  cases z
  simp_all

/-- Fields that lead where their mappings say make a module coherent: a mapping gives a module and
a name, and that leaves one structure. -/
theorem coherentFields_of_leads (htraced : m.Traced l.Holds given id)
    (hleads : ∀ (i : Nat) (s t : Structure), m.structures[i]? = some t → given ⟨id, i⟩ = some s →
      List.Forall₂ m.Leads s.fields t.fields) : m.CoherentFields given id := by
  intro index
  have hfield : ∀ {f g : Field}, g.Traced l.Holds m.mappings.structures f → m.Leads g f →
      g.type = .mapped index → ∃ x y, m.mappings.structures[index]? = some x ∧
        f.type = .struct y ∧ m.targetOf? x = some y.owner ∧ l.Holds y x.name := by
    intro f g htraced hleads hmapped
    obtain ⟨x, y, hx, hf, htarget⟩ := hleads index hmapped
    refine ⟨x, y, hx, hf, htarget, ?_⟩
    rcases htraced.2 with hsame | ⟨index', x', y', hg, hx', hf', hholds⟩
    · rw [hf, hmapped] at hsame
      cases hsame
    · obtain rfl : index = index' := FieldType.mapped.inj (hmapped.symm.trans hg)
      obtain rfl : x = x' := Option.some.inj (hx.symm.trans hx')
      obtain rfl : y = y' := FieldType.struct.inj (hf.symm.trans hf')
      exact hholds
  by_cases hsome : ∃ x y, m.mappings.structures[index]? = some x ∧
      m.targetOf? x = some y.owner ∧ l.Holds y x.name
  · obtain ⟨x, y, hx, htarget, hholds⟩ := hsome
    refine ⟨y, fun i t ht => ?_⟩
    obtain ⟨s, hs, hst⟩ := htraced i t ht
    refine ⟨s, hs, List.forall₂_of_length_eq_of_get hst.fields.length_eq
      fun j hj hj' hmapped => ?_⟩
    obtain ⟨x', y', hx', hf, htarget', hholds'⟩ :=
      hfield (hst.fields.get hj hj') ((hleads i s t ht hs).get hj hj') hmapped
    obtain rfl : x = x' := Option.some.inj (hx.symm.trans hx')
    obtain rfl := hholds.unique hholds' (Option.some.inj (htarget.symm.trans htarget'))
    exact ⟨hf, x, hx, htarget⟩
  · refine ⟨⟨id, 0⟩, fun i t ht => ?_⟩
    obtain ⟨s, hs, hst⟩ := htraced i t ht
    refine ⟨s, hs, List.forall₂_of_length_eq_of_get hst.fields.length_eq
      fun j hj hj' hmapped => ?_⟩
    obtain ⟨x, y, hx, -, htarget, hholds⟩ :=
      hfield (hst.fields.get hj hj') ((hleads i s t ht hs).get hj hj') hmapped
    exact absurd ⟨x, y, hx, htarget, hholds⟩ hsome

theorem Anchored.coherentLinks (h : l.Anchored m) : m.CoherentLinks := by
  refine h.links.imp fun x f hf => ?_
  obtain ⟨d, t, k, g, hd, htarget, -, -, rfl⟩ := hf
  simp [Module.targetOf?, hd, htarget]

namespace Completion

variable (h : Completion fs root l (.ok ()) left mid b c)
include h

/-- Linking makes the fields of a module lead where their mappings say. -/
theorem leads_linked (hl : l.Sound) (hid : id ∈ root :: newSlots l mid)
    (hm : mid.module? id = some m) (hn : c.module? id = some n) {i : Nat} {t u : Structure}
    (ht : m.structures[i]? = some t) (hu : n.structures[i]? = some u) :
    List.Forall₂ n.Leads t.fields u.fields := by
  have hlinked : m.LinkedFrom c n := by
    rcases h.linked with ⟨-, _, he⟩ | ⟨-, hlinked⟩
    · cases he
    · obtain ⟨q, hq, -⟩ := h.settled.links.evolves id m hm
      exact h.settled.linkedFrom hq hn (hlinked id hid m q hm hq)
  obtain ⟨hi, rfl⟩ := List.getElem?_eq_some_iff.mp ht
  obtain ⟨hi', rfl⟩ := List.getElem?_eq_some_iff.mp hu
  refine (hlinked.fields.get hi hi').imp fun g f hgf index hmapped => ?_
  rcases hgf with ⟨hresolved, -⟩ | ⟨index', y, hg, hy, hf⟩
  · rw [hmapped] at hresolved
    cases hresolved
  · obtain rfl : index = index' := FieldType.mapped.inj (hmapped.symm.trans hg)
    obtain ⟨x, target, v, s, hx, ⟨d, hd, htarget, hv⟩, -, rfl⟩ :=
      Module.mappedStructure_eq_ok.mp hy
    obtain ⟨w, hw, hwv⟩ := h.settled.exists_earlier hv
    have hnumbered := (h.extending.numbered hl.numbered target w hw).of_evolves hwv
    exact ⟨x, _, hx, hf, by simp [Module.targetOf?, hd, htarget, hnumbered.id_eq]⟩

/-- A dependency of the last build has the target of then again exactly if its spec means the
module of then. -/
theorem target_eq_iff (hm : l.module? root = some m) (hn : c.module? root = some n)
    (hanchored : l.Anchored k) (hpath : k.path = m.path)
    (hspecs : k.dependencies.map Dependency.spec <+: m.dependencies.map Dependency.spec)
    {i : Nat} {d : Dependency} (hd : k.dependencies[i]? = some d) :
    n.dependencies[i]?.bind Dependency.target = d.target ↔
      ∃ path, resolveSpec fs l.libraryDirectories k.path d.spec = .ok path ∧
        l.index.find? path = d.target := by
  obtain ⟨o, ho, hom, hsame, -⟩ := h.extending.kept root m hm
  have hopath : o.path = k.path := by rw [hom, hpath]
  have hspec : (o.dependencies.map Dependency.spec)[i]? = some d.spec := by
    rw [hsame]
    exact getElem?_of_isPrefix hspecs (by rw [List.getElem?_map, hd]; rfl)
  have hmet : mid.Met fs root root i := by
    rcases h.linked with ⟨-, _, he⟩ | ⟨hmet, -⟩
    · cases he
    · refine hmet root List.mem_cons_self o ho i ?_
      simpa using (List.getElem?_eq_some_iff.mp hspec).1
  obtain ⟨t, kept, ht, hkept⟩ := hanchored.targets d (List.mem_of_getElem? hd)
  obtain ⟨u, hu, -⟩ := Option.bind_eq_some_iff.mp hkept
  rw [← hopath, ← hmet.eq_iff h.extending ho hspec ht hu, h.settled.dependencies ho hn]
  obtain ⟨e, he, hes⟩ : ∃ e, o.dependencies[i]? = some e ∧ e.spec = d.spec := by
    simpa using hspec
  rw [he, Option.bind_some, Option.some.injEq]
  constructor
  · intro htarget
    cases e
    cases d
    exact congrArg₂ Dependency.mk hes htarget
  · exact congrArg Dependency.target

end Completion
end Loader

end ModuleLinker
