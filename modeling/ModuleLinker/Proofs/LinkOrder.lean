import ModuleLinker.Proofs.Registry.Linking

/-!
# The order of linking

Modules are linked against each other, and against themselves, while they are being rewritten one
after the other. What linking looks up is the names and positions in the tables of a module, its
dependencies and its mappings. These are its symbols: everything but the fields of its structures
and its function links, which are all that linking writes. So a module comes out the same whatever
was linked before it, and linking it once more finds nothing to do.
-/
namespace ModuleLinker

/-- A structure without its fields. -/
def Structure.symbol (s : Structure) : Structure := { s with fields := [] }

/-- A module without the fields of its structures and without its function links. -/
def Module.symbols (m : Module) : Module :=
  { m with structures := m.structures.map Structure.symbol, functionLinks := [] }

/-- An arena as linking sees it. -/
def Arena.symbols (a : Arena) : Arena := a.map (Option.map Module.symbols)

theorem Arena.module?_symbols (a : Arena) (id : ModuleId) :
    a.symbols.module? id = (a.module? id).map Module.symbols := by
  cases id with
  | pending => rfl
  | slot n =>
    simp only [module?, symbols, List.getElem?_map]
    cases a[n]? <;> simp

namespace Module

variable {a b : Arena} {m k : Module}

/-! ## Linking reads symbols only -/

theorem structureNamed?_symbols (m : Module) (name : String) :
    m.symbols.structureNamed? name = (m.structureNamed? name).map Structure.symbol := by
  simp only [structureNamed?, symbols, List.find?_map]
  rfl

theorem mappedModule_symbols (a : Arena) (m : Module) (x : Mapping) :
    m.symbols.mappedModule a.symbols x =
      (m.mappedModule a x).map fun found => (found.1.symbols, found.2) := by
  have hdependencies : m.symbols.dependencies = m.dependencies := rfl
  simp only [mappedModule, hdependencies]
  cases m.dependencies[x.dependency.toNat]? with
  | none => rfl
  | some d =>
    have htarget : d.target.bind a.symbols.module? = (d.target.bind a.module?).map symbols := by
      cases d.target with
      | none => rfl
      | some target => exact a.module?_symbols target
    simp only [htarget]
    cases d.target.bind a.module? <;> rfl

theorem mappedStructure_symbols (a : Arena) (m : Module) (index : Nat) :
    m.symbols.mappedStructure a.symbols index = m.mappedStructure a index := by
  have hmappings : m.symbols.mappings = m.mappings := rfl
  simp only [mappedStructure, hmappings]
  cases m.mappings.structures[index]? with
  | none => rfl
  | some x =>
    simp only [mappedModule_symbols]
    cases m.mappedModule a x with
    | error e => rfl
    | ok found =>
      simp only [Except.map, bind, Except.bind, structureNamed?_symbols]
      cases found.1.structureNamed? x.name <;> rfl

theorem mappedFunction_symbols (a : Arena) (m : Module) (x : Mapping) :
    m.symbols.mappedFunction a.symbols x = m.mappedFunction a x := by
  simp only [mappedFunction, mappedModule_symbols]
  cases m.mappedModule a x <;> rfl

theorem mappedStructure_congr (hm : k.symbols = m.symbols) (ha : b.symbols = a.symbols)
    (index : Nat) : k.mappedStructure b index = m.mappedStructure a index := by
  rw [← mappedStructure_symbols, hm, ha, mappedStructure_symbols]

theorem mappedFunction_congr (hm : k.symbols = m.symbols) (ha : b.symbols = a.symbols)
    (x : Mapping) : k.mappedFunction b x = m.mappedFunction a x := by
  rw [← mappedFunction_symbols, hm, ha, mappedFunction_symbols]

/-- A module is linked alike in arenas with the same symbols. -/
theorem linked_congr (h : b.symbols = a.symbols) : m.linked b = m.linked a := by
  have hfield : m.linkedField b = m.linkedField a := by
    funext f
    simp only [linkedField, mappedStructure_congr rfl h]
  have hstructure : m.linkedStructure b = m.linkedStructure a := by
    funext s
    simp only [linkedStructure, hfield]
  have hfunction : m.mappedFunction b = m.mappedFunction a := by
    funext x
    exact mappedFunction_congr rfl h x
  simp only [linked, hstructure, hfunction]

/-! ## Linking writes no symbols -/

theorem symbol_of_linkedStructure {s t : Structure} (h : m.linkedStructure a s = .ok t) :
    t.symbol = s.symbol := by
  rw [(linkedStructure_eq_ok.mp h).1]
  rfl

theorem symbols_of_linked (h : m.linked a = .ok k) : k.symbols = m.symbols := by
  obtain ⟨hk, hstructures, -⟩ := linked_eq_ok.mp h
  have hsymbols : List.Forall₂ (· = ·) (k.structures.map Structure.symbol)
      (m.structures.map Structure.symbol) := by
    rw [List.forall₂_map_left_iff, List.forall₂_map_right_iff]
    exact hstructures.flip.imp fun _ _ => symbol_of_linkedStructure
  rw [List.forall₂_eq_eq_eq] at hsymbols
  rw [hk]
  simp only [symbols, hsymbols]

/-- Linking leaves no mapped type, so it comes to nothing the second time. -/
theorem linkedStructure_idem {s t : Structure} (h : m.linkedStructure a s = .ok t) :
    k.linkedStructure b t = .ok t := by
  obtain ⟨-, hfields⟩ := linkedStructure_eq_ok.mp h
  refine linkedStructure_of_resolved fun g hg => ?_
  obtain ⟨f, -, hf⟩ := exists_of_forall₂_right hfields hg
  rcases linkedField_eq_ok.mp hf with ⟨hresolved, rfl⟩ | ⟨index, id, -, -, rfl⟩
  · exact hresolved
  · rfl

/-- A module that was linked links to itself. -/
theorem linked_idem (hk : m.linked a = .ok k) (h : b.symbols = a.symbols) : k.linked b = .ok k := by
  obtain ⟨hm, hstructures, hlinks⟩ := linked_eq_ok.mp hk
  have hsymbols := symbols_of_linked hk
  refine linked_eq_ok.mpr ⟨rfl, List.forall₂_same.mpr fun t ht => ?_, ?_⟩
  · obtain ⟨s, -, hs⟩ := exists_of_forall₂_right hstructures ht
    exact linkedStructure_idem hs
  · have hmappings : k.mappings = m.mappings := by rw [hm]
    rw [hmappings]
    exact hlinks.imp fun x f hf => (mappedFunction_congr hsymbols h x).trans hf

/-- What linking may do to a module of an arena: every mapped field is given the structure that its
mapping leads to, and every mapped function its identity. -/
structure Relinks (a : Arena) (m k : Module) : Prop where
  module_eq : k = { m with structures := k.structures, functionLinks := k.functionLinks }
  structures : List.Forall₂ (fun s t => t = { s with fields := t.fields } ∧
    List.Forall₂ (fun f g => f.type.isResolved = true ∧ g = f ∨
      ∃ index id, f.type = .mapped index ∧ m.mappedStructure a index = .ok id ∧
        g = { f with type := .struct id }) s.fields t.fields) m.structures k.structures
  functionLinks : List.Forall₂ (fun x f => m.mappedFunction a x = .ok f) m.mappings.functions
    k.functionLinks

theorem linked_eq_ok_iff_relinks : m.linked a = .ok k ↔ m.Relinks a k := by
  simp only [linked_eq_ok, linkedStructure_eq_ok, linkedField_eq_ok]
  exact ⟨fun h => ⟨h.1, h.2.1, h.2.2⟩, fun h => ⟨h.module_eq, h.structures, h.functionLinks⟩⟩

end Module

namespace Arena

variable {a b c : Arena} {id other : ModuleId} {ids ids' : List ModuleId} {m k l : Module}

theorem symbols_update (hm : a.module? id = some m) (hk : k.symbols = m.symbols) :
    (a.update id fun _ => k).symbols = a.symbols := by
  refine eq_of_module?_eq (by simp [symbols]) fun other => ?_
  rw [module?_symbols, module?_symbols, module?_update]
  split
  · next heq => simp [heq, hm, hk]
  · rfl

/-! ## What a module comes out as -/

/-- A module of an arena is linked to the second one. -/
def LinksTo (a : Arena) (id : ModuleId) (k : Module) : Prop :=
  ∃ m, a.module? id = some m ∧ m.linked a = .ok k

theorem link_eq_ok_iff : a.link id = .ok b ↔ ∃ k, a.LinksTo id k ∧ b = a.update id fun _ => k := by
  rw [link_eq_ok]
  constructor
  · rintro ⟨m, k, hm, hk, rfl⟩
    exact ⟨k, ⟨m, hm, hk⟩, rfl⟩
  · rintro ⟨k, ⟨m, hm, hk⟩, rfl⟩
    exact ⟨m, k, hm, hk, rfl⟩

namespace LinksTo

theorem module?_update (h : a.LinksTo id k) : (a.update id fun _ => k).module? id = some k := by
  obtain ⟨m, hm, -⟩ := h
  rw [Arena.module?_update, if_pos rfl, hm, Option.map_some]

/-- A module comes out the same before and after another one, or itself, is linked. -/
theorem update_iff (h : a.LinksTo id k) :
    (a.update id fun _ => k).LinksTo other l ↔ a.LinksTo other l := by
  obtain ⟨m, hm, hk⟩ := h
  have hsymbols := symbols_update hm (Module.symbols_of_linked hk)
  by_cases heq : other = id
  · subst heq
    have hself : (a.update other fun _ => k).module? other = some k :=
      LinksTo.module?_update ⟨m, hm, hk⟩
    simp [LinksTo, hself, hm, hk, Module.linked_idem hk hsymbols]
  · simp only [LinksTo, Arena.module?_update, if_neg heq, Module.linked_congr hsymbols]

end LinksTo

/-! ## Linking modules together -/

/-- Each of some modules is linked as if it were the only one, and the others are as before. -/
structure LinkedTogether (a : Arena) (ids : List ModuleId) (b : Arena) : Prop where
  length_eq : b.length = a.length
  linked : ∀ id ∈ ids, ∃ k, a.LinksTo id k ∧ b.module? id = some k
  others : ∀ id, id ∉ ids → b.module? id = a.module? id

namespace LinkedTogether

theorem congr (h : LinkedTogether a ids b) (hsame : ∀ id, id ∈ ids' ↔ id ∈ ids) :
    LinkedTogether a ids' b where
  length_eq := h.length_eq
  linked := fun id hid => h.linked id ((hsame id).mp hid)
  others := fun id hid => h.others id fun hmem => hid ((hsame id).mpr hmem)

theorem symbols_eq (h : LinkedTogether a ids b) : b.symbols = a.symbols := by
  refine eq_of_module?_eq (by simp [symbols, h.length_eq]) fun id => ?_
  rw [module?_symbols, module?_symbols]
  by_cases hid : id ∈ ids
  · obtain ⟨k, ⟨m, hm, hk⟩, hb⟩ := h.linked id hid
    rw [hb, hm, Option.map_some, Option.map_some, Module.symbols_of_linked hk]
  · rw [h.others id hid]

/-- Any of the modules is linked to itself in the arena that comes out. -/
theorem again (h : LinkedTogether a ids b) (hid : id ∈ ids) : LinkedTogether b [id] b where
  length_eq := rfl
  linked := by
    intro other hother
    obtain rfl : other = id := List.mem_singleton.mp hother
    obtain ⟨k, ⟨m, -, hk⟩, hb⟩ := h.linked other hid
    exact ⟨k, ⟨k, hb, Module.linked_idem hk h.symbols_eq⟩, hb⟩
  others := fun _ _ => rfl

theorem nil_iff : LinkedTogether a [] b ↔ b = a := by
  constructor
  · exact fun h => eq_of_module?_eq h.length_eq fun id => h.others id List.not_mem_nil
  · rintro rfl
    exact ⟨rfl, by simp, fun _ _ => rfl⟩

/-- The first module may be among the others once more, and is no obstacle to them. -/
theorem cons_iff : LinkedTogether a (id :: ids) b ↔
    ∃ k, a.LinksTo id k ∧ LinkedTogether (a.update id fun _ => k) ids b := by
  constructor
  · intro h
    obtain ⟨k, hk, hb⟩ := h.linked id List.mem_cons_self
    have hlength := h.length_eq.trans (length_update a id fun _ => k).symm
    refine ⟨k, hk, hlength, fun other ho => ?_, fun other ho => ?_⟩
    · obtain ⟨l, hl, hbl⟩ := h.linked other (List.mem_cons_of_mem _ ho)
      exact ⟨l, hk.update_iff.mpr hl, hbl⟩
    · by_cases heq : other = id
      · rw [heq, hk.module?_update, hb]
      · rw [module?_update, if_neg heq]
        exact h.others other (List.not_mem_cons_of_ne_of_not_mem heq ho)
  · rintro ⟨k, hk, h⟩
    refine ⟨h.length_eq.trans (length_update ..), fun other ho => ?_, fun other ho => ?_⟩
    · by_cases hmem : other ∈ ids
      · obtain ⟨l, hl, hb⟩ := h.linked other hmem
        exact ⟨l, hk.update_iff.mp hl, hb⟩
      · obtain rfl : other = id := (List.mem_cons.mp ho).resolve_right hmem
        exact ⟨k, hk, (h.others other hmem).trans hk.module?_update⟩
    · rw [List.mem_cons, not_or] at ho
      rw [h.others other ho.2, module?_update, if_neg ho.1]

end LinkedTogether

theorem linkAll_cons_eq_ok : a.linkAll (id :: ids) = (.ok (), b) ↔
    ∃ c, a.link id = .ok c ∧ c.linkAll ids = (.ok (), b) := by
  cases hlink : a.link id <;> simp [linkAll, hlink]

/-- Linking modules one after the other links them together. -/
theorem linkAll_eq_ok_iff : a.linkAll ids = (.ok (), b) ↔ LinkedTogether a ids b := by
  induction ids generalizing a with
  | nil => rw [LinkedTogether.nil_iff, linkAll, Prod.mk.injEq, eq_self_iff_true, true_and, eq_comm]
  | cons id ids ih =>
    rw [linkAll_cons_eq_ok, LinkedTogether.cons_iff]
    constructor
    · rintro ⟨c, hc, hrest⟩
      obtain ⟨k, hk, rfl⟩ := link_eq_ok_iff.mp hc
      exact ⟨k, hk, ih.mp hrest⟩
    · rintro ⟨k, hk, hrest⟩
      exact ⟨_, link_eq_ok_iff.mpr ⟨k, hk, rfl⟩, ih.mpr hrest⟩

theorem linkedTogether_linkAll (hok : (a.linkAll ids).1 = .ok ()) :
    LinkedTogether a ids (a.linkAll ids).2 :=
  linkAll_eq_ok_iff.mp (Prod.ext hok rfl)

/-- It only matters which modules are linked. -/
theorem linkAll_congr (hsame : ∀ id, id ∈ ids' ↔ id ∈ ids) (hok : (a.linkAll ids).1 = .ok ()) :
    a.linkAll ids' = (.ok (), (a.linkAll ids).2) :=
  linkAll_eq_ok_iff.mpr ((linkedTogether_linkAll hok).congr hsame)

/-- Linking one module links all of it or leaves the arena as it is. -/
theorem linkAll_singleton (a : Arena) (id : ModuleId) :
    (∃ e, a.linkAll [id] = (.error e, a)) ∨
      ∃ m k, a.module? id = some m ∧ m.Relinks a k ∧
        a.linkAll [id] = (.ok (), a.update id fun _ => k) := by
  cases hlink : a.link id with
  | error e => exact .inl ⟨e, by simp only [linkAll, hlink]⟩
  | ok b =>
    obtain ⟨m, k, hm, hk, rfl⟩ := link_eq_ok.mp hlink
    exact .inr ⟨m, k, hm, Module.linked_eq_ok_iff_relinks.mp hk, by simp only [linkAll, hlink]⟩

/-- Linking one module either fails and leaves the arena as it is, or gives its mapped fields and
functions what their mappings lead to and changes nothing else. Linking several goes well in one
order just if it does so in any other, however often a module is listed, and the arena that comes
out is the same. Linking one of them once more changes nothing. -/
theorem linkAll_order (a : Arena) :
    (∀ id, (∃ e, a.linkAll [id] = (.error e, a)) ∨
      ∃ m k, a.module? id = some m ∧ m.Relinks a k ∧
        a.linkAll [id] = (.ok (), a.update id fun _ => k)) ∧
    ∀ targets targets' : List ModuleId, (∀ id, id ∈ targets' ↔ id ∈ targets) →
      ((a.linkAll targets').1 = .ok () ↔ (a.linkAll targets).1 = .ok ()) ∧
      ((a.linkAll targets).1 = .ok () → a.linkAll targets' = a.linkAll targets ∧
        ∀ id ∈ targets, (a.linkAll targets).2.linkAll [id] = (.ok (), (a.linkAll targets).2)) := by
  refine ⟨linkAll_singleton a, fun targets targets' hsame => ⟨⟨fun hok => ?_, fun hok => ?_⟩, ?_⟩⟩
  · rw [linkAll_congr (fun id => (hsame id).symm) hok]
  · rw [linkAll_congr hsame hok]
  · intro hok
    refine ⟨(linkAll_congr hsame hok).trans (Prod.ext hok.symm rfl), fun id hid => ?_⟩
    exact linkAll_eq_ok_iff.mpr ((linkedTogether_linkAll hok).again hid)

/-- Two modules that map structures and functions of each other, one of which has two structures and
two functions of one name. -/
def entwined : Arena :=
  let f (owner : ModuleId) (index : Nat) : Function := ⟨"f", owner, index, 0, false, .host⟩
  [some { Module.hosted (.slot 0) (.virtual "/v") with
      dependencies := [⟨"/w", some (.slot 1)⟩]
      mappings := ⟨[⟨0, "B"⟩], [⟨0, "f"⟩]⟩
      structures := [
        { name := "A", owner := .slot 0, index := 0, fields := [{ type := .mapped 0 }] }]
      functions := [f (.slot 0) 0] },
    some { Module.hosted (.slot 1) (.virtual "/w") with
      dependencies := [⟨"/v", some (.slot 0)⟩, ⟨"/w", some (.slot 1)⟩]
      mappings := ⟨[⟨0, "A"⟩, ⟨1, "B"⟩], [⟨0, "f"⟩, ⟨1, "f"⟩]⟩
      structures := [
        { name := "B", owner := .slot 1, index := 0, fields := [{ type := .fundamental .int }] },
        { name := "B", owner := .slot 1, index := 1,
          fields := [{ type := .mapped 0 }, { type := .mapped 1, count := 2 }] }]
      functions := [f (.slot 1) 0, f (.slot 1) 1] }]

/-- They may be linked in any order, one of them twice; the first of a name counts. -/
theorem linkAll_order_entwined :
    (entwined.linkAll [.slot 0, .slot 1]).1 = .ok () ∧
      entwined.linkAll [.slot 1, .slot 0, .slot 1] = entwined.linkAll [.slot 0, .slot 1] ∧
      ((entwined.linkAll [.slot 1, .slot 0, .slot 1]).2.structure? ⟨.slot 1, 1⟩).map
          (fun s => s.fields.map Field.type) =
        some [.struct ⟨.slot 0, 0⟩, .struct ⟨.slot 1, 0⟩] := by
  have hok : (entwined.linkAll [.slot 0, .slot 1]).1 = .ok () := by decide +kernel
  have hsame : ∀ id : ModuleId, id ∈ [.slot 1, .slot 0, .slot 1] ↔ id ∈ [.slot 0, .slot 1] := by
    intro id
    simp only [List.mem_cons, List.not_mem_nil, or_false]
    tauto
  obtain ⟨heq, -⟩ := ((linkAll_order entwined).2 _ _ hsame).2 hok
  exact ⟨hok, heq, by decide +kernel⟩

end Arena
end ModuleLinker
