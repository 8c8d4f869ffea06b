import ModuleLinker.Proofs.Layout.Closed
import ModuleLinker.Proofs.Layout.Search

/-!
# The reference layout

What the layout of a structure is, said by plain recursion over unbounded numbers: fields follow
each other in order, each at the least multiple of its alignment that is not below the end of the
one before, and what a structure contains is laid out by the same recursion every time that it is
met. Nothing is kept and nothing is checked against a bound. The recursion has an end below a
structure that does not contain itself, and its fuel only says how deep it may go.
-/
namespace ModuleLinker

/-- The least multiple of a positive number that is not below `n`. -/
def leastMultiple (n a : Nat) : Nat := (n + (a - 1)) / a * a

/-- The offsets of the fields of a structure, the end of the last one, and the alignment of all. -/
structure Reference where
  offsets : List Nat
  rawSize : Nat
  rawAlignment : Nat
  deriving DecidableEq

namespace Reference

/-- Bytes of an object: eight for the header, and then the payload, in whole words of eight. -/
def size (r : Reference) : Nat := leastMultiple (r.rawSize + 8) 8

/-- The layout that a structure has by the reference. -/
def layout (r : Reference) : Layout := ⟨r.size, r.rawSize, r.rawAlignment⟩

/-- Bytes and alignment of a value of a type, where `below` tells those of structures. -/
def type? (below : StructureId → Option Reference) : FieldType → Option (Nat × Nat)
  | .fundamental t => if t.isStorable then some (t.width, t.width) else none
  | .struct id => (below id).map fun r => (r.rawSize, r.rawAlignment)
  | .mapped _ => none

/-- Alignment of a field whose type needs `own`; an array is aligned to eight at least. -/
def align (f : Field) (own : Nat) : Nat := if f.count = 0 then own else max own 8

/-- Bytes of a field whose type takes `bytes`; an array is a count of eight bytes and its elements. -/
def extent (f : Field) (bytes : Nat) : Nat :=
  if f.count = 0 then bytes else 8 + f.count.toNat * bytes

/-- The reference of fields behind what ends at `stop` and needs `alignment` so far. -/
def fields? (below : StructureId → Option Reference) (stop alignment : Nat) :
    List Field → Option Reference
  | [] => some ⟨[], stop, alignment⟩
  | f :: fs => do
    let (bytes, own) ← type? below f.type
    let offset := leastMultiple stop (align f own)
    let rest ← fields? below (offset + extent f bytes) (max alignment (align f own)) fs
    return { rest with offsets := offset :: rest.offsets }

end Reference

/-- The reference of a structure, if it is there with all that it contains, every field is of a
type that can be stored, and containment goes less deep than the fuel. -/
def Arena.reference? (a : Arena) : Nat → StructureId → Option Reference
  | 0, _ => none
  | fuel + 1, id => do
    let s ← a.structure? id
    Reference.fields? (a.reference? fuel) 0 1 s.fields

/-- The reference of a structure, however deep containment goes. -/
def Arena.HasReference (a : Arena) (id : StructureId) (r : Reference) : Prop :=
  ∃ fuel, a.reference? fuel id = some r

/-- A structure has the layout and the offsets of a reference. -/
def Structure.LaidOutBy (s : Structure) (r : Reference) : Prop :=
  s.layout = .done r.layout ∧ s.fields.map Field.offset = r.offsets

/-! ## Least multiples -/

theorem isLeast_leastMultiple {n a : Nat} (h : 0 < a) :
    IsLeast {m | n ≤ m ∧ a ∣ m} (leastMultiple n a) := by
  refine ⟨⟨?_, Nat.dvd_mul_left ..⟩, ?_⟩
  · have hdiv := Nat.lt_div_mul_add h (a := n + (a - 1))
    simp only [leastMultiple]
    omega
  · rintro m ⟨hle, k, rfl⟩
    rw [leastMultiple, Nat.mul_comm a k]
    refine Nat.mul_le_mul_right a (Nat.lt_succ_iff.mp ?_)
    rw [Nat.div_lt_iff_lt_mul h, Nat.succ_mul, Nat.mul_comm k a]
    omega

/-- Rounding up finds the least multiple. -/
theorem alignUp_eq_leastMultiple {n a : Nat} (h : 0 < a) : alignUp n a = leastMultiple n a :=
  (isLeast_alignUp h).unique (isLeast_leastMultiple h)

theorem le_leastMultiple {n a : Nat} (h : 0 < a) : n ≤ leastMultiple n a :=
  (isLeast_leastMultiple h).1.1

theorem leastMultiple_mono {n m a : Nat} (h : n ≤ m) : leastMultiple n a ≤ leastMultiple m a :=
  Nat.mul_le_mul_right a (Nat.div_le_div_right (Nat.add_le_add_right h _))

/-! ## References of fields -/

namespace Reference

variable {below below' : StructureId → Option Reference} {stop alignment : Nat} {f : Field}
  {fs : List Field} {r : Reference}

theorem fields?_cons_eq_some : fields? below stop alignment (f :: fs) = some r ↔
    ∃ bytes own rest, type? below f.type = some (bytes, own) ∧
      fields? below (leastMultiple stop (align f own) + extent f bytes)
        (max alignment (align f own)) fs = some rest ∧
      r = { rest with offsets := leastMultiple stop (align f own) :: rest.offsets } := by
  simp only [fields?, Option.bind_eq_bind, Option.bind_eq_some_iff, Prod.exists, Option.pure_def,
    Option.some.injEq]
  constructor
  · rintro ⟨bytes, own, htype, rest, hrest, rfl⟩
    exact ⟨bytes, own, rest, htype, hrest, rfl⟩
  · rintro ⟨bytes, own, rest, htype, hrest, rfl⟩
    exact ⟨bytes, own, htype, rest, hrest, rfl⟩

theorem type?_mono (h : ∀ id r, below id = some r → below' id = some r) {t : FieldType}
    {p : Nat × Nat} (ht : type? below t = some p) : type? below' t = some p := by
  cases t with
  | fundamental t => exact ht
  | mapped index => exact ht
  | struct id =>
    obtain ⟨r, hr, rfl⟩ := Option.map_eq_some_iff.mp ht
    exact Option.map_eq_some_iff.mpr ⟨r, h id r hr, rfl⟩

theorem fields?_mono (h : ∀ id r, below id = some r → below' id = some r)
    (hr : fields? below stop alignment fs = some r) :
    fields? below' stop alignment fs = some r := by
  induction fs generalizing stop alignment r with
  | nil => exact hr
  | cons f fs ih =>
    obtain ⟨bytes, own, rest, htype, hrest, rfl⟩ := fields?_cons_eq_some.mp hr
    exact fields?_cons_eq_some.mpr ⟨bytes, own, rest, type?_mono h htype, ih hrest, rfl⟩

/-- Offsets do not matter. -/
theorem fields?_unplaced :
    fields? below stop alignment (fs.map Field.unplaced) = fields? below stop alignment fs := by
  induction fs generalizing stop alignment with
  | nil => rfl
  | cons f fs ih =>
    simp only [List.map_cons, fields?, ih]
    rfl

theorem alignment_le (hr : fields? below stop alignment fs = some r) :
    alignment ≤ r.rawAlignment := by
  induction fs generalizing stop alignment r with
  | nil =>
    cases hr
    rfl
  | cons f fs ih =>
    obtain ⟨bytes, own, rest, -, hrest, rfl⟩ := fields?_cons_eq_some.mp hr
    have hbehind := ih hrest
    exact (Nat.le_max_left ..).trans hbehind

theorem exists_type? (hr : fields? below stop alignment fs = some r) (hf : f ∈ fs) :
    ∃ p, type? below f.type = some p := by
  induction fs generalizing stop alignment r with
  | nil => cases hf
  | cons g fs ih =>
    obtain ⟨bytes, own, rest, htype, hrest, rfl⟩ := fields?_cons_eq_some.mp hr
    rcases List.mem_cons.mp hf with rfl | hf
    · exact ⟨_, htype⟩
    · exact ih hrest hf

theorem exists_fields? (h : ∀ f ∈ fs, ∃ p, type? below f.type = some p) (stop alignment : Nat) :
    ∃ r, fields? below stop alignment fs = some r := by
  induction fs generalizing stop alignment with
  | nil => exact ⟨_, rfl⟩
  | cons f fs ih =>
    obtain ⟨⟨bytes, own⟩, htype⟩ := h f List.mem_cons_self
    obtain ⟨rest, hrest⟩ := ih (fun g hg => h g (List.mem_cons_of_mem _ hg)) _ _
    exact ⟨_, fields?_cons_eq_some.mpr ⟨bytes, own, rest, htype, hrest, rfl⟩⟩

theorem align_pos {own : Nat} (h : 0 < own) : 0 < align f own := by
  simp only [align]
  split <;> omega

theorem le_extent (f : Field) (bytes : Nat) : bytes ≤ extent f bytes := by
  simp only [extent]
  split
  · exact Nat.le_refl _
  · next hcount =>
    have hpos : 0 < f.count.toNat := Nat.pos_of_ne_zero fun h => hcount (UInt64.toNat_inj.mp h)
    exact (Nat.le_mul_of_pos_left bytes hpos).trans (Nat.le_add_left ..)

section
variable (hpos : ∀ id r, below id = some r → 0 < r.rawAlignment)
include hpos

theorem type?_pos {t : FieldType} {bytes own : Nat} (h : type? below t = some (bytes, own)) :
    0 < own := by
  cases t with
  | fundamental t =>
    cases t <;> simp [type?, Fundamental.isStorable, Fundamental.width, wordBytes] at h <;> omega
  | mapped index => cases h
  | struct id =>
    obtain ⟨r, hr, hp⟩ := Option.map_eq_some_iff.mp h
    cases hp
    exact hpos id r hr

/-- Fields end behind what is in front of them. -/
theorem stop_le (hr : fields? below stop alignment fs = some r) : stop ≤ r.rawSize := by
  induction fs generalizing stop alignment r with
  | nil =>
    cases hr
    rfl
  | cons f fs ih =>
    obtain ⟨bytes, own, rest, htype, hrest, rfl⟩ := fields?_cons_eq_some.mp hr
    have hstart : stop ≤ leastMultiple stop (align f own) :=
      le_leastMultiple (align_pos (type?_pos hpos htype))
    have hbehind := ih hrest
    exact hstart.trans ((Nat.le_add_right ..).trans hbehind)

/-- What a field contains takes no more bytes than all fields together. -/
theorem bytes_le (hr : fields? below stop alignment fs = some r) (hf : f ∈ fs) {bytes own : Nat}
    (htype : type? below f.type = some (bytes, own)) : bytes ≤ r.rawSize := by
  induction fs generalizing stop alignment r with
  | nil => cases hf
  | cons g fs ih =>
    obtain ⟨bytes', own', rest, htype', hrest, rfl⟩ := fields?_cons_eq_some.mp hr
    rcases List.mem_cons.mp hf with rfl | hf
    · rw [htype, Option.some.injEq, Prod.mk.injEq] at htype'
      obtain ⟨rfl, rfl⟩ := htype'
      have hrest := stop_le hpos hrest
      exact (le_extent f bytes).trans ((Nat.le_add_left ..).trans hrest)
    · have hbehind := ih hrest hf
      exact hbehind

end

/-! ### Fields that are placed -/

theorem align_eq (f : Field) (l : Layout) :
    Frame.alignmentOf f l = align f l.rawAlignment := by
  by_cases h : f.count = 0 <;> simp [Frame.alignmentOf, align, Field.isArray, wordBytes, h]

theorem extent_eq (f : Field) (l : Layout) : Frame.extentOf f l = extent f l.rawSize := by
  by_cases h : f.count = 0
  · simp [Frame.extentOf, extent, Field.isArray, h]
  · simp [Frame.extentOf, extent, Field.isArray, countWordBytes, wordBytes, h, Nat.add_comm,
      Nat.mul_comm]

/-- The layouts of types are those of the reference. -/
def Agrees (below : StructureId → Option Reference) (layoutOf? : FieldType → Option Layout)
    (t : FieldType) : Prop :=
  ∀ l, layoutOf? t = some l → type? below t = some (l.rawSize, l.rawAlignment) ∧ 0 < l.rawAlignment

variable {layoutOf? : FieldType → Option Layout}

/-- Fields that were placed by the rules have the offsets of the reference. -/
theorem fields?_of_placed {stop' alignment' : Nat}
    (htypes : ∀ f ∈ fs, Agrees below layoutOf? f.type)
    (hp : FieldsPlaced layoutOf? stop alignment fs stop' alignment') :
    fields? below stop alignment fs = some ⟨fs.map Field.offset, stop', alignment'⟩ := by
  induction hp with
  | nil => rfl
  | @cons start alignment stop alignment' f fs element htype hoffset _ ih =>
    obtain ⟨hreference, hpos⟩ := htypes f List.mem_cons_self element htype
    have hrest := ih fun g hg => htypes g (List.mem_cons_of_mem _ hg)
    rw [align_eq, alignUp_eq_leastMultiple (align_pos hpos)] at hoffset
    rw [align_eq, extent_eq, hoffset] at hrest
    refine fields?_cons_eq_some.mpr ⟨_, _, _, hreference, hrest, ?_⟩
    rw [List.map_cons, hoffset]

theorem agrees_fundamental (below : StructureId → Option Reference) (a : Arena) (t : Fundamental) :
    Agrees below a.layoutOf? (.fundamental t) := by
  intro l hl
  cases t <;> simp [Arena.layoutOf?, Fundamental.isStorable] at hl <;> subst hl <;>
    simp [type?, Fundamental.isStorable, Fundamental.layout, Fundamental.width, wordBytes]

theorem Agrees.mono {t : FieldType} (h : Agrees below layoutOf? t)
    (hbelow : ∀ id r, below id = some r → below' id = some r) : Agrees below' layoutOf? t :=
  fun l hl => ⟨type?_mono hbelow (h l hl).1, (h l hl).2⟩

end Reference

/-! ## References of structures -/

/-- One number that is large enough for all elements of a list. -/
theorem exists_nat_of_forall_mem {α : Type} {xs : List α} {p : Nat → α → Prop}
    (hmono : ∀ x n m, n ≤ m → p n x → p m x) (h : ∀ x ∈ xs, ∃ n, p n x) : ∃ n, ∀ x ∈ xs, p n x := by
  induction xs with
  | nil => exact ⟨0, by simp⟩
  | cons x xs ih =>
    obtain ⟨n, hn⟩ := h x List.mem_cons_self
    obtain ⟨m, hm⟩ := ih fun y hy => h y (List.mem_cons_of_mem _ hy)
    refine ⟨max n m, fun y hy => ?_⟩
    rcases List.mem_cons.mp hy with rfl | hy
    · exact hmono _ _ _ (Nat.le_max_left ..) hn
    · exact hmono _ _ _ (Nat.le_max_right ..) (hm y hy)

namespace Arena

variable {a b : Arena} {id y : StructureId} {s : Structure} {r : Reference}

theorem reference?_succ_eq_some {fuel : Nat} : a.reference? (fuel + 1) id = some r ↔
    ∃ s, a.structure? id = some s ∧ Reference.fields? (a.reference? fuel) 0 1 s.fields = some r := by
  simp [reference?, Option.bind_eq_some_iff]

theorem reference?_mono {fuel fuel' : Nat} (hle : fuel ≤ fuel') (id : StructureId) (r : Reference)
    (h : a.reference? fuel id = some r) : a.reference? fuel' id = some r := by
  induction fuel generalizing fuel' id r with
  | zero => cases h
  | succ fuel ih =>
    obtain ⟨fuel', rfl⟩ := Nat.exists_eq_add_of_le' (Nat.one_le_of_lt hle)
    obtain ⟨s, hs, hr⟩ := reference?_succ_eq_some.mp h
    exact reference?_succ_eq_some.mpr
      ⟨s, hs, Reference.fields?_mono (ih (Nat.le_of_succ_le_succ hle)) hr⟩

theorem rawAlignment_pos {fuel : Nat} (id : StructureId) (r : Reference)
    (h : a.reference? fuel id = some r) : 0 < r.rawAlignment := by
  cases fuel with
  | zero => cases h
  | succ fuel =>
    obtain ⟨s, -, hr⟩ := reference?_succ_eq_some.mp h
    exact Reference.alignment_le hr

/-- Layouts and offsets do not matter for the reference. -/
theorem reference?_of_outline_eq (h : b.outline = a.outline) (fuel : Nat) :
    b.reference? fuel = a.reference? fuel := by
  induction fuel with
  | zero => rfl
  | succ fuel ih =>
    funext id
    cases hs : a.structure? id with
    | none => simp [reference?, hs, structure?_eq_none_of_outline_eq h hs]
    | some s =>
      obtain ⟨t, ht, hst⟩ := exists_structure?_of_outline_eq h hs
      simp only [reference?, hs, ht, ih, Option.bind_eq_bind, Option.bind_some]
      rw [← Reference.fields?_unplaced, (Structure.eq_of_outline_eq hst).2,
        Reference.fields?_unplaced]

theorem hasReference_of_outline_eq (h : b.outline = a.outline) :
    b.HasReference id r ↔ a.HasReference id r := by
  simp only [HasReference, reference?_of_outline_eq h]

namespace HasReference

theorem unique {r' : Reference} (h : a.HasReference id r) (h' : a.HasReference id r') : r = r' := by
  obtain ⟨n, hn⟩ := h
  obtain ⟨m, hm⟩ := h'
  have hn := reference?_mono (Nat.le_max_left n m) id r hn
  have hm := reference?_mono (Nat.le_max_right n m) id r' hm
  exact Option.some.inj (hn.symm.trans hm)

theorem exists_structure? (h : a.HasReference id r) : ∃ s, a.structure? id = some s := by
  obtain ⟨fuel, hr⟩ := h
  cases fuel with
  | zero => cases hr
  | succ fuel =>
    obtain ⟨s, hs, -⟩ := reference?_succ_eq_some.mp hr
    exact ⟨s, hs⟩

/-- The reference of a structure is that of its fields. -/
theorem exists_fields? (h : a.HasReference id r) (hs : a.structure? id = some s) :
    ∃ fuel, Reference.fields? (a.reference? fuel) 0 1 s.fields = some r := by
  obtain ⟨fuel, hr⟩ := h
  cases fuel with
  | zero => cases hr
  | succ fuel =>
    obtain ⟨s', hs', hfields⟩ := reference?_succ_eq_some.mp hr
    obtain rfl : s = s' := Option.some.inj (hs.symm.trans hs')
    exact ⟨fuel, hfields⟩

/-- What a structure contains has a reference too, and as an object it is not larger. -/
theorem of_embedded (h : a.HasReference id r) (hy : y ∈ a.embedded id) :
    ∃ r', a.HasReference y r' ∧ r'.size ≤ r.size := by
  obtain ⟨s, hs, f, hf, hfy⟩ := mem_embedded.mp hy
  obtain ⟨fuel, hfields⟩ := h.exists_fields? hs
  obtain ⟨⟨bytes, own⟩, htype⟩ := Reference.exists_type? hfields hf
  have hle := Reference.bytes_le rawAlignment_pos hfields hf htype
  rw [hfy] at htype
  obtain ⟨r', hr', hp⟩ := Option.map_eq_some_iff.mp htype
  cases hp
  exact ⟨r', ⟨fuel, hr'⟩, leastMultiple_mono (Nat.add_le_add_right hle 8)⟩

/-- Below a structure with a reference containment ends. -/
theorem acc (h : a.HasReference id r) : Acc (fun y x => y ∈ a.embedded x) id := by
  obtain ⟨fuel, hr⟩ := h
  induction fuel generalizing id r with
  | zero => cases hr
  | succ fuel ih =>
    refine ⟨_, fun y hy => ?_⟩
    obtain ⟨s, hs, hfields⟩ := reference?_succ_eq_some.mp hr
    obtain ⟨f, hf, hfy⟩ := (mem_embedded_of_structure? hs).mp hy
    obtain ⟨p, hp⟩ := Reference.exists_type? hfields hf
    rw [hfy] at hp
    obtain ⟨r', hr', -⟩ := Option.map_eq_some_iff.mp hp
    exact ih hr'

end HasReference

/-- A structure has a reference if all that it contains does. -/
theorem exists_hasReference (hs : a.structure? id = some s)
    (hroom : ∀ f ∈ s.fields, f.type.TakesRoom)
    (hchildren : ∀ y ∈ a.embedded id, ∃ r, a.HasReference y r) : ∃ r, a.HasReference id r := by
  obtain ⟨fuel, hfuel⟩ : ∃ fuel, ∀ f ∈ s.fields,
      ∃ p, Reference.type? (a.reference? fuel) f.type = some p := by
    refine exists_nat_of_forall_mem (fun f n m hle => ?_) fun f hf => ?_
    · rintro ⟨p, hp⟩
      exact ⟨p, Reference.type?_mono (reference?_mono hle) hp⟩
    · rcases FieldType.takesRoom_iff.mp (hroom f hf) with ⟨t, ht, hstorable⟩ | ⟨y, hy⟩
      · exact ⟨0, (t.width, t.width), by rw [ht]; exact if_pos hstorable⟩
      · obtain ⟨r, fuel, hr⟩ := hchildren y ((mem_embedded_of_structure? hs).mpr ⟨f, hf, hy⟩)
        exact ⟨fuel, _, by rw [hy]; exact Option.map_eq_some_iff.mpr ⟨r, hr, rfl⟩⟩
  obtain ⟨r, hr⟩ := Reference.exists_fields? hfuel 0 1
  exact ⟨r, fuel + 1, reference?_succ_eq_some.mpr ⟨s, hs, hr⟩⟩

end Arena
end ModuleLinker
