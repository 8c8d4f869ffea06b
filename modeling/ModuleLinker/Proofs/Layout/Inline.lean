import ModuleLinker.Proofs.Layout.Following

/-!
# Data inside a structure

Taken apart completely, the payload of a structure consists of scalars and of the words that count
the elements of inline arrays. The recursion goes through embedded structures and through every
element of an array; offsets and the strides of arrays are those that the layouts in the arena give.
Data that fill a range of bytes come one after the other in it, and filled ranges are put together
as fields are placed. Only the elements of an array of structures may stand at any address, since
no padding makes the stride of such an array a multiple of an alignment.
-/
namespace ModuleLinker

/-- What a datum holds: a value of a built-in type, or how many elements of an array follow. -/
inductive DatumKind where
  | scalar (type : Fundamental)
  | count (elements : UInt64)
  deriving DecidableEq

namespace DatumKind

/-- The bytes that it takes. -/
def bytes : DatumKind → Nat
  | scalar t => t.layout.rawSize
  | count _ => 8

/-- The bytes of which its address has to be a multiple. -/
def alignment : DatumKind → Nat
  | scalar t => t.layout.rawAlignment
  | count _ => 8

end DatumKind

/-- A datum inside a payload. -/
structure Datum where
  /-- Bytes of the payload in front of it. -/
  start : Nat
  kind : DatumKind
  /-- Whether it belongs to an element of an array of structures. -/
  strided : Bool
  deriving DecidableEq

namespace Datum

/-- Where the bytes of a datum end. -/
def stop (d : Datum) : Nat := d.start + d.kind.bytes

/-- One datum ends before another one starts. -/
def Before (d e : Datum) : Prop := d.stop ≤ e.start

instance (d e : Datum) : Decidable (d.Before e) := inferInstanceAs (Decidable (_ ≤ _))

/-- A datum of a part that starts `bytes` into the whole. -/
def moved (bytes : Nat) (strided : Bool) (d : Datum) : Datum :=
  { d with start := bytes + d.start, strided := strided || d.strided }

@[simp] theorem start_moved (bytes : Nat) (strided : Bool) (d : Datum) :
    (d.moved bytes strided).start = bytes + d.start := rfl

@[simp] theorem kind_moved (bytes : Nat) (strided : Bool) (d : Datum) :
    (d.moved bytes strided).kind = d.kind := rfl

@[simp] theorem stop_moved (bytes : Nat) (strided : Bool) (d : Datum) :
    (d.moved bytes strided).stop = bytes + d.stop := by
  simp only [stop, start_moved, kind_moved]
  omega

/-- The data of a value of a type, where `below` tells those of structures. -/
def ofType? (below : StructureId → Option (List Datum)) : FieldType → Option (List Datum)
  | .fundamental t => if t.isStorable then some [⟨0, .scalar t, false⟩] else none
  | .struct id => below id
  | .mapped _ => none

/-- Values one after the other: the first at `start`, each `stride` bytes behind the one before. -/
def repeated (start stride : Nat) (strided : Bool) (value : List Datum) (n : Nat) : List Datum :=
  (List.range n).flatMap fun i => value.map (moved (start + i * stride) strided)

/-- The data of a field from those of one value of its type: an array is a count of eight bytes and
its elements. -/
def ofField (f : Field) (stride : Nat) (value : List Datum) : List Datum :=
  if f.isArray then
    ⟨f.offset, .count f.count, false⟩ ::
      repeated (f.offset + 8) stride f.type.structureId?.isSome value f.count.toNat
  else value.map (moved f.offset false)

end Datum

namespace Arena

/-- The data of fields, where `below` tells those of structures. -/
def dataOfFields? (a : Arena) (below : StructureId → Option (List Datum)) :
    List Field → Option (List Datum)
  | [] => some []
  | f :: fs => do
    let value ← Datum.ofType? below f.type
    let element ← a.layoutOf? f.type
    let rest ← a.dataOfFields? below fs
    return Datum.ofField f element.rawSize value ++ rest

/-- The data of a structure, if it is there with all that it contains, everything that it contains
is laid out, and containment goes less deep than the fuel. -/
def data? (a : Arena) : Nat → StructureId → Option (List Datum)
  | 0, _ => none
  | fuel + 1, id => do
    let s ← a.structure? id
    a.dataOfFields? (a.data? fuel) s.fields

/-- The data of a structure, however deep containment goes. -/
def InlineData (a : Arena) (id : StructureId) (data : List Datum) : Prop :=
  ∃ fuel, a.data? fuel id = some data

end Arena

/-! ## Alignments -/

/-- Alignments are divisors of eight, of which the larger one is a multiple of the smaller one. -/
theorem dvd_max_of_dvd_eight {n m : Nat} (hn : n ∣ 8) (hm : m ∣ 8) : n ∣ max n m ∧ m ∣ max n m := by
  have hall : ∀ n ≤ 8, ∀ m ≤ 8, n ∣ 8 → m ∣ 8 → n ∣ max n m ∧ m ∣ max n m := by decide
  exact hall n (Nat.le_of_dvd (by decide) hn) m (Nat.le_of_dvd (by decide) hm) hn hm

theorem max_dvd_eight {n m : Nat} (hn : n ∣ 8) (hm : m ∣ 8) : max n m ∣ 8 := by
  rcases max_choice n m with h | h <;> rwa [h]

theorem Frame.alignmentOf_dvd_eight (f : Field) {element : Layout}
    (h : element.rawAlignment ∣ 8) : alignmentOf f element ∣ 8 := by
  simp only [alignmentOf]
  split
  · exact max_dvd_eight h (by decide)
  · exact h

/-- An array has the alignment of a count. -/
theorem Frame.alignmentOf_of_isArray {f : Field} (hf : f.isArray = true) {element : Layout}
    (h : element.rawAlignment ∣ 8) : alignmentOf f element = 8 := by
  have hle : element.rawAlignment ≤ 8 := Nat.le_of_dvd (by decide) h
  simp only [alignmentOf, hf, if_true, wordBytes]
  omega

/-! ## Filled ranges -/

namespace Datum

/-- Data that come one after the other in a range of bytes, each that is not strided at a multiple
of its alignment, which divides the alignment of the range. -/
structure Fill (start stop alignment : Nat) (data : List Datum) : Prop where
  ordered : data.Pairwise Before
  lower : ∀ d ∈ data, start ≤ d.start
  upper : ∀ d ∈ data, d.stop ≤ stop
  aligned : ∀ d ∈ data, d.strided = false →
    d.kind.alignment ∣ alignment ∧ d.kind.alignment ∣ d.start

namespace Fill

variable {start stop alignment : Nat} {data : List Datum}

theorem nil (start stop alignment : Nat) : Fill start stop alignment [] := by
  constructor <;> simp

theorem widen (h : Fill start stop alignment data) {start' stop' alignment' : Nat}
    (hstart : start' ≤ start) (hstop : stop ≤ stop') (halignment : alignment ∣ alignment') :
    Fill start' stop' alignment' data where
  ordered := h.ordered
  lower := fun d hd => hstart.trans (h.lower d hd)
  upper := fun d hd => (h.upper d hd).trans hstop
  aligned := by
    intro d hd hfree
    obtain ⟨hrange, hown⟩ := h.aligned d hd hfree
    exact ⟨Nat.dvd_trans hrange halignment, hown⟩

/-- Ranges that follow each other are filled by the data of both. -/
theorem append (h : Fill start stop alignment data) {stop' : Nat} {data' : List Datum}
    (h' : Fill stop stop' alignment data') (hstart : start ≤ stop) (hstop : stop ≤ stop') :
    Fill start stop' alignment (data ++ data') where
  ordered := List.pairwise_append.mpr ⟨h.ordered, h'.ordered, fun d hd e he =>
    (h.upper d hd).trans (h'.lower e he)⟩
  lower := List.forall_mem_append.mpr ⟨h.lower, fun d hd => hstart.trans (h'.lower d hd)⟩
  upper := List.forall_mem_append.mpr ⟨fun d hd => (h.upper d hd).trans hstop, h'.upper⟩
  aligned := List.forall_mem_append.mpr ⟨h.aligned, h'.aligned⟩

/-- A range may start anywhere, if it starts at a multiple of its alignment or is strided. -/
theorem moved (h : Fill start stop alignment data) {bytes : Nat} {strided : Bool}
    (hbytes : strided = false → alignment ∣ bytes) :
    Fill (bytes + start) (bytes + stop) alignment (data.map (Datum.moved bytes strided)) where
  ordered := by
    rw [List.pairwise_map]
    refine h.ordered.imp fun {d e} hbefore => ?_
    simp only [Before, stop_moved, start_moved] at hbefore ⊢
    omega
  lower := by
    simp only [List.forall_mem_map, start_moved]
    intro d hd
    have := h.lower d hd
    omega
  upper := by
    simp only [List.forall_mem_map, stop_moved]
    intro d hd
    have := h.upper d hd
    omega
  aligned := by
    simp only [List.forall_mem_map, start_moved, kind_moved]
    intro d hd hfree
    simp only [Datum.moved, Bool.or_eq_false_iff] at hfree
    obtain ⟨halignment, hstart⟩ := h.aligned d hd hfree.2
    exact ⟨halignment, Nat.dvd_add (Nat.dvd_trans halignment (hbytes hfree.1)) hstart⟩

/-- Elements of an array fill the ranges of the elements. -/
theorem repeated {stride : Nat} (h : Fill 0 stride alignment data) {strided : Bool}
    (hstart : strided = false → alignment ∣ start) (hstride : strided = false → alignment ∣ stride)
    (n : Nat) :
    Fill start (start + n * stride) alignment (repeated start stride strided data n) := by
  induction n with
  | zero => exact nil _ _ _
  | succ n ih =>
    have hlast : Fill (start + n * stride + 0) (start + n * stride + stride) alignment
        (data.map (Datum.moved (start + n * stride) strided)) :=
      h.moved fun hfree => Nat.dvd_add (hstart hfree) (Nat.dvd_mul_left_of_dvd (hstride hfree) n)
    have hall := ih.append hlast (Nat.le_add_right ..) (Nat.le_add_right ..)
    rw [Datum.repeated, List.range_succ, List.flatMap_append, List.flatMap_singleton, Nat.succ_mul,
      ← Nat.add_assoc]
    exact hall

end Fill

/-- The data of a value fill the payload that a layout gives it. The bytes of a value need not be a
multiple of the alignment where the type is a structure. -/
structure Fits (type : FieldType) (l : Layout) (value : List Datum) : Prop where
  fill : Fill 0 l.rawSize l.rawAlignment value
  alignment : l.rawAlignment ∣ 8
  stride : type.structureId? = none → l.rawAlignment ∣ l.rawSize

theorem fits_fundamental (t : Fundamental) :
    Fits (.fundamental t) t.layout [⟨0, .scalar t, false⟩] where
  fill := by constructor <;> simp [stop, DatumKind.bytes, DatumKind.alignment]
  alignment := by cases t <;> decide
  stride := fun _ => by cases t <;> decide

/-- A field that starts at a multiple of its alignment is filled by its data. -/
theorem Fits.fill_ofField {f : Field} {element : Layout} {value : List Datum}
    (h : Fits f.type element value) (hoffset : Frame.alignmentOf f element ∣ f.offset) :
    Fill f.offset (f.offset + Frame.extentOf f element) (Frame.alignmentOf f element)
      (ofField f element.rawSize value) := by
  cases harray : f.isArray with
  | false =>
    simp only [Frame.alignmentOf, harray, Bool.false_eq_true, if_false] at hoffset
    simp only [ofField, Frame.extentOf, Frame.alignmentOf, harray, Bool.false_eq_true, if_false]
    exact h.fill.moved fun _ => hoffset
  | true =>
    rw [Frame.alignmentOf_of_isArray harray h.alignment] at hoffset ⊢
    have hcount : Fill f.offset (f.offset + 8) 8 [⟨f.offset, .count f.count, false⟩] := by
      constructor <;> simp [DatumKind.alignment, DatumKind.bytes, stop, hoffset]
    -- Eight is a multiple of every alignment, so the count puts no element out of place.
    have hstart : element.rawAlignment ∣ f.offset + 8 :=
      Nat.dvd_add (Nat.dvd_trans h.alignment hoffset) h.alignment
    have helements : Fill (f.offset + 8) (f.offset + 8 + f.count.toNat * element.rawSize)
        element.rawAlignment (Datum.repeated (f.offset + 8) element.rawSize
          f.type.structureId?.isSome value f.count.toNat) :=
      h.fill.repeated (fun _ => hstart) (fun hfree => h.stride (by simpa using hfree)) _
    have hall := hcount.append (helements.widen le_rfl le_rfl h.alignment) (Nat.le_add_right ..)
      (Nat.le_add_right ..)
    have hextent : f.offset + Frame.extentOf f element =
        f.offset + 8 + f.count.toNat * element.rawSize := by
      simp only [Frame.extentOf, harray, if_true, countWordBytes, wordBytes, Nat.mul_comm]
      omega
    rw [hextent, ofField, if_pos harray]
    exact hall

variable {below below' : StructureId → Option (List Datum)}

theorem ofType?_mono (h : ∀ id data, below id = some data → below' id = some data) {t : FieldType}
    {value : List Datum} (ht : ofType? below t = some value) : ofType? below' t = some value := by
  cases t with
  | fundamental t => exact ht
  | mapped index => exact ht
  | struct id => exact h id value ht

end Datum

/-! ## Data of structures -/

namespace Arena

variable {a : Arena} {below below' : StructureId → Option (List Datum)} {f : Field}
  {fs : List Field} {data : List Datum} {id : StructureId} {s : Structure}

theorem dataOfFields?_cons_eq_some : a.dataOfFields? below (f :: fs) = some data ↔
    ∃ value element rest, Datum.ofType? below f.type = some value ∧
      a.layoutOf? f.type = some element ∧ a.dataOfFields? below fs = some rest ∧
      data = Datum.ofField f element.rawSize value ++ rest := by
  simp only [dataOfFields?, Option.bind_eq_bind, Option.bind_eq_some_iff, Option.pure_def,
    Option.some.injEq]
  constructor
  · rintro ⟨value, hvalue, element, helement, rest, hrest, rfl⟩
    exact ⟨value, element, rest, hvalue, helement, hrest, rfl⟩
  · rintro ⟨value, element, rest, hvalue, helement, hrest, rfl⟩
    exact ⟨value, hvalue, element, helement, rest, hrest, rfl⟩

theorem dataOfFields?_mono (h : ∀ id data, below id = some data → below' id = some data)
    (hdata : a.dataOfFields? below fs = some data) : a.dataOfFields? below' fs = some data := by
  induction fs generalizing data with
  | nil => exact hdata
  | cons f fs ih =>
    obtain ⟨value, element, rest, hvalue, helement, hrest, rfl⟩ :=
      dataOfFields?_cons_eq_some.mp hdata
    exact dataOfFields?_cons_eq_some.mpr
      ⟨value, element, rest, Datum.ofType?_mono h hvalue, helement, ih hrest, rfl⟩

theorem exists_dataOfFields? (hvalue : ∀ f ∈ fs, ∃ value, Datum.ofType? below f.type = some value)
    (hlayout : ∀ f ∈ fs, ∃ l, a.layoutOf? f.type = some l) :
    ∃ data, a.dataOfFields? below fs = some data := by
  induction fs with
  | nil => exact ⟨[], rfl⟩
  | cons f fs ih =>
    obtain ⟨value, hvalue'⟩ := hvalue f List.mem_cons_self
    obtain ⟨element, helement⟩ := hlayout f List.mem_cons_self
    obtain ⟨rest, hrest⟩ := ih (fun g hg => hvalue g (List.mem_cons_of_mem _ hg))
      (fun g hg => hlayout g (List.mem_cons_of_mem _ hg))
    exact ⟨_, dataOfFields?_cons_eq_some.mpr
      ⟨value, element, rest, hvalue', helement, hrest, rfl⟩⟩

/-- Fields that were placed fill the range that they were placed in. -/
theorem fill_of_fieldsPlaced {start alignment stop alignment' : Nat}
    (hp : FieldsPlaced a.layoutOf? start alignment fs stop alignment') (halignment : alignment ∣ 8)
    (hfits : ∀ f ∈ fs, ∀ l, a.layoutOf? f.type = some l → ∀ value,
      Datum.ofType? below f.type = some value → Datum.Fits f.type l value)
    (hdata : a.dataOfFields? below fs = some data) :
    Datum.Fill start stop alignment' data ∧ alignment ∣ alignment' ∧ alignment' ∣ 8 := by
  induction hp generalizing data with
  | nil stop alignment =>
    cases hdata
    exact ⟨.nil .., Nat.dvd_refl _, halignment⟩
  | @cons start alignment stop alignment' f fs element htype hoffset hrest ih =>
    obtain ⟨value, element', rest, hvalue, helement, hbelow, rfl⟩ :=
      dataOfFields?_cons_eq_some.mp hdata
    obtain rfl : element = element' := Option.some.inj (htype.symm.trans helement)
    have hvalue := hfits f List.mem_cons_self element htype value hvalue
    have hown := Frame.alignmentOf_dvd_eight f hvalue.alignment
    have hoffset' : Frame.alignmentOf f element ∣ f.offset := by
      rw [hoffset]
      exact dvd_alignUp (Nat.pos_of_dvd_of_pos hown (by decide))
    have hstart : start ≤ f.offset := by
      rw [hoffset]
      exact le_alignUp _ _
    obtain ⟨hbefore, hmax⟩ := dvd_max_of_dvd_eight halignment hown
    obtain ⟨hbehind, hgrown, hwhole⟩ := ih (max_dvd_eight halignment hown)
      (fun g hg => hfits g (List.mem_cons_of_mem _ hg)) hbelow
    have hfield := (hvalue.fill_ofField hoffset').widen hstart le_rfl (Nat.dvd_trans hmax hgrown)
    exact ⟨hfield.append hbehind (hstart.trans (Nat.le_add_right ..)) hrest.start_le,
      Nat.dvd_trans hbefore hgrown, hwhole⟩

theorem data?_succ_eq_some {fuel : Nat} : a.data? (fuel + 1) id = some data ↔
    ∃ s, a.structure? id = some s ∧ a.dataOfFields? (a.data? fuel) s.fields = some data := by
  simp [data?, Option.bind_eq_some_iff]

theorem data?_mono {fuel fuel' : Nat} (hle : fuel ≤ fuel') (id : StructureId) (data : List Datum)
    (h : a.data? fuel id = some data) : a.data? fuel' id = some data := by
  induction fuel generalizing fuel' id data with
  | zero => cases h
  | succ fuel ih =>
    obtain ⟨fuel', rfl⟩ := Nat.exists_eq_add_of_le' (Nat.one_le_of_lt hle)
    obtain ⟨s, hs, hdata⟩ := data?_succ_eq_some.mp h
    exact data?_succ_eq_some.mpr
      ⟨s, hs, dataOfFields?_mono (ih (Nat.le_of_succ_le_succ hle)) hdata⟩

theorem InlineData.unique {data' : List Datum} (h : a.InlineData id data)
    (h' : a.InlineData id data') : data = data' := by
  obtain ⟨n, hn⟩ := h
  obtain ⟨m, hm⟩ := h'
  have hn := data?_mono (Nat.le_max_left n m) id data hn
  have hm := data?_mono (Nat.le_max_right n m) id data' hm
  exact Option.some.inj (hn.symm.trans hm)

namespace LayoutsClosed

variable (h : a.LayoutsClosed)
include h

/-- Where layouts are closed, what is laid out can be taken apart as deep as its reference goes. -/
theorem exists_data? {fuel : Nat} {r : Reference} (hr : a.reference? fuel id = some r)
    (hs : a.structure? id = some s) (hdone : s.layout.isDone = true) :
    ∃ data, a.data? fuel id = some data := by
  induction fuel generalizing id s r with
  | zero => cases hr
  | succ fuel ih =>
    obtain ⟨s', hs', hfields⟩ := reference?_succ_eq_some.mp hr
    obtain rfl : s = s' := Option.some.inj (hs.symm.trans hs')
    have hvalue : ∀ f ∈ s.fields, ∃ value, Datum.ofType? (a.data? fuel) f.type = some value := by
      intro f hf
      rcases h.stored id s hs hdone f hf with ⟨t, ht, hstorable⟩ | ⟨y, u, hy, hu, hudone⟩
      · rw [ht]
        exact ⟨_, if_pos hstorable⟩
      · obtain ⟨p, hp⟩ := Reference.exists_type? hfields hf
        rw [hy] at hp ⊢
        obtain ⟨r', hr', -⟩ := Option.map_eq_some_iff.mp hp
        exact ih hr' hu hudone
    obtain ⟨data, hdata⟩ := exists_dataOfFields? hvalue fun f hf =>
      stored_iff.mp (h.stored id s hs hdone f hf)
    exact ⟨data, data?_succ_eq_some.mpr ⟨s, hs, hdata⟩⟩

theorem exists_inlineData (hs : a.structure? id = some s) (hdone : s.layout.isDone = true) :
    ∃ data, a.InlineData id data := by
  obtain ⟨r, ⟨fuel, hr⟩, -⟩ := h.exists_reference hs hdone
  obtain ⟨data, hdata⟩ := h.exists_data? hr hs hdone
  exact ⟨data, fuel, hdata⟩

/-- Where layouts are closed, the payload of a structure is filled by its data. -/
theorem fits_of_inlineData (hdata : a.InlineData id data) {l : Layout}
    (hs : a.structure? id = some s) (hl : s.layout = .done l) : Datum.Fits (.struct id) l data := by
  obtain ⟨fuel, hdata⟩ := hdata
  induction fuel generalizing id s l data with
  | zero => cases hdata
  | succ fuel ih =>
    obtain ⟨s', hs', hfields⟩ := data?_succ_eq_some.mp hdata
    obtain rfl : s = s' := Option.some.inj (hs.symm.trans hs')
    have hfits : ∀ f ∈ s.fields, ∀ l, a.layoutOf? f.type = some l → ∀ value,
        Datum.ofType? (a.data? fuel) f.type = some value → Datum.Fits f.type l value := by
      intro f _ l hlayout value hvalue
      cases htype : f.type with
      | fundamental t =>
        simp only [htype, layoutOf?, Datum.ofType?, Option.ite_none_right_eq_some,
          Option.some.injEq] at hlayout hvalue
        rw [← hlayout.2, ← hvalue.2]
        exact Datum.fits_fundamental t
      | mapped index =>
        rw [htype] at hvalue
        cases hvalue
      | struct y =>
        rw [htype] at hlayout hvalue
        obtain ⟨u, hu, hlaid⟩ := layoutOf?_struct.mp hlayout
        exact ih hu hlaid hvalue
    obtain ⟨hfill, -, halignment⟩ :=
      fill_of_fieldsPlaced (h.placed id s l hs hl).fields (Nat.one_dvd 8) hfits hfields
    exact ⟨hfill, halignment, fun hnone => by cases hnone⟩

end LayoutsClosed
end Arena
end ModuleLinker
