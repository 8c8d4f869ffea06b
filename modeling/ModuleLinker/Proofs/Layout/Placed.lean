import ModuleLinker.Registry.Placement
import Mathlib.Data.List.Forall2
import Mathlib.Order.Bounds.Basic

/-!
# Placement rules

What it means that the fields of a structure have the offsets, and the structure the layout, that
the rules give from the layouts of the field types. The rules say nothing of the order in which
structures are laid out or of where layouts are kept. Every frame that the fields of a structure
were placed in follows them.
-/
namespace ModuleLinker

theorem dvd_alignUp {n a : Nat} (h : 0 < a) : a ∣ alignUp n a :=
  Nat.dvd_of_mod_eq_zero (alignUp_mod h)

/-- Rounding up gives the least multiple that is not below. -/
theorem isLeast_alignUp {n a : Nat} (h : 0 < a) :
    IsLeast {m | n ≤ m ∧ a ∣ m} (alignUp n a) := by
  refine ⟨⟨le_alignUp n a, dvd_alignUp h⟩, ?_⟩
  rintro m ⟨hle, hdvd⟩
  by_contra hlt
  have hlt : m < alignUp n a := Nat.lt_of_not_le hlt
  have hgap : a ∣ alignUp n a - m := Nat.dvd_sub (dvd_alignUp h) hdvd
  have hge : a ≤ alignUp n a - m := Nat.le_of_dvd (Nat.sub_pos_of_lt hlt) hgap
  have hnear : alignUp n a < n + a := alignUp_lt h
  omega

/-- A type of which values can be stored in a field: a built-in type with storage, or a structure. -/
def FieldType.TakesRoom (t : FieldType) : Prop :=
  t.isStorableFundamental = true ∨ ∃ id, t = .struct id

theorem FieldType.takesRoom_iff {t : FieldType} :
    t.TakesRoom ↔ (∃ b, t = .fundamental b ∧ b.isStorable = true) ∨ ∃ id, t = .struct id := by
  cases t <;> simp [TakesRoom, isStorableFundamental]

theorem FieldType.TakesRoom.isResolved {t : FieldType} (h : t.TakesRoom) : t.isResolved = true := by
  rcases h with h | ⟨id, rfl⟩
  · cases t <;> simp_all [isStorableFundamental, FieldType.isResolved]
  · rfl

/-- Where a field is and how it is shaped, without its offset. -/
def Field.unplaced (f : Field) : Field := { f with offset := 0 }

/-- The room that a field needs depends on its count and the layout of its elements. -/
theorem Frame.alignmentOf_congr {f g : Field} (h : g.count = f.count) (element : Layout) :
    alignmentOf g element = alignmentOf f element := by
  have harray : g.isArray = f.isArray := by rw [Field.isArray, Field.isArray, h]
  rw [alignmentOf, alignmentOf, harray]

theorem Frame.extentOf_congr {f g : Field} (h : g.count = f.count) (element : Layout) :
    extentOf g element = extentOf f element := by
  have harray : g.isArray = f.isArray := by rw [Field.isArray, Field.isArray, h]
  rw [extentOf, extentOf, harray, h]

variable {layoutOf? layoutOf' : FieldType → Option Layout}

/-- Fields that follow each other: each starts at the next multiple of its alignment, counting
from the end of the one before. The numbers are the end and the alignment of what is in front of
the fields, and those of all. -/
inductive FieldsPlaced (layoutOf? : FieldType → Option Layout) :
    Nat → Nat → List Field → Nat → Nat → Prop where
  | nil (stop alignment : Nat) : FieldsPlaced layoutOf? stop alignment [] stop alignment
  | cons {start alignment stop alignment' : Nat} {f : Field} {fs : List Field} {element : Layout}
      (type : layoutOf? f.type = some element)
      (offset : f.offset = alignUp start (Frame.alignmentOf f element))
      (rest : FieldsPlaced layoutOf? (f.offset + Frame.extentOf f element)
        (max alignment (Frame.alignmentOf f element)) fs stop alignment') :
      FieldsPlaced layoutOf? start alignment (f :: fs) stop alignment'

/-- The offsets of some fields and a layout are what the placement rules give: the payload ends
with the last field, and an object is the payload behind its header in whole words. -/
structure Placed (layoutOf? : FieldType → Option Layout) (fields : List Field) (l : Layout) :
    Prop where
  fields : FieldsPlaced layoutOf? 0 1 fields l.rawSize l.rawAlignment
  size : l.size = alignUp (l.rawSize + headerBytes) wordBytes
  bounded : l.size < addressLimit

namespace FieldsPlaced

/-- Only the layouts of the types of the fields matter. -/
theorem mono_of_mem {start alignment : Nat} {fs : List Field} {stop alignment' : Nat}
    (h : ∀ f ∈ fs, ∀ l, layoutOf? f.type = some l → layoutOf' f.type = some l)
    (hp : FieldsPlaced layoutOf? start alignment fs stop alignment') :
    FieldsPlaced layoutOf' start alignment fs stop alignment' := by
  induction hp with
  | nil => exact .nil ..
  | cons type offset _ ih =>
    exact .cons (h _ List.mem_cons_self _ type) offset
      (ih fun f hf => h f (List.mem_cons_of_mem _ hf))

theorem mono (h : ∀ t l, layoutOf? t = some l → layoutOf' t = some l) {start alignment : Nat}
    {fs : List Field} {stop alignment' : Nat}
    (hp : FieldsPlaced layoutOf? start alignment fs stop alignment') :
    FieldsPlaced layoutOf' start alignment fs stop alignment' :=
  hp.mono_of_mem fun f _ => h f.type

theorem exists_layout {start alignment : Nat} {fs : List Field} {stop alignment' : Nat}
    (hp : FieldsPlaced layoutOf? start alignment fs stop alignment') {f : Field} (hf : f ∈ fs) :
    ∃ l, layoutOf? f.type = some l := by
  induction hp with
  | nil => simp at hf
  | cons type _ _ ih =>
    rcases List.mem_cons.mp hf with rfl | hf
    · exact ⟨_, type⟩
    · exact ih hf

theorem append {start alignment : Nat} {fs : List Field} {middle alignment' : Nat}
    (hp : FieldsPlaced layoutOf? start alignment fs middle alignment') {gs : List Field}
    {stop alignment'' : Nat}
    (hq : FieldsPlaced layoutOf? middle alignment' gs stop alignment'') :
    FieldsPlaced layoutOf? start alignment (fs ++ gs) stop alignment'' := by
  induction hp with
  | nil => exact hq
  | cons type offset _ ih => exact .cons type offset (ih hq)

theorem start_le {start alignment : Nat} {fs : List Field} {stop alignment' : Nat}
    (hp : FieldsPlaced layoutOf? start alignment fs stop alignment') : start ≤ stop := by
  induction hp with
  | nil => exact Nat.le_refl _
  | cons _ offset _ ih =>
    rw [offset] at ih
    exact (le_alignUp _ _).trans ((Nat.le_add_right _ _).trans ih)

/-- Where fields are placed is decided by their counts and the layouts of their types. -/
theorem unique {start alignment : Nat} {fs : List Field} {stop alignment' : Nat}
    (hp : FieldsPlaced layoutOf? start alignment fs stop alignment') {gs : List Field}
    {stop' alignment'' : Nat} (hq : FieldsPlaced layoutOf' start alignment gs stop' alignment'')
    (hsame : List.Forall₂ (fun f g => g.count = f.count ∧
      ∀ l, layoutOf? f.type = some l → layoutOf' g.type = some l) fs gs) :
    gs.map Field.offset = fs.map Field.offset ∧ stop' = stop ∧ alignment'' = alignment' := by
  induction hp generalizing gs with
  | nil =>
    cases hsame
    cases hq
    exact ⟨rfl, rfl, rfl⟩
  | @cons start alignment stop alignment' f fs element type offset _ ih =>
    cases hsame with
    | @cons _ g _ gs hfg hsame =>
      cases hq with
      | @cons _ _ _ _ _ _ element' type' offset' hrest =>
        obtain rfl : element = element' := Option.some.inj ((hfg.2 _ type).symm.trans type')
        have halign := Frame.alignmentOf_congr hfg.1 element
        have hoffset : g.offset = f.offset := by rw [offset', offset, halign]
        rw [hoffset, halign, Frame.extentOf_congr hfg.1] at hrest
        obtain ⟨hoffsets, hstop, halignment⟩ := ih hrest hsame
        exact ⟨by rw [List.map_cons, List.map_cons, hoffset, hoffsets], hstop, halignment⟩

theorem nil_iff {start alignment stop alignment' : Nat} :
    FieldsPlaced layoutOf? start alignment [] stop alignment' ↔
      stop = start ∧ alignment' = alignment := by
  constructor
  · intro h
    cases h
    exact ⟨rfl, rfl⟩
  · rintro ⟨rfl, rfl⟩
    exact .nil ..

theorem cons_iff {start alignment stop alignment' : Nat} {f : Field} {fs : List Field}
    {element : Layout} (htype : layoutOf? f.type = some element) :
    FieldsPlaced layoutOf? start alignment (f :: fs) stop alignment' ↔
      f.offset = alignUp start (Frame.alignmentOf f element) ∧
        FieldsPlaced layoutOf? (f.offset + Frame.extentOf f element)
          (max alignment (Frame.alignmentOf f element)) fs stop alignment' := by
  constructor
  · intro h
    cases h with
    | cons type offset rest =>
      obtain rfl := Option.some.inj (type.symm.trans htype)
      exact ⟨offset, rest⟩
  · rintro ⟨offset, rest⟩
    exact .cons htype offset rest

/-- Whether fields are placed by the rules can be found out field by field. -/
instance decidable (layoutOf? : FieldType → Option Layout) (fs : List Field)
    (start alignment stop alignment' : Nat) :
    Decidable (FieldsPlaced layoutOf? start alignment fs stop alignment') :=
  match fs with
  | [] => decidable_of_iff' _ nil_iff
  | f :: fs =>
    match htype : layoutOf? f.type with
    | none => .isFalse fun h => by
      obtain ⟨l, hl⟩ := h.exists_layout List.mem_cons_self
      exact nomatch htype.symm.trans hl
    | some element =>
      have := decidable layoutOf? fs (f.offset + Frame.extentOf f element)
        (max alignment (Frame.alignmentOf f element)) stop alignment'
      decidable_of_iff' _ (cons_iff htype)

end FieldsPlaced

namespace Placed

theorem iff_and {fields : List Field} {l : Layout} : Placed layoutOf? fields l ↔
    FieldsPlaced layoutOf? 0 1 fields l.rawSize l.rawAlignment ∧
      l.size = alignUp (l.rawSize + headerBytes) wordBytes ∧ l.size < addressLimit :=
  ⟨fun h => ⟨h.fields, h.size, h.bounded⟩, fun h => ⟨h.1, h.2.1, h.2.2⟩⟩

instance (layoutOf? : FieldType → Option Layout) (fields : List Field) (l : Layout) :
    Decidable (Placed layoutOf? fields l) := decidable_of_iff' _ iff_and

theorem mono_of_mem {fields : List Field} {l : Layout}
    (h : ∀ f ∈ fields, ∀ l, layoutOf? f.type = some l → layoutOf' f.type = some l)
    (hp : Placed layoutOf? fields l) : Placed layoutOf' fields l :=
  ⟨hp.fields.mono_of_mem h, hp.size, hp.bounded⟩

theorem mono (h : ∀ t l, layoutOf? t = some l → layoutOf' t = some l) {fields : List Field}
    {l : Layout} (hp : Placed layoutOf? fields l) : Placed layoutOf' fields l :=
  ⟨hp.fields.mono h, hp.size, hp.bounded⟩

theorem exists_layout {fields : List Field} {l : Layout} (hp : Placed layoutOf? fields l)
    {f : Field} (hf : f ∈ fields) : ∃ l, layoutOf? f.type = some l := hp.fields.exists_layout hf

theorem rawSize_lt {fields : List Field} {l : Layout} (hp : Placed layoutOf? fields l) :
    l.rawSize < addressLimit := by
  have hle := le_alignUp (l.rawSize + headerBytes) wordBytes
  have hsize := hp.bounded
  rw [hp.size] at hsize
  omega

/-- So the layout of a structure is decided by its fields and the layouts of their types. -/
theorem unique {fields : List Field} {l : Layout} (hp : Placed layoutOf? fields l)
    {fields' : List Field} {l' : Layout} (hq : Placed layoutOf' fields' l')
    (hsame : List.Forall₂ (fun f g => g.count = f.count ∧
      ∀ l, layoutOf? f.type = some l → layoutOf' g.type = some l) fields fields') :
    fields'.map Field.offset = fields.map Field.offset ∧ l' = l := by
  obtain ⟨hoffsets, hsize, halignment⟩ := hp.fields.unique hq.fields hsame
  have hwhole : l'.size = l.size := by rw [hq.size, hp.size, hsize]
  exact ⟨hoffsets, by cases l; cases l'; simp_all⟩

end Placed

namespace Frame

/-- A field that got a place goes on from what was placed in front of it. -/
theorem fieldsPlaced_of_place? {frame next : Frame} {f : Field} {element : Layout}
    (h : frame.place? f element = some next) (type : layoutOf? f.type = some element) :
    ∃ g : Field, g.unplaced = f.unplaced ∧ next.placed = frame.placed ++ [g] ∧
      FieldsPlaced layoutOf? frame.extent frame.alignment [g] next.extent next.alignment := by
  simp only [place?] at h
  split at h
  · cases h
    exact ⟨{ f with offset := alignUp frame.extent (alignmentOf f element) }, rfl, rfl,
      .cons type rfl (.nil ..)⟩
  · cases h

/-- The layout of a frame is that of the fields placed in it. -/
theorem placed_of_layout? {frame : Frame} {l : Layout} (h : frame.layout? = some l)
    (hp : FieldsPlaced layoutOf? 0 1 frame.placed frame.extent frame.alignment) :
    Placed layoutOf? frame.placed l := by
  simp only [layout?, objectSize?, Option.bind_eq_bind, Option.bind_eq_some_iff,
    bounded?_eq_some, Option.pure_def, Option.some.injEq] at h
  obtain ⟨size, ⟨hlt, rfl⟩, rfl⟩ := h
  exact ⟨hp, rfl, hlt⟩

end Frame
end ModuleLinker
