import ModuleLinker.Proofs.Image.Whole

/-!
# What decoding guarantees

Every index of a decoded description is in range of the table that it points into: mappings name
declared dependencies, fields name structures or structure mappings of the description, and labels
name instructions. Structures and functions stand at the positions that they carry, and the
instructions of every stream carry the offsets at which their bytes start.
-/
namespace ModuleLinker

/-! ## Offsets -/

namespace Instructions

/-- Number of bytes that a list of instructions takes. -/
def spanOf : List Instruction → Nat
  | [] => 0
  | i :: rest => i.opcode.encodedLength + spanOf rest

theorem spanOf_append (front back : List Instruction) :
    spanOf (front ++ back) = spanOf front + spanOf back := by
  induction front with
  | nil => simp [spanOf]
  | cons i front ih => simp [spanOf, ih, Nat.add_assoc]

/-- The instructions of a stream stand one right behind the other. -/
structure Contiguous (s : Instructions) : Prop where
  byteLength : s.byteLength = spanOf s.code
  offset : ∀ (n : Nat) (i : Instruction), s.get? n = some i → i.offset = spanOf (s.code.take n)

theorem Contiguous.push {s : Instructions} (h : s.Contiguous) (o : Opcode) (x : UInt32) :
    (s.push o x).2.Contiguous := by
  constructor
  · simp [Instructions.push, spanOf_append, spanOf, h.byteLength]
  · intro n i hi
    simp only [Instructions.push, get?] at hi ⊢
    by_cases hn : n < s.code.length
    · rw [List.getElem?_append_left hn] at hi
      rw [List.take_append_of_le_length (Nat.le_of_lt hn)]
      exact h.offset n i hi
    · -- the appended instruction starts where the stream ended
      have hlength := (List.getElem?_eq_some_iff.mp hi).1
      obtain rfl : n = s.code.length := by
        simp only [List.length_append, List.length_singleton] at hlength
        omega
      obtain rfl : _ = i := by simpa using hi
      simpa using h.byteLength

theorem Built.contiguous {s : Instructions} (h : s.Built) : s.Contiguous := by
  induction h with
  | empty => exact ⟨rfl, fun n i hi => by cases hi⟩
  | push o x _ ih => exact ih.push o x
  | addLabel target _ ih => exact ⟨ih.byteLength, ih.offset⟩
  | setLabel label target _ ih => exact ⟨ih.byteLength, ih.offset⟩

theorem labelOffset?_eq_some {s : Instructions} {label offset : Nat} :
    s.labelOffset? label = some offset ↔
      ∃ target i, s.label? label = some target ∧ s.get? target.toNat = some i ∧
        i.offset = offset := by
  simp [labelOffset?, Option.bind_eq_some_iff]

/-- What a reader of a stream may rely on. -/
structure Sound (s : Instructions) : Prop where
  contiguous : s.Contiguous
  operands : ∀ i ∈ s.code, i.opcode.hasOperand = false → i.operand = 0
  labels : ∀ label < s.labels.length, ∃ i ∈ s.code, s.labelOffset? label = some i.offset

theorem WellFormed.sound {s : Instructions} (h : s.WellFormed) : s.Sound := by
  constructor
  · exact h.built.contiguous
  · intro i hi ho
    exact h.built.noStray (i.opcode, i.operand) (List.mem_map.mpr ⟨i, hi, rfl⟩) ho
  · intro label hlabel
    have htarget : s.label? label = some s.labels[label] := List.getElem?_eq_getElem hlabel
    have hlt : s.labels[label].toNat < s.code.length := h.labels _ (List.getElem_mem hlabel)
    refine ⟨s.code[s.labels[label].toNat], List.getElem_mem hlt, ?_⟩
    exact labelOffset?_eq_some.mpr ⟨_, _, htarget, List.getElem?_eq_getElem hlt, rfl⟩

end Instructions

/-! ## Tables -/

/-- A type of a field that a description with the given numbers of structures and structure
mappings can hold. -/
inductive FieldType.InTables (structures mappings : Nat) : FieldType → Prop
  | fundamental {t : Fundamental} : t.isStorable = true →
    InTables structures mappings (.fundamental t)
  | struct {index : Nat} : index < structures →
    InTables structures mappings (.struct ⟨.pending, index⟩)
  | mapped {index : Nat} : index < mappings → InTables structures mappings (.mapped index)

theorem FieldType.WellFormed.inTables {structures mappings : Nat} {t : FieldType}
    (h : t.WellFormed structures mappings) : t.InTables structures mappings := by
  cases t with
  | fundamental t => exact .fundamental h
  | struct id =>
    obtain ⟨owner, index⟩ := id
    obtain ⟨rfl, hindex, -⟩ := h
    exact .struct hindex
  | mapped index => exact .mapped h.1

/-- What users of a description may rely on. -/
structure Descriptor.Sound (d : Descriptor) : Prop where
  fileVersion : d.fileVersion.isSupported = true
  instructionSet : d.instructionSet.isSupported = true
  structureMappings : ∀ m ∈ d.mappings.structures, m.dependency.toNat < d.dependencies.length
  functionMappings : ∀ m ∈ d.mappings.functions, m.dependency.toNat < d.dependencies.length
  structures : ∀ (n : Nat) (s : Structure), d.structures[n]? = some s →
    s.index = n ∧ s.owner = .pending ∧ s.layout = .notComputed
  fields : ∀ s ∈ d.structures, ∀ f ∈ s.fields,
    f.type.InTables d.structures.length d.mappings.structures.length
  functions : ∀ (n : Nat) (f : Function), d.functions[n]? = some f →
    f.index = n ∧ ∃ stream, f.body = .bytecode stream ∧ stream.Sound
  entry : d.entry.Sound

/-- Whatever bytes decode, the description is sound. -/
theorem sound_of_decode {bytes : List UInt8} {d : Descriptor} (h : decode bytes = .ok d) :
    d.Sound := by
  have hd : d.WellFormed := (decode_eq_ok_iff.mp h).1
  constructor
  case fileVersion => exact hd.fileVersion
  case instructionSet => exact hd.instructionSet
  case structureMappings =>
    intro m hm
    obtain ⟨n, hn⟩ := List.mem_iff_getElem?.mp hm
    exact (hd.mappings.structures.entry n m hn).dependency
  case functionMappings =>
    intro m hm
    obtain ⟨n, hn⟩ := List.mem_iff_getElem?.mp hm
    exact (hd.mappings.functions.entry n m hn).dependency
  case structures =>
    intro n s hs
    have hwf := hd.structures.entry n s hs
    exact ⟨hwf.index, hwf.owner, hwf.layout⟩
  case fields =>
    intro s hs f hf
    obtain ⟨n, hn⟩ := List.mem_iff_getElem?.mp hs
    obtain ⟨k, hk⟩ := List.mem_iff_getElem?.mp hf
    exact ((hd.structures.entry n s hn).fields.entry k f hk).type.inTables
  case functions =>
    intro n f hf
    have hwf := hd.functions.entry n f hf
    obtain ⟨stream, hbody, hstream⟩ := hwf.body
    exact ⟨hwf.index, stream, hbody, hstream.sound⟩
  case entry => exact hd.entry.sound

/-- An image whose first structure refers to the second one and to a structure mapping, and whose
function has a label. -/
def crossingImage : List UInt8 :=
  magic ++ [4, 0, 4, 0] ++ [1, 0, 0, 0, 1, 0, 0, 0, 0x62] ++
    [1, 0, 0, 0, 0, 0, 0, 0, 1, 0, 0, 0, 0x50] ++ [1, 0, 0, 0, 0, 0, 0, 0, 1, 0, 0, 0, 0x66] ++
    List.replicate 16 0 ++
    [2, 0, 0, 0, 1, 0, 0, 0, 0x41, 2, 0, 0, 0, 21, 0, 0, 0, 22, 0, 0, 0] ++
    [1, 0, 0, 0, 0x42, 1, 0, 0, 0, 3, 0, 0, 0] ++
    [1, 0, 0, 0, 1, 0, 0, 0, 0x6d, 0, 0, 0] ++
    [1, 0, 0, 0, 1, 0, 0, 0, 0, 0, 0, 0, 2, 0, 0, 0, 0, 0, 0, 0, 1, 7, 0, 0, 0, 40] ++
    [0, 0, 0, 0, 1, 0, 0, 0, 0, 0, 0, 0, 40]

/-- The description that the image holds. -/
def Descriptor.crossing : Descriptor where
  dependencies := [⟨"b", none⟩]
  mappings := ⟨[⟨0, "P"⟩], [⟨0, "f"⟩]⟩
  structures := [
    { name := "A", owner := .pending, index := 0, fields := [
        { type := .struct ⟨.pending, 1⟩ }, { type := .mapped 0 }] },
    { name := "B", owner := .pending, index := 1, fields := [{ type := .fundamental .int }] }]
  functions := [⟨"m", .pending, 0, 0, false, .bytecode (.ofCode [1] [(.push, 7), (.ret, 0)])⟩]
  entry := .ofCode [] [(.ret, 0)]

theorem sound_of_decode_crossing :
    decode crossingImage = .ok .crossing ∧ Descriptor.crossing.Sound := by
  have h : decode crossingImage = .ok .crossing := by decide +kernel
  exact ⟨h, sound_of_decode h⟩

end ModuleLinker
