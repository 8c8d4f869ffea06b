import ModuleLinker.Proofs.Image.Streams

/-!
# Sections of images

What each section of an image can hold, and that the bytes of a section are exactly the encodings
of what it can hold. A description is well-formed if its parts are what a reader could have made
of bytes: texts and tables that their counts can announce, types with a code of 31 bits, and
structures and functions that stand at the positions that they carry and belong to nobody yet.
-/
namespace ModuleLinker

/-! ## What a section can hold -/

/-- A text whose bytes a 32-bit count can announce. -/
def ShortText (s : String) : Prop := (textBytes s).length < 0x100000000

/-- A dependency that was not resolved yet. -/
structure Dependency.WellFormed (d : Dependency) : Prop where
  spec : ShortText d.spec
  target : d.target = none

/-- A mapping out of one of the given number of dependencies. -/
structure Mapping.WellFormed (dependencies : Nat) (m : Mapping) : Prop where
  dependency : m.dependency.toNat < dependencies
  name : ShortText m.name

/-- Mapping tables out of the given number of dependencies. -/
structure Mappings.WellFormed (dependencies : Nat) (m : Mappings) : Prop where
  structures : IsTable (fun _ => Mapping.WellFormed dependencies) m.structures
  functions : IsTable (fun _ => Mapping.WellFormed dependencies) m.functions

/-- Tables of literals that their counts can announce. -/
structure ConstantPool.WellFormed (p : ConstantPool) : Prop where
  ints : IsTable (fun _ _ => True) p.ints
  longs : IsTable (fun _ _ => True) p.longs
  singles : IsTable (fun _ _ => True) p.singles
  doubles : IsTable (fun _ _ => True) p.doubles

/-- A type of a field in a description with the given numbers of structures and structure
mappings: built in with storage, one of the structures, or one of the mappings. -/
def FieldType.WellFormed (structures mappings : Nat) : FieldType → Prop
  | .fundamental t => t.isStorable = true
  | .struct id => id.owner = .pending ∧ id.index < structures ∧
      (TypeCode.struct id.index).number < TypeCode.limit
  | .mapped index => index < mappings ∧
      (TypeCode.struct (structures + index)).number < TypeCode.limit

/-- A field that has no place yet. -/
structure Field.WellFormed (structures mappings : Nat) (f : Field) : Prop where
  type : f.type.WellFormed structures mappings
  offset : f.offset = 0

/-- The structure at a position of a description. -/
structure Structure.WellFormed (structures mappings position : Nat) (s : Structure) : Prop where
  name : ShortText s.name
  owner : s.owner = .pending
  index : s.index = position
  fields : IsTable (fun _ => Field.WellFormed structures mappings) s.fields
  layout : s.layout = .notComputed

/-- The function at a position of a description. -/
structure Function.WellFormed (position : Nat) (f : Function) : Prop where
  name : ShortText f.name
  owner : f.owner = .pending
  index : f.index = position
  body : ∃ stream, f.body = .bytecode stream ∧ stream.WellFormed

/-- A description that a reader could have made of bytes. -/
structure Descriptor.WellFormed (d : Descriptor) : Prop where
  path : d.path = none
  fileVersion : d.fileVersion.isSupported = true
  instructionSet : d.instructionSet.isSupported = true
  dependencies : IsTable (fun _ => Dependency.WellFormed) d.dependencies
  mappings : d.mappings.WellFormed d.dependencies.length
  constants : d.constants.WellFormed
  structures : IsTable
    (Structure.WellFormed d.structures.length d.mappings.structures.length) d.structures
  functions : IsTable Function.WellFormed d.functions
  entry : d.entry.WellFormed

/-! ## Checking it -/

instance (s : String) : Decidable (ShortText s) := inferInstanceAs (Decidable (_ < _))

instance (d : Dependency) : Decidable d.WellFormed :=
  decidable_of_iff (ShortText d.spec ∧ d.target = none) ⟨fun ⟨a, b⟩ => ⟨a, b⟩, fun ⟨a, b⟩ => ⟨a, b⟩⟩

instance (n : Nat) (m : Mapping) : Decidable (m.WellFormed n) :=
  decidable_of_iff (m.dependency.toNat < n ∧ ShortText m.name)
    ⟨fun ⟨a, b⟩ => ⟨a, b⟩, fun ⟨a, b⟩ => ⟨a, b⟩⟩

instance (n : Nat) (m : Mappings) : Decidable (m.WellFormed n) :=
  decidable_of_iff (IsTable (fun _ => Mapping.WellFormed n) m.structures ∧
    IsTable (fun _ => Mapping.WellFormed n) m.functions)
    ⟨fun ⟨a, b⟩ => ⟨a, b⟩, fun ⟨a, b⟩ => ⟨a, b⟩⟩

instance (p : ConstantPool) : Decidable p.WellFormed :=
  decidable_of_iff (IsTable (fun _ _ => True) p.ints ∧ IsTable (fun _ _ => True) p.longs ∧
    IsTable (fun _ _ => True) p.singles ∧ IsTable (fun _ _ => True) p.doubles)
    ⟨fun ⟨a, b, c, d⟩ => ⟨a, b, c, d⟩, fun ⟨a, b, c, d⟩ => ⟨a, b, c, d⟩⟩

instance (n m : Nat) : (t : FieldType) → Decidable (t.WellFormed n m)
  | .fundamental t => inferInstanceAs (Decidable (t.isStorable = true))
  | .struct id => inferInstanceAs (Decidable (id.owner = .pending ∧ _ ∧ _))
  | .mapped _ => inferInstanceAs (Decidable (_ ∧ _))

instance (n m : Nat) (f : Field) : Decidable (f.WellFormed n m) :=
  decidable_of_iff (f.type.WellFormed n m ∧ f.offset = 0)
    ⟨fun ⟨a, b⟩ => ⟨a, b⟩, fun ⟨a, b⟩ => ⟨a, b⟩⟩

instance (n m position : Nat) (s : Structure) : Decidable (s.WellFormed n m position) :=
  decidable_of_iff (ShortText s.name ∧ s.owner = .pending ∧ s.index = position ∧
    IsTable (fun _ => Field.WellFormed n m) s.fields ∧ s.layout = .notComputed)
    ⟨fun ⟨a, b, c, d, e⟩ => ⟨a, b, c, d, e⟩, fun ⟨a, b, c, d, e⟩ => ⟨a, b, c, d, e⟩⟩

instance (b : FunctionBody) : Decidable (∃ stream, b = .bytecode stream ∧ stream.WellFormed) :=
  match b with
  | .bytecode stream => decidable_of_iff stream.WellFormed
      ⟨fun h => ⟨stream, rfl, h⟩, fun ⟨_, hbody, h⟩ => by cases hbody; exact h⟩
  | .host => .isFalse fun ⟨_, hbody, _⟩ => by cases hbody

instance (position : Nat) (f : Function) : Decidable (f.WellFormed position) :=
  decidable_of_iff (ShortText f.name ∧ f.owner = .pending ∧ f.index = position ∧
    ∃ stream, f.body = .bytecode stream ∧ stream.WellFormed)
    ⟨fun ⟨a, b, c, d⟩ => ⟨a, b, c, d⟩, fun ⟨a, b, c, d⟩ => ⟨a, b, c, d⟩⟩

instance (d : Descriptor) : Decidable d.WellFormed :=
  decidable_of_iff (d.path = none ∧ d.fileVersion.isSupported = true ∧
    d.instructionSet.isSupported = true ∧
    IsTable (fun _ => Dependency.WellFormed) d.dependencies ∧
    d.mappings.WellFormed d.dependencies.length ∧ d.constants.WellFormed ∧
    IsTable (Structure.WellFormed d.structures.length d.mappings.structures.length) d.structures ∧
    IsTable Function.WellFormed d.functions ∧ d.entry.WellFormed)
    ⟨fun ⟨a, b, c, d, e, f, g, h, i⟩ => ⟨a, b, c, d, e, f, g, h, i⟩,
      fun ⟨a, b, c, d, e, f, g, h, i⟩ => ⟨a, b, c, d, e, f, g, h, i⟩⟩

/-! ## Texts, dependencies and mappings -/

namespace Encoded

variable {bytes : List UInt8}

theorem text_eq_ok {s : String} :
    text s = .ok bytes ↔
      ShortText s ∧ bytes = littleEndian 4 (textBytes s).length ++ textBytes s := by
  simp only [text, except_bind_eq_ok, except_pure_eq_ok, count_eq_ok]
  constructor
  · rintro ⟨_, ⟨hshort, rfl⟩, rfl⟩
    exact ⟨hshort, rfl⟩
  · rintro ⟨hshort, rfl⟩
    exact ⟨_, ⟨hshort, rfl⟩, rfl⟩

theorem le_length_of_text {s : String} (h : text s = .ok bytes) : 4 ≤ bytes.length := by
  obtain ⟨-, rfl⟩ := text_eq_ok.mp h
  simp

theorem mapping_eq_ok {m : Mapping} :
    mapping m = .ok bytes ↔
      ∃ name, text m.name = .ok name ∧ bytes = littleEndian 4 m.dependency.toNat ++ name := by
  simp only [mapping, except_bind_eq_ok, except_pure_eq_ok]
  exact ⟨fun ⟨name, hname, h⟩ => ⟨name, hname, h.symm⟩, fun ⟨name, hname, h⟩ =>
    ⟨name, hname, h.symm⟩⟩

end Encoded

namespace Reader

/-- The end of a text: the bytes that were found must spell one. -/
theorem parses_spelled (offset : Nat) (found : List UInt8) :
    Parses (match textOfBytes? found with
      | some s => pure s
      | none => throw (.invalidText offset)) fun s bytes =>
        textOfBytes? found = some s ∧ bytes = [] := by
  split
  · next s h => exact (parses_pure s).congr fun t bytes => by simp [h]
  · next h => exact (parses_throw _).congr fun t bytes => by simp [h]

theorem parses_text : Parses text fun s bytes => Encoded.text s = .ok bytes := by
  have hspelled (n : Nat) := Parses.congr (H := fun s bytes =>
      textBytes s = bytes ∧ bytes.length = n) (parses_position_bind fun offset =>
      parses_bind (parses_bytes n) (parses_spelled offset)) fun s bytes => by
    constructor
    · rintro ⟨found, front, _, ⟨rfl, hlength⟩, ⟨hs, rfl⟩, rfl⟩
      rw [List.append_nil]
      exact ⟨textBytes_of_textOfBytes? hs, hlength⟩
    · rintro ⟨rfl, hlength⟩
      exact ⟨_, _, [], ⟨rfl, hlength⟩, ⟨textOfBytes?_textBytes s, rfl⟩, (List.append_nil _).symm⟩
  refine (parses_count_bind hspelled fun n s bytes h => ?_).congr fun s bytes => ?_
  · have := h.2
    omega
  · rw [Encoded.text_eq_ok]
    constructor
    · rintro ⟨n, back, hlt, ⟨rfl, rfl⟩, rfl⟩
      exact ⟨hlt, rfl⟩
    · rintro ⟨hshort, rfl⟩
      exact ⟨_, _, hshort, ⟨rfl, rfl⟩, rfl⟩

theorem parses_shortText :
    Parses text fun s bytes => ShortText s ∧ Encoded.text s = .ok bytes :=
  parses_text.congr fun _ _ => ⟨fun h => ⟨(Encoded.text_eq_ok.mp h).1, h⟩, fun h => h.2⟩

theorem parses_dependency :
    Parses dependency fun d bytes => d.WellFormed ∧ Encoded.text d.spec = .ok bytes := by
  refine (parses_map parses_text).congr fun d bytes => ?_
  constructor
  · rintro ⟨spec, rfl, h⟩
    exact ⟨⟨(Encoded.text_eq_ok.mp h).1, rfl⟩, h⟩
  · rintro ⟨⟨-, htarget⟩, h⟩
    obtain ⟨spec, target⟩ := d
    obtain rfl : target = none := htarget
    exact ⟨spec, rfl, h⟩

theorem parses_mapping (dependencies : Nat) :
    Parses (mapping dependencies) fun m bytes =>
      m.WellFormed dependencies ∧ Encoded.mapping m = .ok bytes := by
  have hname (dependency : UInt32) : Parses (text >>= fun name =>
      (if dependency.toNat < dependencies then pure ⟨dependency, name⟩
      else throw (.danglingDependency name dependency.toNat dependencies) : Reader Mapping))
      fun m bytes => m.WellFormed dependencies ∧ m.dependency = dependency ∧
        Encoded.text m.name = .ok bytes := by
    by_cases h : dependency.toNat < dependencies
    · simp only [if_pos h]
      refine (parses_map parses_text).congr fun m bytes => ?_
      constructor
      · rintro ⟨name, rfl, hname⟩
        exact ⟨⟨h, (Encoded.text_eq_ok.mp hname).1⟩, rfl, hname⟩
      · rintro ⟨-, rfl, hname⟩
        exact ⟨m.name, rfl, hname⟩
    · simp only [if_neg h]
      refine (parses_bind parses_text fun name => parses_throw _).congr fun m bytes => ?_
      constructor
      · rintro ⟨name, front, back, -, hfalse, -⟩
        exact hfalse.elim
      · rintro ⟨⟨hlt, -⟩, rfl, -⟩
        exact absurd hlt h
  refine (parses_bind parses_word32 hname).congr fun m bytes => ?_
  rw [Encoded.mapping_eq_ok]
  constructor
  · rintro ⟨_, _, name, rfl, ⟨hm, rfl, hname⟩, rfl⟩
    exact ⟨hm, name, hname, rfl⟩
  · rintro ⟨hm, name, hname, rfl⟩
    exact ⟨m.dependency, _, name, rfl, ⟨hm, rfl, hname⟩, rfl⟩

theorem parses_mappings (dependencies : Nat) :
    Parses (mappings dependencies) fun m bytes =>
      m.WellFormed dependencies ∧
        Encoded.concat [.table .mappings .mapping m.structures,
          .table .mappings .mapping m.functions] = .ok bytes := by
  have htable : Parses (table 8 fun _ => mapping dependencies) _ :=
    parses_table .mappings (fun _ => parses_mapping dependencies) fun m bytes h => by
      obtain ⟨name, hname, rfl⟩ := Encoded.mapping_eq_ok.mp h
      have := Encoded.le_length_of_text hname
      rw [List.length_append, length_littleEndian]
      omega
  have hsections := parses_section Mappings.structures htable
    (fun _ _ h => congrArg Mappings.structures h.2) fun structures =>
    parses_section Mappings.functions htable (fun _ _ h => congrArg Mappings.functions h)
      fun functions => parses_sections_end ⟨structures, functions⟩
  refine hsections.congr fun m bytes => ?_
  constructor
  · rintro ⟨⟨hs, hf, -⟩, h⟩
    exact ⟨⟨hs, hf⟩, h⟩
  · rintro ⟨⟨hs, hf⟩, h⟩
    exact ⟨⟨hs, hf, rfl⟩, h⟩

theorem parses_single :
    Parses (Single.mk <$> word32) fun x bytes => bytes = littleEndian 4 x.bits.toNat := by
  rw [map_eq_pure_bind]
  refine (parses_map parses_word32).congr fun x bytes => ?_
  constructor
  · rintro ⟨bits, rfl, h⟩
    exact h
  · intro h
    exact ⟨x.bits, rfl, h⟩

theorem parses_double :
    Parses (Double.mk <$> word64) fun x bytes => bytes = littleEndian 8 x.bits.toNat := by
  rw [map_eq_pure_bind]
  refine (parses_map parses_word64).congr fun x bytes => ?_
  constructor
  · rintro ⟨bits, rfl, h⟩
    exact h
  · intro h
    exact ⟨x.bits, rfl, h⟩

/-- The four tables of literals. -/
theorem parses_constants :
    Parses constants fun p bytes => p.WellFormed ∧ Encoded.constants p = .ok bytes := by
  have hints : Parses (table 4 fun _ => word32) _ :=
    parses_table .constants (fun _ => parses_word32.encoded) fun x bytes h => by cases h; simp
  have hlongs : Parses (table 8 fun _ => word64) _ :=
    parses_table .constants (fun _ => parses_word64.encoded) fun x bytes h => by cases h; simp
  have hsingles : Parses (table 4 fun _ => Single.mk <$> word32) _ :=
    parses_table .constants (fun _ => parses_single.encoded) fun x bytes h => by cases h; simp
  have hdoubles : Parses (table 8 fun _ => Double.mk <$> word64) _ :=
    parses_table .constants (fun _ => parses_double.encoded) fun x bytes h => by cases h; simp
  have hsections := parses_section ConstantPool.ints hints
    (fun _ _ h => congrArg ConstantPool.ints h.2.2.2) fun ints =>
    parses_section ConstantPool.longs hlongs
      (fun _ _ h => congrArg ConstantPool.longs h.2.2) fun longs =>
    parses_section ConstantPool.singles hsingles
      (fun _ _ h => congrArg ConstantPool.singles h.2) fun singles =>
    parses_section ConstantPool.doubles hdoubles (fun _ _ h => congrArg ConstantPool.doubles h)
      fun doubles => parses_sections_end ⟨ints, longs, singles, doubles⟩
  refine hsections.congr fun p bytes => ?_
  constructor
  · rintro ⟨⟨hi, hl, hs, hd, -⟩, h⟩
    exact ⟨⟨hi, hl, hs, hd⟩, h⟩
  · rintro ⟨⟨hi, hl, hs, hd⟩, h⟩
    exact ⟨⟨hi, hl, hs, hd, rfl⟩, h⟩

end Reader
end ModuleLinker
