import ModuleLinker.Proofs.Image.Sections

/-!
# Structures and functions in images

A type code is read as the type that is written as that code: the ranges of built-in types,
structures and mapped structures do not overlap, and what lies between them is refused. The
array bit of a field goes with a length that is not zero.
-/
namespace ModuleLinker

/-! ## Type codes -/

namespace TypeCode

/-- A code is read from its own number, and the codes of structures are small enough. -/
theorem number_of_ofNumber? {n : Nat} {code : TypeCode} (h : ofNumber? n = some code) :
    code.number = n := by
  unfold ofNumber? at h
  split at h
  all_goals first
    | cases h; rfl
    | split at h
      · next hn =>
        cases h
        exact Nat.add_sub_cancel' hn.1
      · cases h

theorem ofNumber?_struct {index : Nat} (h : (struct index).number < limit) :
    ofNumber? (struct index).number = some (struct index) := by
  have hle : firstStruct ≤ (struct index).number := Nat.le_add_right ..
  rw [ofNumber?_of_firstStruct_le hle, if_pos h, number, Nat.add_sub_cancel_left]

end TypeCode

/-- A code below the limit is read as the type that is written as it. -/
theorem resolveTypeCode_eq_ok {code offset structures mappings : Nat} (hcode : code < TypeCode.limit)
    {t : FieldType} :
    resolveTypeCode code offset structures mappings = .ok t ↔
      t.WellFormed structures mappings ∧ t.code? structures = some code := by
  constructor
  · intro h
    unfold resolveTypeCode at h
    split at h
    · next index hindex =>
      have hnumber := TypeCode.number_of_ofNumber? hindex
      by_cases hlocal : index < structures
      · rw [if_pos hlocal] at h
        cases h
        exact ⟨⟨rfl, hlocal, hnumber ▸ hcode⟩, congrArg some hnumber⟩
      · rw [if_neg hlocal] at h
        split at h
        · next hmapped =>
          cases h
          have hsum : structures + (index - structures) = index := by omega
          refine ⟨⟨hmapped, ?_⟩, ?_⟩
          · rw [hsum, hnumber]
            exact hcode
          · rw [FieldType.code?, hsum, hnumber]
        · cases h
    · next s hs =>
      split at h
      · next hstorable =>
        cases h
        refine ⟨hstorable, ?_⟩
        rw [FieldType.code?, if_pos hstorable]
        exact congrArg some (TypeCode.number_of_ofNumber? hs)
      · cases h
    · cases h
  · rintro ⟨ht, hcode⟩
    cases t with
    | fundamental t =>
      have hstorable : t.isStorable = true := ht
      rw [FieldType.code?, if_pos hstorable] at hcode
      obtain rfl := Option.some.inj hcode
      simp [resolveTypeCode, TypeCode.ofNumber?_code, hstorable]
    | struct id =>
      obtain ⟨owner, index⟩ := id
      obtain ⟨rfl, hlocal, hlimit⟩ := ht
      obtain rfl := Option.some.inj hcode
      simp only at hlocal
      simp [resolveTypeCode, TypeCode.ofNumber?_struct hlimit, hlocal]
    | mapped index =>
      obtain ⟨hmapped, hlimit⟩ := ht
      obtain rfl := Option.some.inj hcode
      have hforeign : ¬ structures + index < structures := by omega
      simp [resolveTypeCode, TypeCode.ofNumber?_struct hlimit, hforeign, hmapped]

/-! ## Fields -/

namespace Encoded

variable {bytes : List UInt8}

theorem field_eq_ok {structures position : Nat} {owner : String} {f : Field} :
    field structures owner position f = .ok bytes ↔
      ∃ word, f.word? structures = some word ∧
        bytes = littleEndian 4 word ++ if f.isArray then littleEndian 8 f.count.toNat else [] := by
  unfold field
  split
  · next h => simp [h]
  · next word h =>
    rw [Except.ok.injEq, h]
    constructor
    · rintro rfl
      exact ⟨word, rfl, rfl⟩
    · rintro ⟨_, hword, rfl⟩
      rw [Option.some.inj hword]

end Encoded

theorem Field.word?_eq_some {structures word : Nat} {f : Field} :
    f.word? structures = some word ↔
      ∃ code, f.type.code? structures = some code ∧ code < TypeCode.limit ∧
        word = if f.isArray then code + arrayBit else code := by
  cases h : f.type.code? structures with
  | none => simp [word?, h]
  | some code =>
    by_cases hcode : code < TypeCode.limit
    · have hword : f.word? structures = some (if f.isArray then code + arrayBit else code) := by
        simp [word?, h, hcode]
      rw [hword, Option.some.injEq]
      constructor
      · rintro rfl
        exact ⟨code, rfl, hcode, rfl⟩
      · rintro ⟨_, hcode', -, rfl⟩
        rw [Option.some.inj hcode']
    · simp [word?, h, hcode]

namespace Reader

/-- Behind the type stands the length of an inline array, if the word has the array bit. -/
theorem parses_length (word : Nat) (type : FieldType) :
    Parses (if word < arrayBit then pure { type }
      else position >>= fun offset => word64 >>= fun count =>
        if count = 0 then throw (.emptyArrayField offset) else pure { type, count } : Reader Field)
      fun f bytes => (f.type = type ∧ f.offset = 0) ∧ (word < arrayBit ↔ f.isArray = false) ∧
        bytes = if f.isArray then littleEndian 8 f.count.toNat else [] := by
  by_cases hword : word < arrayBit
  · simp only [if_pos hword]
    refine (parses_pure _).congr fun f bytes => ?_
    constructor
    · rintro ⟨rfl, rfl⟩
      exact ⟨⟨rfl, rfl⟩, ⟨fun _ => rfl, fun _ => hword⟩, rfl⟩
    · rintro ⟨⟨rfl, hoffset⟩, hscalar, rfl⟩
      have hscalar := hscalar.mp hword
      have hcount : f.count = 0 := by simpa [Field.isArray] using hscalar
      obtain ⟨type, count, offset⟩ := f
      simp only at hcount hoffset
      subst hcount hoffset
      exact ⟨rfl, rfl⟩
  · simp only [if_neg hword]
    have hcount (offset : Nat) (count : UInt64) : Parses
        (if count = 0 then throw (.emptyArrayField offset) else pure { type, count } : Reader Field)
        fun f bytes => count ≠ 0 ∧ { type, count } = f ∧ bytes = [] := by
      split
      · next h => exact (parses_throw _).congr fun f bytes => by simp [h]
      · next h => exact (parses_pure _).congr fun f bytes => by simp [h]
    refine (parses_position_bind fun offset => parses_bind parses_word64 fun count =>
      hcount offset count).congr fun f bytes => ?_
    constructor
    · rintro ⟨count, _, _, rfl, ⟨hne, rfl, rfl⟩, rfl⟩
      have harray : (⟨type, count, 0⟩ : Field).isArray = true := by simpa [Field.isArray] using hne
      simp [hword, harray]
    · rintro ⟨⟨rfl, hoffset⟩, harray, rfl⟩
      have harray : f.isArray = true := by
        by_contra h
        exact hword (harray.mpr (by simpa using h))
      obtain ⟨type, count, offset⟩ := f
      simp only at hoffset
      subst hoffset
      refine ⟨count, _, [], rfl, ⟨by simpa [Field.isArray] using harray, rfl, rfl⟩, ?_⟩
      rw [if_pos harray, List.append_nil]

/-- A field word is a type code with or without the array bit, which tells the two apart. -/
theorem field_word_iff {word code : Nat} {array : Bool} :
    (code < TypeCode.limit ∧ word = if array then code + arrayBit else code) ↔
      word < Nat.pow 256 4 ∧ (word < arrayBit ↔ array = false) ∧ word % arrayBit = code := by
  have hlimit : TypeCode.limit = 0x80000000 := rfl
  have hbit : arrayBit = 0x80000000 := rfl
  have hpow : Nat.pow 256 4 = 0x100000000 := rfl
  rw [hlimit, hbit, hpow]
  cases array
  · simp only [Bool.false_eq_true, if_false, iff_true]
    omega
  · simp only [if_true, Bool.true_eq_false, iff_false]
    omega

/-- The bytes of fields are those of their words and lengths. -/
theorem parses_field (structures mappings position : Nat) (owner : String) :
    Parses (field structures mappings) fun f bytes =>
      f.WellFormed structures mappings ∧
        Encoded.field structures owner position f = .ok bytes := by
  have hmod (word : Nat) : word % arrayBit < TypeCode.limit := Nat.mod_lt word (by decide)
  have htype (offset word : Nat) := (parses_liftM
    (resolveTypeCode (word % arrayBit) offset structures mappings)).congr fun t bytes =>
      and_congr_left' (resolveTypeCode_eq_ok (hmod word))
  refine (parses_position_bind fun offset => parses_bind (parses_number 4) fun word =>
    parses_bind (htype offset word) fun type => parses_length word type).congr fun f bytes => ?_
  simp only [Encoded.field_eq_ok, Field.word?_eq_some]
  constructor
  · rintro ⟨word, _, _, ⟨hword, rfl⟩, ⟨type, _, back, ⟨⟨ht, hcode⟩, rfl⟩,
      ⟨⟨rfl, hoffset⟩, harray, rfl⟩, rfl⟩, rfl⟩
    exact ⟨⟨ht, hoffset⟩, word, ⟨_, hcode, field_word_iff.mpr ⟨hword, harray, rfl⟩⟩, rfl⟩
  · rintro ⟨⟨ht, hoffset⟩, word, ⟨code, hcode, hword⟩, rfl⟩
    obtain ⟨hlt, harray, rfl⟩ := field_word_iff.mp hword
    exact ⟨word, _, _, ⟨hlt, rfl⟩, ⟨f.type, [], _, ⟨⟨ht, hcode⟩, rfl⟩,
      ⟨⟨rfl, hoffset⟩, harray, rfl⟩, rfl⟩, rfl⟩

end Reader

/-! ## Structures -/

namespace Encoded

variable {bytes : List UInt8}

/-- The fields of a structure behind their number. -/
def fields (structures : Nat) (owner : String) (fs : List Field) : Encoded := do
  return (← count .fields fs.length) ++ (← concat (fs.mapIdx (field structures owner)))

theorem fields_eq_ok {structures : Nat} {owner : String} {fs : List Field} :
    fields structures owner fs = .ok bytes ↔
      fs.length < Nat.pow 256 4 ∧ ∃ back, concat (fs.mapIdx (field structures owner)) = .ok back ∧
        bytes = littleEndian 4 fs.length ++ back := by
  simp only [fields, except_bind_eq_ok, except_pure_eq_ok, count_eq_ok]
  constructor
  · rintro ⟨_, ⟨hlt, rfl⟩, back, hback, rfl⟩
    exact ⟨hlt, back, hback, rfl⟩
  · rintro ⟨hlt, back, hback, rfl⟩
    exact ⟨_, ⟨hlt, rfl⟩, back, hback, rfl⟩

theorem structureOf_eq_concat (structures : Nat) (s : Structure) :
    structureOf structures s = concat [text s.name, fields structures s.name s.fields] := by
  simp only [structureOf, fields, concat, bind_assoc, pure_bind, ok_bind,
    List.append_assoc, List.append_nil]

theorem le_length_of_structureOf {structures : Nat} {s : Structure}
    (h : structureOf structures s = .ok bytes) : 8 ≤ bytes.length := by
  rw [structureOf_eq_concat] at h
  simp only [concat_cons_eq_ok, concat_nil_eq_ok] at h
  obtain ⟨name, _, hname, ⟨fields, _, hfields, rfl, rfl⟩, rfl⟩ := h
  obtain ⟨-, back, -, rfl⟩ := fields_eq_ok.mp hfields
  have := le_length_of_text hname
  simp only [List.length_append, length_littleEndian]
  omega

end Encoded

namespace Reader

/-- The fields of a structure. -/
theorem parses_fields (structures mappings : Nat) (owner : String) :
    Parses (table 4 fun _ => field structures mappings) fun fs bytes =>
      IsTable (fun _ => Field.WellFormed structures mappings) fs ∧
        Encoded.fields structures owner fs = .ok bytes := by
  have hcounted : Parses (table 4 fun _ => field structures mappings) _ :=
    parses_counted (e := fun _ position => Encoded.field structures owner position)
      (fun _ position => parses_field structures mappings position owner)
      fun _ position f bytes h => by
        obtain ⟨word, -, rfl⟩ := Encoded.field_eq_ok.mp h
        simp
  refine hcounted.congr fun fs bytes => ?_
  rw [Encoded.fields_eq_ok]
  constructor
  · rintro ⟨hfs, hlength, hback⟩
    exact ⟨⟨hlength, hfs⟩, hlength, hback⟩
  · rintro ⟨htable, hlength, hback⟩
    exact ⟨htable.entry, hlength, hback⟩

theorem parses_structureAt (structures mappings index : Nat) :
    Parses (structureAt structures mappings index) fun s bytes =>
      s.WellFormed structures mappings index ∧
        Encoded.structureOf structures s = .ok bytes := by
  have hsections := parses_section Structure.name parses_shortText
    (fun _ _ h => congrArg Structure.name h.2) fun name =>
    parses_section Structure.fields (parses_fields structures mappings name)
      (fun _ _ h => congrArg Structure.fields h) fun fields =>
    parses_sections_end { name, owner := .pending, index, fields : Structure }
  refine hsections.congr fun s bytes => ?_
  rw [Encoded.structureOf_eq_concat]
  constructor
  · rintro ⟨⟨hname, hfields, hs⟩, h⟩
    rw [← hs] at hname hfields ⊢
    exact ⟨⟨hname, rfl, rfl, hfields, rfl⟩, hs ▸ h⟩
  · rintro ⟨⟨hname, howner, hindex, hfields, hlayout⟩, h⟩
    refine ⟨⟨hname, hfields, ?_⟩, h⟩
    rw [← howner, ← hindex, ← hlayout]

/-- The structures of a description, each reading the number of all of them. -/
theorem parses_structures (mappings : Nat) :
    Parses (structures mappings) fun ss bytes =>
      IsTable (Structure.WellFormed ss.length mappings) ss ∧
        Encoded.table .structures (.structureOf ss.length) ss = .ok bytes := by
  refine (parses_counted (fun n index => parses_structureAt n mappings index)
    fun n _ s bytes h => Encoded.le_length_of_structureOf h).congr fun ss bytes => ?_
  rw [Encoded.table_eq_ok, Encoded.mapIdx_const]
  constructor
  · rintro ⟨hss, hlength, hback⟩
    exact ⟨⟨hlength, hss⟩, hlength, hback⟩
  · rintro ⟨htable, hlength, hback⟩
    exact ⟨htable.entry, hlength, hback⟩

end Reader

/-! ## Functions -/

/-- The stream of a function; a function of the host has none. -/
def Function.stream (f : Function) : Instructions :=
  match f.body with
  | .bytecode stream => stream
  | .host => .empty

namespace Encoded

variable {bytes : List UInt8}

theorem function_eq_concat (v : Version) {f : Function} {stream : Instructions}
    (h : f.body = .bytecode stream) :
    function v f = concat [text f.name, .ok (littleEndian 2 f.arity.toNat),
      .ok [if f.hasResult then 1 else 0], instructions v stream] := by
  simp only [function, h, concat, bind_assoc, pure_bind, ok_bind, List.append_assoc,
    List.append_nil]

theorem le_length_of_instructions {v : Version} {s : Instructions}
    (h : instructions v s = .ok bytes) : 12 ≤ bytes.length := by
  obtain ⟨labels, back, hlabels, -, rfl⟩ := instructions_eq_ok.mp h
  obtain ⟨-, targets, -, rfl⟩ := table_eq_ok.mp hlabels
  simp only [List.length_append, length_littleEndian]
  omega

theorem le_length_of_function {v : Version} {f : Function} (h : function v f = .ok bytes) :
    19 ≤ bytes.length := by
  cases hbody : f.body with
  | host => simp [function, hbody] at h
  | bytecode stream =>
    rw [function_eq_concat v hbody] at h
    simp only [concat_cons_eq_ok, concat_nil_eq_ok, Except.ok.injEq] at h
    obtain ⟨name, _, hname, ⟨_, _, rfl, ⟨_, _, rfl, ⟨code, _, hcode, rfl, rfl⟩, rfl⟩, rfl⟩, rfl⟩ := h
    have hname := le_length_of_text hname
    have hcode := le_length_of_instructions hcode
    simp only [List.length_append, length_littleEndian, List.length_cons, List.length_nil]
    omega

end Encoded

namespace Reader

theorem parses_functionAt (v : Version) (index : Nat) :
    Parses (functionAt v index) fun f bytes =>
      f.WellFormed index ∧ Encoded.function v f = .ok bytes := by
  have hsections := parses_section Function.name parses_shortText
    (fun _ _ h => congrArg Function.name h.2.2.2) fun name =>
    parses_section Function.arity parses_word16.encoded
      (fun _ _ h => congrArg Function.arity h.2.2) fun arity =>
    parses_section Function.hasResult parses_flag.encoded
      (fun _ _ h => congrArg Function.hasResult h.2) fun hasResult =>
    parses_section Function.stream (parses_instructions v)
      (by rintro stream f rfl; rfl) fun stream =>
    parses_sections_end ⟨name, .pending, index, arity, hasResult, .bytecode stream⟩
  refine hsections.congr fun f bytes => ?_
  constructor
  · rintro ⟨⟨hname, -, -, hstream, hf⟩, h⟩
    have hbody : f.body = .bytecode f.stream := by rw [← hf]; rfl
    rw [Encoded.function_eq_concat v hbody]
    refine ⟨⟨hname, ?_, ?_, f.stream, hbody, hstream⟩, h⟩
    · rw [← hf]
    · rw [← hf]
  · rintro ⟨⟨hname, howner, hindex, stream, hbody, hstream⟩, h⟩
    have hf : f.stream = stream := by rw [Function.stream, hbody]
    rw [Encoded.function_eq_concat v hbody] at h
    rw [hf]
    refine ⟨⟨hname, trivial, trivial, hstream, ?_⟩, h⟩
    rw [← howner, ← hindex, ← hbody]

end Reader
end ModuleLinker
