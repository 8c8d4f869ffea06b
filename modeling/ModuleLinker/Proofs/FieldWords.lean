import ModuleLinker.Proofs.Image.Whole

/-!
# Fields that are written and read back

The codes of types are not all different. Structures of the module and structure mappings share one
range, in which the mappings come behind the structures that there are. So a structure of nobody yet
whose index goes past the structures is written as the code of a mapping, and this is the only way
in which writing turns a type into another one.
-/
namespace ModuleLinker

theorem Fundamental.code_lt_firstStruct (b : Fundamental) : b.code < TypeCode.firstStruct := by
  cases b <;> decide

theorem Fundamental.code_inj {b c : Fundamental} (h : b.code = c.code) : b = c := by
  have hcodes := congrArg TypeCode.ofNumber? h
  rw [TypeCode.ofNumber?_code, TypeCode.ofNumber?_code] at hcodes
  cases hcodes
  rfl

/-! ## Types of one code -/

namespace FieldType

/-- A structure of the module that is not there, at an index where a mapping is counted. -/
def Overshoots (structures mappings : Nat) (t : FieldType) : Prop :=
  ∃ k, k < mappings ∧ t = .struct ⟨.pending, structures + k⟩

variable {structures mappings code : Nat} {t u : FieldType}

theorem code?_eq_some :
    t.code? structures = some code ↔
      (∃ b, t = .fundamental b ∧ b.isStorable = true ∧ b.code = code) ∨
      (∃ index, t = .struct ⟨.pending, index⟩ ∧ TypeCode.firstStruct + index = code) ∨
      ∃ k, t = .mapped k ∧ TypeCode.firstStruct + (structures + k) = code := by
  cases t with
  | fundamental b => by_cases hb : b.isStorable <;> simp [code?, hb]
  | struct id =>
    obtain ⟨owner, index⟩ := id
    cases owner <;> simp [code?, TypeCode.number]
  | mapped k => simp [code?, TypeCode.number]

/-- A type that can be read is the one that was written, unless that one overshoots. -/
theorem eq_or_overshoots (ht : t.code? structures = some code)
    (hu : u.code? structures = some code) (hwell : u.WellFormed structures mappings) :
    u = t ∨ t.Overshoots structures mappings := by
  have hsmall := Fundamental.code_lt_firstStruct
  -- Types of different kinds have one code only where a structure of nobody is met as a mapping.
  rcases code?_eq_some.mp ht with ⟨b, rfl, -, hb⟩ | ⟨index, rfl, hindex⟩ | ⟨k, rfl, hk⟩
  · have := hsmall b
    rcases code?_eq_some.mp hu with ⟨c, rfl, -, hc⟩ | ⟨index', rfl, hindex'⟩ | ⟨k', rfl, hk'⟩
    · rw [Fundamental.code_inj (hc.trans hb.symm)]
      exact .inl rfl
    · omega
    · omega
  · rcases code?_eq_some.mp hu with ⟨c, rfl, -, hc⟩ | ⟨index', rfl, hindex'⟩ | ⟨k', rfl, hk'⟩
    · have := hsmall c
      omega
    · obtain rfl : index' = index := by omega
      exact .inl rfl
    · obtain rfl : index = structures + k' := by omega
      exact .inr ⟨k', hwell.1, rfl⟩
  · rcases code?_eq_some.mp hu with ⟨c, rfl, -, hc⟩ | ⟨index', rfl, hindex'⟩ | ⟨k', rfl, hk'⟩
    · have := hsmall c
      omega
    · have hlocal : index' < structures := hwell.2.1
      omega
    · obtain rfl : k' = k := by omega
      exact .inl rfl

end FieldType

/-! ## The bytes of a field -/

theorem littleEndian_inj {width n m : Nat} (hn : n < Nat.pow 256 width)
    (hm : m < Nat.pow 256 width) (h : littleEndian width n = littleEndian width m) : n = m := by
  have hnumbers := congrArg ofLittleEndian h
  rwa [ofLittleEndian_littleEndian, ofLittleEndian_littleEndian, Nat.mod_eq_of_lt hn,
    Nat.mod_eq_of_lt hm] at hnumbers

section
variable {structures mappings position : Nat} {owner : String} {f g : Field}
  {bytes bytes' rest rest' : List UInt8}

/-- Fields of one code and one count have the same bytes. -/
theorem Encoded.field_congr (hcode : g.type.code? structures = f.type.code? structures)
    (hcount : g.count = f.count) :
    field structures owner position g = field structures owner position f := by
  have harray : g.isArray = f.isArray := by rw [Field.isArray, Field.isArray, hcount]
  have hword : g.word? structures = f.word? structures := by
    rw [Field.word?, Field.word?, hcode, harray]
  rw [field, field, hword, harray, hcount]

/-- Whatever follows, the bytes of a field tell its code and its count. -/
theorem Encoded.code_and_count_of_append_eq (hf : field structures owner position f = .ok bytes)
    (hg : field structures owner position g = .ok bytes') (h : bytes ++ rest = bytes' ++ rest') :
    g.type.code? structures = f.type.code? structures ∧ g.count = f.count := by
  obtain ⟨word, hword, rfl⟩ := field_eq_ok.mp hf
  obtain ⟨word', hword', rfl⟩ := field_eq_ok.mp hg
  obtain ⟨code, hcode, hspelt⟩ := Field.word?_eq_some.mp hword
  obtain ⟨code', hcode', hspelt'⟩ := Field.word?_eq_some.mp hword'
  obtain ⟨hlt, harray, hmod⟩ := Reader.field_word_iff.mp hspelt
  obtain ⟨hlt', harray', hmod'⟩ := Reader.field_word_iff.mp hspelt'
  rw [List.append_assoc, List.append_assoc] at h
  obtain ⟨hfront, hback⟩ := List.append_inj h (by simp)
  obtain rfl : word = word' := littleEndian_inj hlt hlt' hfront
  have hsame : g.isArray = f.isArray := by
    cases hscalar : f.isArray <;> cases hscalar' : g.isArray <;> simp_all
  refine ⟨by rw [hcode, hcode', ← hmod, ← hmod'], ?_⟩
  rw [hsame] at hback
  cases hscalar : f.isArray with
  | false =>
    rw [hscalar] at hsame
    simp only [Field.isArray, ne_eq, decide_eq_false_iff_not, not_not] at hscalar hsame
    rw [hscalar, hsame]
  | true =>
    simp only [hscalar, if_true] at hback
    have hbound (x : UInt64) : x.toNat < Nat.pow 256 8 := x.toNat_lt
    obtain ⟨hcounts, -⟩ := List.append_inj hback (by simp)
    exact UInt64.toNat_inj.mp (littleEndian_inj (hbound _) (hbound _) hcounts.symm)

namespace Reader

/-- Reading behind a written field gives the fields that can be read and have its bytes. -/
theorem run_field_append (hf : Encoded.field structures owner position f = .ok bytes)
    {offset : Nat} {c : Cursor} :
    (field structures mappings).run ⟨offset, bytes ++ rest⟩ = .ok (g, c) ↔
      (g.WellFormed structures mappings ∧ g.type.code? structures = f.type.code? structures ∧
        g.count = f.count) ∧ c = ⟨offset + bytes.length, rest⟩ := by
  rw [parses_field structures mappings position owner]
  constructor
  · rintro ⟨bytes', ⟨hwell, hg⟩, hrest, hoffset⟩
    obtain ⟨hcode, hcount⟩ := Encoded.code_and_count_of_append_eq hf hg hrest
    rw [Encoded.field_congr hcode hcount, hf, Except.ok.injEq] at hg
    subst hg
    obtain ⟨offset', rest'⟩ := c
    simp only [List.append_cancel_left_eq] at hrest hoffset
    exact ⟨⟨hwell, hcode, hcount⟩, by rw [hrest, hoffset]⟩
  · rintro ⟨⟨hwell, hcode, hcount⟩, rfl⟩
    exact ⟨bytes, ⟨hwell, (Encoded.field_congr hcode hcount).trans hf⟩, rfl, rfl⟩

end Reader

/-- A field that was written is read back with its own count, or it is refused. It is read back with
its own type, or refused, exactly if its type does not overshoot. One that overshoots is always
read, as the mapping that is counted at its index. -/
theorem field_read_back_iff (h : Encoded.field structures owner position f = .ok bytes)
    (mappings offset : Nat) (rest : List UInt8) :
    (∀ g c, (Reader.field structures mappings).run ⟨offset, bytes ++ rest⟩ = .ok (g, c) →
      g.count = f.count ∧ c = ⟨offset + bytes.length, rest⟩) ∧
    ((∀ g c, (Reader.field structures mappings).run ⟨offset, bytes ++ rest⟩ = .ok (g, c) →
      g.type = f.type) ↔ ¬ f.type.Overshoots structures mappings) ∧
    ∀ k, k < mappings → f.type = .struct ⟨.pending, structures + k⟩ →
      (Reader.field structures mappings).run ⟨offset, bytes ++ rest⟩ =
        .ok ({ type := .mapped k, count := f.count }, ⟨offset + bytes.length, rest⟩) := by
  have hmapping : ∀ k, k < mappings → f.type = .struct ⟨.pending, structures + k⟩ →
      (Reader.field structures mappings).run ⟨offset, bytes ++ rest⟩ =
        .ok ({ type := .mapped k, count := f.count }, ⟨offset + bytes.length, rest⟩) := by
    intro k hk htype
    obtain ⟨word, hword, -⟩ := Encoded.field_eq_ok.mp h
    obtain ⟨code, hcode, hlimit, -⟩ := Field.word?_eq_some.mp hword
    rw [htype] at hcode
    obtain rfl := Option.some.inj hcode
    refine (Reader.run_field_append h).mpr ⟨⟨⟨⟨hk, hlimit⟩, rfl⟩, ?_, rfl⟩, rfl⟩
    rw [htype]
    rfl
  refine ⟨fun g c hg => ?_, ⟨?_, ?_⟩, hmapping⟩
  · obtain ⟨⟨-, -, hcount⟩, hc⟩ := (Reader.run_field_append h).mp hg
    exact ⟨hcount, hc⟩
  · rintro hkept ⟨k, hk, htype⟩
    have hmapped := hkept _ _ (hmapping k hk htype)
    rw [htype] at hmapped
    cases hmapped
  · intro hovershoots g c hg
    obtain ⟨⟨hwell, hcode, -⟩, -⟩ := (Reader.run_field_append h).mp hg
    obtain ⟨word, hword, -⟩ := Encoded.field_eq_ok.mp h
    obtain ⟨code, hf, -⟩ := Field.word?_eq_some.mp hword
    have hsame := FieldType.eq_or_overshoots hf (hcode.trans hf) hwell.type
    exact hsame.resolve_right hovershoots

end

/-- An array whose elements overshoot by one, in a module with one structure and one mapping. -/
theorem field_read_back_iff_of_overshooting_array :
    let f : Field := { type := .struct ⟨.pending, 1⟩, count := 3 }
    let bytes : List UInt8 := [21, 0, 0, 0x80, 3, 0, 0, 0, 0, 0, 0, 0]
    Encoded.field 1 "A" 0 f = .ok bytes ∧ f.type.Overshoots 1 1 ∧
      (Reader.field 1 1).run ⟨80, bytes ++ [7]⟩ =
        .ok ({ type := .mapped 0, count := 3 }, ⟨92, [7]⟩) := by
  intro f bytes
  have hbytes : Encoded.field 1 "A" 0 f = .ok bytes := by decide
  have hread := (field_read_back_iff hbytes 1 80 [7]).2.2 0 (by decide) rfl
  exact ⟨hbytes, ⟨0, by decide, rfl⟩, hread⟩

/-- A description with one structure, whose field is the structure behind it, and one mapping. -/
def Descriptor.overshooting : Descriptor where
  dependencies := [⟨"/lib/base", none⟩]
  mappings := ⟨[⟨0, "Point"⟩], []⟩
  structures := [{ name := "A", owner := .pending, index := 0, fields := [
    { type := .struct ⟨.pending, 1⟩ }] }]

/-- A structure that is not there is written, and read as a structure of another module. -/
theorem overshooting_field_is_read_as_mapped :
    ∃ bytes, encode .latest .latest Descriptor.overshooting = .ok bytes ∧
      decode bytes = .ok { Descriptor.overshooting with
        structures := [{ name := "A", owner := .pending, index := 0, fields := [
          { type := .mapped 0 }] }] } := by
  refine ⟨_, rfl, ?_⟩
  decide +kernel

end ModuleLinker
