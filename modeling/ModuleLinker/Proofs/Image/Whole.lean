import ModuleLinker.Proofs.Image.Records

/-!
# Whole images

The bytes that decode to a description are its encoding for the versions that it names, and a
description has such bytes exactly if it is well-formed.
-/
namespace ModuleLinker

theorem Version.ofOrdinal?_eq_some {n : UInt16} {v : Version} :
    ofOrdinal? n = some v ↔ n = v.ordinal := by
  constructor
  · intro h
    have hnodup : all.Nodup := by decide
    have hlt : v.ordinal.toNat < all.length := by cases v <;> decide
    have hindex := (List.getElem?_inj hlt hnodup).mp ((ofOrdinal?_ordinal v).trans h.symm)
    exact UInt16.toNat_inj.mp hindex.symm
  · rintro rfl
    exact ofOrdinal?_ordinal v

/-- The sections of an image as they are read. -/
theorem encode_eq_concat (fileVersion instructionSet : Version) (d : Descriptor) :
    encode fileVersion instructionSet d = .concat [
      .ok magic, .ok (littleEndian 2 fileVersion.ordinal.toNat),
      .ok (littleEndian 2 instructionSet.ordinal.toNat),
      .table .dependencies (fun dependency => .text dependency.spec) d.dependencies,
      .concat [.table .mappings .mapping d.mappings.structures,
        .table .mappings .mapping d.mappings.functions],
      .constants d.constants,
      .table .structures (.structureOf d.structures.length) d.structures,
      .table .functions (.function instructionSet) d.functions,
      .instructions instructionSet d.entry] := by
  simp only [encode, Encoded.concat, Encoded.ok_bind, bind_assoc, pure_bind, List.append_assoc,
    List.append_nil]

namespace Reader

/-- The end of a version: what was found must be the number of a supported one. -/
theorem parses_supported (field : VersionField) (found : UInt16) :
    Parses (match Version.ofOrdinal? found with
      | some v => if v.isSupported then pure v else throw (.unsupportedVersion field found)
      | none => throw (.unsupportedVersion field found)) fun v bytes =>
        (v.isSupported = true ∧ found = v.ordinal) ∧ bytes = [] := by
  split
  · next v h =>
    have hfound := Version.ofOrdinal?_eq_some.mp h
    split
    · next hv =>
      refine (parses_pure v).congr fun w bytes => and_congr_left' ⟨?_, ?_⟩
      · rintro rfl
        exact ⟨hv, hfound⟩
      · rintro ⟨-, hw⟩
        rw [hw, Version.ofOrdinal?_ordinal] at h
        exact (Option.some.inj h).symm
    · next hv =>
      refine (parses_throw _).congr fun w bytes => ⟨False.elim, ?_⟩
      rintro ⟨⟨hw, hordinal⟩, -⟩
      rw [hordinal, Version.ofOrdinal?_ordinal] at h
      exact hv (Option.some.inj h ▸ hw)
  · next h =>
    refine (parses_throw _).congr fun w bytes => ⟨False.elim, ?_⟩
    rintro ⟨⟨-, hw⟩, -⟩
    rw [hw, Version.ofOrdinal?_ordinal] at h
    cases h

theorem parses_version (field : VersionField) :
    Parses (version field) fun v bytes =>
      v.isSupported = true ∧ (.ok (littleEndian 2 v.ordinal.toNat) : Encoded) = .ok bytes := by
  refine (parses_bind parses_word16 (parses_supported field)).congr fun v bytes => ?_
  constructor
  · rintro ⟨_, _, _, rfl, ⟨⟨hv, rfl⟩, rfl⟩, rfl⟩
    exact ⟨hv, by rw [List.append_nil]⟩
  · rintro ⟨hv, h⟩
    cases h
    exact ⟨_, _, [], rfl, ⟨⟨hv, rfl⟩, rfl⟩, (List.append_nil _).symm⟩

theorem parses_header : Parses header fun _ bytes => True ∧ (.ok magic : Encoded) = .ok bytes := by
  intro c x c'
  constructor
  · intro h
    simp only [header, StateT.run] at h
    split at h
    · next hmagic =>
      have hrest := List.take_append_drop magic.length c.rest
      rw [hmagic] at hrest
      cases h
      exact ⟨magic, ⟨trivial, rfl⟩, hrest.symm, rfl⟩
    · cases h
  · rintro ⟨_, ⟨-, hbytes⟩, hrest, hoffset⟩
    cases hbytes
    obtain ⟨offset', rest'⟩ := c'
    simp only at hrest hoffset
    simp [header, StateT.run, hrest, hoffset]

/-- An image without the check that nothing follows. -/
def sections : Reader Descriptor := do
  header
  let fileVersion ← version .fileFormat
  let instructionSet ← version .instructionSet
  let dependencies ← table 4 fun _ => dependency
  let mappings ← mappings dependencies.length
  let constants ← constants
  let structures ← structures mappings.structures.length
  let functions ← table 19 fun index => functionAt instructionSet index
  let entry ← instructions instructionSet
  return { fileVersion, instructionSet, dependencies, mappings, constants, structures,
           functions, entry }

theorem image_eq : image = sections >>= fun d => finish >>= fun _ => pure d := by
  simp only [image, sections, bind_assoc, pure_bind]

theorem parses_sections :
    Parses sections fun d bytes =>
      d.WellFormed ∧ encode d.fileVersion d.instructionSet d = .ok bytes := by
  have hdependencies : Parses (table 4 fun _ => dependency) _ :=
    parses_table .dependencies (fun _ => parses_dependency)
      fun d bytes h => Encoded.le_length_of_text h
  have hfunctions (v : Version) : Parses (table 19 fun index => functionAt v index) _ :=
    parses_table .functions (fun index => parses_functionAt v index)
      fun f bytes h => Encoded.le_length_of_function h
  have hsections := parses_section (fun _ : Descriptor => ()) parses_header (fun _ _ _ => rfl)
    fun _ =>
    parses_section Descriptor.fileVersion (parses_version .fileFormat)
      (fun _ _ h => congrArg Descriptor.fileVersion h.2.2.2.2.2.2.2) fun fileVersion =>
    parses_section Descriptor.instructionSet (parses_version .instructionSet)
      (fun _ _ h => congrArg Descriptor.instructionSet h.2.2.2.2.2.2) fun instructionSet =>
    parses_section Descriptor.dependencies hdependencies
      (fun _ _ h => congrArg Descriptor.dependencies h.2.2.2.2.2) fun dependencies =>
    parses_section Descriptor.mappings (parses_mappings dependencies.length)
      (fun _ _ h => congrArg Descriptor.mappings h.2.2.2.2) fun mappings =>
    parses_section Descriptor.constants parses_constants
      (fun _ _ h => congrArg Descriptor.constants h.2.2.2) fun constants =>
    parses_section Descriptor.structures (parses_structures mappings.structures.length)
      (fun _ _ h => congrArg Descriptor.structures h.2.2) fun structures =>
    parses_section Descriptor.functions (hfunctions instructionSet)
      (fun _ _ h => congrArg Descriptor.functions h.2) fun functions =>
    parses_section Descriptor.entry (parses_instructions instructionSet)
      (fun _ _ h => congrArg Descriptor.entry h) fun entry =>
    parses_sections_end { fileVersion, instructionSet, dependencies, mappings, constants,
                          structures, functions, entry : Descriptor }
  refine hsections.congr fun d bytes => ?_
  rw [encode_eq_concat]
  constructor
  · rintro ⟨⟨-, hfile, hset, hdependencies, hmappings, hconstants, hstructures, hfunctions, hentry,
      hd⟩, h⟩
    have hpath : d.path = none := by rw [← hd]
    exact ⟨⟨hpath, hfile, hset, hdependencies, hmappings, hconstants, hstructures, hfunctions,
      hentry⟩, h⟩
  · rintro ⟨⟨hpath, hfile, hset, hdependencies, hmappings, hconstants, hstructures, hfunctions,
      hentry⟩, h⟩
    refine ⟨⟨trivial, hfile, hset, hdependencies, hmappings, hconstants, hstructures, hfunctions,
      hentry, ?_⟩, h⟩
    rw [← hpath]

theorem run_finish_eq_ok {c c' : Cursor} :
    finish.run c = .ok ((), c') ↔ c = c' ∧ c.rest = [] := by
  simp only [finish, run_bind_eq_ok]
  constructor
  · rintro ⟨left, mid, hleft, h⟩
    cases hleft
    split at h
    · next hzero =>
      cases h
      exact ⟨rfl, List.eq_nil_of_length_eq_zero hzero⟩
    · cases h
  · rintro ⟨rfl, hrest⟩
    refine ⟨c.rest.length, c, rfl, ?_⟩
    rw [hrest, List.length_nil, if_pos rfl]
    rfl

end Reader

/-- Bytes decode to a description if it is well-formed and they are its encoding for the versions
that it names. -/
theorem decode_eq_ok_iff {bytes : List UInt8} {d : Descriptor} :
    decode bytes = .ok d ↔
      d.WellFormed ∧ encode d.fileVersion d.instructionSet d = .ok bytes := by
  have hrun : decode bytes = .ok d ↔ ∃ c, Reader.image.run ⟨0, bytes⟩ = .ok (d, c) := by
    unfold decode
    cases Reader.image.run ⟨0, bytes⟩ with
    | error e => simp [Except.map]
    | ok found =>
      obtain ⟨found, c⟩ := found
      simp [Except.map]
  rw [hrun, Reader.image_eq]
  simp only [Reader.run_bind_eq_ok, Reader.run_pure_eq_ok]
  constructor
  · rintro ⟨c, e, mid, hsections, _, end', hfinish, rfl, rfl⟩
    obtain ⟨rfl, hrest⟩ := Reader.run_finish_eq_ok.mp hfinish
    obtain ⟨front, hd, hbytes, -⟩ := (Reader.parses_sections ..).mp hsections
    obtain rfl : bytes = front := by simpa [hrest] using hbytes
    exact hd
  · intro hd
    have hsections := (Reader.parses_sections ⟨0, bytes⟩ d ⟨bytes.length, []⟩).mpr
      ⟨bytes, hd, (List.append_nil bytes).symm, (Nat.zero_add _).symm⟩
    exact ⟨_, d, _, hsections, (), _, Reader.run_finish_eq_ok.mpr ⟨rfl, rfl⟩, rfl, rfl⟩

/-! ## Every well-formed description has an image -/

theorem ShortText.exists_bytes {s : String} (h : ShortText s) :
    ∃ bytes, Encoded.text s = .ok bytes :=
  ⟨_, Encoded.text_eq_ok.mpr ⟨h, rfl⟩⟩

theorem Mapping.WellFormed.exists_bytes {m : Mapping} {dependencies : Nat}
    (h : m.WellFormed dependencies) : ∃ bytes, Encoded.mapping m = .ok bytes := by
  obtain ⟨name, hname⟩ := h.name.exists_bytes
  exact ⟨_, Encoded.mapping_eq_ok.mpr ⟨name, hname, rfl⟩⟩

theorem FieldType.WellFormed.exists_code {structures mappings : Nat} {t : FieldType}
    (h : t.WellFormed structures mappings) :
    ∃ code, t.code? structures = some code ∧ code < TypeCode.limit := by
  cases t with
  | fundamental t =>
    have hstorable : t.isStorable = true := h
    refine ⟨t.code, if_pos hstorable, ?_⟩
    cases t <;> decide
  | struct id =>
    obtain ⟨owner, index⟩ := id
    obtain ⟨rfl, -, hlimit⟩ := h
    exact ⟨_, rfl, hlimit⟩
  | mapped index => exact ⟨_, rfl, h.2⟩

theorem Field.WellFormed.exists_bytes {structures mappings : Nat} {f : Field}
    (h : f.WellFormed structures mappings) (owner : String) (position : Nat) :
    ∃ bytes, Encoded.field structures owner position f = .ok bytes := by
  obtain ⟨code, hcode, hlimit⟩ := h.type.exists_code
  exact ⟨_, Encoded.field_eq_ok.mpr ⟨_, Field.word?_eq_some.mpr ⟨code, hcode, hlimit, rfl⟩, rfl⟩⟩

theorem Structure.WellFormed.exists_bytes {structures mappings position : Nat} {s : Structure}
    (h : s.WellFormed structures mappings position) :
    ∃ bytes, Encoded.structureOf structures s = .ok bytes := by
  have hfields : ∃ bytes, Encoded.fields structures s.name s.fields = .ok bytes := by
    have hparts : ∀ part ∈ s.fields.mapIdx (Encoded.field structures s.name),
        ∃ bytes, part = .ok bytes := by
      intro part hpart
      obtain ⟨i, hi, rfl⟩ := List.mem_mapIdx.mp hpart
      exact (h.fields.entry i _ (List.getElem?_eq_getElem hi)).exists_bytes s.name i
    obtain ⟨back, hback⟩ := Encoded.exists_concat hparts
    exact ⟨_, Encoded.fields_eq_ok.mpr ⟨h.fields.length, back, hback, rfl⟩⟩
  rw [Encoded.structureOf_eq_concat]
  refine Encoded.exists_concat fun part hpart => ?_
  simp only [List.mem_cons, List.not_mem_nil, or_false] at hpart
  cases hpart with
  | inl h' => exact h' ▸ h.name.exists_bytes
  | inr h' => exact h' ▸ hfields

theorem Function.WellFormed.exists_bytes {position : Nat} {f : Function} (h : f.WellFormed position)
    (v : Version) : ∃ bytes, Encoded.function v f = .ok bytes := by
  obtain ⟨stream, hbody, hstream⟩ := h.body
  obtain ⟨name, hname⟩ := h.name.exists_bytes
  obtain ⟨code, hcode⟩ := hstream.exists_bytes v
  rw [Encoded.function_eq_concat v hbody, hname, hcode]
  exact ⟨_, rfl⟩

theorem ConstantPool.WellFormed.exists_bytes {p : ConstantPool} (h : p.WellFormed) :
    ∃ bytes, Encoded.constants p = .ok bytes := by
  refine Encoded.exists_concat fun part hpart => ?_
  simp only [List.mem_cons, List.not_mem_nil, or_false] at hpart
  rcases hpart with rfl | rfl | rfl | rfl
  · exact h.ints.exists_table .constants fun _ _ _ => ⟨_, rfl⟩
  · exact h.longs.exists_table .constants fun _ _ _ => ⟨_, rfl⟩
  · exact h.singles.exists_table .constants fun _ _ _ => ⟨_, rfl⟩
  · exact h.doubles.exists_table .constants fun _ _ _ => ⟨_, rfl⟩

/-- A well-formed description has an image for every pair of versions. -/
theorem Descriptor.WellFormed.exists_bytes {d : Descriptor} (h : d.WellFormed)
    (fileVersion instructionSet : Version) :
    ∃ bytes, encode fileVersion instructionSet d = .ok bytes := by
  refine Encoded.exists_concat fun part hpart => ?_
  simp only [List.mem_cons, List.not_mem_nil, or_false] at hpart
  rcases hpart with rfl | rfl | rfl | rfl | rfl | rfl | rfl | rfl
  · exact ⟨_, rfl⟩
  · exact h.dependencies.exists_table .dependencies fun _ _ hx => hx.spec.exists_bytes
  · exact h.mappings.structures.exists_table .mappings fun _ _ hm => hm.exists_bytes
  · exact h.mappings.functions.exists_table .mappings fun _ _ hm => hm.exists_bytes
  · exact h.constants.exists_bytes
  · exact h.structures.exists_table .structures fun _ _ hs => hs.exists_bytes
  · exact h.functions.exists_table .functions fun _ _ hf => hf.exists_bytes instructionSet
  · exact h.entry.exists_bytes instructionSet

end ModuleLinker
