import ModuleLinker.Proofs.ImageRoundTrip

/-!
# Images of other versions

A description is written alike for all versions, apart from the two words of the header that name
them. All instruction sets number the opcodes alike, and the offsets in a stream are not written. So
an image is brought to other versions by exchanging four of its bytes.
-/
namespace ModuleLinker

namespace Encoded

variable (v w : Version)

/-- No instruction set has bytes of its own. -/
theorem instruction_version : instruction v = instruction w := by
  funext i
  rw [instruction, instruction, Version.encodeOpcode?_eq, Version.encodeOpcode?_eq]

theorem instructions_version : instructions v = instructions w := by
  funext s
  have hcode : code v s.code = code w s.code := by rw [code, code, instruction_version v w]
  rw [instructions, instructions, hcode]

theorem function_version : function v = function w := by
  funext f
  cases hbody : f.body with
  | host => simp only [function, hbody]
  | bytecode stream =>
    rw [function_eq_concat v hbody, function_eq_concat w hbody, instructions_version v w]

/-- The sections of an image behind its header. -/
def sections (d : Descriptor) : Encoded :=
  concat [
    table .dependencies (fun dependency => text dependency.spec) d.dependencies,
    table .mappings mapping d.mappings.structures,
    table .mappings mapping d.mappings.functions,
    constants d.constants,
    table .structures (structureOf d.structures.length) d.structures,
    table .functions (function v) d.functions,
    instructions v d.entry]

theorem sections_version : sections v = sections w := by
  funext d
  rw [sections, sections, function_version v w, instructions_version v w]

/-- The bytes in front of the sections. -/
def header (fileVersion instructionSet : Version) : List UInt8 :=
  magic ++ littleEndian 2 fileVersion.ordinal.toNat ++ littleEndian 2 instructionSet.ordinal.toNat

@[simp] theorem length_header (fileVersion instructionSet : Version) :
    (header fileVersion instructionSet).length = 8 := by
  simp [header, magic]

/-- Headers differ in the four bytes of the versions only. -/
theorem getElem?_header (fileVersion instructionSet : Version) {i : Nat} (hi : i < 4) :
    (header fileVersion instructionSet)[i]? = magic[i]? := by
  have hmagic : i < magic.length := hi
  rw [header, List.append_assoc, List.getElem?_append_left hmagic]

end Encoded

theorem encode_eq_ok {fileVersion instructionSet : Version} {d : Descriptor} {bytes : List UInt8} :
    encode fileVersion instructionSet d = .ok bytes ↔
      ∃ back, Encoded.sections instructionSet d = .ok back ∧
        bytes = Encoded.header fileVersion instructionSet ++ back := by
  refine Encoded.concat_cons_eq_ok.trans ?_
  constructor
  · rintro ⟨_, back, ⟨rfl⟩, hback, rfl⟩
    exact ⟨back, hback, rfl⟩
  · rintro ⟨back, hback, rfl⟩
    exact ⟨_, back, rfl, hback, rfl⟩

/-- A description is well-formed whatever supported versions it names. -/
theorem Descriptor.WellFormed.versions {d : Descriptor} (h : d.WellFormed)
    {fileVersion instructionSet : Version} (hfile : fileVersion.isSupported = true)
    (hset : instructionSet.isSupported = true) :
    { d with fileVersion, instructionSet : Descriptor }.WellFormed :=
  { h with fileVersion := hfile, instructionSet := hset }

/-- The description of an image can be written for every known version. The new image differs from
the old one in the four bytes of the versions only, and if the versions are supported it holds the
same description under them. -/
theorem encode_of_decode_versions {bytes : List UInt8} {d : Descriptor} (h : decode bytes = .ok d)
    (fileVersion instructionSet : Version) :
    ∃ image, encode fileVersion instructionSet d = .ok image ∧ image.length = bytes.length ∧
      (∀ i, i < 4 ∨ 8 ≤ i → image[i]? = bytes[i]?) ∧
      (fileVersion.isSupported = true → instructionSet.isSupported = true →
        decode image = .ok { d with fileVersion, instructionSet }) := by
  obtain ⟨hwell, hbytes⟩ := decode_eq_ok_iff.mp h
  obtain ⟨back, hback, rfl⟩ := encode_eq_ok.mp hbytes
  rw [Encoded.sections_version d.instructionSet instructionSet] at hback
  have himage : encode fileVersion instructionSet d =
      .ok (Encoded.header fileVersion instructionSet ++ back) :=
    encode_eq_ok.mpr ⟨back, hback, rfl⟩
  refine ⟨_, himage, by simp, ?_, fun hfile hset => ?_⟩
  · intro i hi
    rcases hi with hi | hi
    · have hfront : i < 8 := by omega
      rw [List.getElem?_append_left (by simpa using hfront),
        List.getElem?_append_left (by simpa using hfront), Encoded.getElem?_header _ _ hi,
        Encoded.getElem?_header _ _ hi]
    · rw [List.getElem?_append_right (by simpa using hi),
        List.getElem?_append_right (by simpa using hi), Encoded.length_header,
        Encoded.length_header]
  · exact decode_eq_ok_iff.mpr ⟨hwell.versions hfile hset, himage⟩

/-- An image of the newest versions brought to the oldest one that is read. -/
theorem encode_of_decode_versions_tiny :
    decode tinyImage = .ok .tiny ∧ Version.isSupported .v4 = true ∧
      ∃ image, encode .v4 .v4 .tiny = .ok image ∧ image.length = tinyImage.length ∧
        (∀ i, i < 4 ∨ 8 ≤ i → image[i]? = tinyImage[i]?) ∧
        decode image = .ok { Descriptor.tiny with fileVersion := .v4, instructionSet := .v4 } := by
  have h : decode tinyImage = .ok .tiny := by decide +kernel
  have hsupported : Version.isSupported .v4 = true := by decide
  obtain ⟨image, himage, hlength, hsame, hdecode⟩ := encode_of_decode_versions h .v4 .v4
  exact ⟨h, hsupported, image, himage, hlength, hsame, hdecode hsupported hsupported⟩

end ModuleLinker
