import ModuleLinker.Proofs.Image.Whole

/-!
# Images and descriptions correspond

Writing and reading are inverse to each other: a well-formed description is read back from its
image as it was, floats by their bits, and whatever bytes are read as a description are the image
that would be written for it. No description has two images, and no image can be malformed in a
way that reading forgives.
-/
namespace ModuleLinker

/-- A well-formed description has an image for the versions that it names, and the image is read
back as the same description. -/
theorem decode_encode {d : Descriptor} (h : d.WellFormed) :
    ∃ bytes, encode d.fileVersion d.instructionSet d = .ok bytes ∧ decode bytes = .ok d := by
  obtain ⟨bytes, hbytes⟩ := h.exists_bytes d.fileVersion d.instructionSet
  exact ⟨bytes, hbytes, decode_eq_ok_iff.mpr ⟨h, hbytes⟩⟩

/-- A description that uses every section: single values and arrays of all three kinds of types, a
forward reference, a NaN with a payload, both versions that are read, and streams with labels. -/
def Descriptor.specimen : Descriptor where
  fileVersion := .v4
  instructionSet := .v5
  dependencies := [⟨"../lib/shapes", none⟩, ⟨"/core", none⟩]
  mappings := ⟨[⟨1, "Point"⟩, ⟨0, "Größe"⟩], [⟨0, "area"⟩]⟩
  constants := ⟨[0, 0xffffffff], [0x8000000000000000], [⟨0x7fc00001⟩, ⟨0x80000000⟩],
    [⟨0x7ff8000000000002⟩]⟩
  structures := [
    { name := "Box", owner := .pending, index := 0, fields := [
        { type := .struct ⟨.pending, 1⟩, count := 3 }, { type := .mapped 1 },
        { type := .fundamental .gcPointer, count := 0xffffffffffffffff }] },
    { name := "Empty", owner := .pending, index := 1, fields := [] }]
  functions := [⟨"main", .pending, 0, 2, true, .bytecode (.ofCode [1] [(.push, 7), (.jmp, 0)])⟩]
  entry := .ofCode [] [(.nop, 0), (.call, 0), (.ret, 0)]

theorem decode_encode_specimen :
    Descriptor.specimen.WellFormed ∧
      ∃ bytes, encode Descriptor.specimen.fileVersion Descriptor.specimen.instructionSet .specimen =
        .ok bytes ∧ decode bytes = .ok .specimen := by
  have h : Descriptor.specimen.WellFormed := by decide +kernel
  exact ⟨h, decode_encode h⟩

/-- Bytes that decode are the image of the description that they hold, and the only one. -/
theorem encode_of_decode {bytes : List UInt8} {d : Descriptor} (h : decode bytes = .ok d) :
    encode d.fileVersion d.instructionSet d = .ok bytes ∧
      ∀ other, decode other = .ok d → other = bytes := by
  have hbytes := (decode_eq_ok_iff.mp h).2
  refine ⟨hbytes, fun other hother => ?_⟩
  exact Except.ok.inj ((decode_eq_ok_iff.mp hother).2.symm.trans hbytes)

/-- An image with one structure of one array field, and an entry stream with one label. -/
def tinyImage : List UInt8 :=
  magic ++ [4, 0, 4, 0] ++ List.replicate 28 0 ++
    [1, 0, 0, 0, 1, 0, 0, 0, 0x41, 1, 0, 0, 0, 3, 0, 0, 0x80, 2, 0, 0, 0, 0, 0, 0, 0] ++
    [0, 0, 0, 0] ++ [1, 0, 0, 0, 0, 0, 0, 0, 0, 0, 0, 0, 1, 0, 0, 0, 0, 0, 0, 0, 1, 7, 0, 0, 0]

/-- The description that the image holds. -/
def Descriptor.tiny : Descriptor where
  structures := [{ name := "A", owner := .pending, index := 0, fields := [
    { type := .fundamental .int, count := 2 }] }]
  entry := .ofCode [0] [(.push, 7)]

theorem encode_of_decode_tiny :
    decode tinyImage = .ok .tiny ∧
      encode Descriptor.tiny.fileVersion Descriptor.tiny.instructionSet .tiny = .ok tinyImage ∧
      ∀ other, decode other = .ok .tiny → other = tinyImage := by
  have h : decode tinyImage = .ok .tiny := by decide +kernel
  exact ⟨h, encode_of_decode h⟩

end ModuleLinker
