import ModuleLinker.Proofs.DecodedImages

/-!
# Offsets in streams

A stream stamps every instruction with the place that its opcode will have among the bytes of the
stream, long before there are any. Whoever writes the stream, and whoever reads it back, has an own
idea of how long an instruction is; the three agree for every opcode and every version, so the
stamps are right whatever was done to the stream, and a label leads to the opcode of the instruction
that it names.
-/
namespace ModuleLinker

/-! ## Streams and what is done to them -/

namespace Instructions

/-- What may be done to a stream. -/
inductive Edit where
  | push (opcode : Opcode) (operand : UInt32)
  | addLabel (target : UInt64)
  | setLabel (label : Nat) (target : UInt64)
  | clear

/-- The stream after an edit. -/
def edit (s : Instructions) : Edit → Instructions
  | .push opcode operand => (s.push opcode operand).2
  | .addLabel target => (s.addLabel target).2
  | .setLabel label target => (s.setLabel label target).2
  | .clear => .empty

/-- The stream that edits make of the empty one. -/
def edited (edits : List Edit) : Instructions := edits.foldl edit .empty

variable {s : Instructions} {v : Version} {bytes front back : List UInt8}

theorem Built.edit (h : s.Built) (e : Edit) : (s.edit e).Built := by
  cases e with
  | push opcode operand => exact h.push opcode operand
  | addLabel target => exact h.addLabel target
  | setLabel label target => exact h.setLabel label target
  | clear => exact .empty

theorem built_edited (edits : List Edit) : (edited edits).Built := by
  suffices hrun : ∀ s : Instructions, s.Built → (edits.foldl Instructions.edit s).Built from
    hrun .empty .empty
  induction edits with
  | nil => exact fun _ h => h
  | cons e edits ih => exact fun s h => ih _ (h.edit e)

end Instructions

/-! ## Writing -/

namespace Encoded

open Instructions

variable {v : Version} {i : Instruction} {is js : List Instruction} {bytes front back : List UInt8}

/-- An instruction is written with as many bytes as its opcode announces. -/
theorem length_instruction (h : instruction v i = .ok bytes) :
    bytes.length = i.opcode.encodedLength := by
  obtain ⟨byte, -, rfl⟩ := instruction_eq_ok.mp h
  rw [Opcode.encodedLength]
  split
  · rw [List.length_cons, length_littleEndian]
  · rfl

theorem code_cons_eq_ok : code v (i :: is) = .ok bytes ↔
    ∃ front back, instruction v i = .ok front ∧ code v is = .ok back ∧ bytes = front ++ back :=
  concat_cons_eq_ok

theorem length_code (h : code v is = .ok bytes) : bytes.length = spanOf is := by
  induction is generalizing bytes with
  | nil =>
    rw [code, List.map_nil, concat_nil_eq_ok] at h
    rw [h]
    rfl
  | cons i is ih =>
    obtain ⟨front, back, hfront, hback, rfl⟩ := code_cons_eq_ok.mp h
    rw [List.length_append, length_instruction hfront, ih hback, spanOf]

theorem code_append (hfront : code v is = .ok front) (hback : code v js = .ok back) :
    code v (is ++ js) = .ok (front ++ back) := by
  induction is generalizing front with
  | nil =>
    rw [code, List.map_nil, concat_nil_eq_ok] at hfront
    rw [hfront]
    exact hback
  | cons i is ih =>
    obtain ⟨first, rest, hfirst, hrest, rfl⟩ := code_cons_eq_ok.mp hfront
    exact code_cons_eq_ok.mpr ⟨first, rest ++ back, hfirst, ih hrest, List.append_assoc ..⟩

end Encoded

namespace Instructions

variable {s : Instructions} {v : Version} {bytes : List UInt8}

/-- The opcode of the instruction at a position stands at an offset of a code section: so many are
the bytes of the instructions before it. -/
def OpcodeAt (s : Instructions) (v : Version) (written : List UInt8) (position offset : Nat) :
    Prop :=
  ∃ i byte before after, s.get? position = some i ∧ v.encodeOpcode? i.opcode = some byte ∧
    Encoded.code v (s.code.take position) = .ok before ∧ written = before ++ byte :: after ∧
    before.length = offset

theorem Built.opcodeAt (h : s.Built) (hbytes : Encoded.code v s.code = .ok bytes) {n : Nat}
    {i : Instruction} (hi : s.get? n = some i) : s.OpcodeAt v bytes n i.offset := by
  obtain ⟨before, hbefore⟩ := Encoded.exists_code v (s.code.take n)
  obtain ⟨after, hafter⟩ := Encoded.exists_code v (i :: s.code.drop (n + 1))
  obtain ⟨own, rest, hown, -, rfl⟩ := Encoded.code_cons_eq_ok.mp hafter
  obtain ⟨byte, hbyte, rfl⟩ := Encoded.instruction_eq_ok.mp hown
  have hsplit : s.code.take n ++ i :: s.code.drop (n + 1) = s.code := by
    obtain ⟨hn, rfl⟩ := List.getElem?_eq_some_iff.mp hi
    rw [← List.drop_eq_getElem_cons hn, List.take_append_drop]
  have hall := Encoded.code_append hbefore hafter
  rw [hsplit, hbytes] at hall
  refine ⟨i, byte, before, _, hi, hbyte, hbefore, Except.ok.inj hall, ?_⟩
  rw [Encoded.length_code hbefore, h.contiguous.offset n i hi]

/-- A stream knows where things are in its code section: how long that is, where each opcode stands,
and where a label leads, unless it names no instruction or is not there. -/
structure Locates (s : Instructions) (v : Version) (written : List UInt8) : Prop where
  byteLength : s.byteLength = written.length
  offset : ∀ n i, s.get? n = some i → s.OpcodeAt v written n i.offset
  label : ∀ label target, s.label? label = some target → target.toNat < s.size →
    ∃ offset, s.labelOffset? label = some offset ∧ s.OpcodeAt v written target.toNat offset
  stray : ∀ label target, s.label? label = some target → s.size ≤ target.toNat →
    s.labelOffset? label = none
  unknown : ∀ label, s.label? label = none → s.labelOffset? label = none

theorem Built.locates (h : s.Built) (hbytes : Encoded.code v s.code = .ok bytes) :
    s.Locates v bytes := by
  refine ⟨?_, fun n i => h.opcodeAt hbytes, fun label target hlabel htarget => ?_,
    fun label target hlabel htarget => ?_, fun label hlabel => ?_⟩
  · rw [h.contiguous.byteLength, Encoded.length_code hbytes]
  · have hi := List.getElem?_eq_getElem htarget
    exact ⟨_, labelOffset?_eq_some.mpr ⟨target, _, hlabel, hi, rfl⟩, h.opcodeAt hbytes hi⟩
  · have hnone : s.get? target.toNat = none := List.getElem?_eq_none htarget
    simp [labelOffset?, hlabel, hnone]
  · simp [labelOffset?, hlabel]

end Instructions

/-! ## Reading back -/

namespace Reader

open Instructions

variable {s : Instructions} {v : Version} {bytes rest : List UInt8} {offset : Nat}

theorem run_bind_of_ok {α β : Type} {r : Reader α} {f : α → Reader β} {c mid : Cursor} {x : α}
    (h : r.run c = .ok (x, mid)) : (r >>= f).run c = (f x).run mid := by
  rw [StateT.run_bind, h]
  rfl

/-- The instructions that are read from a code section are stamped as those that were written. -/
theorem run_code (h : s.Built) (hbytes : Encoded.code v s.code = .ok bytes) :
    (elementsFrom (fun _ => instruction v) 0 s.size).run ⟨offset, bytes ++ rest⟩ =
      .ok (s.parts, ⟨offset + bytes.length, rest⟩) := by
  rw [Encoded.code_eq_concat_parts, ← Encoded.mapIdx_const] at hbytes
  refine (parses_elementsFrom (fun _ => parses_instruction v) 0 s.size ..).mpr
    ⟨bytes, ⟨s.length_parts, fun n i hi => ?_, hbytes⟩, rfl, rfl⟩
  exact h.noStray i (List.mem_of_getElem? hi)

theorem run_instructions (h : s.Built) (hlabels : s.labels.length < 0x100000000)
    (hsize : s.size < 0x10000000000000000) (hbytes : Encoded.instructions v s = .ok bytes)
    (hnamed : ∀ target ∈ s.labels, target.toNat < s.size) :
    (instructions v).run ⟨offset, bytes ++ rest⟩ = .ok (s, ⟨offset + bytes.length, rest⟩) :=
  (parses_instructions v ..).mpr ⟨bytes, ⟨⟨h, hnamed, hlabels, hsize⟩, hbytes⟩, rfl, rfl⟩

/-- A label that names no instruction, those before it naming one. -/
structure FirstStray (s : Instructions) (label : Nat) (target : UInt64) : Prop where
  there : s.label? label = some target
  stray : s.size ≤ target.toNat
  first : ∀ earlier < label, ∀ t, s.label? earlier = some t → t.toNat < s.size

theorem FirstStray.strayLabel? {label : Nat} {target : UInt64} (h : FirstStray s label target) :
    strayLabel? s.labels s.size = some (.labelOutOfRange label target.toNat s.size) := by
  obtain ⟨hlt, rfl⟩ := List.getElem?_eq_some_iff.mp h.there
  have hfirst : s.labels.findIdx? (fun target => decide (s.size ≤ target.toNat)) = some label := by
    refine List.findIdx?_eq_some_iff_getElem.mpr
      ⟨hlt, by simpa using h.stray, fun earlier hearlier => ?_⟩
    have hearly := List.getElem?_eq_getElem (Nat.lt_trans hearlier hlt)
    simpa using h.first earlier hearlier _ hearly
  simp [Reader.strayLabel?, hfirst, List.getElem?_eq_getElem hlt]

/-- A stream with a stray label is read to its end and refused. -/
theorem run_instructions_of_stray (h : s.Built) (hsize : s.size < 0x10000000000000000)
    (hbytes : Encoded.instructions v s = .ok bytes) {label : Nat} {target : UInt64}
    (hstray : FirstStray s label target) :
    (instructions v).run ⟨offset, bytes ++ rest⟩ =
      .error (.labelOutOfRange label target.toNat s.size) := by
  obtain ⟨labels, code, hlabels, hcode, rfl⟩ := Encoded.instructions_eq_ok.mp hbytes
  have hcount := (Encoded.table_eq_ok.mp hlabels).1
  have hfirst := (parses_labels ⟨offset, labels ++ (littleEndian 8 s.size ++ code) ++ rest⟩ s.labels
    ⟨offset + labels.length, littleEndian 8 s.size ++ code ++ rest⟩).mpr
      ⟨labels, ⟨⟨hcount, fun _ _ _ => trivial⟩, hlabels⟩, by simp, rfl⟩
  rw [Encoded.code_eq_concat_parts] at hcode
  have hsecond := (parses_code v ⟨offset + labels.length, littleEndian 8 s.size ++ code ++ rest⟩
    s.parts ⟨_, rest⟩).mpr ⟨_, ⟨h.noStray, by rwa [length_parts], code, hcode, rfl⟩,
      by rw [length_parts], rfl⟩
  rw [instructions_eq, run_bind_of_ok hfirst, run_bind_of_ok hsecond, length_parts,
    hstray.strayLabel?]
  rfl

end Reader

namespace Instructions

variable {s : Instructions} {v : Version} {code : List UInt8}

/-- What is read back of a stream: from its code section, instructions with the same offsets,
whatever labels are read with them, and from all its bytes the stream itself, unless a label names
no instruction. -/
structure ReadsBack (s : Instructions) (v : Version) (code : List UInt8) : Prop where
  stamps : ∀ offset rest, ∃ parts,
    (Reader.elementsFrom (fun _ => Reader.instruction v) 0 s.size).run ⟨offset, code ++ rest⟩ =
      .ok (parts, ⟨offset + code.length, rest⟩) ∧
    ∀ labels, (ofCode labels parts).code = s.code ∧ (ofCode labels parts).byteLength = s.byteLength
  whole : ∀ bytes offset rest, s.size < 0x10000000000000000 →
    Encoded.instructions v s = .ok bytes → (∀ target ∈ s.labels, target.toNat < s.size) →
      (Reader.instructions v).run ⟨offset, bytes ++ rest⟩ = .ok (s, ⟨offset + bytes.length, rest⟩)
  refused : ∀ bytes offset rest, s.size < 0x10000000000000000 →
    Encoded.instructions v s = .ok bytes → ∀ label target, Reader.FirstStray s label target →
      (Reader.instructions v).run ⟨offset, bytes ++ rest⟩ =
        .error (.labelOutOfRange label target.toNat s.size)

theorem Built.readsBack (h : s.Built) (hcode : Encoded.code v s.code = .ok code) :
    s.ReadsBack v code := by
  have hsame := h.eq_ofCode
  refine ⟨fun offset rest => ⟨s.parts, Reader.run_code h hcode, fun labels => ?_⟩,
    fun bytes offset rest hsize hbytes hnamed => ?_,
    fun bytes offset rest hsize hbytes label target => ?_⟩
  · exact ⟨(congrArg Instructions.code hsame).symm, (congrArg byteLength hsame).symm⟩
  · obtain ⟨labels, back, hlabels, -, -⟩ := Encoded.instructions_eq_ok.mp hbytes
    exact Reader.run_instructions h (Encoded.table_eq_ok.mp hlabels).1 hsize hbytes hnamed
  · exact Reader.run_instructions_of_stray h hsize hbytes

/-- Whatever was done to a stream, it can be written for every version, and it knows where things
are among the bytes of its instructions: the offset of an instruction is the number of bytes in
front of its opcode, the length is the number of all of them, and a label leads to the opcode of the
instruction that it names and nowhere if it names none. What is read back carries the same
offsets. -/
theorem offsets_on_disk (edits : List Edit) (v : Version) :
    ∃ code, Encoded.code v (edited edits).code = .ok code ∧ (edited edits).Locates v code ∧
      (edited edits).ReadsBack v code ∧ ((edited edits).labels.length < 0x100000000 → ∃ labels,
        Encoded.table .labels (fun target => .ok (littleEndian 8 target.toNat))
          (edited edits).labels = .ok labels ∧
        Encoded.instructions v (edited edits) =
          .ok (labels ++ (littleEndian 8 (edited edits).size ++ code))) := by
  have hbuilt := built_edited edits
  obtain ⟨code, hcode⟩ := Encoded.exists_code v (edited edits).code
  refine ⟨code, hcode, hbuilt.locates hcode, hbuilt.readsBack hcode, fun hcount => ?_⟩
  have htable : IsTable (fun _ _ => True) (edited edits).labels := ⟨hcount, fun _ _ _ => trivial⟩
  obtain ⟨labels, hlabels⟩ := htable.exists_table .labels
    (e := fun target => .ok (littleEndian 8 target.toNat)) fun _ _ _ => ⟨_, rfl⟩
  exact ⟨labels, hlabels, Encoded.instructions_eq_ok.mpr ⟨labels, code, hlabels, hcode, rfl⟩⟩

/-- After a clearance and a retargeting one label leads behind a long instruction and a short one,
and the next one to the end of the stream, for which the stream is not read back. -/
theorem offsets_on_disk_after_clear :
    let s := edited [.push .push 7, .addLabel 9, .clear, .addLabel 0, .push .call 1, .push .nop 3,
      .push .jmp 0, .addLabel 3, .setLabel 0 2]
    s.labelOffset? 0 = some 6 ∧ s.labelOffset? 1 = none ∧ ∃ code bytes,
      Encoded.code .v2 s.code = .ok code ∧ code.length = 11 ∧ s.OpcodeAt .v2 code 2 6 ∧
        Encoded.instructions .v2 s = .ok bytes ∧
          (Reader.instructions .v2).run ⟨0, bytes⟩ = .error (.labelOutOfRange 1 3 3) := by
  intro s
  obtain ⟨code, hcode, hlocates, hreads, hwritten⟩ := offsets_on_disk [.push .push 7, .addLabel 9,
    .clear, .addLabel 0, .push .call 1, .push .nop 3, .push .jmp 0, .addLabel 3, .setLabel 0 2] .v2
  have hlength : s.byteLength = 11 := by decide +kernel
  have hlabel : s.labelOffset? 0 = some 6 := by decide +kernel
  obtain ⟨offset, hoffset, hopcode⟩ := hlocates.label 0 2 rfl (by decide +kernel)
  obtain rfl : offset = 6 := Option.some.inj (hoffset.symm.trans hlabel)
  obtain ⟨labels, -, hbytes⟩ := hwritten (by decide +kernel)
  have hstray : Reader.FirstStray s 1 3 := by
    refine ⟨rfl, by decide +kernel, fun earlier hearlier t ht => ?_⟩
    obtain rfl : earlier = 0 := Nat.lt_one_iff.mp hearlier
    obtain rfl : 2 = t := Option.some.inj ht
    decide +kernel
  have hrefused := hreads.refused _ 0 [] (by decide +kernel) hbytes 1 3 hstray
  rw [List.append_nil] at hrefused
  exact ⟨hlabel, hlocates.stray 1 3 rfl (by decide +kernel), code, _, hcode,
    hlocates.byteLength.symm.trans hlength, hopcode, hbytes, hrefused⟩

end Instructions
end ModuleLinker
