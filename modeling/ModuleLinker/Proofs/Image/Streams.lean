import Mathlib.Data.List.Induction
import ModuleLinker.Proofs.Image.Grammar
import ModuleLinker.Proofs.Renumbering

/-!
# Streams in images

An image holds the opcodes, the operands and the labels of a stream. Nothing else is needed: the
byte offsets of a stream that was put together by appending are those that appending the same
instructions again gives. The bytes of opcodes are read and written by inverse tables.
-/
namespace ModuleLinker

/-! ## Opcode bytes -/

namespace Version

theorem flatten_upgradeSteps (v : Version) : v.upgradeSteps.flatten = [] := by
  cases v <;> rfl

theorem encodeOpcode?_eq (v : Version) (o : Opcode) : v.encodeOpcode? o = some o.canonical := by
  have : o.canonical.toNat < 256 := o.canonical.toNat_lt
  simp [encodeOpcode?, downgrade?, flatten_upgradeSteps, this]

/-- A byte is read as the opcode that is written as that byte. -/
theorem decodeOpcode?_eq_some_iff {v : Version} {byte : UInt8} {o : Opcode} :
    v.decodeOpcode? byte = some o ↔ v.encodeOpcode? o = some byte := by
  have hclimb : Shift.climb v.upgradeSteps.flatten ≤ 65280 := by
    cases v <;> decide
  exact ⟨downgrade?_of_upgrade? hclimb, upgrade?_of_downgrade?⟩

end Version

/-! ## Streams put together by appending -/

namespace Instructions

/-- A stream that was put together from the empty one. -/
inductive Built : Instructions → Prop
  | empty : Built .empty
  | push {s : Instructions} (opcode : Opcode) (operand : UInt32) :
    Built s → Built (s.push opcode operand).2
  | addLabel {s : Instructions} (target : UInt64) : Built s → Built (s.addLabel target).2
  | setLabel {s : Instructions} (label : Nat) (target : UInt64) :
    Built s → Built (s.setLabel label target).2

/-- The opcodes and operands of a stream. -/
def parts (s : Instructions) : List (Opcode × UInt32) := s.code.map fun i => (i.opcode, i.operand)

@[simp] theorem length_parts (s : Instructions) : s.parts.length = s.size := by
  simp [parts, size]

theorem ofCode_concat (labels : List UInt64) (code : List (Opcode × UInt32)) (o : Opcode)
    (x : UInt32) : ofCode labels (code ++ [(o, x)]) = ((ofCode labels code).push o x).2 := by
  simp [ofCode, push, size]

/-- Appending drops the operand of an opcode that has none. -/
theorem push_operand (s : Instructions) (o : Opcode) (x : UInt32) :
    s.push o (if o.hasOperand then x else 0) = s.push o x := by
  by_cases h : o.hasOperand <;> simp [push, h]

theorem parts_push (s : Instructions) (o : Opcode) (x : UInt32) :
    (s.push o x).2.parts = s.parts ++ [(o, if o.hasOperand then x else 0)] := by
  simp [parts, push]

theorem built_ofCode (labels : List UInt64) (code : List (Opcode × UInt32)) :
    (ofCode labels code).Built := by
  induction code using List.reverseRecOn with
  | nil =>
    induction labels using List.reverseRecOn with
    | nil => exact .empty
    | append_singleton labels target ih => exact ih.addLabel target
  | append_singleton code i ih =>
    rw [ofCode_concat]
    exact ih.push i.1 i.2

/-- A stream that was put together is given by its labels, opcodes and operands. -/
theorem Built.eq_ofCode {s : Instructions} (h : s.Built) : s = ofCode s.labels s.parts := by
  induction h with
  | empty => rfl
  | @push s o x _ ih =>
    rw [parts_push, ofCode_concat, push_operand, labels_push, ← ih]
  | @addLabel s target _ ih =>
    have hcode : s.code = (ofCode s.labels s.parts).code := congrArg code ih
    have hbytes : s.byteLength = (ofCode s.labels s.parts).byteLength := congrArg byteLength ih
    exact congrArg₂ (Instructions.mk _) hcode hbytes
  | @setLabel s label target _ ih =>
    have hcode : s.code = (ofCode s.labels s.parts).code := congrArg code ih
    have hbytes : s.byteLength = (ofCode s.labels s.parts).byteLength := congrArg byteLength ih
    exact congrArg₂ (Instructions.mk _) hcode hbytes

instance (s : Instructions) : Decidable s.Built :=
  decidable_of_iff (s = ofCode s.labels s.parts)
    ⟨fun h => by
      rw [h]
      exact built_ofCode _ _, Built.eq_ofCode⟩

/-- An operand is zero where the opcode has none. -/
def NoStray (i : Opcode × UInt32) : Prop := i.1.hasOperand = false → i.2 = 0

theorem Built.noStray {s : Instructions} (h : s.Built) : ∀ i ∈ s.parts, NoStray i := by
  induction h with
  | empty => simp [parts, Instructions.empty]
  | @push s o x _ ih =>
    intro i hi
    rw [parts_push, List.mem_append, List.mem_singleton] at hi
    cases hi with
    | inl hi => exact ih i hi
    | inr hi =>
      subst hi
      intro ho
      simp [ho]
  | addLabel target _ ih => exact ih
  | setLabel label target _ ih => exact ih

theorem parts_ofCode (labels : List UInt64) {code : List (Opcode × UInt32)}
    (h : ∀ i ∈ code, NoStray i) : (ofCode labels code).parts = code := by
  induction code using List.reverseRecOn with
  | nil => rfl
  | append_singleton code i ih =>
    have hi : NoStray i := h i (by simp)
    have hcode := ih fun j hj => h j (List.mem_append_left _ hj)
    rw [ofCode_concat, parts_push, hcode]
    by_cases ho : i.1.hasOperand
    · simp [ho]
    · simp [ho, ← hi (by simpa using ho)]

/-- A stream as an image can hold it: put together by appending, with labels that name
instructions, and no more labels and instructions than their counts can say. -/
structure WellFormed (s : Instructions) : Prop where
  built : s.Built
  labels : ∀ target ∈ s.labels, target.toNat < s.size
  labelCount : s.labels.length < 0x100000000
  size : s.size < 0x10000000000000000

instance (s : Instructions) : Decidable s.WellFormed :=
  -- not by running through all words
  haveI : Decidable (∀ target ∈ s.labels, target.toNat < s.size) := List.decidableBAll _ _
  decidable_of_iff (s.Built ∧ (∀ target ∈ s.labels, target.toNat < s.size) ∧
    s.labels.length < 0x100000000 ∧ s.size < 0x10000000000000000)
    ⟨fun ⟨built, labels, labelCount, size⟩ => ⟨built, labels, labelCount, size⟩,
      fun ⟨built, labels, labelCount, size⟩ => ⟨built, labels, labelCount, size⟩⟩

end Instructions

/-! ## Reading and writing them -/

namespace Encoded

variable {bytes : List UInt8}

theorem instruction_eq_ok {v : Version} {i : Instruction} :
    instruction v i = .ok bytes ↔
      ∃ byte, v.encodeOpcode? i.opcode = some byte ∧
        bytes = byte :: if i.opcode.hasOperand then littleEndian 4 i.operand.toNat else [] := by
  unfold instruction
  split
  · next h => simp [h]
  · next byte h =>
    rw [Except.ok.injEq, h]
    constructor
    · rintro rfl
      exact ⟨byte, rfl, rfl⟩
    · rintro ⟨_, hbyte, rfl⟩
      rw [Option.some.inj hbyte]

theorem instructions_eq_ok {v : Version} {s : Instructions} :
    instructions v s = .ok bytes ↔
      ∃ labels back, table .labels (fun target => .ok (littleEndian 8 target.toNat)) s.labels =
        .ok labels ∧ code v s.code = .ok back ∧
          bytes = labels ++ (littleEndian 8 s.size ++ back) := by
  simp only [instructions, except_bind_eq_ok, except_pure_eq_ok, List.append_assoc]
  constructor
  · rintro ⟨labels, hlabels, back, hback, rfl⟩
    exact ⟨labels, back, hlabels, hback, rfl⟩
  · rintro ⟨labels, back, hlabels, hback, rfl⟩
    exact ⟨labels, hlabels, back, hback, rfl⟩

/-- The bytes of an instruction depend on its opcode and operand only. -/
theorem code_eq_concat_parts (v : Version) (s : Instructions) :
    code v s.code = concat (s.parts.map fun i => instruction v ⟨i.1, i.2, 0⟩) := by
  rw [code, Instructions.parts, List.map_map]
  rfl

/-- Every instruction can be written for every version. -/
theorem exists_code (v : Version) (is : List Instruction) : ∃ bytes, code v is = .ok bytes := by
  refine exists_concat fun part hpart => ?_
  obtain ⟨i, -, rfl⟩ := List.mem_map.mp hpart
  exact ⟨_, instruction_eq_ok.mpr ⟨_, v.encodeOpcode?_eq i.opcode, rfl⟩⟩

end Encoded

/-- A well-formed stream has bytes. -/
theorem Instructions.WellFormed.exists_bytes {s : Instructions} (h : s.WellFormed) (v : Version) :
    ∃ bytes, Encoded.instructions v s = .ok bytes := by
  have htable : IsTable (fun _ _ => True) s.labels := ⟨h.labelCount, fun _ _ _ => trivial⟩
  obtain ⟨labels, hlabels⟩ := htable.exists_table .labels
    (e := fun target => .ok (littleEndian 8 target.toNat)) fun _ _ _ => ⟨_, rfl⟩
  obtain ⟨back, hback⟩ := Encoded.exists_code v s.code
  exact ⟨_, Encoded.instructions_eq_ok.mpr ⟨labels, back, hlabels, hback, rfl⟩⟩

namespace Reader

theorem strayLabel?_eq_none {labels : List UInt64} {size : Nat} :
    strayLabel? labels size = none ↔ ∀ target ∈ labels, target.toNat < size := by
  cases h : labels.findIdx? fun target => size ≤ target.toNat with
  | none =>
    have hall := List.findIdx?_eq_none_iff.mp h
    simp only [decide_eq_false_iff_not, Nat.not_le] at hall
    simpa [strayLabel?, h] using hall
  | some label =>
    obtain ⟨hlabel, hsize, -⟩ := List.findIdx?_eq_some_iff_getElem.mp h
    have hget := List.getElem?_eq_getElem hlabel
    constructor
    · intro hnone
      simp [strayLabel?, h, hget] at hnone
    · intro hall
      have := hall _ (List.getElem_mem hlabel)
      simp only [decide_eq_true_eq] at hsize
      omega

/-- What stands behind the byte of an opcode: a word if the opcode has an operand, and nothing
otherwise. -/
theorem parses_operand (v : Version) (byte : UInt8) (offset : Nat) :
    Parses (match v.decodeOpcode? byte with
      | none => throw (.invalidOpcode byte v offset)
      | some opcode => if opcode.hasOperand then do return (opcode, ← word32)
        else return (opcode, 0)) fun i bytes =>
      v.decodeOpcode? byte = some i.1 ∧ Instructions.NoStray i ∧
        bytes = if i.1.hasOperand then littleEndian 4 i.2.toNat else [] := by
  split
  · next h => exact (parses_throw _).congr fun i bytes => by simp [h]
  · next o h =>
    split
    · next ho =>
      refine (parses_bind parses_word32 fun x => parses_pure (o, x)).congr fun i bytes => ?_
      constructor
      · rintro ⟨x, _, _, rfl, ⟨rfl, rfl⟩, rfl⟩
        exact ⟨h, fun hno => absurd (ho.symm.trans hno) (by decide), by simp [ho]⟩
      · rintro ⟨hi, -, rfl⟩
        obtain rfl : o = i.1 := Option.some.inj (h.symm.trans hi)
        exact ⟨i.2, _, [], rfl, ⟨rfl, rfl⟩, by simp [ho]⟩
    · next ho =>
      refine (parses_pure (o, 0)).congr fun i bytes => ?_
      constructor
      · rintro ⟨rfl, rfl⟩
        exact ⟨h, fun _ => rfl, by simp [ho]⟩
      · rintro ⟨hi, hstray, rfl⟩
        obtain rfl : o = i.1 := Option.some.inj (h.symm.trans hi)
        exact ⟨Prod.ext rfl (hstray (by simpa using ho)).symm, by simp [ho]⟩

theorem parses_instruction (v : Version) :
    Parses (instruction v) fun i bytes =>
      Instructions.NoStray i ∧ Encoded.instruction v ⟨i.1, i.2, 0⟩ = .ok bytes := by
  refine (parses_position_bind fun offset => parses_bind parses_word8 fun byte =>
    parses_operand v byte offset).congr fun i bytes => ?_
  rw [Encoded.instruction_eq_ok]
  constructor
  · rintro ⟨byte, _, _, rfl, ⟨hbyte, hstray, rfl⟩, rfl⟩
    exact ⟨hstray, byte, Version.decodeOpcode?_eq_some_iff.mp hbyte, by rw [littleEndian_byte]; rfl⟩
  · rintro ⟨hstray, byte, hbyte, rfl⟩
    exact ⟨byte, _, _, rfl, ⟨Version.decodeOpcode?_eq_some_iff.mpr hbyte, hstray, rfl⟩,
      by rw [littleEndian_byte]; rfl⟩

/-- The end of a stream: no label may name an instruction that is not there. -/
theorem parses_labelled (labels : List UInt64) (code : List (Opcode × UInt32)) :
    Parses (match strayLabel? labels code.length with
      | some e => throw e
      | none => pure (Instructions.ofCode labels code)) fun s bytes =>
        (∀ target ∈ labels, target.toNat < code.length) ∧
          Instructions.ofCode labels code = s ∧ bytes = [] := by
  rw [← strayLabel?_eq_none]
  split
  · next h => exact (parses_throw _).congr fun s bytes => by simp [h]
  · next h => exact (parses_pure _).congr fun s bytes => by simp [h]

theorem instructions_eq (v : Version) :
    instructions v = (table 8 fun _ => word64) >>= fun labels =>
      (count 8 1 >>= fun n => elementsFrom (fun _ => instruction v) 0 n) >>= fun code =>
        match strayLabel? labels code.length with
        | some e => throw e
        | none => pure (Instructions.ofCode labels code) :=
  bind_congr fun _ => (bind_assoc _ _ _).symm

theorem parses_labels : Parses (table 8 fun _ => word64) fun labels bytes =>
    IsTable (fun _ _ => True) labels ∧
      Encoded.table .labels (fun target => .ok (littleEndian 8 target.toNat)) labels = .ok bytes :=
  parses_table .labels (fun _ => parses_word64.encoded) fun x bytes h => by cases h; simp

/-- Instructions behind their number. -/
theorem parses_code (v : Version) :
    Parses (count 8 1 >>= fun n => elementsFrom (fun _ => instruction v) 0 n) fun code bytes =>
      (∀ i ∈ code, Instructions.NoStray i) ∧ code.length < Nat.pow 256 8 ∧
        ∃ back, Encoded.concat (code.map fun i => Encoded.instruction v ⟨i.1, i.2, 0⟩) = .ok back ∧
          bytes = littleEndian 8 code.length ++ back := by
  have hcounted : Parses (count 8 1 >>= fun n => elementsFrom (fun _ => instruction v) 0 n) _ :=
    parses_counted (fun _ _ => parses_instruction v) fun _ _ i bytes h => by
      obtain ⟨byte, -, rfl⟩ := Encoded.instruction_eq_ok.mp h
      exact Nat.succ_le_succ (Nat.zero_le _)
  refine hcounted.congr fun code bytes => ?_
  rw [Encoded.mapIdx_const]
  refine and_congr_left' ⟨fun h i hi => ?_, fun h n i hi => h i (List.mem_of_getElem? hi)⟩
  obtain ⟨n, hn⟩ := List.mem_iff_getElem?.mp hi
  exact h n i hn

/-- Labels in front, and behind them the number of instructions and the instructions: the bytes of
exactly the well-formed streams. -/
theorem parses_instructions (v : Version) :
    Parses (instructions v) fun s bytes =>
      s.WellFormed ∧ Encoded.instructions v s = .ok bytes := by
  rw [instructions_eq]
  refine (parses_bind parses_labels fun labels => parses_bind (parses_code v) fun code =>
    parses_labelled labels code).congr fun s bytes => ?_
  rw [Encoded.instructions_eq_ok, Encoded.code_eq_concat_parts]
  constructor
  · rintro ⟨labels, front, _, ⟨htable, hfront⟩, ⟨code, _, _, ⟨hstray, hsize, back, hback, rfl⟩,
      ⟨hlabels, rfl, rfl⟩, rfl⟩, rfl⟩
    have hparts : (Instructions.ofCode labels code).parts = code :=
      Instructions.parts_ofCode labels hstray
    have hlength : (Instructions.ofCode labels code).size = code.length := by
      rw [← Instructions.length_parts, hparts]
    refine ⟨⟨Instructions.built_ofCode labels code, hlength ▸ hlabels, htable.length,
      hlength ▸ hsize⟩,
      front, back, hfront, hparts.symm ▸ hback, ?_⟩
    rw [hlength, List.append_nil]
  · rintro ⟨⟨hbuilt, hlabels, hcount, hsize⟩, front, back, hfront, hback, rfl⟩
    rw [← Instructions.length_parts] at hlabels hsize ⊢
    exact ⟨s.labels, front, _, ⟨⟨hcount, fun _ _ _ => trivial⟩, hfront⟩, ⟨s.parts, _, [],
      ⟨hbuilt.noStray, hsize, back, hback, rfl⟩, ⟨hlabels, hbuilt.eq_ofCode.symm, rfl⟩, rfl⟩,
      by rw [List.append_nil]⟩

end Reader
end ModuleLinker
