import ModuleLinker.Proofs.ImageRoundTrip

/-!
# Images that are cut short or continued

An image tells where it ends, so nothing can be taken from its end or put behind it unnoticed. A
reader that is stopped early does what it would have done, up to the first bytes that are missing.
Only counts look ahead; they ask for the bytes that all they announce needs at least, and those are
missing too if the count is refused.
-/
namespace ModuleLinker

/-- The cursor as if the input ended at an offset. -/
def Cursor.cut (stop : Nat) (c : Cursor) : Cursor :=
  { c with rest := c.rest.take (stop - c.offset) }

/-- An error that asks for bytes on both sides of the end of the input. -/
def DecodeError.AsksBeyond (stop : Nat) (e : DecodeError) : Prop :=
  ∃ offset needed, e = .unexpectedEnd offset needed ∧ offset ≤ stop ∧ stop < offset + needed

namespace Reader

variable {α β : Type} {stop : Nat} {c : Cursor}

/-- What a reader does at a cursor if the input ends early: the same, if it stops in time, and
otherwise it asks for bytes that are not there. -/
def StopsAt (stop : Nat) (c : Cursor) (r : Reader α) : Prop :=
  ∀ x c', r.run c = .ok (x, c') →
    (r.run (c.cut stop) = .ok (x, c'.cut stop) ∧ c'.offset ≤ stop) ∨
      ∃ e, r.run (c.cut stop) = .error e ∧ e.AsksBeyond stop

/-- A reader that notices everywhere that the input ends early. -/
def Stops (r : Reader α) : Prop := ∀ stop c, c.offset ≤ stop → StopsAt stop c r

/-! ## Combining readers -/

theorem stopsAt_bind {r : Reader α} {f : α → Reader β} (hr : StopsAt stop c r)
    (hf : ∀ x, Stops (f x)) : StopsAt stop c (r >>= f) := by
  intro y c' h
  obtain ⟨x, mid, hx, hy⟩ := run_bind_eq_ok.mp h
  rw [StateT.run_bind]
  rcases hr x mid hx with ⟨hcut, hle⟩ | ⟨e, he, hbeyond⟩
  · rw [hcut]
    exact hf x stop mid hle y c' hy
  · exact .inr ⟨e, by rw [he]; rfl, hbeyond⟩

theorem stops_bind {r : Reader α} {f : α → Reader β} (hr : Stops r) (hf : ∀ x, Stops (f x)) :
    Stops (r >>= f) :=
  fun stop c hc => stopsAt_bind (hr stop c hc) hf

theorem stops_pure (x : α) : Stops (pure x : Reader α) := by
  intro stop c hc y c' h
  obtain ⟨rfl, rfl⟩ := run_pure_eq_ok.mp h
  exact .inl ⟨rfl, hc⟩

theorem stops_throw (e : DecodeError) : Stops (throw e : Reader α) := by
  intro stop c hc y c' h
  cases h

theorem stops_position : Stops position := by
  intro stop c hc y c' h
  cases h
  exact .inl ⟨rfl, hc⟩

theorem stops_liftM (x : Except DecodeError α) : Stops (liftM x : Reader α) := by
  cases x with
  | error e => exact stops_throw e
  | ok a => exact stops_pure a

/-! ## Bytes and counts -/

theorem run_bytes_of_short {n : Nat} (h : c.rest.length < n) :
    (bytes n).run c = .error (.unexpectedEnd c.offset n) := by
  have hshort : (c.rest.take n).length ≠ n := by
    rw [List.length_take]
    omega
  simp only [bytes, StateT.run, if_neg hshort]

theorem stops_bytes (n : Nat) : Stops (bytes n) := by
  intro stop c hc xs c' h
  obtain ⟨hlength, hrest, hoffset⟩ := run_bytes_eq_ok h
  by_cases hn : c.offset + n ≤ stop
  · have hstop : stop - c.offset = n + (stop - c'.offset) := by omega
    have hcut : c.cut stop = ⟨c.offset, xs ++ c'.rest.take (stop - c'.offset)⟩ := by
      rw [Cursor.cut, hrest, hstop, ← hlength, List.take_length_add_append]
    refine .inl ⟨?_, hoffset ▸ hn⟩
    have hrun := run_bytes_append xs (c'.rest.take (stop - c'.offset)) c.offset
    rw [hlength, ← hoffset] at hrun
    rw [hcut, hrun, Cursor.cut]
  · refine .inr ⟨_, run_bytes_of_short ?_, c.offset, n, rfl, hc, Nat.not_le.mp hn⟩
    rw [Cursor.cut, List.length_take]
    omega

theorem stops_number (width : Nat) : Stops (number width) :=
  stops_bind (stops_bytes width) fun _ => stops_pure _

theorem stops_word8 : Stops word8 := stops_bind (stops_number 1) fun _ => stops_pure _

theorem stops_word16 : Stops word16 := stops_bind (stops_number 2) fun _ => stops_pure _

theorem stops_word32 : Stops word32 := stops_bind (stops_number 4) fun _ => stops_pure _

theorem stops_word64 : Stops word64 := stops_bind (stops_number 8) fun _ => stops_pure _

theorem stops_flag : Stops flag := by
  refine stops_bind stops_position fun offset => stops_bind stops_word8 fun value => ?_
  split
  · exact stops_pure _
  · split
    · exact stops_pure _
    · exact stops_throw _

theorem run_count_of_short {width least n : Nat} {c' : Cursor}
    (hn : (number width).run c = .ok (n, c')) (hshort : c'.rest.length < n * least) :
    (count width least).run c = .error (.unexpectedEnd c'.offset (n * least)) := by
  simp only [count, StateT.run_bind, hn]
  change StateT.run (if c'.rest.length < n * least then _ else _) c' = _
  rw [if_pos hshort]
  rfl

/-- A count looks at the bytes that are left. If they are too few behind the cut, then what it asks
for reaches beyond the cut. -/
theorem stops_count (width least : Nat) : Stops (count width least) := by
  intro stop c hc n c' h
  obtain ⟨hn, hroom⟩ := run_count_eq_ok.mp h
  rcases stops_number width stop c hc n c' hn with ⟨hcut, hle⟩ | ⟨e, he, hbeyond⟩
  · by_cases hshort : (c'.cut stop).rest.length < n * least
    · refine .inr ⟨_, run_count_of_short hcut hshort, c'.offset, n * least, rfl, hle, ?_⟩
      rw [Cursor.cut, List.length_take] at hshort
      omega
    · exact .inl ⟨run_count_eq_ok.mpr ⟨hcut, Nat.not_lt.mp hshort⟩, hle⟩
  · exact .inr ⟨e, by simp only [count, StateT.run_bind, he]; rfl, hbeyond⟩

theorem stops_elementsFrom {item : Nat → Reader α} (h : ∀ i, Stops (item i)) (first n : Nat) :
    Stops (elementsFrom item first n) := by
  induction n generalizing first with
  | zero => exact stops_pure _
  | succ n ih =>
    exact stops_bind (h first) fun x => stops_bind (ih (first + 1)) fun xs => stops_pure _

theorem stops_table {item : Nat → Reader α} (least : Nat) (h : ∀ i, Stops (item i)) :
    Stops (table least item) :=
  stops_bind (stops_count 4 least) fun n => stops_elementsFrom h 0 n

/-! ## The parts of an image -/

theorem stops_text : Stops text := by
  refine stops_bind (stops_count 4 1) fun length => stops_bind stops_position fun offset =>
    stops_bind (stops_bytes length) fun bytes => ?_
  split
  · exact stops_pure _
  · exact stops_throw _

theorem stops_version (field : VersionField) : Stops (version field) := by
  refine stops_bind stops_word16 fun found => ?_
  split
  · split
    · exact stops_pure _
    · exact stops_throw _
  · exact stops_throw _

theorem stops_dependency : Stops dependency := stops_bind stops_text fun _ => stops_pure _

theorem stops_mapping (dependencies : Nat) : Stops (mapping dependencies) := by
  refine stops_bind stops_word32 fun dependency => stops_bind stops_text fun name => ?_
  split
  · exact stops_pure _
  · exact stops_throw _

theorem stops_mappings (dependencies : Nat) : Stops (mappings dependencies) :=
  stops_bind (stops_table 8 fun _ => stops_mapping dependencies) fun _ =>
    stops_bind (stops_table 8 fun _ => stops_mapping dependencies) fun _ => stops_pure _

theorem stops_constants : Stops constants :=
  stops_bind (stops_table 4 fun _ => stops_word32) fun _ =>
    stops_bind (stops_table 8 fun _ => stops_word64) fun _ =>
      stops_bind (stops_table 4 fun _ => stops_bind stops_word32 fun _ => stops_pure _) fun _ =>
        stops_bind (stops_table 8 fun _ => stops_bind stops_word64 fun _ => stops_pure _) fun _ =>
          stops_pure _

theorem stops_field (structures mappings : Nat) : Stops (field structures mappings) := by
  refine stops_bind stops_position fun offset => stops_bind (stops_number 4) fun word =>
    stops_bind (stops_liftM _) fun type => ?_
  split
  · exact stops_pure _
  · refine stops_bind stops_position fun offset => stops_bind stops_word64 fun count => ?_
    split
    · exact stops_throw _
    · exact stops_pure _

theorem stops_structureAt (structures mappings index : Nat) :
    Stops (structureAt structures mappings index) :=
  stops_bind stops_text fun _ =>
    stops_bind (stops_table 4 fun _ => stops_field structures mappings) fun _ => stops_pure _

theorem stops_structures (mappings : Nat) : Stops (structures mappings) :=
  stops_bind (stops_count 4 8) fun n =>
    stops_elementsFrom (fun index => stops_structureAt n mappings index) 0 n

theorem stops_instruction (v : Version) : Stops (instruction v) := by
  refine stops_bind stops_position fun offset => stops_bind stops_word8 fun byte => ?_
  split
  · exact stops_throw _
  · split
    · exact stops_bind stops_word32 fun _ => stops_pure _
    · exact stops_pure _

theorem stops_instructions (v : Version) : Stops (instructions v) := by
  refine stops_bind (stops_table 8 fun _ => stops_word64) fun labels =>
    stops_bind (stops_count 8 1) fun n =>
      stops_bind (stops_elementsFrom (fun _ => stops_instruction v) 0 n) fun code => ?_
  split
  · exact stops_throw _
  · exact stops_pure _

theorem stops_functionAt (v : Version) (index : Nat) : Stops (functionAt v index) :=
  stops_bind stops_text fun _ => stops_bind stops_word16 fun _ => stops_bind stops_flag fun _ =>
    stops_bind (stops_instructions v) fun _ => stops_pure _

/-- The magic is not asked for byte by byte: its error is another one if it is not there. -/
theorem stopsAt_header (h : c.offset + magic.length ≤ stop) : StopsAt stop c header := by
  intro x c' hrun
  obtain ⟨_, ⟨-, hbytes⟩, hrest, hoffset⟩ := (parses_header c x c').mp hrun
  cases hbytes
  refine .inl ⟨(parses_header ..).mpr ⟨magic, ⟨trivial, rfl⟩, ?_, hoffset⟩, hoffset ▸ h⟩
  have hstop : stop - c.offset = magic.length + (stop - c'.offset) := by omega
  rw [Cursor.cut, Cursor.cut, hrest, hstop, List.take_length_add_append]

/-- Behind the magic the sections of an image stop wherever the input ends. -/
theorem stopsAt_sections (h : c.offset + magic.length ≤ stop) : StopsAt stop c sections :=
  stopsAt_bind (stopsAt_header h) fun _ =>
    stops_bind (stops_version _) fun _ => stops_bind (stops_version _) fun instructionSet =>
      stops_bind (stops_table 4 fun _ => stops_dependency) fun dependencies =>
        stops_bind (stops_mappings dependencies.length) fun mappings =>
          stops_bind stops_constants fun _ =>
            stops_bind (stops_structures mappings.structures.length) fun _ =>
              stops_bind (stops_table 19 fun index => stops_functionAt instructionSet index) fun _ =>
                stops_bind (stops_instructions instructionSet) fun _ => stops_pure _

end Reader

variable {bytes : List UInt8} {d : Descriptor}

/-- The sections of bytes that decode end with the bytes, and they are the same if more follows. -/
theorem run_sections_append (h : decode bytes = .ok d) (more : List UInt8) :
    Reader.sections.run ⟨0, bytes ++ more⟩ = .ok (d, ⟨bytes.length, more⟩) :=
  (Reader.parses_sections ..).mpr ⟨bytes, decode_eq_ok_iff.mp h, rfl, (Nat.zero_add _).symm⟩

theorem decode_of_run_sections {input : List UInt8} {e : DecodeError}
    (h : Reader.sections.run ⟨0, input⟩ = .error e) : decode input = .error e := by
  simp only [decode, Reader.image_eq, StateT.run_bind, h]
  rfl

theorem decode_of_trailing {input : List UInt8} {c : Cursor}
    (h : Reader.sections.run ⟨0, input⟩ = .ok (d, c)) (hrest : c.rest ≠ []) :
    decode input = .error (.trailingBytes c.rest.length) := by
  have hfinish : Reader.finish.run c = .error (.trailingBytes c.rest.length) := by
    change StateT.run (if c.rest.length = 0 then _ else _) c = _
    rw [if_neg (by simpa using hrest)]
    rfl
  simp only [decode, Reader.image_eq, StateT.run_bind, h]
  change Except.map Prod.fst ((Reader.finish >>= fun _ => pure d).run c) = _
  rw [StateT.run_bind, hfinish]
  rfl

theorem decode_of_no_magic {input : List UInt8} (h : input.length < 4) :
    decode input = .error (.invalidMagic input) := by
  have hall : input.take magic.length = input := List.take_of_length_le (Nat.le_of_lt h)
  have hmagic : input ≠ magic := by
    rintro rfl
    exact absurd h (by decide)
  have hheader : Reader.header.run ⟨0, input⟩ = .error (.invalidMagic input) := by
    simp only [Reader.header, StateT.run, hall, if_neg hmagic]
  refine decode_of_run_sections ?_
  simp only [Reader.sections, StateT.run_bind, hheader]
  rfl

/-- No image goes unnoticed that was cut short or continued: without its magic it is none, cut
anywhere behind the magic it lacks bytes at the cut, and what follows its end is counted. -/
theorem decode_cut_or_continued (h : decode bytes = .ok d) :
    (∀ n < 4, decode (bytes.take n) = .error (.invalidMagic (bytes.take n))) ∧
      (∀ n, 4 ≤ n → n < bytes.length → ∃ offset needed,
        decode (bytes.take n) = .error (.unexpectedEnd offset needed) ∧
          offset ≤ n ∧ n < offset + needed) ∧
      ∀ more ≠ [], decode (bytes ++ more) = .error (.trailingBytes more.length) := by
  refine ⟨fun n hn => decode_of_no_magic ?_, fun n hn hlt => ?_, fun more hmore => ?_⟩
  · exact Nat.lt_of_le_of_lt (List.length_take_le n bytes) hn
  · have hsections := run_sections_append h []
    rw [List.append_nil] at hsections
    have hmagic : (⟨0, bytes⟩ : Cursor).offset + magic.length ≤ n := hn
    rcases Reader.stopsAt_sections hmagic d _ hsections with
      ⟨-, hend⟩ | ⟨_, he, offset, needed, rfl, hbeyond⟩
    · exact absurd hend (Nat.not_le.mpr hlt)
    · exact ⟨offset, needed, decode_of_run_sections he, hbeyond⟩
  · exact decode_of_trailing (run_sections_append h more) hmore

/-- The image is cut inside its magic, and behind the count of its structures, where the name and
the count of fields are missing that the one structure needs. -/
theorem decode_cut_or_continued_tiny :
    decode tinyImage = .ok .tiny ∧
      decode (tinyImage.take 3) = .error (.invalidMagic (tinyImage.take 3)) ∧
      (∃ offset needed, decode (tinyImage.take 40) = .error (.unexpectedEnd offset needed) ∧
        offset ≤ 40 ∧ 40 < offset + needed) ∧
      decode (tinyImage ++ [0]) = .error (.trailingBytes 1) := by
  have h : decode tinyImage = .ok .tiny := by decide +kernel
  obtain ⟨hmagic, hcut, hcontinued⟩ := decode_cut_or_continued h
  exact ⟨h, hmagic 3 (by decide), hcut 40 (by decide) (by decide), hcontinued [0] (by decide)⟩

end ModuleLinker
