import ModuleLinker.Renumbering

/-!
# Renumbering opcodes and undoing it

A shift leaves the numbers below its threshold alone and moves the others up, so no two numbers meet
and those between the threshold and its new place are hit by none. Undoing a shift therefore gives
the one number that the shift takes to a given one. Shifts are undone from the last to the first,
since the threshold of each is in the numbering that those before it have made.
-/
namespace ModuleLinker

/-! ## Canonical numbers -/

namespace Opcode

theorem nodup_all : all.Nodup := by
  decide

theorem canonical_of_ofCanonical? {n : Nat} {o : Opcode} (h : ofCanonical? n = some o) :
    o.canonical.toNat = n :=
  (List.getElem?_inj o.canonical_lt nodup_all).mp ((ofCanonical?_canonical o).trans h.symm)

theorem ofCanonical?_eq_some_iff {n : UInt16} {o : Opcode} :
    ofCanonical? n.toNat = some o ↔ n = o.canonical.toUInt16 := by
  constructor
  · intro h
    have hnumber := canonical_of_ofCanonical? h
    exact UInt16.toNat_inj.mp (by rw [UInt8.toNat_toUInt16, hnumber])
  · rintro rfl
    rw [UInt8.toNat_toUInt16]
    exact ofCanonical?_canonical o

end Opcode

/-! ## One shift -/

namespace Shift

variable {s : Shift} {n m : UInt16}

/-- A shift takes one number to another, without going round at the end of the words. -/
def Takes (s : Shift) (n m : UInt16) : Prop :=
  m.toNat = if s.threshold.toNat ≤ n.toNat then n.toNat + s.delta.toNat else n.toNat

theorem undo?_eq_some : s.undo? m = some n ↔ s.Takes n m := by
  have hthreshold : s.threshold.toNat < 256 := s.threshold.toNat_lt
  have hdelta : s.delta.toNat < 256 := s.delta.toNat_lt
  -- Two bytes fit the word, so the gap is where it is in unbounded numbers.
  have hgap : (s.threshold.toUInt16 + s.delta.toUInt16).toNat =
      s.threshold.toNat + s.delta.toNat := by
    rw [UInt16.toNat_add, UInt8.toNat_toUInt16, UInt8.toNat_toUInt16]
    omega
  simp only [undo?, Takes, UInt16.le_iff_toNat_le, hgap, UInt8.toNat_toUInt16]
  split
  · next habove =>
    have hsub : (m - s.delta.toUInt16).toNat = m.toNat - s.delta.toNat := by
      rw [UInt16.toNat_sub_of_le _ _ (UInt16.le_iff_toNat_le.mpr ?_), UInt8.toNat_toUInt16]
      rw [UInt8.toNat_toUInt16]
      omega
    rw [Option.some.injEq, ← UInt16.toNat_inj, hsub]
    split <;> omega
  · split
    · simp only [reduceCtorEq, false_iff]
      split <;> omega
    · rw [Option.some.injEq, ← UInt16.toNat_inj]
      split <;> omega

theorem apply_of_takes (h : s.Takes n m) : s.apply n = m := by
  have hm : m.toNat < 65536 := m.toNat_lt
  simp only [Takes] at h
  simp only [apply, UInt16.le_iff_toNat_le, UInt8.toNat_toUInt16]
  split at h
  · next hthreshold =>
    rw [if_pos hthreshold, ← UInt16.toNat_inj, UInt16.toNat_add, UInt8.toNat_toUInt16]
    omega
  · next hthreshold =>
    rw [if_neg hthreshold, ← UInt16.toNat_inj, h]

theorem takes_apply (h : n.toNat + s.delta.toNat < 65536) : s.Takes n (s.apply n) := by
  simp only [Takes, apply, UInt16.le_iff_toNat_le, UInt8.toNat_toUInt16]
  split
  · rw [UInt16.toNat_add, UInt8.toNat_toUInt16]
    omega
  · rfl

theorem Takes.le (h : s.Takes n m) : m.toNat ≤ n.toNat + s.delta.toNat := by
  simp only [Takes] at h
  split at h <;> omega

/-! ## Several shifts -/

/-- The number after all shifts in order. -/
def applyAll (shifts : List Shift) (n : UInt16) : UInt16 := shifts.foldl (fun n s => s.apply n) n

/-- The number before all shifts, which are undone from the last to the first. -/
def undoAll? (shifts : List Shift) (n : UInt16) : Option UInt16 :=
  shifts.reverse.foldlM (fun n s => s.undo? n) n

/-- How far shifts can move a number. -/
def climb : List Shift → Nat
  | [] => 0
  | s :: shifts => s.delta.toNat + climb shifts

variable {shifts : List Shift}

theorem undoAll?_cons_eq_some :
    undoAll? (s :: shifts) m = some n ↔ ∃ mid, undoAll? shifts m = some mid ∧ s.Takes n mid := by
  simp [undoAll?, List.foldlM_append, Option.bind_eq_some_iff, undo?_eq_some]

/-- Shifts give back the number that they were undone from. The numbers on the way down are not
larger than the one at the start, so none of them goes round on the way up. -/
theorem applyAll_of_undoAll? (h : undoAll? shifts m = some n) : applyAll shifts n = m := by
  induction shifts generalizing n with
  | nil => exact (Option.some.inj h).symm
  | cons s shifts ih =>
    obtain ⟨mid, hmid, htakes⟩ := undoAll?_cons_eq_some.mp h
    have hback := ih hmid
    rw [← hback, ← apply_of_takes htakes]
    rfl

/-- Undoing shifts gives back the number that was shifted, unless it can have gone round. -/
theorem undoAll?_applyAll (h : n.toNat + climb shifts < 65536) :
    undoAll? shifts (applyAll shifts n) = some n := by
  induction shifts generalizing n with
  | nil => rfl
  | cons s shifts ih =>
    simp only [climb] at h
    have htakes : s.Takes n (s.apply n) := takes_apply (by omega)
    have hle := htakes.le
    have hbehind : undoAll? shifts (applyAll shifts (s.apply n)) = some (s.apply n) :=
      ih (by omega)
    exact undoAll?_cons_eq_some.mpr ⟨s.apply n, hbehind, htakes⟩

end Shift

/-! ## Opcodes and bytes -/

variable {steps : List (List Shift)} {byte : UInt8} {o : Opcode}

theorem upgrade?_eq_some :
    upgrade? steps byte = some o ↔
      Shift.applyAll steps.flatten byte.toUInt16 = o.canonical.toUInt16 :=
  Opcode.ofCanonical?_eq_some_iff

theorem downgrade?_eq_some :
    downgrade? steps o = some byte ↔
      Shift.undoAll? steps.flatten o.canonical.toUInt16 = some byte.toUInt16 := by
  have hbyte : byte.toNat < 256 := byte.toNat_lt
  change (Shift.undoAll? steps.flatten o.canonical.toUInt16 >>= fun n =>
    if n.toNat < 256 then some n.toUInt8 else none) = some byte ↔ _
  simp only [Option.bind_eq_bind, Option.bind_eq_some_iff]
  constructor
  · rintro ⟨n, hn, hend⟩
    split at hend
    · next hlt =>
      rw [hn, ← Option.some.inj hend]
      congr 1
      apply UInt16.toNat_inj.mp
      rw [UInt8.toNat_toUInt16, UInt16.toNat_toUInt8]
      omega
    · cases hend
  · intro hn
    refine ⟨_, hn, ?_⟩
    rw [UInt8.toNat_toUInt16, if_pos hbyte, UInt8.toUInt8_toUInt16]

theorem upgrade?_of_downgrade? (h : downgrade? steps o = some byte) :
    upgrade? steps byte = some o :=
  upgrade?_eq_some.mpr (Shift.applyAll_of_undoAll? (downgrade?_eq_some.mp h))

theorem downgrade?_of_upgrade? (hclimb : Shift.climb steps.flatten ≤ 65280)
    (h : upgrade? steps byte = some o) : downgrade? steps o = some byte := by
  have hbyte : byte.toNat < 256 := byte.toNat_lt
  rw [downgrade?_eq_some, ← upgrade?_eq_some.mp h]
  apply Shift.undoAll?_applyAll
  rw [UInt8.toNat_toUInt16]
  omega

/-- Renumbering is invertible for whatever tables: as long as the words are wide enough for all
deltas together, a byte stands for an opcode exactly if the opcode is written as that byte. What is
written is read back without any bound on the deltas. -/
theorem renumbering_invertible (steps : List (List Shift)) (byte : UInt8) (o : Opcode) :
    (Shift.climb steps.flatten ≤ 65280 →
      (upgrade? steps byte = some o ↔ downgrade? steps o = some byte)) ∧
    (downgrade? steps o = some byte → upgrade? steps byte = some o) :=
  ⟨fun hclimb => ⟨downgrade?_of_upgrade? hclimb, upgrade?_of_downgrade?⟩, upgrade?_of_downgrade?⟩

/-- A rule made twice, and a later step with a threshold below it. The second rule opens a gap where
the first has opened one. -/
theorem renumbering_invertible_of_repeated_rule :
    let steps : List (List Shift) := [[⟨45, 1⟩, ⟨45, 1⟩], [⟨0, 1⟩]]
    Shift.climb steps.flatten ≤ 65280 ∧ upgrade? steps 45 = some .null ∧
      downgrade? steps .null = some 45 ∧ downgrade? steps .tod = none := by
  intro steps
  have hclimb : Shift.climb steps.flatten ≤ 65280 := by decide
  have hnull : downgrade? steps .null = some 45 := by decide
  obtain ⟨hiff, -⟩ := renumbering_invertible steps 45 .null
  exact ⟨hclimb, (hiff hclimb).mpr hnull, hnull, by decide⟩

/-- Without the bound a number can go round. -/
example :
    upgrade? [List.replicate 257 ⟨0, 255⟩] 2 = some .push ∧
      downgrade? [List.replicate 257 ⟨0, 255⟩] .push = none := by
  decide +kernel

end ModuleLinker
