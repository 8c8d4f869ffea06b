import Mathlib.Data.List.Basic
import ModuleLinker.ConstantPool

/-!
# Tables of a constant pool

A literal has a position in the table of its kind, and a flat index in the four tables one after the
other. Both ways of counting stay in step whatever is added: an addition gives the position of the
new literal, keeps all positions, and moves the flat indices of the later kinds by one. Finding
looks for the same bits.
-/
namespace ModuleLinker

/-- The kinds of literals, in the order of their tables. -/
inductive ConstantKind where
  | int
  | long
  | single
  | double
  deriving DecidableEq

/-- The place of a kind's table among the four. -/
def ConstantKind.rank : ConstantKind → Nat
  | int => 0
  | long => 1
  | single => 2
  | double => 3

/-- The kind of a literal. -/
def Constant.kind : Constant → ConstantKind
  | int _ => .int
  | long _ => .long
  | single _ => .single
  | double _ => .double

namespace ConstantPool

/-- The table of a kind. -/
def table (p : ConstantPool) : ConstantKind → List Constant
  | .int => p.ints.map .int
  | .long => p.longs.map .long
  | .single => p.singles.map .single
  | .double => p.doubles.map .double

/-- The flat index at which the table of a kind begins. -/
def offset (p : ConstantPool) : ConstantKind → Nat
  | .int => 0
  | .long => p.longOffset
  | .single => p.singleOffset
  | .double => p.doubleOffset

/-- Append a literal to the table of its kind; gives its position there. -/
def add (p : ConstantPool) : Constant → Nat × ConstantPool
  | .int value => p.addInt value
  | .long value => p.addLong value
  | .single value => p.addSingle value
  | .double value => p.addDouble value

/-- Position of the first literal of the same kind and bits. -/
def find? (p : ConstantPool) : Constant → Option Nat
  | .int value => p.findInt? value
  | .long value => p.findLong? value
  | .single value => p.findSingle? value
  | .double value => p.findDouble? value

/-- What may be done to a pool. -/
inductive Edit where
  | add (c : Constant)
  | clear
  deriving DecidableEq

/-- The pool after an edit. -/
def edit (p : ConstantPool) : Edit → ConstantPool
  | .add c => (p.add c).2
  | .clear => .empty

/-- The pool after edits in order. -/
def run (p : ConstantPool) (edits : List Edit) : ConstantPool := edits.foldl edit p

variable {p : ConstantPool} {c x : Constant} {k : ConstantKind} {i j : Nat}

/-! ## The tables and the flat index -/

/-- The table of a kind begins at its offset, and so many literals stand before it. -/
theorem toList_eq (p : ConstantPool) (k : ConstantKind) :
    ∃ front back, p.toList = front ++ p.table k ++ back ∧ front.length = p.offset k ∧
      (k = .double → back = []) := by
  cases k with
  | int =>
    refine ⟨[], p.table .long ++ p.table .single ++ p.table .double, ?_, rfl, by simp⟩
    simp [toList, table]
  | long =>
    refine ⟨p.table .int, p.table .single ++ p.table .double, ?_, ?_, by simp⟩
    · simp [toList, table]
    · simp [table, offset, longOffset]
  | single =>
    refine ⟨p.table .int ++ p.table .long, p.table .double, ?_, ?_, by simp⟩
    · simp [toList, table]
    · simp [table, offset, longOffset, singleOffset]
  | double =>
    refine ⟨p.table .int ++ p.table .long ++ p.table .single, [], ?_, ?_, by simp⟩
    · simp [toList, table]
    · simp [table, offset, longOffset, singleOffset, doubleOffset, Nat.add_assoc]

theorem getElem?_toList (p : ConstantPool) (h : j < (p.table k).length ∨ k = .double) :
    p.toList[p.offset k + j]? = (p.table k)[j]? := by
  obtain ⟨front, back, htables, hoffset, hlast⟩ := p.toList_eq k
  rw [htables, ← hoffset, List.append_assoc, List.getElem?_append_right (Nat.le_add_right _ _),
    Nat.add_sub_cancel_left]
  rcases h with hj | hdouble
  · exact List.getElem?_append_left hj
  · rw [hlast hdouble, List.append_nil]

/-- Comparing with the offsets finds what is at an index of the tables one after the other. -/
theorem get?_eq (p : ConstantPool) (i : Nat) : p.get? i = p.toList[i]? := by
  -- the last table has no end: what is behind it is behind the list
  have hentry (k : ConstantKind) (h : i - p.offset k < (p.table k).length ∨ k = .double)
      (hle : p.offset k ≤ i) : (p.table k)[i - p.offset k]? = p.toList[i]? := by
    rw [← getElem?_toList p h, Nat.add_sub_cancel' hle]
  simp only [get?, ← List.getElem?_map]
  split
  · next hint =>
    rw [longOffset] at hint
    exact hentry .int (.inl (by simpa [table, offset] using hint)) (Nat.zero_le i)
  split
  · next hint hlong =>
    have hlong : i - p.longOffset < p.longs.length := by rw [singleOffset] at hlong; omega
    exact hentry .long (.inl (by simpa [table, offset] using hlong)) (Nat.not_lt.mp hint)
  split
  · next hlong hsingle =>
    have hsingle : i - p.singleOffset < p.singles.length := by rw [doubleOffset] at hsingle; omega
    exact hentry .single (.inl (by simpa [table, offset] using hsingle)) (Nat.not_lt.mp hlong)
  · next hsingle => exact hentry .double (.inr rfl) (Nat.not_lt.mp hsingle)

theorem get?_offset_add (hx : (p.table k)[j]? = some x) : p.get? (p.offset k + j) = some x := by
  have hj := (List.getElem?_eq_some_iff.mp hx).1
  rw [get?_eq, getElem?_toList p (.inl hj), hx]

theorem offset_add_length_le (p : ConstantPool) (k : ConstantKind) :
    p.offset k + (p.table k).length ≤ p.size := by
  obtain ⟨front, back, htables, hoffset, -⟩ := p.toList_eq k
  rw [← length_toList, htables, ← hoffset]
  simp

/-! ## Adding -/

theorem table_add (p : ConstantPool) (c : Constant) (k : ConstantKind) :
    (p.add c).2.table k = if k = c.kind then p.table k ++ [c] else p.table k := by
  cases c <;> cases k <;> simp [add, addInt, addLong, addSingle, addDouble, table, Constant.kind]

theorem add_position (p : ConstantPool) (c : Constant) :
    (p.add c).1 = (p.table c.kind).length := by
  cases c <;> simp [add, addInt, addLong, addSingle, addDouble, table, Constant.kind]

/-- The tables behind that of the new literal begin one later. -/
theorem offset_add (p : ConstantPool) (c : Constant) (k : ConstantKind) :
    (p.add c).2.offset k = p.offset k + if c.kind.rank < k.rank then 1 else 0 := by
  cases c <;> cases k <;> simp [add, addInt, addLong, addSingle, addDouble, offset, longOffset,
    singleOffset, doubleOffset, Constant.kind, ConstantKind.rank] <;> omega

/-! ## Finding -/

theorem findIdx?_map_eq {α β : Type} [DecidableEq α] [DecidableEq β] {f : α → β}
    (hf : Function.Injective f) (xs : List α) (x : α) :
    (xs.map f).findIdx? (· == f x) = xs.findIdx? (· == x) := by
  rw [List.findIdx?_map]
  congr 1
  funext y
  simp [hf.eq_iff]

/-- Finding in a pool is finding in the table of the kind. -/
theorem find?_eq (p : ConstantPool) (c : Constant) :
    p.find? c = (p.table c.kind).findIdx? (· == c) := by
  cases c with
  | int value => exact (findIdx?_map_eq (fun _ _ => Constant.int.inj) p.ints value).symm
  | long value => exact (findIdx?_map_eq (fun _ _ => Constant.long.inj) p.longs value).symm
  | single value => exact (findIdx?_map_eq (fun _ _ => Constant.single.inj) p.singles value).symm
  | double value => exact (findIdx?_map_eq (fun _ _ => Constant.double.inj) p.doubles value).symm

theorem find?_eq_some_iff : p.find? c = some i ↔
    (p.table c.kind)[i]? = some c ∧ ∀ j < i, (p.table c.kind)[j]? ≠ some c := by
  rw [find?_eq, List.findIdx?_eq_some_iff_getElem]
  constructor
  · rintro ⟨hi, hc, hfirst⟩
    have hc : (p.table c.kind)[i] = c := by simpa using hc
    refine ⟨by rw [List.getElem?_eq_getElem hi, hc], fun j hj hsame => ?_⟩
    obtain ⟨hlt, hsame⟩ := List.getElem?_eq_some_iff.mp hsame
    exact hfirst j hj (by simpa using hsame)
  · rintro ⟨hc, hfirst⟩
    obtain ⟨hi, hc⟩ := List.getElem?_eq_some_iff.mp hc
    refine ⟨hi, by simpa using hc, fun j hj hsame => hfirst j hj ?_⟩
    rw [List.getElem?_eq_getElem (Nat.lt_trans hj hi)]
    simpa using hsame

theorem find?_eq_none_iff : p.find? c = none ↔ c ∉ p.table c.kind := by
  rw [find?_eq, List.findIdx?_eq_none_iff]
  constructor
  · intro h hc
    simpa using h c hc
  · intro h x hx
    simpa using ne_of_mem_of_not_mem hx h

/-- A literal is in the pool only if it is in the table of its kind. -/
theorem mem_toList : c ∈ p.toList ↔ c ∈ p.table c.kind := by
  cases c <;> simp [toList, table, Constant.kind]

/-! ## What edits keep -/

/-- The literal that an edit adds. -/
def Edit.literal? : Edit → Option Constant
  | .add c => some c
  | .clear => none

theorem run_append (p : ConstantPool) (front back : List Edit) :
    p.run (front ++ back) = (p.run front).run back := List.foldl_append

/-- As long as nothing is cleared, a table grows at its end by the new literals of its kind. -/
theorem table_run {edits : List Edit} (p : ConstantPool) (h : Edit.clear ∉ edits)
    (k : ConstantKind) :
    (p.run edits).table k = p.table k ++ (edits.filterMap Edit.literal?).filter (·.kind = k) := by
  induction edits generalizing p with
  | nil => simp [run]
  | cons e edits ih =>
    cases e with
    | clear => exact absurd List.mem_cons_self h
    | add c =>
      have hrest := ih (p.add c).2 (fun hclear => h (List.mem_cons_of_mem _ hclear))
      change ((p.add c).2.run edits).table k = _
      rw [hrest, table_add]
      by_cases hk : k = c.kind
      · simp [hk, Edit.literal?]
      · simp [hk, Ne.symm hk, Edit.literal?]

/-- A literal stays where it was added until the pool is cleared. -/
theorem getElem?_table_run {front back : List Edit} (p : ConstantPool) (c : Constant)
    (h : Edit.clear ∉ back) :
    ((p.run (front ++ .add c :: back)).table c.kind)[((p.run front).add c).1]? = some c := by
  rw [run_append]
  change (((p.run front).add c).2.run back |>.table c.kind)[_]? = _
  rw [table_run _ h, table_add, if_pos rfl, add_position, List.append_assoc,
    List.getElem?_append_right (Nat.le_refl _)]
  simp

/-! ## The two ways of counting -/

/-- The flat index runs through the four tables one after the other, and fits a word. -/
structure Concatenated (p : ConstantPool) : Prop where
  get : ∀ i, p.get? i = p.toList[i]?
  none : ∀ i, p.get? i = none ↔ p.size ≤ i
  entry : ∀ k j x, (p.table k)[j]? = some x → p.get? (p.offset k + j) = some x
  fits : ∀ k, p.offset k + (p.table k).length < 0x100000000

/-- What a pool holds once a literal is added to it. -/
structure Grows (p : ConstantPool) (c : Constant) : Prop where
  own : (p.add c).2.table c.kind = p.table c.kind ++ [c]
  other : ∀ k, k ≠ c.kind → (p.add c).2.table k = p.table k
  offset : ∀ k, (p.add c).2.offset k = p.offset k + if c.kind.rank < k.rank then 1 else 0
  /-- Literals of later kinds move up by one, all others stay. -/
  flat : ∀ k j x, (p.table k)[j]? = some x →
    (p.add c).2.get? (p.offset k + j + if c.kind.rank < k.rank then 1 else 0) = some x
  /-- What was missing is found where it was added. -/
  found : p.find? c = none → (p.add c).2.find? c = some (p.add c).1

/-- What adding a literal gives. -/
structure Adds (p : ConstantPool) (c : Constant) : Prop where
  /-- The result is the first free position of the kind. -/
  position : (p.add c).1 = (p.table c.kind).length
  fits : (p.add c).1 < 0x100000000
  /-- Flat indices and counts are words: the pool must not outgrow them. -/
  grows : (p.add c).2.size < 0x100000000 → p.Grows c

/-- Finding a literal gives its first position. -/
structure Finds (p : ConstantPool) (c : Constant) : Prop where
  first : ∀ i, p.find? c = some i ↔
    (p.table c.kind)[i]? = some c ∧ ∀ j < i, (p.table c.kind)[j]? ≠ some c
  missing : p.find? c = none ↔ c ∉ p.toList
  flat : ∀ i, p.find? c = some i → p.get? (p.offset c.kind + i) = some c

theorem concatenated (h : p.size < 0x100000000) : p.Concatenated where
  get := p.get?_eq
  none i := by rw [get?_eq, List.getElem?_eq_none_iff, length_toList]
  entry _ _ _ := get?_offset_add
  fits k := Nat.lt_of_le_of_lt (p.offset_add_length_le k) h

theorem getElem?_table_add (hx : (p.table k)[j]? = some x) :
    ((p.add c).2.table k)[j]? = some x := by
  rw [table_add]
  split
  · rwa [List.getElem?_append_left (List.getElem?_eq_some_iff.mp hx).1]
  · exact hx

theorem find?_add (h : p.find? c = none) : (p.add c).2.find? c = some (p.add c).1 := by
  have hnew := find?_eq_none_iff.mp h
  rw [find?_eq_some_iff, table_add, if_pos rfl, add_position]
  refine ⟨by simp, fun j hj hold => hnew ?_⟩
  rw [List.getElem?_append_left hj] at hold
  exact List.mem_of_getElem? hold

theorem grows (p : ConstantPool) (c : Constant) : p.Grows c where
  own := by rw [table_add, if_pos rfl]
  other k hk := by rw [table_add, if_neg hk]
  offset := p.offset_add c
  flat k j x hx := by
    rw [Nat.add_right_comm, ← offset_add]
    exact get?_offset_add (getElem?_table_add hx)
  found := find?_add

theorem adds (h : p.size < 0x100000000) (c : Constant) : p.Adds c where
  position := p.add_position c
  fits := by
    have := p.offset_add_length_le c.kind
    rw [add_position]
    omega
  grows _ := p.grows c

theorem finds (p : ConstantPool) (c : Constant) : p.Finds c where
  first _ := find?_eq_some_iff
  missing := by rw [find?_eq_none_iff, mem_toList]
  flat _ hi := get?_offset_add (find?_eq_some_iff.mp hi).1

/-- Whatever is added and cleared, the pool is its tables one after the other: the flat index goes
through them in order, an addition moves only what stands in later tables, a literal keeps its
position until the next clearing, and finding gives the first position of the same bits. -/
theorem tables_concatenated (initial : ConstantPool) (edits : List Edit)
    (h : (initial.run edits).size < 0x100000000) :
    (initial.run edits).Concatenated ∧
      (∀ c, (initial.run edits).Adds c) ∧
      (∀ c, (initial.run edits).Finds c) ∧
      ∀ front c back, edits = front ++ .add c :: back → Edit.clear ∉ back →
        ((initial.run edits).table c.kind)[((initial.run front).add c).1]? = some c := by
  refine ⟨concatenated h, adds h, finds _, ?_⟩
  rintro front c back rfl hback
  exact getElem?_table_run initial c hback

/-- Two NaNs of other payloads and the two zeros are four literals; the clearing forgets the first
zero, and the integer that comes last moves all of them by one. -/
theorem tables_concatenated_of_nans :
    let edits := [.add (.double ⟨0⟩), .clear, .add (.double ⟨0x7ff8000000000000⟩),
      .add (.double ⟨0x8000000000000000⟩), .add (.double ⟨0x7ff8000000000001⟩), .add (.int 5)]
    let p := run { ints := [7, 5] } edits
    p.size < 0x100000000 ∧ p.find? (.double ⟨0x7ff8000000000001⟩) = some 2 ∧
      p.get? (p.offset .double + 2) = some (.double ⟨0x7ff8000000000001⟩) ∧
      p.find? (.double ⟨0⟩) = none ∧ (p.add (.double ⟨0⟩)).2.find? (.double ⟨0⟩) = some 3 ∧
      (p.add (.int 5)).2.get? (p.offset .double + 1) = p.get? (p.offset .double) := by
  intro edits p
  have hsize : p.size < 0x100000000 := by decide +kernel
  obtain ⟨htables, hadds, hfinds, hkept⟩ := tables_concatenated { ints := [7, 5] } edits hsize
  have hnan : p.find? (.double ⟨0x7ff8000000000001⟩) = some 2 := by decide +kernel
  have hzero : p.find? (.double ⟨0⟩) = none := by decide +kernel
  have hgrown := (hadds (.double ⟨0⟩)).grows (by decide +kernel)
  have hmoved := (hadds (.int 5)).grows (by decide +kernel)
  have hfirst : (p.table .double)[0]? = some (.double ⟨0x7ff8000000000000⟩) :=
    hkept [.add (.double ⟨0⟩), .clear] _ _ rfl (by decide)
  refine ⟨hsize, hnan, (hfinds _).flat 2 hnan, hzero, hgrown.found hzero, ?_⟩
  exact (hmoved.flat .double 0 _ hfirst).trans (htables.entry .double 0 _ hfirst).symm

end ConstantPool
end ModuleLinker
