import ModuleLinker.Image.Encode
import ModuleLinker.Proofs.Image.Decoded

/-!
# Readers and grammars

A grammar relates values to the bytes that spell them. A reader parses a grammar when it gives
exactly the values that the bytes in front of it spell and stops right behind those bytes.
Grammars are put together as readers are: a sequence spells its parts one after the other, and a
table spells its elements behind their number. A count that is refused because too few bytes are
left never refuses anything that its elements could spell, as long as none of them is shorter
than announced.
-/
namespace ModuleLinker
namespace Reader

variable {α β : Type}

/-- A reader gives the values that the next bytes spell, and stops right behind those bytes. -/
def Parses (r : Reader α) (G : α → List UInt8 → Prop) : Prop :=
  ∀ c x c', r.run c = .ok (x, c') ↔
    ∃ bytes, G x bytes ∧ c.rest = bytes ++ c'.rest ∧ c'.offset = c.offset + bytes.length

theorem Parses.congr {r : Reader α} {G H : α → List UInt8 → Prop} (hr : Parses r G)
    (h : ∀ x bytes, G x bytes ↔ H x bytes) : Parses r H := by
  intro c x c'
  simp only [hr c x c', h]

/-! ## Combining grammars -/

theorem parses_pure (x : α) : Parses (pure x) fun y bytes => x = y ∧ bytes = [] := by
  intro c y c'
  rw [run_pure_eq_ok]
  constructor
  · rintro ⟨rfl, rfl⟩
    exact ⟨[], ⟨rfl, rfl⟩, rfl, rfl⟩
  · rintro ⟨_, ⟨rfl, rfl⟩, hrest, hoffset⟩
    refine ⟨rfl, ?_⟩
    cases c
    cases c'
    simp_all

theorem parses_throw (e : DecodeError) : Parses (throw e : Reader α) fun _ _ => False := by
  intro c y c'
  constructor
  · intro h
    cases h
  · rintro ⟨_, h, _⟩
    exact h.elim

/-- A sequence spells its first part and then its second one. -/
theorem parses_bind {r : Reader α} {f : α → Reader β} {G : α → List UInt8 → Prop}
    {H : α → β → List UInt8 → Prop} (hr : Parses r G) (hf : ∀ x, Parses (f x) (H x)) :
    Parses (r >>= f) fun y bytes =>
      ∃ x front back, G x front ∧ H x y back ∧ bytes = front ++ back := by
  intro c y c'
  rw [run_bind_eq_ok]
  constructor
  · rintro ⟨x, mid, hx, hy⟩
    obtain ⟨front, hG, hfront, hmid⟩ := (hr ..).mp hx
    obtain ⟨back, hH, hback, hend⟩ := (hf ..).mp hy
    refine ⟨front ++ back, ⟨x, front, back, hG, hH, rfl⟩, ?_, ?_⟩
    · rw [hfront, hback, List.append_assoc]
    · rw [hend, hmid, List.length_append, Nat.add_assoc]
  · rintro ⟨_, ⟨x, front, back, hG, hH, rfl⟩, hrest, hoffset⟩
    rw [List.append_assoc] at hrest
    rw [List.length_append, ← Nat.add_assoc] at hoffset
    exact ⟨x, ⟨c.offset + front.length, back ++ c'.rest⟩, (hr ..).mpr ⟨front, hG, hrest, rfl⟩,
      (hf ..).mpr ⟨back, hH, rfl, hoffset⟩⟩

/-- What is made of a value is spelt as the value is. -/
theorem parses_map {r : Reader α} {f : α → β} {G : α → List UInt8 → Prop} (hr : Parses r G) :
    Parses (r >>= fun x => pure (f x)) fun y bytes => ∃ x, f x = y ∧ G x bytes := by
  refine (parses_bind hr fun x => parses_pure (f x)).congr fun y bytes => ?_
  constructor
  · rintro ⟨x, front, _, hx, ⟨rfl, rfl⟩, rfl⟩
    exact ⟨x, rfl, by rwa [List.append_nil]⟩
  · rintro ⟨x, rfl, hx⟩
    exact ⟨x, bytes, [], hx, ⟨rfl, rfl⟩, (List.append_nil bytes).symm⟩

/-- Asking for the position spells nothing. -/
theorem parses_position_bind {f : Nat → Reader β} {H : β → List UInt8 → Prop}
    (hf : ∀ offset, Parses (f offset) H) : Parses (position >>= f) H := by
  intro c y c'
  exact hf c.offset c y c'

theorem parses_liftM (x : Except DecodeError α) :
    Parses (liftM x) fun y bytes => x = .ok y ∧ bytes = [] := by
  cases x with
  | error e =>
    refine (parses_throw e).congr fun y bytes => ?_
    simp
  | ok a =>
    refine (parses_pure a).congr fun y bytes => ?_
    simp

theorem parses_bytes (n : Nat) : Parses (bytes n) fun xs bytes => xs = bytes ∧ xs.length = n := by
  intro c xs c'
  constructor
  · intro h
    obtain ⟨hlength, hrest, hoffset⟩ := run_bytes_eq_ok h
    exact ⟨xs, ⟨rfl, hlength⟩, hrest, hlength ▸ hoffset⟩
  · rintro ⟨_, ⟨rfl, rfl⟩, hrest, hoffset⟩
    obtain ⟨offset, rest⟩ := c
    obtain ⟨offset', rest'⟩ := c'
    simp only at hrest hoffset
    rw [hrest, hoffset]
    exact run_bytes_append xs rest' offset

/-- A number is spelt by its bytes, and any bytes of the right number spell one. -/
theorem parses_number (width : Nat) :
    Parses (number width) fun n bytes =>
      n < Nat.pow 256 width ∧ bytes = littleEndian width n := by
  refine (parses_map (parses_bytes width)).congr fun n bytes => ?_
  constructor
  · rintro ⟨xs, rfl, rfl, rfl⟩
    exact ⟨ofLittleEndian_lt xs, (littleEndian_ofLittleEndian xs).symm⟩
  · rintro ⟨hn, rfl⟩
    refine ⟨_, ?_, rfl, length_littleEndian ..⟩
    rw [ofLittleEndian_littleEndian, Nat.mod_eq_of_lt hn]

/-- A number read as something else: `ofNat` and `toNat` are the two ways of seeing it. -/
theorem parses_number_pure {width : Nat} {ofNat : Nat → α} {toNat : α → Nat}
    (hof : ∀ x, ofNat (toNat x) = x) (hto : ∀ n, n < Nat.pow 256 width → toNat (ofNat n) = n)
    (hlt : ∀ x, toNat x < Nat.pow 256 width) :
    Parses (number width >>= fun n => pure (ofNat n)) fun x bytes =>
      bytes = littleEndian width (toNat x) := by
  refine (parses_map (parses_number width)).congr fun x bytes => ?_
  constructor
  · rintro ⟨n, rfl, hn, rfl⟩
    rw [hto n hn]
  · rintro rfl
    exact ⟨toNat x, hof x, hlt x, rfl⟩

theorem parses_word8 : Parses word8 fun x bytes => bytes = littleEndian 1 x.toNat :=
  parses_number_pure (fun _ => UInt8.ofNat_toNat) (fun _ hn => UInt8.toNat_ofNat_of_lt hn)
    fun x => x.toNat_lt

theorem parses_word16 : Parses word16 fun x bytes => bytes = littleEndian 2 x.toNat :=
  parses_number_pure (fun _ => UInt16.ofNat_toNat) (fun _ hn => UInt16.toNat_ofNat_of_lt hn)
    fun x => x.toNat_lt

theorem parses_word32 : Parses word32 fun x bytes => bytes = littleEndian 4 x.toNat :=
  parses_number_pure (fun _ => UInt32.ofNat_toNat) (fun _ hn => UInt32.toNat_ofNat_of_lt hn)
    fun x => x.toNat_lt

theorem parses_word64 : Parses word64 fun x bytes => bytes = littleEndian 8 x.toNat :=
  parses_number_pure (fun _ => UInt64.ofNat_toNat) (fun _ hn => UInt64.toNat_ofNat_of_lt hn)
    fun x => x.toNat_lt

/-- A value whose bytes are never refused is spelt as it is encoded. -/
theorem Parses.encoded {r : Reader α} {f : α → List UInt8} (h : Parses r fun x bytes => bytes = f x) :
    Parses r fun x bytes => True ∧ (.ok (f x) : Encoded) = .ok bytes := by
  refine h.congr fun x bytes => ?_
  rw [true_and, Except.ok.injEq, eq_comm]

theorem littleEndian_byte (b : UInt8) : littleEndian 1 b.toNat = [b] := by
  simp [littleEndian]

/-- A flag is spelt by zero or one and by no other byte. -/
theorem parses_flag : Parses flag fun x bytes => bytes = [if x then 1 else 0] := by
  have hvalue (offset : Nat) (value : UInt8) : Parses
      (if value = 0 then pure false else if value = 1 then pure true
        else throw (.invalidFlag value offset) : Reader Bool)
      fun x bytes => value = (if x then 1 else 0) ∧ bytes = [] := by
    split
    · next h =>
      refine (parses_pure false).congr fun x bytes => ?_
      cases x <;> simp [h]
    · split
      · next h =>
        refine (parses_pure true).congr fun x bytes => ?_
        cases x <;> simp [h]
      · next h0 h1 =>
        refine (parses_throw _).congr fun x bytes => ?_
        cases x <;> simp [h0, h1]
  refine (parses_position_bind fun offset =>
    parses_bind parses_word8 fun value => hvalue offset value).congr fun x bytes => ?_
  constructor
  · rintro ⟨value, front, back, rfl, ⟨rfl, rfl⟩, rfl⟩
    rw [littleEndian_byte, List.append_nil]
  · rintro rfl
    exact ⟨_, _, [], rfl, ⟨rfl, rfl⟩, by rw [littleEndian_byte, List.append_nil]⟩

/-! ## Counts and tables -/

/-- A count is a number that the bytes behind it can honour. -/
theorem run_count_eq_ok {width least n : Nat} {c c' : Cursor} :
    (count width least).run c = .ok (n, c') ↔
      (number width).run c = .ok (n, c') ∧ n * least ≤ c'.rest.length := by
  simp only [count, run_bind_eq_ok]
  constructor
  · rintro ⟨m, mid, hm, left, _, hleft, hend⟩
    cases hleft
    split at hend
    · cases hend
    · next hshort =>
      cases hend
      exact ⟨hm, Nat.not_lt.mp hshort⟩
  · rintro ⟨hn, hle⟩
    refine ⟨n, c', hn, c'.rest.length, c', rfl, ?_⟩
    rw [if_neg (Nat.not_lt.mpr hle)]
    rfl

/-- What is read behind a count is spelt behind the number, if what it counts is never shorter
than announced. -/
theorem parses_count_bind {width least : Nat} {f : Nat → Reader β}
    {H : Nat → β → List UInt8 → Prop} (hf : ∀ n, Parses (f n) (H n))
    (hleast : ∀ n y bytes, H n y bytes → n * least ≤ bytes.length) :
    Parses (count width least >>= f) fun y bytes =>
      ∃ n back, n < Nat.pow 256 width ∧ H n y back ∧ bytes = littleEndian width n ++ back := by
  have hplain := parses_bind (parses_number width) hf
  intro c y c'
  rw [run_bind_eq_ok]
  constructor
  · rintro ⟨n, mid, hn, hy⟩
    have hplain := (hplain c y c').mp (run_bind_eq_ok.mpr ⟨n, mid, (run_count_eq_ok.mp hn).1, hy⟩)
    obtain ⟨bytes, ⟨n, _, back, ⟨hn, rfl⟩, hH, rfl⟩, hrest, hoffset⟩ := hplain
    exact ⟨_, ⟨n, back, hn, hH, rfl⟩, hrest, hoffset⟩
  · rintro ⟨_, ⟨n, back, hlt, hH, rfl⟩, hrest, hoffset⟩
    have hplain := (hplain c y c').mpr ⟨_, ⟨n, _, back, ⟨hlt, rfl⟩, hH, rfl⟩, hrest, hoffset⟩
    obtain ⟨m, mid, hm, hy⟩ := run_bind_eq_ok.mp hplain
    refine ⟨m, mid, run_count_eq_ok.mpr ⟨hm, ?_⟩, hy⟩
    obtain ⟨bytes, hbytes, hmid, -⟩ := (hf m ..).mp hy
    have := hleast m y bytes hbytes
    rw [hmid, List.length_append]
    omega

end Reader

/-! ## Encoded parts -/

namespace Encoded

variable {α : Type} {bytes : List UInt8}

theorem ok_bind (part : List UInt8) (f : List UInt8 → Encoded) :
    (.ok part : Encoded) >>= f = f part := rfl

@[simp] theorem concat_nil_eq_ok : concat [] = .ok bytes ↔ bytes = [] := by
  rw [concat, Except.ok.injEq, eq_comm]

@[simp] theorem concat_cons_eq_ok {part : Encoded} {parts : List Encoded} :
    concat (part :: parts) = .ok bytes ↔
      ∃ front back, part = .ok front ∧ concat parts = .ok back ∧ bytes = front ++ back := by
  simp only [concat, except_bind_eq_ok, except_pure_eq_ok]
  constructor
  · rintro ⟨front, hfront, back, hback, rfl⟩
    exact ⟨front, back, hfront, hback, rfl⟩
  · rintro ⟨front, back, hfront, hback, rfl⟩
    exact ⟨front, hfront, back, hback, rfl⟩

theorem count_eq_ok {kind : CountedTable} {n : Nat} :
    count kind n = .ok bytes ↔ n < Nat.pow 256 4 ∧ bytes = littleEndian 4 n := by
  change (if n < Nat.pow 256 4 then _ else _) = _ ↔ _
  split
  · next h => rw [Except.ok.injEq, eq_comm, and_iff_right h]
  · next h => simp [h]

theorem table_eq_ok {kind : CountedTable} {item : α → Encoded} {xs : List α} :
    table kind item xs = .ok bytes ↔
      xs.length < Nat.pow 256 4 ∧ ∃ back, concat (xs.map item) = .ok back ∧
        bytes = littleEndian 4 xs.length ++ back := by
  simp only [table, except_bind_eq_ok, except_pure_eq_ok, count_eq_ok]
  constructor
  · rintro ⟨_, ⟨hlt, rfl⟩, back, hback, rfl⟩
    exact ⟨hlt, back, hback, rfl⟩
  · rintro ⟨hlt, back, hback, rfl⟩
    exact ⟨_, ⟨hlt, rfl⟩, back, hback, rfl⟩

/-- Parts that all have bytes have bytes together. -/
theorem exists_concat {parts : List Encoded} (h : ∀ part ∈ parts, ∃ bytes, part = .ok bytes) :
    ∃ bytes, concat parts = .ok bytes := by
  induction parts with
  | nil => exact ⟨[], rfl⟩
  | cons part parts ih =>
    obtain ⟨front, hfront⟩ := h part (List.mem_cons_self ..)
    obtain ⟨back, hback⟩ := ih fun part hpart => h part (List.mem_cons_of_mem _ hpart)
    exact ⟨front ++ back, concat_cons_eq_ok.mpr ⟨front, back, hfront, hback, rfl⟩⟩

end Encoded

/-- A table that a 32-bit count can announce, with what each entry is at its position. -/
structure IsTable {α : Type} (p : Nat → α → Prop) (xs : List α) : Prop where
  length : xs.length < 0x100000000
  entry : ∀ (i : Nat) (x : α), xs[i]? = some x → p i x

instance {α : Type} {p : Nat → α → Prop} [∀ i x, Decidable (p i x)] (xs : List α) :
    Decidable (IsTable p xs) :=
  haveI : Decidable (∀ i : Fin xs.length, p i xs[i]) := Nat.decidableForallFin _
  decidable_of_iff (xs.length < 0x100000000 ∧ ∀ i : Fin xs.length, p i xs[i])
    ⟨fun ⟨hlength, hentry⟩ => ⟨hlength, fun i x hx => by
      obtain ⟨hi, rfl⟩ := List.getElem?_eq_some_iff.mp hx
      exact hentry ⟨i, hi⟩⟩,
    fun h => ⟨h.length, fun i => h.entry i _ (List.getElem?_eq_getElem i.isLt)⟩⟩

/-- A table has bytes if its entries do. -/
theorem IsTable.exists_table {α : Type} {p : Nat → α → Prop} {xs : List α} (h : IsTable p xs)
    (kind : CountedTable) {e : α → Encoded} (he : ∀ i x, p i x → ∃ bytes, e x = .ok bytes) :
    ∃ bytes, Encoded.table kind e xs = .ok bytes := by
  have hparts : ∀ part ∈ xs.map e, ∃ bytes, part = .ok bytes := by
    intro part hpart
    obtain ⟨x, hx, rfl⟩ := List.mem_map.mp hpart
    obtain ⟨i, hi⟩ := List.mem_iff_getElem?.mp hx
    exact he i x (h.entry i x hi)
  obtain ⟨back, hback⟩ := Encoded.exists_concat hparts
  exact ⟨_, Encoded.table_eq_ok.mpr ⟨h.length, back, hback, rfl⟩⟩

namespace Reader

variable {α : Type}

/-- Elements read one after the other are those whose encodings follow one another. -/
theorem parses_elementsFrom {item : Nat → Reader α} {p : Nat → α → Prop} {e : Nat → α → Encoded}
    (h : ∀ i, Parses (item i) fun x bytes => p i x ∧ e i x = .ok bytes) (first n : Nat) :
    Parses (elementsFrom item first n) fun xs bytes =>
      xs.length = n ∧ (∀ (i : Nat) (x : α), xs[i]? = some x → p (first + i) x) ∧
        Encoded.concat (xs.mapIdx fun i => e (first + i)) = .ok bytes := by
  induction n generalizing first with
  | zero =>
    refine (parses_pure []).congr fun xs bytes => ?_
    constructor
    · rintro ⟨rfl, rfl⟩
      simp
    · rintro ⟨hlength, -, hbytes⟩
      obtain rfl := List.eq_nil_of_length_eq_zero hlength
      exact ⟨rfl, by simpa using hbytes⟩
  | succ n ih =>
    have hindex (i : Nat) : first + (i + 1) = first + 1 + i := by omega
    have hshift : (fun i => e (first + (i + 1))) = fun i => e (first + 1 + i) :=
      funext fun i => by rw [hindex]
    refine (parses_bind (h first) fun x => parses_bind (ih (first + 1)) fun xs =>
      parses_pure _).congr fun ys bytes => ?_
    constructor
    · rintro ⟨x, front, _, ⟨hx, hfront⟩, ⟨xs, back, _, ⟨rfl, hxs, hback⟩, ⟨rfl, rfl⟩, rfl⟩, rfl⟩
      refine ⟨rfl, fun i y hy => ?_, ?_⟩
      · cases i with
        | zero =>
          obtain rfl : x = y := by simpa using hy
          exact hx
        | succ i => exact hindex i ▸ hxs i y hy
      · rw [List.mapIdx_cons, hshift, Encoded.concat_cons_eq_ok]
        exact ⟨front, back, hfront, hback, by rw [List.append_nil]⟩
    · rintro ⟨hlength, hp, hbytes⟩
      cases ys with
      | nil => cases hlength
      | cons x xs =>
        rw [List.mapIdx_cons, hshift, Encoded.concat_cons_eq_ok] at hbytes
        obtain ⟨front, back, hfront, hback, rfl⟩ := hbytes
        refine ⟨x, front, back, ⟨hp 0 x rfl, hfront⟩, ⟨xs, back, [], ⟨?_, ?_, hback⟩, ⟨rfl, rfl⟩,
          (List.append_nil _).symm⟩, rfl⟩
        · exact Nat.succ.inj hlength
        · intro i y hy
          exact hindex i ▸ hp (i + 1) y hy

end Reader

namespace Encoded

variable {α : Type}

theorem mapIdx_const (e : α → Encoded) (xs : List α) : xs.mapIdx (fun _ => e) = xs.map e :=
  List.ext_getElem? fun i => by simp

/-- Elements that are never shorter than announced fill the room announced for them. -/
theorem le_length_of_concat {e : Nat → α → Encoded} {least : Nat}
    (hleast : ∀ i x bytes, e i x = .ok bytes → least ≤ bytes.length) {xs : List α}
    {bytes : List UInt8} (h : concat (xs.mapIdx e) = .ok bytes) :
    xs.length * least ≤ bytes.length := by
  induction xs generalizing e bytes with
  | nil => simp
  | cons x xs ih =>
    rw [List.mapIdx_cons, concat_cons_eq_ok] at h
    obtain ⟨front, back, hfront, hback, rfl⟩ := h
    have hx := hleast 0 x front hfront
    have hxs := ih (fun i => hleast (i + 1)) hback
    rw [List.length_cons, List.length_append, Nat.succ_mul]
    omega

end Encoded

namespace Reader

variable {α : Type}

/-- A counted sequence is spelt as a table is encoded. -/
theorem parses_counted {width least : Nat} {r : Nat → Nat → Reader α} {p : Nat → Nat → α → Prop}
    {e : Nat → Nat → α → Encoded}
    (h : ∀ n i, Parses (r n i) fun x bytes => p n i x ∧ e n i x = .ok bytes)
    (hleast : ∀ n i x bytes, e n i x = .ok bytes → least ≤ bytes.length) :
    Parses (count width least >>= fun n => elementsFrom (r n) 0 n) fun xs bytes =>
      (∀ (i : Nat) (x : α), xs[i]? = some x → p xs.length i x) ∧
        xs.length < Nat.pow 256 width ∧
        ∃ back, Encoded.concat (xs.mapIdx (e xs.length)) = .ok back ∧
          bytes = littleEndian width xs.length ++ back := by
  refine (parses_count_bind (fun n => parses_elementsFrom (h n) 0 n) ?_).congr fun xs bytes => ?_
  · rintro n xs bytes ⟨rfl, -, hbytes⟩
    simp only [Nat.zero_add] at hbytes
    exact Encoded.le_length_of_concat (hleast xs.length) hbytes
  · simp only [Nat.zero_add]
    constructor
    · rintro ⟨_, back, hlt, ⟨rfl, hp, hback⟩, rfl⟩
      exact ⟨hp, hlt, back, hback, rfl⟩
    · rintro ⟨hp, hlt, back, hback, rfl⟩
      exact ⟨xs.length, back, hlt, ⟨rfl, hp, hback⟩, rfl⟩

/-- The bytes of a table are those that its encoding has. -/
theorem parses_table (kind : CountedTable) {least : Nat} {item : Nat → Reader α}
    {p : Nat → α → Prop} {e : α → Encoded}
    (h : ∀ i, Parses (item i) fun x bytes => p i x ∧ e x = .ok bytes)
    (hleast : ∀ x bytes, e x = .ok bytes → least ≤ bytes.length) :
    Parses (table least item) fun xs bytes =>
      IsTable p xs ∧ Encoded.table kind e xs = .ok bytes := by
  refine (parses_counted (r := fun _ => item) (p := fun _ => p) (e := fun _ _ => e)
    (fun _ => h) fun _ _ => hleast).congr fun xs bytes => ?_
  rw [Encoded.table_eq_ok, Encoded.mapIdx_const]
  constructor
  · rintro ⟨hp, hlength, hback⟩
    exact ⟨⟨hlength, hp⟩, hlength, hback⟩
  · rintro ⟨htable, hlength, hback⟩
    exact ⟨htable.entry, hlength, hback⟩

/-! ## Sections one after the other -/

/-- A section in front of others: if the whole result `y` of what follows tells which value the
section had, its bytes are those of that value and of the other sections. -/
theorem parses_section {β : Type} {r : Reader α} {f : α → Reader β} {p : α → Prop}
    {q : α → β → Prop} {e : α → Encoded} {es : α → β → List Encoded} (part : β → α)
    (hr : Parses r fun x bytes => p x ∧ e x = .ok bytes) (hpart : ∀ x y, q x y → x = part y)
    (hf : ∀ x, Parses (f x) fun y bytes => q x y ∧ Encoded.concat (es x y) = .ok bytes) :
    Parses (r >>= f) fun y bytes => (p (part y) ∧ q (part y) y) ∧
      Encoded.concat (e (part y) :: es (part y) y) = .ok bytes := by
  refine (parses_bind hr hf).congr fun y bytes => ?_
  rw [Encoded.concat_cons_eq_ok]
  constructor
  · rintro ⟨x, front, back, ⟨hp, hfront⟩, ⟨hq, hback⟩, rfl⟩
    obtain rfl := hpart x y hq
    exact ⟨⟨hp, hq⟩, front, back, hfront, hback, rfl⟩
  · rintro ⟨⟨hp, hq⟩, front, back, hfront, hback, rfl⟩
    exact ⟨part y, front, back, ⟨hp, hfront⟩, ⟨hq, hback⟩, rfl⟩

/-- Behind the last section nothing is spelt any more. -/
theorem parses_sections_end (y : α) :
    Parses (pure y) fun z bytes => y = z ∧ Encoded.concat [] = .ok bytes :=
  (parses_pure y).congr fun z bytes => by rw [Encoded.concat_nil_eq_ok]

end Reader
end ModuleLinker
