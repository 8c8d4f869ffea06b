import ModuleLinker.Image.Decode
import ModuleLinker.Proofs.Success

/-!
# What a decoded description looks like

Structures and functions of a decoded description stand at the positions that they carry, are
owned by nobody yet and have no layout, and a field that means a structure means one of the
description itself.
-/
namespace ModuleLinker

namespace Reader

variable {α β : Type}

/-- A sequence of readers has a result if the first one has one and the second one goes on from
where it stopped. -/
theorem run_bind_eq_ok {r : Reader α} {f : α → Reader β} {c c' : Cursor} {y : β} :
    (r >>= f).run c = .ok (y, c') ↔
      ∃ x mid, r.run c = .ok (x, mid) ∧ (f x).run mid = .ok (y, c') := by
  simp only [StateT.run_bind, except_bind_eq_ok, Prod.exists]

theorem run_pure_eq_ok {x y : α} {c c' : Cursor} :
    (pure x : Reader α).run c = .ok (y, c') ↔ x = y ∧ c = c' := by
  simp only [StateT.run_pure, except_pure_eq_ok, Prod.mk.injEq]

/-- Whatever a reader gives has a property. -/
def Ensures (r : Reader α) (p : α → Prop) : Prop :=
  ∀ c x c', r.run c = .ok (x, c') → p x

theorem ensures_bind {r : Reader α} {f : α → Reader β} {p : β → Prop}
    (h : ∀ x, Ensures (f x) p) : Ensures (r >>= f) p := by
  intro c y c' hy
  obtain ⟨x, mid, -, hx⟩ := run_bind_eq_ok.mp hy
  exact h x mid y c' hx

theorem ensures_bind_of {r : Reader α} {f : α → Reader β} {q : α → Prop} {p : β → Prop}
    (hr : Ensures r q) (h : ∀ x, q x → Ensures (f x) p) : Ensures (r >>= f) p := by
  intro c y c' hy
  obtain ⟨x, mid, hx, hfx⟩ := run_bind_eq_ok.mp hy
  exact h x (hr c x mid hx) mid y c' hfx

theorem ensures_pure {x : α} {p : α → Prop} (h : p x) : Ensures (pure x) p := by
  intro c y c' hy
  exact (run_pure_eq_ok.mp hy).1 ▸ h

theorem ensures_throw {e : DecodeError} {p : α → Prop} : Ensures (throw e) p := by
  intro c y c' hy
  cases hy

theorem ensures_liftM {x : Except DecodeError α} {p : α → Prop} (h : ∀ a, x = .ok a → p a) :
    Ensures (liftM x) p := by
  intro c y c' hy
  cases x with
  | error e => cases hy
  | ok a =>
    cases hy
    exact h _ rfl

/-- Elements read one after the other have what each of them has at its position. -/
theorem ensures_elementsFrom {item : Nat → Reader α} {p : Nat → α → Prop}
    (h : ∀ i, Ensures (item i) (p i)) (first n : Nat) :
    Ensures (elementsFrom item first n) fun xs =>
      ∀ (i : Nat) (x : α), xs[i]? = some x → p (first + i) x := by
  induction n generalizing first with
  | zero => exact ensures_pure fun i x hx => nomatch hx
  | succ n ih =>
    refine ensures_bind_of (h first) fun x hx => ?_
    refine ensures_bind_of (ih (first + 1)) fun xs hxs => ?_
    refine ensures_pure fun i y hy => ?_
    cases i with
    | zero =>
      obtain rfl : x = y := by simpa using hy
      exact hx
    | succ i =>
      rw [List.getElem?_cons_succ] at hy
      have := hxs i y hy
      rwa [Nat.add_right_comm] at this

theorem ensures_table {item : Nat → Reader α} {p : Nat → α → Prop} {least : Nat}
    (h : ∀ i, Ensures (item i) (p i)) :
    Ensures (table least item) fun xs =>
      ∀ (i : Nat) (x : α), xs[i]? = some x → p i x := by
  refine ensures_bind fun n => ?_
  have := ensures_elementsFrom h 0 n
  simpa only [Nat.zero_add] using this

/-! ## Structures and functions -/

theorem owner_of_resolveTypeCode {code offset structures mappings : Nat} {id : StructureId}
    (h : resolveTypeCode code offset structures mappings = .ok (.struct id)) :
    id.owner = .pending := by
  simp only [resolveTypeCode] at h
  split at h
  · split at h
    · cases h
      rfl
    · split at h <;> cases h
  · split at h <;> cases h
  · cases h

/-- A field that means a structure means one of the same description. -/
theorem ensures_field (structures mappings : Nat) :
    Ensures (field structures mappings) fun f =>
      ∀ id, f.type = .struct id → id.owner = .pending := by
  refine ensures_bind fun offset => ensures_bind fun word => ?_
  refine ensures_bind_of (q := fun t => ∀ id, t = .struct id → id.owner = .pending)
    (ensures_liftM fun t ht id hid => owner_of_resolveTypeCode (hid ▸ ht)) fun t ht => ?_
  split
  · exact ensures_pure ht
  · refine ensures_bind fun offset => ensures_bind fun count => ?_
    split
    · exact ensures_throw
    · exact ensures_pure ht

end Reader

/-- A structure as it stands in a description: owned by nobody, at its position, without layout,
and naming structures of the description only. -/
structure Structure.Unregistered (position : Nat) (s : Structure) : Prop where
  owner : s.owner = .pending
  index : s.index = position
  layout : s.layout = .notComputed
  types : ∀ f ∈ s.fields, ∀ id, f.type = .struct id → id.owner = .pending

/-- The structures and functions of a description stand at the positions that they carry, and
nothing is registered yet. -/
structure Descriptor.Unregistered (d : Descriptor) : Prop where
  structures : ∀ (i : Nat) (s : Structure), d.structures[i]? = some s → s.Unregistered i
  functions : ∀ (i : Nat) (f : Function), d.functions[i]? = some f → f.index = i

namespace Reader

theorem ensures_structureAt (structures mappings index : Nat) :
    Ensures (structureAt structures mappings index) (Structure.Unregistered index) := by
  refine ensures_bind fun name => ?_
  refine ensures_bind_of (ensures_table fun _ => ensures_field structures mappings)
    fun fields hfields => ensures_pure ⟨rfl, rfl, rfl, fun f hf => ?_⟩
  obtain ⟨i, hi⟩ := List.mem_iff_getElem?.mp hf
  exact hfields i f hi

theorem ensures_structures (mappings : Nat) :
    Ensures (structures mappings) fun ss =>
      ∀ (i : Nat) (s : Structure), ss[i]? = some s → s.Unregistered i := by
  refine ensures_bind fun n => ?_
  have := ensures_elementsFrom (fun i => ensures_structureAt n mappings i) 0 n
  simpa only [Nat.zero_add] using this

theorem ensures_functionAt (v : Version) (index : Nat) :
    Ensures (functionAt v index) fun f => f.index = index :=
  ensures_bind fun _ => ensures_bind fun _ => ensures_bind fun _ => ensures_bind fun _ =>
    ensures_pure rfl

theorem ensures_image : Ensures image Descriptor.Unregistered := by
  refine ensures_bind fun _ => ensures_bind fun _ => ensures_bind fun v => ?_
  refine ensures_bind fun _ => ensures_bind fun mappings => ensures_bind fun _ => ?_
  refine ensures_bind_of (ensures_structures mappings.structures.length) fun ss hss => ?_
  refine ensures_bind_of (ensures_table fun i => ensures_functionAt v i) fun fs hfs => ?_
  exact ensures_bind fun _ => ensures_bind fun _ => ensures_pure ⟨hss, hfs⟩

end Reader

/-- A decoded description is not registered yet and numbered as it should. -/
theorem unregistered_of_decode {bytes : List UInt8} {d : Descriptor} (h : decode bytes = .ok d) :
    d.Unregistered := by
  simp only [decode] at h
  cases hr : Reader.image.run ⟨0, bytes⟩ with
  | error e => simp [hr, Except.map] at h
  | ok found =>
    obtain rfl : found.1 = d := by simpa [hr, Except.map] using h
    exact Reader.ensures_image _ found.1 found.2 hr

end ModuleLinker
