import ModuleLinker.Registry.Containment

/-!
# Laying structures out

Fields are placed in the order of their declaration, each at the next multiple of its alignment.
An inline array is a count word and its elements, and is aligned at least to a word. No padding
follows the last field. A structure that is embedded is laid out first; layouts are kept in the
structures, so that each is computed once. A structure on the current path is marked, and meeting
it again is a cycle. A failure unmarks the path and keeps the layouts that were finished.
-/
namespace ModuleLinker

/-- The fields placed so far, where the next one may start, and the alignment they need. -/
structure Frame where
  placed : List Field := []
  extent : Nat := 0
  alignment : Nat := 1

namespace Frame

/-- Alignment of a field whose elements have the given layout. -/
def alignmentOf (f : Field) (element : Layout) : Nat :=
  if f.isArray then max element.rawAlignment wordBytes else element.rawAlignment

/-- Bytes of a field whose elements have the given layout. -/
def extentOf (f : Field) (element : Layout) : Nat :=
  if f.isArray then element.rawSize * f.count.toNat + countWordBytes else element.rawSize

/-- Place a field; there is no place if it would end beyond the address limit. -/
def place? (frame : Frame) (f : Field) (element : Layout) : Option Frame :=
  let align := alignmentOf f element
  let start := alignUp frame.extent align
  let stop := start + extentOf f element
  if stop < addressLimit then
    some ⟨frame.placed ++ [{ f with offset := start }], stop, max frame.alignment align⟩
  else none

/-- The layout of a structure whose fields have all been placed. -/
def layout? (frame : Frame) : Option Layout := do
  return ⟨← objectSize? frame.extent, frame.extent, frame.alignment⟩

end Frame

namespace Arena

/-- The layout of a field's type, where `embed` lays a structure out. -/
def elementLayout (embed : Arena → StructureId → Attempt Arena Layout) (invalid : LoadError)
    (a : Arena) : FieldType → Attempt Arena Layout
  | .fundamental t => if t.isStorable then (.ok t.layout, a) else (.error invalid, a)
  | .struct child => embed a child
  | .mapped _ => (.error invalid, a)

/-- Place the remaining fields of a structure. -/
def placeFields (embed : Arena → StructureId → Attempt Arena Layout) (owner : ModulePath)
    (name : String) (frame : Frame) (a : Arena) : List Field → Attempt Arena Frame
  | [] => (.ok frame, a)
  | f :: fs =>
    match a.elementLayout embed (.invalidFieldType name frame.placed.length) f.type with
    | (.error e, a) => (.error e, a)
    | (.ok element, a) =>
      match frame.place? f element with
      | none => (.error (.layoutOverflow owner name), a)
      | some frame => a.placeFields embed owner name frame fs

/-- Lay a structure out, unless that is done. The fuel bounds the length of the path of marked
structures; without fuel the structure is taken for one of them. -/
def layOut : Nat → Arena → StructureId → Attempt Arena Layout
  | 0, a, id => (.error (.structureCycle [a.cycleEntry id]), a)
  | fuel + 1, a, id =>
    match a.module? id.owner with
    | none => (.error (.danglingStructure id), a)
    | some m =>
      match m.structures[id.index]? with
      | none => (.error (.danglingStructure id), a)
      | some s =>
        match s.layout with
        | .done layout => (.ok layout, a)
        | .computing => (.error (.structureCycle [a.cycleEntry id]), a)
        | .notComputed =>
          let marked := a.setStructure id { s with layout := .computing }
          match marked.placeFields (layOut fuel) m.path s.name {} s.fields with
          | (.error e, a) => (.error e, a.setStructure id s)
          | (.ok frame, a) =>
            match frame.layout? with
            | none => (.error (.layoutOverflow m.path s.name), a.setStructure id s)
            | some layout =>
              let laidOut := { s with fields := frame.placed, layout := .done layout }
              (.ok layout, a.setStructure id laidOut)

/-- Lay structures out in order, up to the first failure. -/
def layOutAll (fuel : Nat) (a : Arena) : List StructureId → Attempt Arena Unit
  | [] => (.ok (), a)
  | id :: ids =>
    match a.layOut fuel id with
    | (.error e, a) => (.error e, a)
    | (.ok _, a) => a.layOutAll fuel ids

/-- Lay out every structure of the given modules. A path of marked structures is never longer
than the arena has structures. -/
def computeLayouts (a : Arena) (targets : List ModuleId) : Attempt Arena Unit :=
  a.layOutAll (a.structureCount + 1) (targets.flatMap a.structureIds)

end Arena
end ModuleLinker
