/-!
# Layouts

A layout says how much room a type takes, as an object of its own and embedded in another. The
layout of a structure is computed at most once; while it is being computed the structure is
marked, so that meeting it again shows.
-/
namespace ModuleLinker

/-- Storage requirements of a type. -/
structure Layout where
  /-- Size as an object: header included, rounded up to whole words. -/
  size : Nat
  /-- Size of the payload when embedded. -/
  rawSize : Nat
  /-- Alignment of the payload when embedded. -/
  rawAlignment : Nat
  deriving DecidableEq

/-- Progress of a structure's layout; `computing` marks the structures on the current path. -/
inductive LayoutState where
  | notComputed
  | computing
  | done (layout : Layout)
  deriving DecidableEq

namespace LayoutState

/-- The layout, once there is one. -/
def layout? : LayoutState → Option Layout
  | done layout => some layout
  | _ => none

/-- Whether the layout is there. -/
def isDone (s : LayoutState) : Bool := s.layout?.isSome

@[simp] theorem layout?_eq_some {s : LayoutState} {l : Layout} :
    s.layout? = some l ↔ s = done l := by
  cases s <;> simp [layout?]

@[simp] theorem isDone_iff {s : LayoutState} : s.isDone = true ↔ ∃ l, s = done l := by
  cases s <;> simp [isDone, layout?]

end LayoutState

end ModuleLinker
