import ModuleLinker.Registry.Arena
import ModuleLinker.Registry.Attempt

/-!
# By-value containment

A structure contains the structures that its fields have as types, be it in an array. Before a
layout the containment among structures that have none yet has to be free of cycles. The search
goes depth first and in the order of the fields; it reports the first cycle that it closes, from
the structure that was met again down to the one that contains it.
-/
namespace ModuleLinker
namespace Arena

/-- The structures that a structure contains by value, in the order of its fields. -/
def embedded (a : Arena) (id : StructureId) : List StructureId :=
  match a.structure? id with
  | none => []
  | some s => s.fields.filterMap fun f => f.type.structureId?

/-- Whether a structure is there and laid out. -/
def isLaidOut (a : Arena) (id : StructureId) : Bool :=
  match a.structure? id with
  | none => false
  | some s => s.layout.isDone

/-- A structure as an entry of a cycle. -/
def cycleEntry (a : Arena) (id : StructureId) : CycleEntry :=
  ⟨id, match a.structure? id with
    | none => ""
    | some s => s.name⟩

/-- Search below a structure. `path` holds the structures that lead to it, the nearest first,
and `finished` those below which there is no cycle; the result is `finished` with all that was
met, or a cycle. The fuel bounds the length of the path. -/
def explore (a : Arena) :
    Nat → List StructureId → List StructureId → StructureId →
      Except (List StructureId) (List StructureId)
  | 0, _, finished, _ => .ok finished
  | fuel + 1, path, finished, id => do
    let finished ← List.foldlM (fun finished child =>
      if child ∈ finished then .ok finished
      else if child ∈ id :: path then
        .error (child :: ((id :: path).takeWhile (· ≠ child)).reverse)
      else if a.isLaidOut child then .ok (child :: finished)
      else a.explore fuel (id :: path) finished child) finished (a.embedded id)
    return id :: finished

/-- Search below each of some structures that have no layout. -/
def exploreAll (fuel : Nat) (a : Arena) (finished : List StructureId) :
    List StructureId → Except (List StructureId) (List StructureId)
  | [] => .ok finished
  | id :: ids =>
    if id ∈ finished || a.isLaidOut id then a.exploreAll fuel finished ids
    else do a.exploreAll fuel (← a.explore fuel [] finished id) ids

/-- Fail if structures of the given modules contain themselves by value. A path of structures
without repetition is at most one longer than the arena has structures. -/
def checkCycles (a : Arena) (targets : List ModuleId) : Except LoadError Unit :=
  match a.exploreAll (a.structureCount + 1) [] (targets.flatMap a.structureIds) with
  | .ok _ => .ok ()
  | .error cycle => .error (.structureCycle (cycle.map a.cycleEntry))

end Arena
end ModuleLinker
