import ModuleLinker.Ident
import ModuleLinker.Instructions

/-!
# Functions

A function is a name and a signature with a body, which is either a stream of instructions or
left to the program that hosts the machine.
-/
namespace ModuleLinker

/-- Where the code of a function is. -/
inductive FunctionBody where
  | bytecode (stream : Instructions)
  /-- Supplied by the host; no image can hold it. -/
  | host
  deriving DecidableEq

/-- A function of some module. -/
structure Function where
  name : String
  owner : ModuleId
  /-- Position in the module's function table. -/
  index : Nat
  arity : UInt16
  hasResult : Bool
  body : FunctionBody
  deriving DecidableEq

namespace Function

/-- Identity of a function. -/
def id (f : Function) : FunctionId := ⟨f.owner, f.index⟩

/-- Whether the host supplies the function. -/
def isHost (f : Function) : Bool := f.body = .host

/-- The function owned by a module. -/
def assign (owner : ModuleId) (f : Function) : Function := { f with owner }

end Function
end ModuleLinker
