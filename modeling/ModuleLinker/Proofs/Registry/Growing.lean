import ModuleLinker.Proofs.Registry.Resolving
import ModuleLinker.Registry.Operation

/-!
# What the host adds

Every addition of the host appends to the tables of one module and leaves the module to be built
again. That is all that the rest of the theory has to know of the five ways to add something.
-/
namespace ModuleLinker

/-- The module with entries appended to its tables and no build since. Added structures and
functions are numbered on, and added structures have no layout and are the module's own. -/
structure Module.Grows (m k : Module) : Prop where
  id : k.id = m.id
  path : k.path = m.path
  origin : k.origin = m.unbuilt.origin
  dependencies : m.dependencies <+: k.dependencies
  structureMappings : m.mappings.structures <+: k.mappings.structures
  functionMappings : m.mappings.functions <+: k.mappings.functions
  structures : ∃ added, k.structures = m.structures ++ added ∧
    ∀ (i : Nat) (s : Structure), added[i]? = some s →
      s.id = ⟨m.id, m.structures.length + i⟩ ∧ s.layout = .notComputed
  assigned : ∀ s ∈ k.structures, s ∈ m.structures ∨
    ∃ t : Structure, t.layout = .notComputed ∧ s = t.assign m.id
  functions : ∃ added, k.functions = m.functions ++ added ∧
    ∀ (i : Nat) (f : Function), added[i]? = some f → f.id = ⟨m.id, m.functions.length + i⟩
  functionLinks : k.functionLinks = m.functionLinks

namespace Module

theorem unbuilt_eq (m : Module) : m.unbuilt = { m with origin := m.unbuilt.origin } := by
  obtain ⟨_, _, origin, _⟩ := m
  cases origin <;> rfl

theorem grows_of_origin (m : Module) : m.Grows { m with origin := m.unbuilt.origin } where
  id := rfl
  path := rfl
  origin := rfl
  dependencies := List.prefix_rfl
  structureMappings := List.prefix_rfl
  functionMappings := List.prefix_rfl
  structures := ⟨[], by simp, by simp⟩
  assigned := fun _ hs => .inl hs
  functions := ⟨[], by simp, by simp⟩
  functionLinks := rfl

theorem grows_addDependency (m : Module) (spec : String) : m.Grows (m.addDependency spec).2 := by
  simp only [addDependency]
  rw [unbuilt_eq]
  exact { m.grows_of_origin with dependencies := List.prefix_append .. }

theorem grows_addStructureMapping (m : Module) (dependency : UInt32) (name : String) :
    m.Grows (m.addStructureMapping dependency name).2 := by
  simp only [addStructureMapping, Mappings.addStructure]
  rw [unbuilt_eq]
  exact { m.grows_of_origin with structureMappings := List.prefix_append .. }

theorem grows_addFunctionMapping (m : Module) (dependency : UInt32) (name : String) :
    m.Grows (m.addFunctionMapping dependency name).2 := by
  simp only [addFunctionMapping, Mappings.addFunction]
  rw [unbuilt_eq]
  exact { m.grows_of_origin with functionMappings := List.prefix_append .. }

theorem grows_addStructure (m : Module) (name : String) (fields : List Field) :
    m.Grows (m.addStructure name fields).2 := by
  simp only [addStructure]
  rw [unbuilt_eq]
  refine { m.grows_of_origin with structures := ⟨_, rfl, ?_⟩, assigned := ?_ }
  · intro i s hs
    cases i with
    | zero =>
      obtain rfl := Option.some.inj hs
      exact ⟨rfl, rfl⟩
    | succ i => cases hs
  · intro s hs
    exact (List.mem_append.mp hs).imp_right fun hs => ⟨_, rfl, List.mem_singleton.mp hs⟩

theorem grows_addFunction (m : Module) (name : String) (arity : UInt16) (hasResult : Bool)
    (body : FunctionBody) : m.Grows (m.addFunction name arity hasResult body).2 := by
  simp only [addFunction]
  rw [unbuilt_eq]
  refine { m.grows_of_origin with functions := ⟨_, rfl, ?_⟩ }
  intro i f hf
  cases i with
  | zero =>
    obtain rfl := Option.some.inj hf
    rfl
  | succ i => cases hf

theorem unbuilt_isHosted (m : Module) : m.unbuilt.isHosted = m.isHosted := by
  cases ho : m.origin <;> simp [unbuilt, isHosted, ho]

theorem Grows.isHosted {m k : Module} (h : m.Grows k) : k.isHosted = m.isHosted := by
  rw [← unbuilt_isHosted m, Module.isHosted, Module.isHosted, h.origin]

end Module

/-- Whether an operation adds something to a module of the host. -/
def Operation.isAuthoring : Operation → Bool
  | .addDependency .. | .addStructureMapping .. | .addFunctionMapping .. | .addStructure ..
  | .addFunction .. => true
  | .load .. | .create .. | .build .. | .clear | .addLibraryDirectory .. => false

namespace Loader

/-- What an addition makes of a registry: nothing if it is refused, otherwise a module of the host
grows. -/
inductive Authored (l : Loader) : Loader → Prop where
  | refused : Authored l l
  | grown {id : ModuleId} {m k : Module} (there : l.module? id = some m)
      (hosted : m.isHosted = true) (grows : m.Grows k) : Authored l (l.update id fun _ => k)

/-- What the host adds has no layout. -/
theorem Authored.sameDone {l l' : Loader} (h : l.Authored l') :
    Arena.SameDone l.arena l'.arena := by
  cases h with
  | refused => exact fun _ _ _ => .rfl
  | @grown id m k there hosted grows =>
    intro x s hdone
    by_cases howner : x.owner = id
    · have hk : (l.update id fun _ => k).arena.module? x.owner = some k := by
        have := module?_loader_update (l := l) id x.owner fun _ => k
        rw [if_pos howner, there] at this
        exact this
      rw [Arena.structure?_of_module? (howner ▸ there), Arena.structure?_of_module? hk]
      obtain ⟨added, hadded, hnew⟩ := grows.structures
      rw [hadded, List.getElem?_append]
      split
      · exact .rfl
      · next hlt =>
        rw [List.getElem?_eq_none (Nat.le_of_not_lt hlt)]
        refine ⟨nofun, fun hs => ?_⟩
        rw [(hnew _ s hs).2] at hdone
        cases hdone
    · have hsame : (l.update id fun _ => k).arena.module? x.owner = l.arena.module? x.owner := by
        have := module?_loader_update (l := l) id x.owner fun _ => k
        rwa [if_neg howner] at this
      rw [Arena.structure?_congr hsame]

theorem authored_after_author {α : Type} (l : Loader) (id : ModuleId)
    {add : Module → α × Module} (hadd : ∀ m : Module, m.Grows (add m).2) :
    l.Authored (l.after (l.author id add)) := by
  simp only [author]
  cases hm : l.module? id with
  | none => exact .refused
  | some m =>
    cases hhosted : m.isHosted with
    | false =>
      simp only [hhosted, Bool.false_eq_true, if_false]
      exact .refused
    | true =>
      simp only [hhosted, if_true]
      exact .grown hm hhosted (hadd m)

theorem authored_apply (l : Loader) {o : Operation} (h : o.isAuthoring = true) :
    l.Authored (l.apply o) := by
  cases o with
  | load => cases h
  | create => cases h
  | build => cases h
  | clear => cases h
  | addLibraryDirectory => cases h
  | addDependency id spec => exact l.authored_after_author id fun m => m.grows_addDependency spec
  | addStructureMapping id dependency name =>
    exact l.authored_after_author id fun m => m.grows_addStructureMapping dependency name
  | addFunctionMapping id dependency name =>
    exact l.authored_after_author id fun m => m.grows_addFunctionMapping dependency name
  | addStructure id name fields =>
    exact l.authored_after_author id fun m => m.grows_addStructure name fields
  | addFunction id name arity hasResult body =>
    exact l.authored_after_author id fun m => m.grows_addFunction name arity hasResult body

end Loader
end ModuleLinker
