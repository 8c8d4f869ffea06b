import ModuleLinker.Proofs.Registry.Resolving
import ModuleLinker.Proofs.Success

/-!
# The worklist of resolution

Resolution takes the specs of one module after the other, and the modules registered on the way
wait for their turn. The whole of it is a sequence of steps. When it succeeds, it has worked on
the modules that waited at first and on those in the new slots, in this order, and every
dependency of theirs is met.
-/
namespace ModuleLinker.Loader

variable {fs : FileSystem} {root id : ModuleId} {l l' l'' : Loader}

/-- The slots that the second registry has more than the first one. -/
def newSlots (l l' : Loader) : List ModuleId :=
  (List.range' l.arena.length (l'.arena.length - l.arena.length)).map ModuleId.slot

@[simp] theorem newSlots_self (l : Loader) : newSlots l l = [] := by simp [newSlots]

theorem newSlots_append (h : l.arena.length ≤ l'.arena.length)
    (h' : l'.arena.length ≤ l''.arena.length) :
    newSlots l l' ++ newSlots l' l'' = newSlots l l'' := by
  have hstart : l'.arena.length = l.arena.length + (l'.arena.length - l.arena.length) := by omega
  have hcount : l'.arena.length - l.arena.length + (l''.arena.length - l'.arena.length) =
      l''.arena.length - l.arena.length := by omega
  have hrange := List.range'_append_1 (s := l.arena.length)
    (m := l'.arena.length - l.arena.length) (n := l''.arena.length - l'.arena.length)
  rw [← hstart, hcount] at hrange
  rw [newSlots, newSlots, newSlots, ← List.map_append, hrange]

theorem mem_newSlots : id ∈ newSlots l l' ↔
    ∃ n, id = .slot n ∧ l.arena.length ≤ n ∧ n < l'.arena.length := by
  simp only [newSlots, List.mem_map, List.mem_range'_1]
  constructor
  · rintro ⟨n, hn, rfl⟩
    exact ⟨n, rfl, hn.1, by omega⟩
  · rintro ⟨n, rfl, hle, hlt⟩
    exact ⟨n, ⟨hle, by omega⟩, rfl⟩

theorem isFrom_of_mem_newSlots (h : id ∈ newSlots l l') : id.isFrom l.arena.length = true := by
  obtain ⟨n, rfl, hn, -⟩ := mem_newSlots.mp h
  exact ModuleId.isFrom_slot.mpr hn

/-! ## One spec -/

/-- A file that a spec means is named by its canonical path. -/
theorem canonicalize_of_resolveSpec {directories : List String} {requester : ModulePath}
    {spec path : String} (h : resolveSpec fs directories requester spec = .ok (.file path)) :
    fs.canonicalize path = .ok path := by
  simp only [resolveSpec] at h
  split at h
  · cases h
  · split at h
    · split at h
      · next found hfound =>
        cases h
        obtain ⟨directory, -, hfile⟩ := List.exists_of_findSome?_eq_some hfound
        exact FileSystem.canonicalize_of_file? hfile
      · cases h
    · split at h
      · cases h
      · split at h
        · next canonical hcanonical =>
          cases h
          exact FileSystem.canonicalize_of_canonicalize hcanonical
        · cases h

theorem registerFile_eq_ok {path : String} (hpath : fs.canonicalize path = .ok path) :
    l.registerFile fs path = .ok (id, l') ↔ ∃ bytes d, fs.read path = .ok bytes ∧
      decode bytes = .ok d ∧ id = l.nextId ∧
      l' = l.register (.ofDescriptor l.nextId (.file path) d) := by
  simp only [registerFile, Source.ofFile, hpath]
  cases hread : fs.read path with
  | error cause => simp [bind, Except.bind]
  | ok bytes =>
    simp only [bind, Except.bind, Source.descriptor]
    cases hdecode : decode bytes with
    | error e => simp [Except.map, hdecode]
    | ok d => simp [Except.map, hdecode, eq_comm, Module.ofDescriptor]

/-- A resolved spec leads to the module under its path, which was there or has just been
registered. -/
theorem resolveTarget_eq_ok (root : ModuleId) {requester : ModulePath} {spec : String} {target : ModuleId}
    {added : Option ModuleId}
    (h : l.resolveTarget fs requester spec = .ok (target, added, l')) :
    ∃ path, resolveSpec fs l.libraryDirectories requester spec = .ok path ∧
      l'.index.find? path = some target ∧ added.toList = newSlots l l' ∧
      ∀ worked, ResolveSteps fs root worked l l' := by
  simp only [resolveTarget, except_bind_eq_ok] at h
  obtain ⟨path, hpath, h⟩ := h
  refine ⟨path, hpath, ?_⟩
  split at h
  · next found hfound =>
    cases h
    exact ⟨hfound, by simp, fun _ => .refl⟩
  · next text hfresh =>
    have hcanonical := canonicalize_of_resolveSpec hpath
    simp only [except_bind_eq_ok, Prod.exists, registerFile_eq_ok hcanonical] at h
    obtain ⟨id, registered, ⟨bytes, d, hread, hdecode, rfl, rfl⟩, h⟩ := h
    cases h
    refine ⟨find?_register .., ?_, fun _ => .single (.register l hcanonical hread hdecode hfresh)⟩
    simp [newSlots, nextId]
  · cases h

/-! ## The specs of one module -/

section
variable {m : Module} {position : Nat} {spec : String} {specs : List String}

/-- The specs are those that the module declares from a position on. -/
def Declares (l : Loader) (id : ModuleId) (m : Module) (position : Nat) (specs : List String) :
    Prop :=
  l.module? id = some m ∧ (m.dependencies.map Dependency.spec).drop position = specs

theorem Declares.getElem? (h : l.Declares id m position (spec :: specs)) :
    ∃ d, m.dependencies[position]? = some d ∧ d.spec = spec := by
  have hhead := congrArg (·[0]?) h.2
  simpa using hhead

theorem Declares.tail (h : l.Declares id m position (spec :: specs)) :
    (m.dependencies.map Dependency.spec).drop (position + 1) = specs := by
  rw [← List.drop_drop, h.2, List.drop_one, List.tail_cons]

/-- With the first of some specs, resolution either stops, or it goes on with the others once that
dependency is met. -/
theorem resolveSpecs_cons (fs : FileSystem) (root : ModuleId) (hlive : l.IndexLive)
    (hm : l.Declares id m position (spec :: specs)) :
    (∃ e left, (∀ worked, ResolveSteps fs root worked l left) ∧ ∀ rest,
      l.resolveSpecs fs root id m.path position (spec :: rest) = (.error e, left)) ∨
    ∃ target next, ResolveSteps fs root (· = id) l next ∧
      next.Declares id (m.resolveDependency position target) (position + 1) specs ∧
      next.Met fs root id position ∧ ∀ rest,
        l.resolveSpecs fs root id m.path position (spec :: rest) =
          ((next.resolveSpecs fs root id m.path (position + 1) rest).1.map (newSlots l next ++ ·),
            (next.resolveSpecs fs root id m.path (position + 1) rest).2) := by
  cases htarget : l.resolveTarget fs m.path spec with
  | error e =>
    exact .inl ⟨e, l, fun _ => .refl, fun rest => by simp only [resolveSpecs, htarget]⟩
  | ok found =>
    obtain ⟨target, added, mid⟩ := found
    obtain ⟨path, hpath, hfind, hadded, hsteps⟩ := resolveTarget_eq_ok root htarget
    cases hunbuilt : mid.isUnbuilt root target with
    | true =>
      exact .inl ⟨_, mid, hsteps, fun rest => by
        simp only [resolveSpecs, htarget, hunbuilt, if_true]; rfl⟩
    | false =>
      have hextends := extends_of_resolveSteps (hsteps (· = id))
      obtain ⟨k, hk, hkm, -, hsame⟩ :=
        (extends_of_resolveSteps (hsteps fun _ => False)).kept id m hm.1
      obtain rfl : k = m := hsame not_false
      obtain ⟨d, hd, rfl⟩ := hm.getElem?
      obtain ⟨e, he, hidentity, rfl⟩ := PathIndex.exists_mem_of_find? hfind
      obtain ⟨t, ht, -⟩ := hextends.indexLive hlive e he
      have hmeans : mid.Means fs root k.path d.spec e.2 := by
        refine ⟨path, t, by rw [hextends.directories, hpath], hfind, ht, fun hneeds => ?_⟩
        simpa [isUnbuilt, ht, hneeds] using hunbuilt
      have hstep : ResolveStep fs root (· = id) mid
          (mid.update id fun m => m.resolveDependency position e.2) :=
        .target mid rfl hk hd hmeans
      have hnext : (mid.update id fun m => m.resolveDependency position e.2).module? id =
          some (k.resolveDependency position e.2) := by
        rw [module?_loader_update, if_pos rfl, hk]; rfl
      have hslots : newSlots l (mid.update id fun m => m.resolveDependency position e.2) =
          added.toList := by
        rw [hadded, newSlots, newSlots]; simp [update]
      refine .inr ⟨e.2, _, (hsteps _).tail hstep, ⟨hnext, ?_⟩, ?_, fun rest => ?_⟩
      · rw [map_spec_resolveDependency, hm.tail]
      · refine ⟨_, { d with target := some e.2 }, e.2, hnext, ?_, rfl, hstep.extends.means hmeans⟩
        simp [Module.resolveDependency, hd]
      · rw [hslots]
        simp only [resolveSpecs, htarget, hunbuilt]
        rcases resolveSpecs fs root id k.path _ (position + 1) rest with ⟨_ | more, left⟩ <;> rfl

/-- Whether resolution gets through all of some specs. -/
def Passes (fs : FileSystem) (root id : ModuleId) (requester : ModulePath) (l : Loader)
    (position : Nat) (specs : List String) : Prop :=
  ∃ added, (l.resolveSpecs fs root id requester position specs).1 = .ok added

theorem passes_cons {requester : ModulePath} {next : Loader} {slots : List ModuleId}
    (hrest : ∀ rest, l.resolveSpecs fs root id requester position (spec :: rest) =
      ((next.resolveSpecs fs root id requester (position + 1) rest).1.map (slots ++ ·),
        (next.resolveSpecs fs root id requester (position + 1) rest).2)) :
    l.Passes fs root id requester position (spec :: specs) ↔
      next.Passes fs root id requester (position + 1) specs := by
  simp only [Passes, hrest]
  cases (next.resolveSpecs fs root id requester (position + 1) specs).1 <;> simp [Except.map]

/-- The specs of a module are resolved one after the other. Those that resolution gets to are met,
and the dependencies behind them are as before. -/
theorem resolveSpecs_spec (hlive : l.IndexLive) (hm : l.Declares id m position specs)
    {r : Except LoadError (List ModuleId)}
    (h : l.resolveSpecs fs root id m.path position specs = (r, l')) :
    ResolveSteps fs root (· = id) l l' ∧ (∀ added, r = .ok added → added = newSlots l l') ∧
      ∃ k, l'.module? id = some k ∧
        (∀ i < position, k.dependencies[i]? = m.dependencies[i]?) ∧
        ∀ i < specs.length,
          (l.Passes fs root id m.path position (specs.take (i + 1)) →
            l'.Met fs root id (position + i)) ∧
          (¬ l.Passes fs root id m.path position (specs.take (i + 1)) →
            k.dependencies[position + i]? = m.dependencies[position + i]?) := by
  induction specs generalizing l position m r with
  | nil =>
    cases h
    exact ⟨.refl, fun added hr => by cases hr; simp, m, hm.1, fun _ _ => rfl,
      fun i hi => nomatch hi⟩
  | cons spec specs ih =>
    rcases resolveSpecs_cons fs root hlive hm with
      ⟨e, left, hsteps, hrest⟩ | ⟨target, next, hsteps, hnext, hmet, hrest⟩
    · rw [hrest] at h
      cases h
      obtain ⟨k, hk, -, -, hsame⟩ :=
        (extends_of_resolveSteps (hsteps fun _ => False)).kept id m hm.1
      obtain rfl : k = m := hsame not_false
      refine ⟨hsteps _, (fun added hr => nomatch hr), k, hk, fun _ _ => rfl, fun i _ => ?_⟩
      refine ⟨fun hpasses => ?_, fun _ => rfl⟩
      obtain ⟨added, hadded⟩ := hpasses
      rw [List.take_succ_cons, hrest] at hadded
      cases hadded
    · have hextends := extends_of_resolveSteps hsteps
      have hlater : next.resolveSpecs fs root id m.path (position + 1) specs =
          ((next.resolveSpecs fs root id m.path (position + 1) specs).1, l') := by
        rw [hrest] at h
        have hleft : (next.resolveSpecs fs root id m.path (position + 1) specs).2 = l' :=
          congrArg Prod.snd h
        exact Prod.ext rfl hleft
      obtain ⟨hsteps', hadded, k, hk, hfront, hbehind⟩ := ih (hextends.indexLive hlive) hnext hlater
      have hextends' := extends_of_resolveSteps hsteps'
      refine ⟨hsteps.trans hsteps', fun added hr => ?_, k, hk, fun i hi => ?_, fun i hi => ?_⟩
      · rw [hrest] at h
        have hfirst := congrArg Prod.fst h
        subst hr
        cases hr : (next.resolveSpecs fs root id m.path (position + 1) specs).1 with
        | error e => simp [hr, Except.map] at hfirst
        | ok more =>
          simp only [hr, Except.map, Except.ok.injEq] at hfirst
          rw [← hfirst, hadded more hr, newSlots_append hextends.length_le hextends'.length_le]
      · rw [hfront i (by omega)]
        simp [Module.resolveDependency, show position ≠ i by omega]
      · rw [List.take_succ_cons, passes_cons hrest]
        cases i with
        | zero => exact ⟨fun _ => met_of_resolveSteps hsteps' hmet, fun hnot =>
            absurd ⟨[], rfl⟩ hnot⟩
        | succ i =>
          obtain ⟨hdone, hleft⟩ := hbehind i (Nat.lt_of_succ_lt_succ hi)
          rw [← Nat.add_assoc, Nat.add_right_comm]
          refine ⟨hdone, fun hnot => ?_⟩
          rw [hleft hnot]
          simp [Module.resolveDependency, show position ≠ position + 1 + i by omega]

/-- Every dependency of a module is met. -/
def AllMet (fs : FileSystem) (root : ModuleId) (l : Loader) (id : ModuleId) : Prop :=
  ∀ m, l.module? id = some m → ∀ i < m.dependencies.length, l.Met fs root id i

theorem AllMet.exists_means (h : l.AllMet fs root id) (hm : l.module? id = some m) {d : Dependency}
    (hd : d ∈ m.dependencies) :
    ∃ target, d.target = some target ∧ l.Means fs root m.path d.spec target := by
  obtain ⟨i, hi, rfl⟩ := List.mem_iff_getElem.mp hd
  obtain ⟨m', d, target, hm', hd, htarget, hmeans⟩ := h m hm i hi
  obtain rfl : m = m' := Option.some.inj (hm.symm.trans hm')
  obtain rfl : m.dependencies[i] = d := Option.some.inj ((List.getElem?_eq_getElem hi).symm.trans hd)
  exact ⟨target, htarget, hmeans⟩

theorem passes_take {requester : ModulePath} (n : Nat)
    (h : l.Passes fs root id requester position specs) :
    l.Passes fs root id requester position (specs.take n) := by
  induction specs generalizing l position n with
  | nil => simpa using h
  | cons spec specs ih =>
    cases n with
    | zero => exact ⟨[], rfl⟩
    | succ n =>
      obtain ⟨added, hadded⟩ := h
      simp only [List.take_succ_cons, Passes, resolveSpecs] at hadded ⊢
      split
      · next e he => simp [he] at hadded
      · next target first next hnext =>
        simp only [hnext] at hadded
        split
        · next hunbuilt => simp [hunbuilt] at hadded
        · next hbuilt =>
          rw [if_neg hbuilt] at hadded
          have hrest : (next.update id fun m => m.resolveDependency position target).Passes fs root
              id requester (position + 1) specs := by
            split at hadded
            · cases hadded
            · next more left hmore => exact ⟨more, by rw [hmore]⟩
          obtain ⟨more, hmore⟩ := ih n hrest
          split
          · next e left he => rw [he] at hmore; cases hmore
          · exact ⟨_, rfl⟩

/-- When resolution gets through all specs of a module, every dependency is met. -/
theorem allMet_of_resolveSpecs (hlive : l.IndexLive) (hm : l.module? id = some m)
    {added : List ModuleId}
    (h : l.resolveSpecs fs root id m.path 0 (m.dependencies.map Dependency.spec) =
      (.ok added, l')) : l'.AllMet fs root id := by
  obtain ⟨hsteps, -, k, hk, -, hdone⟩ := resolveSpecs_spec hlive ⟨hm, rfl⟩ h
  intro k' hk' i hi
  obtain ⟨k'', hk'', -, hspecs, -⟩ := (extends_of_resolveSteps hsteps).kept id m hm
  obtain rfl : k'' = k' := Option.some.inj (hk''.symm.trans hk')
  have hlength : i < (m.dependencies.map Dependency.spec).length := by
    rw [← hspecs, List.length_map]
    exact hi
  have hpasses : l.Passes fs root id m.path 0 (m.dependencies.map Dependency.spec) :=
    ⟨added, by rw [h]⟩
  simpa using (hdone i hlength).1 (passes_take (i + 1) hpasses)

end

/-! ## All that waits -/

theorem allMet_of_resolveSteps {worked : ModuleId → Prop} (h : ResolveSteps fs root worked l l')
    (hmet : l.AllMet fs root id) (hid : ∃ m, l.module? id = some m) : l'.AllMet fs root id := by
  obtain ⟨m, hm⟩ := hid
  intro k hk i hi
  obtain ⟨k', hk', -, hspecs, -⟩ := (extends_of_resolveSteps h).kept id m hm
  obtain rfl : k' = k := Option.some.inj (hk'.symm.trans hk)
  have hlength : k'.dependencies.length = m.dependencies.length := by
    simpa using congrArg List.length hspecs
  exact met_of_resolveSteps h (hmet m hm i (hlength ▸ hi))

/-- The steps for the first module that waits, and then those for the others and for what the first
one needs. -/
theorem resolveSteps_waiting {waiting : List ModuleId} (hsteps : ResolveSteps fs root (· = id) l l')
    (hsteps' : ResolveSteps fs root
      (fun other => other ∈ waiting ++ newSlots l l' ∨ other ∈ newSlots l' l'') l' l'') :
    ResolveSteps fs root (fun other => other ∈ id :: waiting ∨ other ∈ newSlots l l'') l l'' := by
  have hslots := newSlots_append (extends_of_resolveSteps hsteps).length_le
    (extends_of_resolveSteps hsteps').length_le
  refine (resolveSteps_widen hsteps ?_).trans (resolveSteps_widen hsteps' ?_)
  · rintro other rfl
    exact .inl List.mem_cons_self
  · intro other ho
    rw [← hslots]
    simp only [List.mem_append, List.mem_cons] at ho ⊢
    tauto

/-- Resolution works on the modules that wait and then on those registered on the way; when it
succeeds, every dependency of theirs is met. -/
theorem resolveWaiting_spec {fuel : Nat} {waiting : List ModuleId}
    {r : Except LoadError (List ModuleId)} (hlive : l.IndexLive)
    (h : l.resolveWaiting fs root fuel waiting = (r, l')) :
    ResolveSteps fs root (fun id => id ∈ waiting ∨ id ∈ newSlots l l') l l' ∧
      ∀ targets, r = .ok targets → targets = waiting ++ newSlots l l' ∧
        ∀ id ∈ targets, l'.AllMet fs root id := by
  induction fuel generalizing l l' waiting r with
  | zero =>
    cases waiting with
    | nil =>
      cases h
      exact ⟨.refl, fun targets hr => by cases hr; simp⟩
    | cons id waiting =>
      cases h
      exact ⟨.refl, fun targets hr => nomatch hr⟩
  | succ fuel ih =>
    cases waiting with
    | nil =>
      cases h
      exact ⟨.refl, fun targets hr => by cases hr; simp⟩
    | cons id waiting =>
      simp only [resolveWaiting] at h
      split at h
      · cases h
        exact ⟨.refl, fun targets hr => nomatch hr⟩
      · next m hm =>
        split at h
        · next e left hspecs =>
          cases h
          obtain ⟨hsteps, -⟩ := resolveSpecs_spec hlive ⟨hm, rfl⟩ hspecs
          refine ⟨resolveSteps_widen hsteps ?_, fun targets hr => nomatch hr⟩
          rintro other rfl
          exact .inl List.mem_cons_self
        · next added mid hspecs =>
          obtain ⟨hsteps, hadded, -⟩ := resolveSpecs_spec hlive ⟨hm, rfl⟩ hspecs
          obtain rfl := hadded added rfl
          have hextends := extends_of_resolveSteps hsteps
          rcases hwaiting : mid.resolveWaiting fs root fuel (waiting ++ newSlots l mid) with
            ⟨r', left⟩
          obtain ⟨hsteps', htargets⟩ := ih (hextends.indexLive hlive) hwaiting
          have hslots := newSlots_append hextends.length_le
            (extends_of_resolveSteps hsteps').length_le
          have hall := resolveSteps_waiting hsteps hsteps'
          rw [hwaiting] at h
          cases r' with
          | error e =>
            cases h
            exact ⟨hall, fun targets hr => nomatch hr⟩
          | ok rest =>
            cases h
            obtain ⟨rfl, hmet⟩ := htargets rest rfl
            refine ⟨hall, fun targets hr => ?_⟩
            cases hr
            rw [← hslots]
            refine ⟨by simp, fun other ho => ?_⟩
            rcases List.mem_cons.mp ho with rfl | ho
            · obtain ⟨k, hk, -⟩ := hextends.kept _ m hm
              exact allMet_of_resolveSteps hsteps' (allMet_of_resolveSpecs hlive hm hspecs) ⟨k, hk⟩
            · exact hmet other ho

/-- Resolving a module works on it and on the modules in the new slots, and on no others; when it
succeeds, every dependency of these is met. -/
theorem resolveFrom_spec {r : Except LoadError (List ModuleId)} (hlive : l.IndexLive)
    (h : l.resolveFrom fs root = (r, l')) :
    ResolveSteps fs root (fun id => id = root ∨ id ∈ newSlots l l') l l' ∧
      ∀ targets, r = .ok targets → targets = root :: newSlots l l' ∧
        ∀ id ∈ targets, l'.AllMet fs root id := by
  simpa using resolveWaiting_spec hlive h

end ModuleLinker.Loader
