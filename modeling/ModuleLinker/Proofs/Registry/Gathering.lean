import ModuleLinker.Proofs.Registry.FileModules
import ModuleLinker.Proofs.Registry.Holding

/-!
# What the worklist gathers

The worklist is written down once more as a relation without fuel, which also tells which files are
decoded on the way. Every file that is decoded gets a slot, in this order, and it is decoded because
a module that the worklist is at declares a spec that stands for it. So by induction along the rules
all that is gathered is reached from where the call began.
-/
namespace ModuleLinker.Loader

open Relation (ReflTransGen)

variable {fs : FileSystem} {root id target : ModuleId} {worked : ModuleId → Prop}
  {l l' mid left base : Loader} {m : Module} {start requester : ModulePath} {spec file : String}

/-! ## Files that a call needs -/

/-- What is declared at a path, seen before a call: by the root of the call if it is registered, and
by the image of a file that is not. -/
inductive Specifies (fs : FileSystem) (l : Loader) (root : ModuleId) : ModulePath → String → Prop where
  | registered {m : Module} {spec : String} (there : l.module? root = some m)
      (declared : spec ∈ m.dependencies.map Dependency.spec) : Specifies fs l root m.path spec
  | described {file : String} {d : Descriptor} {spec : String}
      (fresh : l.index.find? (.file file) = none) (described : fs.Describes file d)
      (declared : spec ∈ d.dependencies.map Dependency.spec) :
      Specifies fs l root (.file file) spec

/-- A spec that is declared at the first path stands for a file that is not registered, and that is
the second path. -/
def Requires (fs : FileSystem) (l : Loader) (root : ModuleId) (path other : ModulePath) : Prop :=
  ∃ spec file, l.Specifies fs root path spec ∧
    resolveSpec fs l.libraryDirectories path spec = .ok (.file file) ∧
    l.index.find? (.file file) = none ∧ other = .file file

/-- A file that was not registered before the call and that one gets to from its start. -/
def Needs (fs : FileSystem) (l : Loader) (root : ModuleId) (start : ModulePath) (file : String) :
    Prop :=
  l.index.find? (.file file) = none ∧ ReflTransGen (l.Requires fs root) start (.file file)

/-! ## The worklist by its rules -/

/-- The file that is decoded when a spec is resolved: the one that it stands for, unless that is
registered. -/
def decodedFor (fs : FileSystem) (l : Loader) (requester : ModulePath) (spec : String) :
    List String :=
  match resolveSpec fs l.libraryDirectories requester spec with
  | .ok (.file file) => if (l.index.find? (.file file)).isNone then [file] else []
  | _ => []

/-- The files that are decoded when the specs of a module are resolved, in order. -/
def decodedForSpecs (fs : FileSystem) (root id : ModuleId) (requester : ModulePath) :
    Loader → Nat → List String → List String
  | _, _, [] => []
  | l, position, spec :: specs =>
    l.decodedFor fs requester spec ++
      match l.resolveTarget fs requester spec with
      | .error _ => []
      | .ok (target, _, l) =>
        if l.isUnbuilt root target then []
        else decodedForSpecs fs root id requester
          (l.update id fun m => m.resolveDependency position target) (position + 1) specs

/-- The worklist with the files that it decodes: each module that waits has its specs resolved, and
what is registered on the way waits behind the others. -/
inductive Works (fs : FileSystem) (root : ModuleId) : Loader → List ModuleId → List String →
    Except LoadError (List ModuleId) → Loader → Prop where
  | done (l : Loader) : Works fs root l [] [] (.ok []) l
  | missing {l : Loader} {id : ModuleId} {waiting : List ModuleId} (nothing : l.module? id = none) :
      Works fs root l (id :: waiting) [] (.error (.unknownModule id)) l
  | fails {l left : Loader} {id : ModuleId} {waiting : List ModuleId} {m : Module} {e : LoadError}
      (there : l.module? id = some m)
      (specs : l.resolveSpecs fs root id m.path 0 (m.dependencies.map Dependency.spec) =
        (.error e, left)) :
      Works fs root l (id :: waiting)
        (decodedForSpecs fs root id m.path l 0 (m.dependencies.map Dependency.spec)) (.error e) left
  | proceeds {l mid left : Loader} {id : ModuleId} {waiting added : List ModuleId}
      {decoded : List String} {m : Module} {r : Except LoadError (List ModuleId)}
      (there : l.module? id = some m)
      (specs : l.resolveSpecs fs root id m.path 0 (m.dependencies.map Dependency.spec) =
        (.ok added, mid))
      (rest : Works fs root mid (waiting ++ added) decoded r left) :
      Works fs root l (id :: waiting)
        (decodedForSpecs fs root id m.path l 0 (m.dependencies.map Dependency.spec) ++ decoded)
        (r.map (id :: ·)) left

/-- With fuel for what waits and for all that is there to be read, the worklist comes to an end by
its rules. -/
theorem exists_works {fuel : Nat} {waiting : List ModuleId} (hlive : l.IndexLive)
    (hthere : ∀ id ∈ waiting, ∃ m, l.module? id = some m)
    (hfuel : waiting.length + l.unread fs ≤ fuel) :
    ∃ decoded, Works fs root l waiting decoded (l.resolveWaiting fs root fuel waiting).1
      (l.resolveWaiting fs root fuel waiting).2 := by
  induction fuel generalizing l waiting with
  | zero =>
    obtain rfl : waiting = [] := List.eq_nil_of_length_eq_zero (by omega)
    exact ⟨[], .done l⟩
  | succ fuel ih =>
    cases waiting with
    | nil => exact ⟨[], .done l⟩
    | cons id waiting =>
      obtain ⟨m, hm⟩ := hthere id List.mem_cons_self
      rcases hspecs : l.resolveSpecs fs root id m.path 0 (m.dependencies.map Dependency.spec) with
        ⟨e | added, mid⟩
      · simp only [resolveWaiting, hm, hspecs]
        exact ⟨_, .fails hm hspecs⟩
      · obtain ⟨hsteps, hadded, -⟩ := resolveSpecs_spec hlive ⟨hm, rfl⟩ hspecs
        obtain rfl := hadded added rfl
        have hext := extends_of_resolveSteps hsteps
        obtain ⟨decoded, hworks⟩ := ih (hext.indexLive hlive)
          (exists_module?_waiting hext fun other ho => hthere other (List.mem_cons_of_mem _ ho))
          (length_waiting_add_unread_le hsteps hfuel)
        rcases hrest : mid.resolveWaiting fs root fuel (waiting ++ newSlots l mid) with
          ⟨e | rest, left⟩
        · rw [hrest] at hworks
          simp only [resolveWaiting, hm, hspecs, hrest]
          exact ⟨_, .proceeds hm hspecs hworks⟩
        · rw [hrest] at hworks
          simp only [resolveWaiting, hm, hspecs, hrest]
          exact ⟨_, .proceeds hm hspecs hworks⟩

/-! ## What is gathered -/

/-- A slot holds a module that was read from a file. -/
def IsFile (fs : FileSystem) (l : Loader) (id : ModuleId) (file : String) : Prop :=
  ∃ d m, l.HasFile fs id file d m

/-- The new slots hold the modules of the decoded files, in order, and the call needs these. -/
structure Gathers (fs : FileSystem) (base : Loader) (root : ModuleId) (start : ModulePath)
    (l l' : Loader) (decoded : List String) : Prop where
  slots : List.Forall₂ (l'.IsFile fs) (newSlots l l') decoded
  needed : ∀ file ∈ decoded, base.Needs fs root start file

/-- A module in its slot that one gets to from the start of the call, and all of its specs. -/
def Awaits (fs : FileSystem) (base : Loader) (root : ModuleId) (start : ModulePath) (l : Loader)
    (id : ModuleId) : Prop :=
  ∃ m, l.module? id = some m ∧ ReflTransGen (base.Requires fs root) start m.path ∧
    ∀ spec ∈ m.dependencies.map Dependency.spec, base.Specifies fs root m.path spec

theorem IsFile.exists_module (h : l.IsFile fs id file) :
    ∃ m, l.module? id = some m ∧ m.path = .file file := by
  obtain ⟨d, m, hfile⟩ := h
  exact ⟨m, hfile.there, hfile.readFrom.path⟩

theorem IsFile.canonical (h : l.IsFile fs id file) : fs.canonicalize file = .ok file := by
  obtain ⟨d, m, hfile⟩ := h
  exact hfile.described.1

theorem IsFile.extends (h : l.IsFile fs id file) (hext : l.Extends fs worked l') :
    l'.IsFile fs id file := by
  obtain ⟨d, m, hm, hdescribed, hread⟩ := h
  obtain ⟨k, hk, hkm, hspecs, -⟩ := hext.kept id m hm
  refine ⟨d, k, hk, hdescribed, ?_⟩
  rw [hkm]
  exact ⟨hread.path, hread.fromFile, hspecs.trans hread.specs, hread.mappings, hread.structures,
    hread.functions⟩

theorem Awaits.extends (h : Awaits fs base root start l id) (hext : l.Extends fs worked l') :
    Awaits fs base root start l' id := by
  obtain ⟨m, hm, hreached, hspecs⟩ := h
  obtain ⟨k, hk, hkm, hsame, -⟩ := hext.kept id m hm
  have hpath : k.path = m.path := by rw [hkm]
  exact ⟨k, hk, by rwa [hpath], by rwa [hsame, hpath]⟩

namespace Gathers

theorem nil (h : l'.arena.length = l.arena.length) : Gathers fs base root start l l' [] where
  slots := by simp [newSlots, h]
  needed := by simp

theorem append {decoded decoded' : List String} (h : Gathers fs base root start l mid decoded)
    (h' : Gathers fs base root start mid l' decoded') (hle : l.arena.length ≤ mid.arena.length)
    (hext : mid.Extends fs worked l') : Gathers fs base root start l l' (decoded ++ decoded') where
  slots := by
    rw [← newSlots_append hle hext.length_le]
    exact List.rel_append (h.slots.imp fun _ _ hfile => hfile.extends hext) h'.slots
  needed := fun file hfile => (List.mem_append.mp hfile).elim (h.needed file) (h'.needed file)

end Gathers

/-- A file that is decoded and registered is gathered. -/
theorem Gathers.register {d : Descriptor} (hd : fs.Describes file d)
    (hneeds : base.Needs fs root start file) :
    Gathers fs base root start l (l.register (.ofDescriptor l.nextId (.file file) d)) [file] where
  slots := by
    have hslots : newSlots l (l.register (.ofDescriptor l.nextId (.file file) d)) = [l.nextId] := by
      simp [newSlots, nextId]
    rw [hslots]
    exact .cons ⟨d, _, module?_register.mpr (.inr ⟨rfl, rfl⟩), hd,
      Module.readFrom_ofDescriptor ..⟩ .nil
  needed := by simpa using hneeds

/-- What is registered on the way declares what its image says. -/
theorem Gathers.awaits {decoded : List String} (h : Gathers fs base root start l l' decoded)
    (hid : id ∈ newSlots l l') : Awaits fs base root start l' id := by
  obtain ⟨file, hmem, d, m, hfile⟩ := exists_of_forall₂_left h.slots hid
  obtain ⟨hfresh, hreached⟩ := h.needed file hmem
  refine ⟨m, hfile.there, by rwa [hfile.readFrom.path], fun spec hspec => ?_⟩
  rw [hfile.readFrom.path]
  exact .described hfresh hfile.described (hfile.readFrom.specs ▸ hspec)

/-! ## Along the worklist -/

/-- A spec is resolved by looking its path up, or by decoding the file that it stands for. -/
theorem resolveTarget_cases (fs : FileSystem) (l : Loader) (requester : ModulePath)
    (spec : String) :
    (l.decodedFor fs requester spec = [] ∧
      l.resolveTarget fs requester spec =
        resolveSpec fs l.libraryDirectories requester spec >>= fun path =>
          (l.index.find? path).elim (.error (.dependency spec requester .noModule)) fun target =>
            .ok (target, none, l)) ∨
    ∃ file, l.decodedFor fs requester spec = [file] ∧
      resolveSpec fs l.libraryDirectories requester spec = .ok (.file file) ∧
      l.index.find? (.file file) = none ∧
      l.resolveTarget fs requester spec =
        (l.registerFile fs file).map fun found => (found.1, some found.1, found.2) := by
  cases hpath : resolveSpec fs l.libraryDirectories requester spec with
  | error e => exact .inl ⟨by simp only [decodedFor, hpath], by simp only [resolveTarget, hpath]; rfl⟩
  | ok path =>
    cases hfind : l.index.find? path with
    | some target =>
      refine .inl ⟨?_, ?_⟩
      · simp only [decodedFor, hpath]
        cases path <;> simp [hfind]
      · simp only [resolveTarget, hpath, bind, Except.bind, hfind]
        rfl
    | none =>
      cases path with
      | hosted text =>
        refine .inl ⟨by simp only [decodedFor, hpath], ?_⟩
        simp only [resolveTarget, hpath, bind, Except.bind, hfind]
        rfl
      | file file =>
        refine .inr ⟨file, by simp [decodedFor, hpath, hfind], rfl, hfind, ?_⟩
        simp only [resolveTarget, hpath, bind, Except.bind, hfind]
        cases l.registerFile fs file <;> rfl

/-- A spec that is declared at a path of the call brings in the file that it stands for, if any. -/
theorem resolveTarget_gathers (hext : base.Extends fs worked l)
    (hreached : ReflTransGen (base.Requires fs root) start requester)
    (hspec : base.Specifies fs root requester spec) {added : Option ModuleId}
    (h : l.resolveTarget fs requester spec = .ok (target, added, mid)) :
    Gathers fs base root start l mid (l.decodedFor fs requester spec) := by
  rcases l.resolveTarget_cases fs requester spec with
    ⟨hnothing, hlookup⟩ | ⟨file, hfile, hpath, hfresh, hregister⟩
  · rw [hlookup, except_bind_eq_ok] at h
    obtain ⟨path, -, hfound⟩ := h
    cases hfind : l.index.find? path with
    | none => rw [hfind] at hfound; cases hfound
    | some found =>
      rw [hfind] at hfound
      cases hfound
      rw [hnothing]
      exact .nil rfl
  · have hcanonical := canonicalize_of_resolveSpec hpath
    obtain ⟨bytes, d, hread, hdecode, rfl⟩ : ∃ bytes d, fs.read file = .ok bytes ∧
        decode bytes = .ok d ∧ mid = l.register (.ofDescriptor l.nextId (.file file) d) := by
      rw [hregister] at h
      cases hfound : l.registerFile fs file with
      | error e => rw [hfound] at h; cases h
      | ok found =>
        rw [hfound] at h
        cases h
        obtain ⟨bytes, d, hread, hdecode, -, hmid⟩ := (registerFile_eq_ok hcanonical).mp hfound
        exact ⟨bytes, d, hread, hdecode, hmid⟩
    have hbefore : base.index.find? (.file file) = none := by
      cases hfind : base.index.find? (.file file) with
      | none => rfl
      | some id => rw [hext.find?_eq_some hfind] at hfresh; cases hfresh
    rw [hext.directories] at hpath
    rw [hfile]
    exact .register ⟨hcanonical, bytes, hread, hdecode⟩
      ⟨hbefore, hreached.tail ⟨spec, file, hspec, hpath, hbefore, rfl⟩⟩

theorem resolveSpecs_gathers {position : Nat} {specs : List String} {added : List ModuleId}
    (hext : base.Extends fs (fun _ => True) l) (hm : l.module? id = some m)
    (hreached : ReflTransGen (base.Requires fs root) start requester)
    (hspecs : ∀ spec ∈ specs, base.Specifies fs root requester spec)
    (h : l.resolveSpecs fs root id requester position specs = (.ok added, l')) :
    Gathers fs base root start l l' (decodedForSpecs fs root id requester l position specs) ∧
      l.Extends fs (fun _ => True) l' := by
  induction specs generalizing l m position added with
  | nil =>
    cases h
    exact ⟨.nil rfl, .refl _⟩
  | cons spec specs ih =>
    obtain ⟨hspec, hspecs⟩ := List.forall_mem_cons.mp hspecs
    simp only [resolveSpecs] at h
    split at h
    · cases h
    · next target first mid htarget =>
      split at h
      · cases h
      · next hbuilt =>
        obtain ⟨path, -, -, -, hsteps⟩ := resolveTarget_eq_ok root htarget
        have hfirst := extends_of_resolveSteps (hsteps fun _ => True)
        obtain ⟨k, hk, -⟩ := hfirst.kept id m hm
        have hmet : mid.Extends fs (fun _ => True)
            (mid.update id fun m => m.resolveDependency position target) :=
          extends_target position target trivial hk
        have hnext : (mid.update id fun m => m.resolveDependency position target).module? id =
            some (k.resolveDependency position target) := by
          rw [module?_loader_update, if_pos rfl, hk, Option.map_some]
        rcases hrest : resolveSpecs fs root id requester
          (mid.update id fun m => m.resolveDependency position target) (position + 1) specs with
          ⟨e | rest, left⟩
        · rw [hrest] at h
          cases h
        · rw [hrest] at h
          cases h
          have hupto := (hext.trans hfirst).trans hmet
          obtain ⟨hgathers, hlater⟩ := ih hupto hnext hspecs hrest
          have hfound := resolveTarget_gathers hext hreached hspec htarget
          refine ⟨?_, (hfirst.trans hmet).trans hlater⟩
          have hstay : Gathers fs base root start mid
              (mid.update id fun m => m.resolveDependency position target) [] :=
            .nil (Arena.length_update ..)
          have hnow := hfound.append hstay hfirst.length_le hmet
          have hall := hnow.append hgathers (hfirst.trans hmet).length_le hlater
          rw [List.append_nil] at hall
          simpa only [decodedForSpecs, htarget, if_neg hbuilt] using hall

/-- A worklist that comes to an end without an error gathers files that the call needs, if the
modules that wait at first are reached from its start. -/
theorem Works.gathers {waiting targets : List ModuleId} {decoded : List String}
    {r : Except LoadError (List ModuleId)} (h : Works fs root l waiting decoded r l')
    (hr : r = .ok targets) (hlive : l.IndexLive) (hext : base.Extends fs (fun _ => True) l)
    (hwaiting : ∀ id ∈ waiting, Awaits fs base root start l id) :
    Gathers fs base root start l l' decoded ∧ l.Extends fs (fun _ => True) l' := by
  induction h generalizing targets with
  | done => exact ⟨.nil rfl, .refl _⟩
  | missing => cases hr
  | fails => cases hr
  | @proceeds l mid left id waiting added decoded m r there specs rest ih =>
    obtain ⟨⟨m', hm, hreached, hspecs⟩, hothers⟩ := List.forall_mem_cons.mp hwaiting
    obtain rfl : m' = m := Option.some.inj (hm.symm.trans there)
    obtain ⟨more, hmore⟩ : ∃ more, r = .ok more := by
      cases r with
      | error e => cases hr
      | ok more => exact ⟨more, rfl⟩
    obtain ⟨-, hadded, -⟩ := resolveSpecs_spec hlive ⟨hm, rfl⟩ specs
    obtain rfl := hadded added rfl
    obtain ⟨hnow, hmid⟩ := resolveSpecs_gathers hext hm hreached hspecs specs
    have hwaiting' : ∀ other ∈ waiting ++ newSlots l mid, Awaits fs base root start mid other := by
      intro other hother
      rcases List.mem_append.mp hother with hother | hother
      · exact (hothers other hother).extends hmid
      · exact hnow.awaits hother
    obtain ⟨hlater, hleft⟩ := ih hmore (hmid.indexLive hlive) (hext.trans hmid) hwaiting'
    exact ⟨hnow.append hlater hmid.length_le hleft, hmid.trans hleft⟩

end ModuleLinker.Loader
