import ModuleLinker.Proofs.Registry.Chronicle
import ModuleLinker.Proofs.Registry.Tracing

/-!
# What was given to a registry

A ledger follows a run and takes down every structure as it was given, at the operation after which
it is there for the first time: the image of its module has it so, or the host added it so. From
this record and the mappings of a module it can be told at any later time what the fields of its
structures have become.
-/
namespace ModuleLinker

/-- The file system that an operation reads; one without files for those that read none. -/
def Operation.fileSystem : Operation → FileSystem
  | .load fs _ => fs
  | .build fs _ => fs
  | .addLibraryDirectory fs _ => fs
  | _ => {}

/-- The structures of a module as they were given to it, right after they appeared: those of the
image in its file, or those that the host added. -/
def Module.givenStructures (fs : FileSystem) (m : Module) : List Structure :=
  match m.origin, m.path with
  | .file .., .file path =>
    match Source.ofFile fs path >>= Source.descriptor with
    | .ok d => (Module.ofDescriptor m.id m.path d).structures
    | .error _ => m.structures
  | _, _ => m.structures

/-- A chronicle, and every structure as it was given. -/
structure Ledger extends Chronicle where
  given : StructureId → Option Structure

namespace Ledger

/-- A registry without modules. -/
def ofDirectories (libraryDirectories : List String) : Ledger where
  toChronicle := .ofDirectories libraryDirectories
  given _ := none

/-- Do an operation, and take down the structures that it brings. -/
def apply (c : Ledger) (o : Operation) : Ledger where
  toChronicle := c.toChronicle.apply o
  given x :=
    if (c.loader.arena.structure? x).isSome then c.given x
    else ((c.loader.apply o).module? x.owner).bind fun m =>
      (m.givenStructures o.fileSystem)[x.index]?

/-- The ledger of operations in order. -/
def run (c : Ledger) (operations : List Operation) : Ledger := operations.foldl apply c

/-- Whether a ledger can arise from a registry without modules. -/
def Reachable (c : Ledger) : Prop :=
  ∃ directories operations, c = (ofDirectories directories).run operations

@[simp] theorem run_nil (c : Ledger) : c.run [] = c := rfl

@[simp] theorem run_cons (c : Ledger) (o : Operation) (os : List Operation) :
    c.run (o :: os) = (c.apply o).run os := rfl

theorem run_append (c : Ledger) (os ps : List Operation) :
    c.run (os ++ ps) = (c.run os).run ps := by simp [run]

theorem Reachable.apply {c : Ledger} (h : c.Reachable) (o : Operation) : (c.apply o).Reachable := by
  obtain ⟨directories, operations, rfl⟩ := h
  exact ⟨directories, operations ++ [o], by simp [run_append]⟩

/-- What holds of a ledger of no modules and is kept by every operation holds of every ledger that
can arise. -/
theorem Reachable.induction {P : Ledger → Prop} (init : ∀ directories, P (ofDirectories directories))
    (step : ∀ c o, c.Reachable → P c → P (c.apply o)) {c : Ledger} (h : c.Reachable) : P c := by
  obtain ⟨directories, operations, rfl⟩ := h
  suffices hrun : ∀ c : Ledger, c.Reachable → P c → P (c.run operations) from
    hrun _ ⟨directories, [], rfl⟩ (init directories)
  induction operations with
  | nil => exact fun _ _ h => h
  | cons o os ih => exact fun c hc h => ih (c.apply o) (hc.apply o) (step c o hc h)

theorem toChronicle_run (c : Ledger) (operations : List Operation) :
    (c.run operations).toChronicle = c.toChronicle.run operations := by
  induction operations generalizing c with
  | nil => rfl
  | cons o os ih => exact ih (c.apply o)

/-- The chronicles of ledgers are all that can arise. -/
theorem reachable_toChronicle_iff {c : Chronicle} :
    c.Reachable ↔ ∃ d : Ledger, d.Reachable ∧ d.toChronicle = c := by
  constructor
  · rintro ⟨directories, operations, rfl⟩
    exact ⟨_, ⟨directories, operations, rfl⟩, toChronicle_run ..⟩
  · rintro ⟨d, ⟨directories, operations, rfl⟩, rfl⟩
    exact ⟨directories, operations, toChronicle_run ..⟩

end Ledger

/-! ## Modules that appear -/

theorem Module.givenStructures_of_hosted {m : Module} (h : m.isHosted = true) (fs : FileSystem) :
    m.givenStructures fs = m.structures := by
  cases ho : m.origin with
  | file => simp [isHosted, ho] at h
  | host => simp [givenStructures, ho]

/-- A module that was read from a file has the structures of the image there. -/
theorem Module.givenStructures_ofDescriptor {fs : FileSystem} {m : Module} {path : String}
    {bytes : List UInt8} {d : Descriptor} (hcanonical : fs.canonicalize path = .ok path)
    (hread : fs.read path = .ok bytes) (hdecode : decode bytes = .ok d)
    (horigin : m.origin = .file d.fileVersion d.instructionSet d.constants d.entry)
    (hpath : m.path = .file path) :
    m.givenStructures fs = d.structures.map (Structure.assign m.id) := by
  have hsource : (Source.ofFile fs path >>= Source.descriptor) =
      .ok { d with path := some path } := by
    simp [Source.ofFile, hcanonical, hread, bind, Except.bind, Source.descriptor, hdecode,
      Except.map]
  simp [givenStructures, horigin, hpath, hsource, ofDescriptor]

namespace Ledger

variable {c : Ledger} {o : Operation} {id : ModuleId} {m k : Module}

/-- What was given stays on record as long as the structure is there. -/
theorem given_apply_of_there {x : StructureId} {s : Structure}
    (hs : c.loader.arena.structure? x = some s) (o : Operation) :
    (c.apply o).given x = c.given x := by
  simp [apply, hs]

/-- A structure that appears is taken down as it is given. -/
theorem given_apply_of_new {x : StructureId} (hs : c.loader.arena.structure? x = none)
    (hm : (c.loader.apply o).module? x.owner = some m) :
    (c.apply o).given x = (m.givenStructures o.fileSystem)[x.index]? := by
  simp [apply, hs, hm]

/-- Every structure is what has become of one that was given, also as far as only the part that
stays of its module is concerned. -/
structure Accounts (c : Ledger) : Prop where
  faithful : c.Faithful
  live : ∀ id m, c.loader.module? id = some m → m.Traced c.loader.Holds c.given id
  kept : ∀ id k, c.loader.kept? id = some k → k.Traced c.loader.Holds c.given id

namespace Accounts

variable (h : c.Accounts)
include h

theorem sound : c.loader.Sound := h.faithful.sound

theorem holds_apply (ho : o ≠ .clear) : ∀ y name, c.loader.Holds y name →
    (c.loader.apply o).Holds y name :=
  fun _ _ hname => hname.retains (Loader.retains_apply h.sound ho)

/-- A module from before, over the record after an operation. -/
theorem live_apply (ho : o ≠ .clear) (hm : c.loader.module? id = some m) :
    m.Traced (c.loader.apply o).Holds (c.apply o).given id := by
  refine (h.live id m hm).mono (h.holds_apply ho) fun i hi => ?_
  have hs : c.loader.arena.structure? ⟨id, i⟩ = some m.structures[i] :=
    Arena.structure?_eq_some.mpr ⟨m, hm, List.getElem?_eq_getElem hi⟩
  exact given_apply_of_there hs o

/-- What stays of a module from before, over the record after an operation. -/
theorem kept_apply (ho : o ≠ .clear) (hk : c.loader.kept? id = some k) :
    k.Traced (c.loader.apply o).Holds (c.apply o).given id := by
  refine (h.kept id k hk).mono (h.holds_apply ho) fun i hi => ?_
  obtain ⟨m, hm, hmk⟩ := Option.bind_eq_some_iff.mp hk
  have hprefix := (Module.precedes_of_kept? hmk).structures
  have hs : c.loader.arena.structure? ⟨id, i⟩ = some k.structures[i] :=
    Arena.structure?_eq_some.mpr ⟨m, hm, List.prefix_iff_getElem?.mp hprefix i hi⟩
  exact given_apply_of_there hs o

/-! ### Operations that complete no module -/

/-- An operation that leaves every module as it is. -/
theorem same (ho : o ≠ .clear)
    (hmodule : ∀ id, (c.loader.apply o).module? id = c.loader.module? id) :
    (c.apply o).Accounts where
  faithful := h.faithful.apply o
  live id _ hm := h.live_apply ho ((hmodule id).symm.trans hm)
  kept id _ hk := h.kept_apply ho ((Loader.kept?_congr (hmodule id)).symm.trans hk)

theorem clear : (c.apply .clear).Accounts := by
  have hnone : ∀ id, (c.apply .clear).loader.module? id = none := by
    intro id
    cases id <;> rfl
  refine ⟨h.faithful.apply .clear, fun id m hm => ?_, fun id k hk => ?_⟩
  · rw [hnone] at hm
    cases hm
  · rw [Loader.kept?, hnone] at hk
    cases hk

theorem create (path : String) : (c.apply (.create path)).Accounts := by
  rcases c.loader.create_cases path with hsame | hregister
  · exact h.same nofun fun id => by rw [Loader.apply, hsame]
  · have hcases : ∀ id m, (c.loader.apply (.create path)).module? id = some m →
        c.loader.module? id = some m ∨ m = .hosted c.loader.nextId (.virtual path) := by
      intro id m hm
      rw [Loader.apply, hregister] at hm
      exact (Loader.module?_register.mp hm).imp_right And.right
    refine ⟨h.faithful.apply (.create path), fun id m hm => ?_, fun id k hk => ?_⟩
    · rcases hcases id m hm with hm | rfl
      · exact h.live_apply nofun hm
      · intro i t ht
        cases ht
    · obtain ⟨m, hm, hmk⟩ := Option.bind_eq_some_iff.mp hk
      rcases hcases id m hm with hm | rfl
      · exact h.kept_apply nofun (by rw [Loader.kept?, hm]; exact hmk)
      · cases hmk

/-- What the host adds is on record as it is. -/
theorem authored (ho : o.isAuthoring = true) : (c.apply o).Accounts := by
  have hclear : o ≠ .clear := by
    rintro rfl
    cases ho
  have hl' := c.loader.authored_apply ho
  refine ⟨h.faithful.apply o, fun other n hn => ?_, fun other k hk => ?_⟩
  · have hn : (c.loader.apply o).module? other = some n := hn
    generalize hloader : c.loader.apply o = l' at hl' hn
    cases hl' with
    | refused => exact h.live_apply hclear hn
    | @grown id m k there hosted grows =>
      rw [Loader.module?_loader_update] at hn
      split at hn
      · next hid =>
        subst hid
        rw [there, Option.map_some, Option.some.injEq] at hn
        subst hn
        intro i t ht
        obtain ⟨added, hadded, -⟩ := grows.structures
        by_cases hi : i < m.structures.length
        · have hbefore : m.structures[i]? = some t := by
            rwa [hadded, List.getElem?_append_left hi] at ht
          obtain ⟨s, hs, hst⟩ := h.live_apply hclear there i t hbefore
          exact ⟨s, hs, hst.mono (fun _ _ hname => hname) grows.structureMappings⟩
        · refine ⟨t, ?_, .refl t⟩
          have hnew : c.loader.arena.structure? ⟨other, i⟩ = none := by
            have hm : c.loader.arena.structure? ⟨other, i⟩ = m.structures[i]? :=
              Arena.structure?_of_module? there
            rw [hm, List.getElem?_eq_none (Nat.le_of_not_lt hi)]
          have hmodule : (c.loader.apply o).module? other = some k := by
            rw [hloader, Loader.module?_loader_update, if_pos rfl, there]
            rfl
          rw [given_apply_of_new hnew hmodule,
            Module.givenStructures_of_hosted (grows.isHosted.trans hosted)]
          exact ht
      · exact h.live_apply hclear hn
  · exact h.kept_apply hclear ((Loader.kept?_authored h.sound hl' other).symm.trans hk)

/-! ### Operations that complete modules -/

/-- Modules after a call that succeeds. The call starts from a registry in which the modules that
are not on record yet came from files. -/
theorem live_completed {fs : FileSystem} {root : ModuleId} {l mid : Loader} {b d : Arena}
    (hfs : o.fileSystem = fs) (hlength : c.loader.arena.length ≤ l.arena.length)
    (hC : Loader.Completion fs root l (.ok ()) (c.loader.apply o) mid b d)
    (hold : ∀ id m, l.module? id = some m →
      m.Traced (c.loader.apply o).Holds (c.apply o).given id)
    (hk : (c.loader.apply o).module? id = some k) :
    k.Traced (c.loader.apply o).Holds (c.apply o).given id := by
  refine hC.traced (h.sound.apply o) hold (fun n m hle hm hregistered i hi => ?_) hk
  obtain ⟨k, hk, hid, hpath, horigin⟩ := hC.exists_file hm hregistered.isHosted
  obtain ⟨path, bytes, d, hcanonical, hread, hdecode, -, -, hfile, -⟩ := hregistered
  have hnew : c.loader.arena.structure? ⟨.slot n, i⟩ = none :=
    Arena.structure?_of_module?_none
      (Arena.module?_eq_none_of_length_le (hlength.trans hle))
  rw [given_apply_of_new hnew hk, hfs, Module.givenStructures_ofDescriptor hcanonical hread hdecode
    (by rw [horigin, hfile]; rfl) (by rw [hpath, hfile]; rfl), hid, hfile]
  rfl

/-- What stays of a module is what stayed of it before the operation, or the module itself. -/
theorem of_live (ho : o ≠ .clear)
    (hlive : ∀ id m, (c.loader.apply o).module? id = some m →
      m.Traced (c.loader.apply o).Holds (c.apply o).given id)
    (hkept : ∀ id, (c.loader.apply o).restored? id = c.loader.restored? id ∨
      (c.loader.apply o).restored? id = (c.loader.apply o).module? id) : (c.apply o).Accounts where
  faithful := h.faithful.apply o
  live := hlive
  kept id k hk := by
    obtain ⟨m, hm, hmk⟩ := Option.bind_eq_some_iff.mp hk
    rcases Module.kept?_eq_some.mp hmk with ⟨-, rfl⟩ | ⟨-, hrestored⟩
    · exact hlive id k hm
    · have hlast : (c.loader.apply o).restored? id = some k :=
        (Loader.restored?_of_module? hm).trans hrestored
      rcases hkept id with hsame | hself
      · rw [hsame] at hlast
        obtain ⟨m₀, hm₀, hrestored₀⟩ := Option.bind_eq_some_iff.mp hlast
        refine h.kept_apply ho ?_
        rw [Loader.kept?, hm₀]
        exact Module.kept?_of_restored? hrestored₀
      · exact hlive id k (hself.symm.trans hlast)

theorem load (fs : FileSystem) (path : String) : (c.apply (.load fs path)).Accounts := by
  rcases Loader.load_cases (Prod.eta (c.loader.load fs path)).symm with ⟨hsame, -⟩ |
    ⟨canonical, bytes, d, r, left, hcanonical, -, hread, hdecode, hcomplete,
      ⟨e, rfl, hr, -⟩ | ⟨rfl, -, hl'⟩⟩
  · exact h.same nofun fun id => by rw [Loader.apply, hsame]
  · exact h.same nofun (Loader.module?_load_failed h.sound hr)
  · refine h.of_live nofun (fun id k hk => ?_) fun id =>
      .inl (Loader.restored?_load h.sound fs path id)
    obtain ⟨hindex, hres, -⟩ := h.sound.register_ofDescriptor hdecode (.file canonical)
    obtain ⟨mid, b, q, hC⟩ := Loader.exists_completion hindex hres hcomplete
    rw [← hl'] at hC
    refine h.live_completed rfl (by simp) hC (fun id m hm => ?_) hk
    rcases Loader.module?_register.mp hm with hm | ⟨rfl, rfl⟩
    · exact h.live_apply nofun hm
    · obtain ⟨m, hm', hmm⟩ := hC.extending.evolves _ _ hm
      obtain ⟨k, hleft, hid, hpath, horigin⟩ := hC.exists_file hm' hmm.isHosted
      have hk : (c.loader.apply (.load fs path)).module? c.loader.nextId = some k := hleft
      refine .of_given fun i hi => ?_
      have hnew : c.loader.arena.structure? ⟨c.loader.nextId, i⟩ = none :=
        Arena.structure?_of_module?_none (Arena.module?_eq_none_of_length_le (Nat.le_refl _))
      have hfs : (Operation.load fs path).fileSystem = fs := rfl
      rw [given_apply_of_new hnew hk, hfs, Module.givenStructures_ofDescriptor
        (FileSystem.canonicalize_of_canonicalize hcanonical) hread hdecode
        (horigin.trans hmm.origin) (hpath.trans hmm.path), hid, hmm.id]
      rfl

/-- After a build that failed the structures of its module are those of its last build, and the
others are laid out at most. -/
theorem live_build_failed {fs : FileSystem} {root : ModuleId} {e : LoadError} {left : Loader}
    (hfails : c.loader.build fs root = (.error e, left)) (hk : left.module? id = some k) :
    k.Traced left.Holds (c.apply (.build fs root)).given id := by
  have hleft : c.loader.apply (.build fs root) = left := congrArg Prod.snd hfails
  have hbuild : Operation.build fs root ≠ .clear := nofun
  rw [← hleft] at hk ⊢
  by_cases hid : id = root
  · subst hid
    rcases Loader.build_cases hfails with ⟨hsame, -⟩ | ⟨m, -, hm, hhosted, -⟩
    · rw [hleft, hsame] at hk
      exact h.live_apply hbuild hk
    · have hrel := (Loader.module?_build_failed h.sound hm hhosted hfails).1
      rw [← hleft, hk] at hrel
      obtain ⟨k₀, hlast, htables⟩ := exists_of_rel_right hrel
      have hkept : c.loader.kept? id = some k₀ := by
        rw [Loader.kept?, hm]
        exact Module.kept?_of_restored? hlast
      refine (h.kept_apply hbuild hkept).congr ?_ htables.mappings
      rw [htables.eq]
  · have hold : ¬ id.isFrom c.loader.arena.length = true := by
      intro hnew
      have hempty := Loader.module?_new_of_build_failed hfails hnew
      rw [hleft, hempty] at hk
      cases hk
    have hrelaid := Loader.relaid_build h.sound fs hid hold
    have hk' : (c.loader.build fs root).2.module? id = some k := hk
    rw [hk'] at hrelaid
    obtain ⟨m, hm, hmk⟩ := exists_of_rel_right hrelaid
    have hmappings : m.mappings.structures <+: k.mappings.structures :=
      congrArg Module.mappings hmk.eq ▸ List.prefix_rfl
    refine (h.live_apply hbuild hm).trans hmappings fun i u hu => ?_
    have hstructure := hmk.structures i
    rw [hu] at hstructure
    obtain ⟨t, ht, htu⟩ := exists_of_rel_right hstructure
    refine ⟨t, ht, ?_⟩
    rcases htu with rfl | ⟨-, -, -, houtline⟩
    · rfl
    · exact .of_outline houtline

theorem build (fs : FileSystem) (root : ModuleId) : (c.apply (.build fs root)).Accounts := by
  refine h.of_live nofun (fun id k hk => ?_) fun id => ?_
  · rcases hbuild : c.loader.build fs root with ⟨_ | _, left⟩
    · have hleft : c.loader.apply (.build fs root) = left := congrArg Prod.snd hbuild
      rw [hleft] at hk ⊢
      exact h.live_build_failed hbuild hk
    · rcases Loader.build_cases hbuild with ⟨-, ⟨_, he⟩, -⟩ |
        ⟨m, left', hm, -, hcomplete, ⟨⟨_, he⟩, -⟩ | ⟨-, rfl⟩⟩
      · cases he
      · cases he
      · have hleft : c.loader.apply (.build fs root) = left := congrArg Prod.snd hbuild
        obtain ⟨mid, b, q, hC⟩ := Loader.exists_completion h.sound.live h.sound.resolved hcomplete
        rw [← hleft] at hC
        exact h.live_completed rfl (Nat.le_refl _) hC (fun id m hm => h.live_apply nofun hm) hk
  · by_cases hid : id = root
    · subst hid
      rcases Loader.build_cases (Prod.eta (c.loader.build fs id)).symm with ⟨hsame, -⟩ |
        ⟨m, -, hm, hhosted, -⟩
      · exact .inl (by rw [Loader.apply, hsame])
      · exact .inr (Loader.restored?_build_self h.sound fs hm hhosted)
    · exact .inl (Loader.restored?_build_other h.sound fs hid)

theorem apply (o : Operation) : (c.apply o).Accounts := by
  cases o with
  | load fs path => exact h.load fs path
  | create path => exact h.create path
  | build fs id => exact h.build fs id
  | clear => exact h.clear
  | addLibraryDirectory fs path => exact h.same nofun fun _ => rfl
  | _ => exact h.authored rfl

end Accounts

theorem Accounts.ofDirectories (libraryDirectories : List String) :
    (Ledger.ofDirectories libraryDirectories).Accounts := by
  have hnone : ∀ id, (Ledger.ofDirectories libraryDirectories).loader.module? id = none := by
    intro id
    cases id <;> rfl
  refine ⟨.ofDirectories libraryDirectories, fun id m hm => ?_, fun id k hk => ?_⟩
  · rw [hnone] at hm
    cases hm
  · rw [Loader.kept?, hnone] at hk
    cases hk

theorem Accounts.run (h : c.Accounts) (operations : List Operation) :
    (c.run operations).Accounts := by
  induction operations generalizing c with
  | nil => exact h
  | cons o os ih => exact ih (h.apply o)

/-- Every ledger accounts for the structures of its registry. -/
theorem Reachable.accounts (h : c.Reachable) : c.Accounts :=
  Reachable.induction Accounts.ofDirectories (fun _ o _ haccounts => haccounts.apply o) h

end Ledger
end ModuleLinker
