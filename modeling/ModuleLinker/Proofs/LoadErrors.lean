import ModuleLinker.Image.Encode
import ModuleLinker.Proofs.Registry.InRange

/-!
# What a load can fail for

A load fails for what is in the files and for how they fit together: an image that cannot be read
or decoded, a spec that stands for nothing or for a module that is not built, a name that is
missing, a structure that contains itself or is too large. It never fails because the loader was
asked for something that is not there: whatever the bytes of the files are, and whatever the host
has done to its own modules, all identities and indices that a load comes to are in range.
-/
namespace ModuleLinker

/-- The error tells that something was asked for that the state does not allow, or that a
dependency was used before it was resolved. -/
def LoadError.IsMisuse (e : LoadError) : Prop :=
  e.kind = .usage ∨ ∃ spec requester, e = .dependency spec requester .notResolved

namespace Loader

variable {fs : FileSystem} {root id : ModuleId} {l l' : Loader} {e : LoadError}
  {requester : ModulePath} {spec path canonical : String}

theorem not_isMisuse_decode (cause : DecodeError) : ¬ (LoadError.decode cause).IsMisuse := by
  rintro (hkind | ⟨_, _, h⟩)
  · simp only [LoadError.kind] at hkind
    split at hkind <;> cases hkind
  · cases h

theorem not_isMisuse_of_kind (h : e.kind ≠ .usage) (h' : e.kind ≠ .dependency) : ¬ e.IsMisuse := by
  rintro (hkind | ⟨_, _, rfl⟩)
  · exact h hkind
  · exact h' rfl

theorem not_isMisuse_dependency {reason : UnresolvedReason} (h : reason ≠ .notResolved) :
    ¬ (LoadError.dependency spec requester reason).IsMisuse := by
  rintro (hkind | ⟨_, _, hreason⟩)
  · cases hkind
  · exact h (LoadError.dependency.inj hreason).2.2

/-- A spec stands for a path, or it is empty or leads to no file. -/
theorem resolveSpec_error {directories : List String}
    (h : resolveSpec fs directories requester spec = .error e) : ¬ e.IsMisuse := by
  simp only [resolveSpec] at h
  split at h
  · cases h
    exact not_isMisuse_dependency (by decide)
  · split at h
    · split at h <;> cases h
    · split at h
      · cases h
      · split at h
        · cases h
        · cases h
          exact not_isMisuse_dependency (by decide)

theorem registerFile_error (h : l.registerFile fs path = .error e) : ¬ e.IsMisuse := by
  simp only [registerFile] at h
  split at h
  · cases h
    exact not_isMisuse_decode _
  · cases h

/-- A spec that is refused stands for nothing, for bytes that are no image, or for a module that is
not built. -/
theorem Refuses.not_isMisuse (h : l.Refuses fs root requester spec e) : ¬ e.IsMisuse := by
  rcases h with h | ⟨-, -, -, -, -, rfl⟩
  · simp only [resolveTarget] at h
    rcases except_bind_eq_error.mp h with hspec | ⟨found, -, h⟩
    · exact resolveSpec_error hspec
    · split at h
      · cases h
      · rcases except_bind_eq_error.mp h with hregister | ⟨registered, -, h⟩
        · exact registerFile_error hregister
        · cases h
      · cases h
        exact not_isMisuse_dependency (by decide)
  · exact not_isMisuse_dependency (by decide)

theorem checkCycles_error {a : Arena} {targets : List ModuleId}
    (h : a.checkCycles targets = .error e) : e.kind = .structureCycle := by
  simp only [Arena.checkCycles] at h
  split at h
  · cases h
  · cases h
    rfl

/-- No end of a load is a misuse. -/
theorem LoadEnds.not_isMisuse (h : LoadEnds fs l canonical (.error e) l') : ¬ e.IsMisuse := by
  cases h with
  | stuck extending fresh stuck =>
    obtain ⟨m, -, d, -, hrefuses⟩ := stuck
    exact hrefuses.not_isMisuse
  | unlinked gathered links =>
    have hkind := (gathered.linkAll_error links).1
    exact not_isMisuse_of_kind (hkind ▸ nofun) (hkind ▸ nofun)
  | cyclic gathered links cycle =>
    have hkind := checkCycles_error cycle
    exact not_isMisuse_of_kind (hkind ▸ nofun) (hkind ▸ nofun)
  | unplaced gathered links acyclic layouts =>
    have hbelow := fun y => gathered.sturdyBelow (gathered.linkPhase links) (y := y)
    rcases Arena.layOutAll_error hbelow layouts with hkind | hkind <;>
      exact not_isMisuse_of_kind (hkind ▸ nofun) (hkind ▸ nofun)

/-- A load never fails with an error of usage, nor for a dependency that was not resolved. -/
theorem load_error_kind (h : l.Reachable) (fs : FileSystem) (path : String) :
    ∀ e, (l.load fs path).1 = .error e →
      e.kind ≠ .usage ∧ ∀ spec requester, e ≠ .dependency spec requester .notResolved := by
  intro e he
  have hno : ¬ e.IsMisuse := by
    rcases load_ends h.sound (Prod.eta (l.load fs path)).symm with
      ⟨cause, hr⟩ | ⟨canonical, id, -, -, hr, -⟩ | ⟨canonical, -, -, hends⟩
    · rw [hr] at he
      cases he
      exact not_isMisuse_decode cause
    · rw [hr] at he
      cases he
    · rw [he] at hends
      exact hends.not_isMisuse
  exact ⟨fun hkind => hno (.inl hkind), fun spec requester hr => hno (.inr ⟨spec, requester, hr⟩)⟩

/-- A file that maps a structure out of a module of the host whose fields mean nothing: what the
load reports is that the module is not built. -/
theorem load_error_kind_of_unbuilt_dependency :
    let l := (ofDirectories []).run [.create "/host", .addStructure (.slot 0) "P"
      [{ type := .mapped 7 }, { type := .struct ⟨.slot 5, 3⟩ }]]
    let app : Descriptor := Descriptor.addStructure
      { dependencies := [⟨"/host", none⟩], mappings := ⟨[⟨0, "P"⟩], []⟩ } "Q" [{ type := .mapped 0 }]
    let fs : FileSystem :=
      { entries := [(["app"], .file ((encode .latest .latest app).toOption.getD []))] }
    let e : LoadError := .dependency "/host" (.file "/app") .notBuilt
    (l.load fs "/app").1 = .error e ∧ e.kind ≠ .usage ∧
      ∀ spec requester, e ≠ .dependency spec requester .notResolved := by
  intro l app fs e
  have hfails : (l.load fs "/app").1 = .error e := by decide +kernel
  have hreachable : l.Reachable := ⟨[], [.create "/host", .addStructure (.slot 0) "P"
    [{ type := .mapped 7 }, { type := .struct ⟨.slot 5, 3⟩ }]], rfl⟩
  exact ⟨hfails, load_error_kind hreachable fs "/app" e hfails⟩

end Loader
end ModuleLinker
