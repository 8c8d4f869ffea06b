import ModuleLinker.Proofs.Path.Below
import ModuleLinker.Registry.Search

/-!
# Specs that are looked for in the library

A spec that starts with a slash is meant to be read below the library directories: the first of
them that has a file there decides, and without such a file the spec is a virtual path. If the spec
has no `..`, what is found lies below the directory. That is so for specs with one slash in front.
Of two slashes only one is taken away, so that what is joined to a directory is absolute and
replaces it: then no directory is looked into, and the spec is read from the root of the file
system.
-/
namespace ModuleLinker

open Lexical

/-- The path of a spec in a library directory, be there one slash in front of the spec or more. -/
def inLibrary (directory spec : String) : String := FilePath.join directory (belowRoot spec)

/-- What a spec is meant to lead to: the canonical path of its file in the first directory that has
one, which lies below that directory, or else a virtual path. -/
inductive Located (fs : FileSystem) (directories : List String) (spec : String) :
    ModulePath → Prop where
  | file {before after : List String} {directory path : String}
      (hfirst : directories = before ++ directory :: after)
      (hbefore : ∀ d ∈ before, fs.file? (inLibrary d spec) = none)
      (hfile : fs.file? (inLibrary directory spec) = some path)
      (hbelow : fs.LiesBelow directory (steps spec) path) :
      Located fs directories spec (.file path)
  | virtual (hnone : ∀ d ∈ directories, fs.file? (inLibrary d spec) = none) :
      Located fs directories spec (.virtual spec)

/-- A spec with two slashes in front for which the root of the file system has another answer than
the library directories. -/
structure Strays (fs : FileSystem) (directories : List String) (spec : String) : Prop where
  doubled : isAbsolute (librarySpec spec) = true
  searched : directories ≠ []
  differs : fs.file? (librarySpec spec) ≠ directories.findSome? fun d => fs.file? (inLibrary d spec)

variable {fs : FileSystem} {directories : List String} {requester : ModulePath} {spec : String}

/-- The module path of a file, or of a spec if there is none. -/
def fileOr (spec : String) (file : Option String) : ModulePath :=
  (file.map ModulePath.file).getD (.virtual spec)

@[simp] theorem fileOr_none (spec : String) : fileOr spec none = .virtual spec := rfl

@[simp] theorem fileOr_some (spec path : String) : fileOr spec (some path) = .file path := rfl

theorem fileOr_inj (spec : String) {file file' : Option String} :
    fileOr spec file = fileOr spec file' ↔ file = file' := by
  cases file <;> cases file' <;> simp [fileOr, ModulePath.virtual]

/-! ## What a spec is read as -/

theorem resolveSpec_of_isAbsolute (habsolute : isAbsolute spec = true) :
    resolveSpec fs directories requester spec =
      .ok (fileOr spec (libraryFile? fs directories spec)) := by
  have hne : spec ≠ "" := by
    rintro rfl
    cases habsolute
  rw [resolveSpec, if_neg hne, if_pos habsolute]
  cases libraryFile? fs directories spec <;> rfl

/-- Without a second slash nothing but the first is in front of the spec. -/
theorem librarySpec_eq_belowRoot (habsolute : isAbsolute spec = true)
    (hsingle : isAbsolute (librarySpec spec) = false) : librarySpec spec = belowRoot spec := by
  rw [isAbsolute, decide_eq_true_eq] at habsolute
  obtain ⟨cs, hcs⟩ := List.head?_eq_some_iff.mp habsolute
  rw [isAbsolute, librarySpec, String.toList_ofList, decide_eq_false_iff_not, hcs] at hsingle
  rw [librarySpec, belowRoot, hcs, List.dropWhile_cons_of_pos (by simp)]
  cases cs with
  | nil => rfl
  | cons c cs =>
    rw [List.dropWhile_cons_of_neg (by simpa using hsingle)]
    rfl

theorem libraryFile?_of_single (habsolute : isAbsolute spec = true)
    (hsingle : isAbsolute (librarySpec spec) = false) :
    libraryFile? fs directories spec =
      directories.findSome? fun d => fs.file? (inLibrary d spec) := by
  simp only [libraryFile?, inLibrary, librarySpec_eq_belowRoot habsolute hsingle]

/-- With a second slash it does not matter which directories there are. -/
theorem libraryFile?_of_doubled (hdoubled : isAbsolute (librarySpec spec) = true)
    (hsearched : directories ≠ []) :
    libraryFile? fs directories spec = fs.file? (librarySpec spec) := by
  obtain ⟨d, rest, rfl⟩ := List.exists_cons_of_ne_nil hsearched
  have hjoin : ∀ d, FilePath.join d (librarySpec spec) = librarySpec spec :=
    fun d => if_pos hdoubled
  induction rest generalizing d with
  | nil => simp [libraryFile?, hjoin]
  | cons d' rest ih =>
    rw [libraryFile?, List.findSome?_cons, hjoin]
    cases hfile : fs.file? (librarySpec spec) with
    | some path => rfl
    | none => exact (ih d' (by simp)).trans hfile

/-- The library answers as it is meant to unless the spec strays. -/
theorem libraryFile?_eq_iff (habsolute : isAbsolute spec = true) :
    (libraryFile? fs directories spec =
        directories.findSome? fun d => fs.file? (inLibrary d spec)) ↔
      ¬ Strays fs directories spec := by
  constructor
  · intro heq hstrays
    rw [libraryFile?_of_doubled hstrays.doubled hstrays.searched] at heq
    exact hstrays.differs heq
  · intro hnot
    cases hdoubled : isAbsolute (librarySpec spec) with
    | false => exact libraryFile?_of_single habsolute hdoubled
    | true =>
      by_cases hsearched : directories = []
      · rw [hsearched, libraryFile?, List.findSome?_nil, List.findSome?_nil]
      · rw [libraryFile?_of_doubled hdoubled hsearched]
        exact not_not.mp fun hdiffers => hnot ⟨hdoubled, hsearched, hdiffers⟩

/-! ## What it is meant to lead to -/

theorem located_iff (hclimb : ".." ∉ split spec) {path : ModulePath} :
    Located fs directories spec path ↔
      path = fileOr spec (directories.findSome? fun d => fs.file? (inLibrary d spec)) := by
  constructor
  · intro h
    cases h with
    | @file before after directory path hfirst hbefore hfile _ =>
      have hfound : (directories.findSome? fun d => fs.file? (inLibrary d spec)) = some path :=
        List.findSome?_eq_some_iff.mpr ⟨before, directory, after, hfirst, hfile, hbefore⟩
      rw [hfound, fileOr_some]
    | virtual hnone => rw [List.findSome?_eq_none_iff.mpr hnone, fileOr_none]
  · rintro rfl
    cases hfound : directories.findSome? fun d => fs.file? (inLibrary d spec) with
    | none =>
      rw [fileOr_none]
      exact .virtual (List.findSome?_eq_none_iff.mp hfound)
    | some path =>
      rw [fileOr_some]
      obtain ⟨before, directory, after, hfirst, hfile, hbefore⟩ :=
        List.findSome?_eq_some_iff.mp hfound
      refine .file hfirst hbefore hfile ?_
      rw [← steps_belowRoot]
      exact FileSystem.liesBelow_of_file? (isAbsolute_belowRoot spec)
        (not_mem_split_belowRoot hclimb) hfile

/-- A spec that starts with a slash and has no `..` leads to where it is meant to unless it has two
slashes in front and the root of the file system has another answer than the library directories.
With two slashes, whatever the directories are, it leads to the file that it has read from the root,
or without one it is a virtual path. -/
theorem resolveSpec_located_iff (fs : FileSystem) (directories : List String)
    (requester : ModulePath) (spec : String) (habsolute : isAbsolute spec = true)
    (hclimb : ".." ∉ split spec) :
    ((∃ path, resolveSpec fs directories requester spec = .ok path ∧
      Located fs directories spec path) ↔ ¬ Strays fs directories spec) ∧
    (isAbsolute (librarySpec spec) = true → directories ≠ [] →
      (∀ path, fs.file? (librarySpec spec) = some path →
        resolveSpec fs directories requester spec = .ok (.file path)) ∧
      (fs.file? (librarySpec spec) = none →
        resolveSpec fs directories requester spec = .ok (.virtual spec))) := by
  have hresolve : resolveSpec fs directories requester spec =
      .ok (fileOr spec (libraryFile? fs directories spec)) := resolveSpec_of_isAbsolute habsolute
  constructor
  · rw [← libraryFile?_eq_iff habsolute, ← fileOr_inj spec, hresolve]
    simp only [located_iff hclimb, Except.ok.injEq, exists_eq_left']
  · intro hdoubled hsearched
    rw [hresolve, libraryFile?_of_doubled hdoubled hsearched]
    constructor
    · intro path hpath
      rw [hpath, fileOr_some]
    · intro hnone
      rw [hnone, fileOr_none]

/-- A doubled slash inside a spec does no harm, nor does a dot. -/
theorem resolveSpec_located_iff_of_single_slash :
    let fs : FileSystem := { entries := [(["lib"], .directory), (["lib", "std"], .directory),
      (["lib", "std", "io"], .file [])] }
    resolveSpec fs ["/app", "/lib"] (.virtual "/app") "/std//./io" = .ok (.file "/lib/std/io") ∧
      Located fs ["/app", "/lib"] "/std//./io" (.file "/lib/std/io") := by
  intro fs
  have hresolve : resolveSpec fs ["/app", "/lib"] (.virtual "/app") "/std//./io" =
      .ok (.file "/lib/std/io") := by decide +kernel
  have hsingle : isAbsolute (librarySpec "/std//./io") = false := by decide +kernel
  have hnot : ¬ Strays fs ["/app", "/lib"] "/std//./io" := by
    intro hstrays
    rw [hstrays.doubled] at hsingle
    cases hsingle
  obtain ⟨path, hpath, hlocated⟩ := (resolveSpec_located_iff fs ["/app", "/lib"] (.virtual "/app")
    "/std//./io" (by decide +kernel) (by decide +kernel)).1.mpr hnot
  cases hresolve.symm.trans hpath
  exact ⟨hresolve, hlocated⟩

/-- With two slashes in front a file of the library is not found. If there is one at the root as
well, that one is, although it is in no library directory. -/
theorem doubled_slash_leaves_library :
    let inside : FileSystem := { entries := [(["lib"], .directory), (["lib", "base"], .file [])] }
    let beside : FileSystem := { entries := (["base"], .file []) :: inside.entries }
    isAbsolute "//base" = true ∧ ".." ∉ split "//base" ∧
      resolveSpec inside ["/lib"] (.virtual "/app") "//base" = .ok (.virtual "/base") ∧
      ¬ Located inside ["/lib"] "//base" (.virtual "/base") ∧
      resolveSpec beside ["/lib"] (.virtual "/app") "//base" = .ok (.file "/base") ∧
      ¬ Located beside ["/lib"] "//base" (.file "/base") ∧
      Located beside ["/lib"] "//base" (.file "/lib/base") := by
  intro inside beside
  have hclimb : ".." ∉ split "//base" := by decide +kernel
  have hinside : resolveSpec inside ["/lib"] (.virtual "/app") "//base" =
      .ok (.virtual "/base") := by decide +kernel
  have hbeside : resolveSpec beside ["/lib"] (.virtual "/app") "//base" =
      .ok (.file "/base") := by decide +kernel
  simp only [located_iff hclimb]
  exact ⟨by decide +kernel, hclimb, hinside, by decide +kernel, hbeside, by decide +kernel,
    by decide +kernel⟩

end ModuleLinker
