import ModuleLinker.Proofs.Path.Spelling
import ModuleLinker.Proofs.Registry.Within

/-!
# Virtual paths

Virtual paths are the names of a tree that no file system knows. Each place in the tree has one
normal spelling; joining and taking the parent keep to the normal spellings and walk in the tree.
Modules are registered under normal spellings only. So a relative spec, read beside a virtual
module, means the module that is created under the name that it spells, whatever the spelling.
-/
namespace ModuleLinker

open Lexical

namespace ModulePath

variable {names : List String} {directory : String}

/-! ## Walking by texts -/

/-- A spec leads on from the names of a directory. -/
theorem join_render (h : ∀ name ∈ names, IsName name) (spec : String) :
    (hosted (render true names)).join spec =
      .hosted (render true ((steps spec).foldl move names)) := by
  have habsolute := isAbsolute_render names
  have hjoin :
      (hosted (render true names)).join spec = .virtual (render true names ++ "/" ++ spec) := by
    simp only [join]
    split
    · next heq => cases heq
    · next heq =>
      rw [hosted.inj heq] at habsolute
      cases habsolute
    · next heq => rw [hosted.inj heq]
  rw [hjoin, virtual, normalize_append_slash habsolute, steps_render true h, place_of_names h]

/-- The parent has one name less, unless there is none. -/
theorem parent_render (h : ∀ name ∈ names, IsName name) :
    (hosted (render true names)).parent = .hosted (render true names.dropLast) := by
  have hsplit := split_render fun name hname => (h name hname).2.2
  by_cases hnil : names = []
  · subst hnil
    rfl
  · rw [if_neg hnil] at hsplit
    have hdrop : ("" :: names).dropLast = "" :: names.dropLast := List.dropLast_cons_of_ne_nil hnil
    rw [parent, hsplit, hdrop]
    by_cases hroot : names.dropLast = []
    · rw [hroot]
      rfl
    · rw [render_eq_intercalate hroot]
      split
      · next heq => exact absurd (List.cons.inj heq).2 hroot
      · rfl

/-- What joining and taking the parent come to for virtual paths that start at the root. -/
structure Walks (directory : String) : Prop where
  normal : ∀ spec, ∃ text, (hosted directory).join spec = .hosted text ∧ IsNormal text
  assoc : ∀ spec more,
    ((hosted directory).join spec).join more = (hosted directory).join (spec ++ "/" ++ more)
  parent : (hosted directory).parent = (hosted directory).join ".."

theorem walks_of_isNormal (h : IsNormal directory) : Walks directory := by
  obtain ⟨names, hnames, rfl⟩ := isNormal_iff.mp h
  refine ⟨fun spec => ⟨_, join_render hnames spec, ?_⟩, fun spec more => ?_, ?_⟩
  · exact isNormal_render (isName_foldl_move hnames spec)
  · rw [join_render hnames, join_render hnames, join_render (isName_foldl_move hnames spec),
      steps_append_slash, List.foldl_append]
  · have hup : steps ".." = [".."] := by decide +kernel
    rw [join_render hnames, parent_render hnames, hup]
    rfl

end ModulePath

/-! ## Specs beside virtual modules -/

variable {names : List String} {spec name : String}

theorem resolveSpec_beside (fs : FileSystem) (directories : List String)
    (h : ∀ name ∈ names, IsName name) (hspec : spec ≠ "") (hrelative : isAbsolute spec = false) :
    resolveSpec fs directories (.hosted (render true names)) spec =
      .ok (.hosted (render true ((steps spec).foldl move names.dropLast))) := by
  have hparent : ∀ name ∈ names.dropLast, IsName name :=
    fun name hname => h name (List.dropLast_subset names hname)
  rw [resolveSpec, if_neg hspec, hrelative, if_neg Bool.false_ne_true, ModulePath.parent_render h,
    ModulePath.join_render hparent]

/-- A spec beside a module spells the name of the place to which it leads from the parent. -/
theorem sameName_beside (h : ∀ name ∈ names, IsName name) :
    SameName (split (render true names) ++ ".." :: split spec) (split name) ↔
      (steps spec).foldl move names.dropLast = place (steps name) := by
  have hup : (".." :: split spec).filter isStep = ".." :: steps spec :=
    List.filter_cons_of_pos (by decide)
  have hplace : place ((split (render true names) ++ ".." :: split spec).filter isStep) =
      (steps spec).foldl move names.dropLast := by
    rw [List.filter_append, hup]
    change place (steps (render true names) ++ _) = _
    rw [steps_render true h, place, List.foldl_append, foldl_move_of_names h]
    rfl
  rw [sameName_iff, hplace]
  rfl

namespace Loader

variable {l : Loader} {id : ModuleId} {m : Module} {text : String}

/-- Modules of the host are registered under normal spellings. -/
theorem Indexed.isNormal (h : l.Indexed) (hm : l.module? id = some m)
    (hpath : m.path = .hosted text) : IsNormal text := by
  have hnormal := h.normal _ (h.entry id m hm)
  rw [hpath] at hnormal
  rw [← hnormal.2]
  exact isNormal_normalize hnormal.1

/-- Creating a module under a name that is free makes one; a name that is taken has one. -/
theorem create_or_taken (l : Loader) (h : isAbsolute name = true) :
    ∃ id, (∃ l', l.create name = (.ok id, l') ∧ l'.index.find? (.virtual name) = some id) ∨
      l.create name = (.error (.duplicateModule (.virtual name)), l) ∧
        l.index.find? (.virtual name) = some id := by
  simp only [create, h]
  cases hfind : l.index.find? (.virtual name) with
  | none => exact ⟨l.nextId, .inl ⟨_, rfl, find?_register l _⟩⟩
  | some id => exact ⟨id, .inr ⟨rfl, rfl⟩⟩

/-- Virtual paths are a name space. Making a path normal twice is making it normal once. From a path
that is normal and starts at the root every spec leads to such a path, step by step or at once, and
the parent is what `..` leads to. A relative spec beside a registered module has the path of a name
exactly if it spells that name, and then it means the module that is created under the name, or that
has taken it, in every registry. -/
theorem virtual_name_space :
    (∀ text, ∃ normal, ModulePath.virtual text = .hosted normal ∧
      ModulePath.virtual normal = .hosted normal) ∧
    (∀ directory, IsNormal directory → ModulePath.Walks directory) ∧
    ∀ (l : Loader) (id : ModuleId) (m : Module) (text spec name : String), l.Reachable →
      l.module? id = some m → m.path = .hosted text → spec ≠ "" → isAbsolute spec = false →
      isAbsolute name = true → ∀ (fs : FileSystem) (directories : List String),
      ∃ target, resolveSpec fs directories m.path spec = .ok target ∧
        (target.identity = (ModulePath.virtual name).identity ↔
          SameName (split text ++ ".." :: split spec) (split name)) ∧
        (SameName (split text ++ ".." :: split spec) (split name) → ∀ k : Loader, ∃ id,
          (∃ k', k.create name = (.ok id, k') ∧
            k'.resolveTarget fs m.path spec = .ok (id, none, k')) ∨
          k.create name = (.error (.duplicateModule target), k) ∧
            k.resolveTarget fs m.path spec = .ok (id, none, k)) := by
  refine ⟨fun text => ⟨Lexical.normalize text, rfl, by rw [ModulePath.virtual, normalize_normalize]⟩,
    fun _ => ModulePath.walks_of_isNormal, ?_⟩
  intro l id m text spec name hl hm hpath hspec hrelative habsolute fs directories
  obtain ⟨names, hnames, rfl⟩ := isNormal_iff.mp (hl.indexed.isNormal hm hpath)
  have hresolve (directories : List String) :=
    resolveSpec_beside fs directories hnames hspec hrelative
  have hparent : ∀ name ∈ names.dropLast, IsName name :=
    fun name hname => hnames name (List.dropLast_subset names hname)
  have hname : ModulePath.virtual name = .hosted (render true (place (steps name))) := by
    rw [ModulePath.virtual, Lexical.normalize, habsolute]
  rw [hpath, hname, sameName_beside hnames]
  refine ⟨_, hresolve directories, ?_, fun hsame k => ?_⟩
  · simp only [ModulePath.identity, ModulePath.Identity.hosted.injEq]
    exact render_inj (isName_foldl_move hparent spec) fun _ => isName_of_mem_place
  · rw [hsame] at hresolve ⊢
    obtain ⟨id, hcreate⟩ := create_or_taken k habsolute
    rw [hname] at hcreate
    rcases hcreate with ⟨k', hcreated, hfind⟩ | ⟨htaken, hfind⟩
    · exact ⟨id, .inl ⟨k', hcreated, resolveTarget_of_find? (hresolve _) hfind⟩⟩
    · exact ⟨id, .inr ⟨htaken, resolveTarget_of_find? (hresolve _) hfind⟩⟩

/-- Detours in the spec and in the name that is created lead to the same module. -/
theorem virtual_name_space_of_detours :
    let l := (ofDirectories []).run [.create "/app//main"]
    (l.module? (.slot 0)).map Module.path = some (.hosted "/app/main") ∧
      SameName (split "/app/main" ++ ".." :: split "../lib/./base") (split "//x/../lib//base/.") ∧
      ∃ k, l.create "//x/../lib//base/." = (.ok (.slot 1), k) ∧
        k.resolveTarget {} (.hosted "/app/main") "../lib/./base" = .ok (.slot 1, none, k) := by
  intro l
  have hmain : (l.module? (.slot 0)).map Module.path = some (.hosted "/app/main") := by
    decide +kernel
  have hsame : SameName (split "/app/main" ++ ".." :: split "../lib/./base")
      (split "//x/../lib//base/.") := sameName_iff.mpr (by decide +kernel)
  have hcreated : (l.create "//x/../lib//base/.").1 = .ok (.slot 1) := by decide +kernel
  obtain ⟨m, hm, hpath⟩ := Option.map_eq_some_iff.mp hmain
  obtain ⟨target, -, -, htarget⟩ := virtual_name_space.2.2 l (.slot 0) m "/app/main"
    "../lib/./base" "//x/../lib//base/." ⟨[], _, rfl⟩ hm hpath (by decide) (by decide +kernel)
    (by decide +kernel) {} []
  rw [hpath] at htarget
  obtain ⟨id, ⟨k, hk, hmeans⟩ | ⟨htaken, -⟩⟩ := htarget hsame l
  · rw [hk] at hcreated
    obtain rfl := Except.ok.inj hcreated
    exact ⟨hmain, hsame, k, hk, hmeans⟩
  · rw [htaken] at hcreated
    cases hcreated

end Loader
end ModuleLinker
