import Mathlib.Data.List.Induction
import Mathlib.Logic.Relation
import ModuleLinker.Proofs.Path.Below

/-!
# Spellings

A place has many spellings: a text may have pieces that stay in place, go down and come back, or go
up at the root. One of the spellings is normal, and two texts have the same normal form exactly if
each can be made of the other by putting in such pieces and leaving them out.
-/
namespace ModuleLinker.Lexical

/-- A text that is absolute and has nothing in it but names, none of which leads nowhere; the root
alone ends in a slash. -/
def IsNormal (text : String) : Prop :=
  text = "/" ∨ ∃ names, names ≠ [] ∧ split text = "" :: names ∧
    ∀ name ∈ names, name ≠ "" ∧ name ≠ "." ∧ name ≠ ".."

/-- What can be left out of the pieces of an absolute text: an empty piece or `.`, a name with `..`
behind it, and a `..` at the root. -/
inductive Detour : List String → List String → Prop
  | empty (front back : List String) : Detour (front ++ "" :: back) (front ++ back)
  | here (front back : List String) : Detour (front ++ "." :: back) (front ++ back)
  | back {name : String} (front back : List String) :
    name ≠ "" → name ≠ "." → name ≠ ".." → Detour (front ++ name :: ".." :: back) (front ++ back)
  | top (back : List String) : Detour (".." :: back) back

/-- Pieces that spell the same name: they differ in detours only. -/
def SameName : List String → List String → Prop := Relation.EqvGen Detour

variable {text above below piece : String} {names pieces others : List String}

/-! ## The normal spelling -/

/-- Different names make different paths. -/
theorem render_inj (h : ∀ name ∈ names, IsName name) (h' : ∀ name ∈ others, IsName name) :
    render true names = render true others ↔ names = others := by
  constructor
  · intro heq
    rw [← steps_render true h, heq, steps_render true h']
  · rintro rfl
    rfl

/-- Joining undoes splitting. -/
theorem intercalate_split (text : String) : "/".intercalate (split text) = text := by
  have hpieces : (split text).map String.toList = text.toList.splitOn '/' := by
    simp [split, pieces_eq_splitOn, Function.comp_def]
  have hjoin : ['/'].intercalate (text.toList.splitOn '/') = text.toList :=
    List.intercalate_splitOn '/'
  rw [← String.toList_inj, String.toList_intercalate, hpieces]
  exact hjoin

theorem render_eq_intercalate (h : names ≠ []) :
    render true names = "/".intercalate ("" :: names) := by
  obtain ⟨name, rest, rfl⟩ := List.exists_cons_of_ne_nil h
  simp [render]

theorem isNormal_iff :
    IsNormal text ↔ ∃ names, (∀ name ∈ names, IsName name) ∧ text = render true names := by
  constructor
  · rintro (rfl | ⟨names, hne, hsplit, hnames⟩)
    · exact ⟨[], by simp, rfl⟩
    · refine ⟨names, fun name hname => ⟨?_, (hnames name hname).2.2, ?_⟩, ?_⟩
      · simpa [isStep] using ⟨(hnames name hname).1, (hnames name hname).2.1⟩
      · exact not_mem_of_mem_split (hsplit ▸ List.mem_cons_of_mem _ hname)
      · rw [render_eq_intercalate hne, ← hsplit, intercalate_split]
  · rintro ⟨names, hnames, rfl⟩
    by_cases hnil : names = []
    · exact .inl (by rw [hnil]; rfl)
    · refine .inr ⟨names, hnil, ?_, fun name hname => ?_⟩
      · rw [split_render fun name hname => (hnames name hname).2.2, if_neg hnil]
      · obtain ⟨hstep, hclimb, -⟩ := hnames name hname
        simp only [isStep, Bool.and_eq_true, decide_eq_true_eq] at hstep
        exact ⟨hstep.1, hstep.2, hclimb⟩

theorem isNormal_render (h : ∀ name ∈ names, IsName name) : IsNormal (render true names) :=
  isNormal_iff.mpr ⟨names, h, rfl⟩

theorem isNormal_normalize (h : isAbsolute text = true) : IsNormal (normalize text) := by
  rw [normalize, h]
  exact isNormal_render fun _ => isName_of_mem_place

theorem steps_append_slash (above below : String) :
    steps (above ++ "/" ++ below) = steps above ++ steps below := by
  rw [steps, split_append_slash, List.filter_append]
  rfl

/-- The names of a text that is put below another are found from where that one leads. -/
theorem normalize_append_slash (h : isAbsolute above = true) (below : String) :
    normalize (above ++ "/" ++ below) =
      render true ((steps below).foldl move (place (steps above))) := by
  have hne : above ≠ "" := by
    rintro rfl
    cases h
  have habsolute : isAbsolute (above ++ "/" ++ below) = true := by
    rw [String.append_assoc, isAbsolute_append hne, h]
  rw [normalize, habsolute, steps_append_slash, place, List.foldl_append]
  rfl

/-- From names, steps lead to names. -/
theorem isName_foldl_move (h : ∀ name ∈ names, IsName name) (text : String) :
    ∀ name ∈ (steps text).foldl move names, IsName name := by
  intro name hname
  rcases mem_foldl_move hname with hname | ⟨hmem, hne⟩
  · exact h name hname
  · obtain ⟨hpiece, hstep⟩ := List.mem_filter.mp hmem
    exact ⟨hstep, hne, not_mem_of_mem_split hpiece⟩

/-! ## Spellings of a name -/

theorem Detour.sameName (h : Detour pieces others) : SameName pieces others := .rel _ _ h

theorem SameName.place_eq (h : SameName pieces others) :
    place (pieces.filter isStep) = place (others.filter isStep) := by
  induction h with
  | rel pieces others hdetour =>
    cases hdetour with
    | empty front back => simp [isStep]
    | here front back => simp [isStep]
    | back front back hempty hhere hclimb => simp [isStep, place, move, hempty, hhere, hclimb]
    | top => simp [isStep, place, move]
  | refl pieces => rfl
  | symm _ _ _ ih => exact ih.symm
  | trans _ _ _ _ _ first second => exact first.trans second

theorem SameName.append (h : SameName pieces others) (more : List String) :
    SameName (pieces ++ more) (others ++ more) := by
  induction h with
  | rel pieces others hdetour =>
    refine Detour.sameName ?_
    cases hdetour with
    | empty front back => simpa using Detour.empty front (back ++ more)
    | here front back => simpa using Detour.here front (back ++ more)
    | back front back hempty hhere hclimb =>
      simpa using Detour.back front (back ++ more) hempty hhere hclimb
    | top => exact .top _
  | refl pieces => exact .refl _
  | symm _ _ _ ih => exact .symm _ _ ih
  | trans _ _ _ _ _ first second => exact .trans _ _ _ first second

/-- One more piece moves on from the place of the others. -/
theorem sameName_move (front : List String) (piece : String) :
    SameName (place (front.filter isStep) ++ [piece])
      (place ((front ++ [piece]).filter isStep)) := by
  rw [List.filter_append]
  by_cases hempty : piece = ""
  · subst hempty
    simpa [isStep] using (Detour.empty (place (front.filter isStep)) []).sameName
  by_cases hhere : piece = "."
  · subst hhere
    simpa [isStep] using (Detour.here (place (front.filter isStep)) []).sameName
  have hmove : place (front.filter isStep ++ [piece].filter isStep) =
      move (place (front.filter isStep)) piece := by
    simp [isStep, hempty, hhere, place]
  rw [hmove]
  by_cases hclimb : piece = ".."
  · subst hclimb
    rcases List.eq_nil_or_concat' (place (front.filter isStep)) with hroot | ⟨above, name, hplace⟩
    · rw [hroot]
      exact (Detour.top []).sameName
    · -- the name that is left was one of the pieces
      have hname : name ∈ place (front.filter isStep) := by simp [hplace]
      obtain ⟨hmem, hne⟩ := (mem_foldl_move hname).resolve_left List.not_mem_nil
      have hstep : name ≠ "" ∧ name ≠ "." := by simpa [isStep] using (List.mem_filter.mp hmem).2
      rw [hplace, move, if_pos rfl, List.dropLast_concat]
      simpa using (Detour.back above [] hstep.1 hstep.2 hne).sameName
  · rw [move_eq_append hclimb]
    exact .refl _

/-- Pieces spell the names to which they lead. -/
theorem sameName_place (pieces : List String) : SameName pieces (place (pieces.filter isStep)) := by
  induction pieces using List.reverseRecOn with
  | nil => exact .refl _
  | append_singleton front piece ih =>
    exact .trans _ _ _ (ih.append [piece]) (sameName_move front piece)

/-- Pieces spell the same name exactly if they lead to the same names. -/
theorem sameName_iff :
    SameName pieces others ↔ place (pieces.filter isStep) = place (others.filter isStep) := by
  refine ⟨SameName.place_eq, fun h => ?_⟩
  have hpieces := sameName_place pieces
  rw [h] at hpieces
  exact .trans _ _ _ hpieces (.symm _ _ (sameName_place others))

end ModuleLinker.Lexical
