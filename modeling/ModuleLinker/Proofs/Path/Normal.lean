import ModuleLinker.Proofs.Path.Pieces

/-!
# Normal forms

The normal form of a path has only names in it: nothing stays in place and nothing leads up. So
splitting it gives back the names that it was rendered from, and it is its own normal form.
-/
namespace ModuleLinker.Lexical

variable {name path : String} {names steps place : List String}

/-- A piece that leads from a directory to a child. -/
def IsName (name : String) : Prop := isStep name = true ∧ name ≠ ".." ∧ '/' ∉ name.toList

theorem IsName.ne_empty (h : IsName name) : name ≠ "" := by
  rintro rfl
  simp [IsName, isStep] at h

/-- Going up takes the last name away, and any other step is one more name. -/
theorem move_eq_append (h : name ≠ "..") : move place name = place ++ [name] := if_neg h

theorem mem_move {step : String} (h : name ∈ move place step) :
    name ∈ place ∨ name = step ∧ step ≠ ".." := by
  simp only [move] at h
  split at h
  · exact .inl (List.dropLast_subset place h)
  · next hstep => simpa [hstep] using h

/-- The place that steps lead to has only steps that are names. -/
theorem mem_foldl_move (h : name ∈ steps.foldl move place) :
    name ∈ place ∨ name ∈ steps ∧ name ≠ ".." := by
  induction steps generalizing place with
  | nil => exact .inl h
  | cons step steps ih =>
    rcases ih h with hmove | ⟨hmem, hne⟩
    · rcases mem_move hmove with hplace | ⟨rfl, hne⟩
      · exact .inl hplace
      · exact .inr ⟨List.mem_cons_self, hne⟩
    · exact .inr ⟨List.mem_cons_of_mem _ hmem, hne⟩

theorem isName_of_mem_place (h : name ∈ Lexical.place (Lexical.steps path)) : IsName name := by
  rcases mem_foldl_move h with hnil | ⟨hmem, hne⟩
  · cases hnil
  · obtain ⟨hpiece, hstep⟩ := List.mem_filter.mp hmem
    exact ⟨hstep, hne, not_mem_of_mem_split hpiece⟩

/-- Names lead to the place of these names. -/
theorem foldl_move_of_names (h : ∀ name ∈ names, IsName name) :
    names.foldl move place = place ++ names := by
  induction names generalizing place with
  | nil => simp
  | cons name names ih =>
    rw [List.foldl_cons, move_eq_append (h name List.mem_cons_self).2.1,
      ih fun n hn => h n (List.mem_cons_of_mem _ hn)]
    simp

theorem place_of_names (h : ∀ name ∈ names, IsName name) : Lexical.place names = names :=
  (foldl_move_of_names h).trans (List.nil_append names)

theorem filter_isStep_of_names (h : ∀ name ∈ names, IsName name) :
    names.filter isStep = names := List.filter_eq_self.mpr fun name hname => (h name hname).1

/-- A text of names from somewhere is split into the names; without names it is empty. -/
theorem split_intercalate (h : ∀ name ∈ names, IsName name) :
    split ("/".intercalate names) = if names = [] then [""] else names := by
  have htext : ("/".intercalate names).toList = ['/'].intercalate (names.map String.toList) := by
    simp
  rw [split, htext, pieces_eq_splitOn]
  by_cases hnil : names = []
  · subst hnil
    rfl
  · have hplain : ∀ l ∈ names.map String.toList, '/' ∉ l := by
      simpa using fun name hname => (h name hname).2.2
    rw [List.splitOn_intercalate '/' hplain (by simpa using hnil)]
    simp [hnil, Function.comp_def]

theorem isAbsolute_render_false (h : ∀ name ∈ names, IsName name) :
    isAbsolute (render false names) = false := by
  cases names with
  | nil => rfl
  | cons name names =>
    have hname := h name List.mem_cons_self
    obtain ⟨c, cs, hcs⟩ : ∃ c cs, name.toList = c :: cs := by
      cases hlist : name.toList with
      | nil => exact absurd (String.toList_eq_nil_iff.mp hlist) hname.ne_empty
      | cons c cs => exact ⟨c, cs, rfl⟩
    have hc : c ≠ '/' := by
      rintro rfl
      exact hname.2.2 (by simp [hcs])
    have hhead : (render false (name :: names)).toList.head? = some c := by
      cases names <;> simp [render, List.intercalate, hcs]
    simp [isAbsolute, hhead, hc]

/-- The names of a path in normal form are the steps of its text. -/
theorem steps_render (absolute : Bool) (h : ∀ name ∈ names, IsName name) :
    Lexical.steps (render absolute names) = names := by
  have hempty : isStep "" = false := by decide
  cases absolute with
  | true =>
    rw [Lexical.steps, split_render fun name hname => (h name hname).2.2, List.filter_cons, hempty]
    by_cases hnil : names = []
    · simp [hnil, hempty]
    · simpa [hnil] using filter_isStep_of_names h
  | false =>
    have hrender : render false names = "/".intercalate names := by simp [render]
    rw [Lexical.steps, hrender, split_intercalate h]
    by_cases hnil : names = []
    · simp [hnil, hempty]
    · simpa [hnil] using filter_isStep_of_names h

@[simp] theorem isAbsolute_normalize (path : String) :
    isAbsolute (normalize path) = isAbsolute path := by
  cases h : isAbsolute path with
  | true => rw [normalize, h, isAbsolute_render]
  | false => rw [normalize, h, isAbsolute_render_false fun _ => isName_of_mem_place]

/-- A normal form is its own normal form. -/
@[simp] theorem normalize_normalize (path : String) : normalize (normalize path) = normalize path := by
  have hnames : ∀ name ∈ Lexical.place (Lexical.steps path), IsName name :=
    fun _ => isName_of_mem_place
  have hsteps : Lexical.steps (normalize path) = Lexical.place (Lexical.steps path) :=
    steps_render _ hnames
  rw [normalize, isAbsolute_normalize, hsteps, place_of_names hnames]
  rfl

end ModuleLinker.Lexical
