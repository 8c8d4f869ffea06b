import ModuleLinker.Path.Lexical

/-!
# Splitting what was joined

Splitting a text at a separator undoes joining texts without separator, so the normal form of an
absolute path is split into the names that it was rendered from.
-/
namespace ModuleLinker.Lexical

/-- The texts between separators are those of the library's splitting of lists. -/
theorem pieces_eq_splitOn (separator : Char) (cs : List Char) :
    pieces separator cs = cs.splitOn separator := by
  induction cs with
  | nil => rfl
  | cons c cs ih =>
    rw [pieces, List.splitOn_cons_eq_if_modifyHead]
    by_cases h : c = separator
    · simp [h, ih]
    · simp only [h, if_false, beq_iff_eq, ih]
      cases hp : cs.splitOn separator with
      | nil => exact absurd hp (List.splitOn_ne_nil separator cs)
      | cons p ps => rfl

theorem not_mem_of_mem_split {path piece : String} (h : piece ∈ split path) :
    '/' ∉ piece.toList := by
  suffices hall : ∀ cs, ∀ p ∈ pieces '/' cs, '/' ∉ p by
    obtain ⟨p, hp, rfl⟩ := List.mem_map.mp h
    simpa using hall _ p hp
  intro cs
  induction cs with
  | nil => simp
  | cons c cs ih =>
    intro p hp
    simp only [pieces] at hp
    split at hp
    · rcases List.mem_cons.mp hp with rfl | hp
      · simp
      · exact ih p hp
    · next hc =>
      split at hp
      · rw [List.mem_singleton.mp hp]
        simpa using Ne.symm hc
      · next q qs hq =>
        rw [hq] at ih
        rcases List.mem_cons.mp hp with rfl | hp
        · simpa [Ne.symm hc] using ih q List.mem_cons_self
        · exact ih p (List.mem_cons_of_mem _ hp)

theorem isAbsolute_render (names : List String) : isAbsolute (render true names) = true := by
  simp [isAbsolute, render]

/-- An absolute path in normal form is split into an empty piece and its names; the root has no
name but an empty piece behind its slash. -/
theorem split_render {names : List String} (h : ∀ name ∈ names, '/' ∉ name.toList) :
    split (render true names) = "" :: if names = [] then [""] else names := by
  have htext : (render true names).toList =
      '/' :: ['/'].intercalate (names.map String.toList) := by
    simp [render]
  rw [split, htext, pieces_separator, pieces_eq_splitOn]
  by_cases hnil : names = []
  · subst hnil
    rfl
  · rw [List.splitOn_intercalate '/' (by simpa using h) (by simpa using hnil)]
    simp [hnil, Function.comp_def]

end ModuleLinker.Lexical
