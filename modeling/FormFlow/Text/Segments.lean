/-!
# Dotted texts

A dotted text is a list of segments joined by full stops. `cut` takes a text apart at every full
stop, keeping empty segments, and `glue` puts segments together again.

Main statements: `glue_cut` (nothing is lost) and `cut_glue` (segments without a full stop come
back as they were).
-/

namespace FormFlow.Text

/-- The segments of a dotted text. A text without a full stop is one segment, also when empty. -/
def cut : List Char → List (List Char)
  | [] => [[]]
  | c :: rest =>
    if c = '.' then [] :: cut rest
    else
      match cut rest with
      | [] => [[c]]
      | segment :: segments => (c :: segment) :: segments

def glue : List (List Char) → List Char
  | [] => []
  | [segment] => segment
  | segment :: segments => segment ++ '.' :: glue segments

theorem cut_ne_nil (text : List Char) : cut text ≠ [] := by
  cases text with
  | nil => simp [cut]
  | cons c rest =>
    rw [cut]
    split
    · simp
    · split <;> simp

theorem glue_cons_cons (c : Char) (segment : List Char) (segments : List (List Char)) :
    glue ((c :: segment) :: segments) = c :: glue (segment :: segments) := by
  cases segments <;> rfl

theorem glue_eq_nil_iff {segments : List (List Char)} :
    glue segments = [] ↔ segments = [] ∨ segments = [[]] := by
  cases segments with
  | nil => simp [glue]
  | cons segment rest => cases rest <;> simp [glue]

theorem flatMap_stop {segments : List (List Char)} (hne : segments ≠ []) :
    segments.flatMap ('.' :: ·) = '.' :: glue segments := by
  induction segments with
  | nil => exact absurd rfl hne
  | cons segment rest ih =>
    cases rest with
    | nil => simp [glue]
    | cons next others =>
      rw [List.flatMap_cons, ih (List.cons_ne_nil next others)]
      rfl

theorem glue_cut (text : List Char) : glue (cut text) = text := by
  induction text with
  | nil => rfl
  | cons c rest ih =>
    rw [cut]
    cases h : cut rest with
    | nil => exact absurd h (cut_ne_nil rest)
    | cons segment segments =>
      rw [h] at ih
      split
      · subst c
        simp [glue, ih]
      · simp [glue_cons_cons, ih]

theorem stop_not_mem_of_mem_cut {text segment : List Char} (h : segment ∈ cut text) :
    '.' ∉ segment := by
  induction text generalizing segment with
  | nil =>
    obtain rfl : segment = [] := by simpa [cut] using h
    exact List.not_mem_nil
  | cons c rest ih =>
    cases hrest : cut rest with
    | nil => exact absurd hrest (cut_ne_nil rest)
    | cons first others =>
      rw [hrest] at ih
      rw [cut, hrest] at h
      split at h
      · rcases List.mem_cons.mp h with rfl | hmem
        · exact List.not_mem_nil
        · exact ih hmem
      · next hstop =>
        rcases List.mem_cons.mp h with rfl | hmem
        · exact List.not_mem_cons_of_ne_of_not_mem (Ne.symm hstop) (ih List.mem_cons_self)
        · exact ih (List.mem_cons_of_mem first hmem)

theorem cut_of_no_stop {segment : List Char} (h : '.' ∉ segment) : cut segment = [segment] := by
  induction segment with
  | nil => rfl
  | cons c rest ih =>
    simp only [List.mem_cons, not_or] at h
    rw [cut, if_neg (Ne.symm h.1), ih h.2]

theorem cut_append_stop {segment : List Char} (h : '.' ∉ segment) (rest : List Char) :
    cut (segment ++ '.' :: rest) = segment :: cut rest := by
  induction segment with
  | nil => simp [cut]
  | cons c tail ih =>
    simp only [List.mem_cons, not_or] at h
    rw [List.cons_append, cut, if_neg (Ne.symm h.1), ih h.2]

theorem cut_glue {segments : List (List Char)} (hne : segments ≠ [])
    (h : ∀ segment ∈ segments, '.' ∉ segment) : cut (glue segments) = segments := by
  induction segments with
  | nil => exact absurd rfl hne
  | cons segment rest ih =>
    cases rest with
    | nil => exact cut_of_no_stop (h segment (by simp))
    | cons next others =>
      rw [glue]
      · rw [cut_append_stop (h segment (by simp)), ih (by simp)]
        intro s hs
        exact h s (by simp [hs])
      · simp

end FormFlow.Text
