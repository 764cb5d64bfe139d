import FormFlow.Proofs.Path.Ways

/-!
# Taking a value out and looking it up

What is taken out of a document is what was found there, and only that place changes: a member goes
from its object, an element of an array becomes null (`isRemoval_removeAt`). Containers elsewhere
keep their elements and members, and so do the values behind every location that parts from the
removed one.

A container on the way to the removed value is what is left of it without the rest of the way
(`at?_without_of_onward?`). So its length and its names are a matter of one step
(`without_array`, `without_object`).
-/

namespace FormFlow.Document

variable {document child value parent : Document} {step other : Step}
  {place location rest below : Location}

/-! ### One step -/

theorem child?_without_of_not_alike (h : document.alike step other = false) (rest : Location) :
    (document.without (step :: rest)).child? other = document.child? other := by
  cases hchild : document.child? step with
  | none => rw [without_of_child?_eq_none hchild]
  | some child => rw [child?_without_cons hchild, h, if_neg Bool.false_ne_true]

/-! ### A whole location -/

theorem map_fst_removeAt? (hlocation : location ≠ []) (document : Document) :
    (removeAt? location document).map Prod.fst = document.at? location := by
  induction location generalizing document with
  | nil => exact absurd rfl hlocation
  | cons step rest ih =>
    rw [at?_cons]
    cases rest with
    | nil => cases hchild : document.child? step <;> simp [removeAt?, hchild]
    | cons next rest =>
      cases hchild : document.child? step with
      | none => simp [removeAt?, hchild]
      | some child =>
        rw [Option.bind_some, ← ih (List.cons_ne_nil next rest)]
        simp only [removeAt?, hchild, Option.bind_eq_bind, Option.bind_some]
        cases removeAt? (next :: rest) child <;> rfl

theorem at?_without_of_onward? (h : document.onward? place location = some (step :: rest)) :
    (document.without location).at? place =
      (document.at? place).map fun value => value.without (step :: rest) := by
  induction place generalizing document location with
  | nil =>
    obtain rfl : location = step :: rest := Option.some.inj h
    simp
  | cons first front ih =>
    obtain ⟨other, below, rfl, halike, child, hchild, hback⟩ := onward?_cons_iff.mp h
    have hbelow : below ≠ [] := by
      rintro rfl
      cases front <;> simp [onward?] at hback
    have hother : document.child? other = some child := (child?_of_alike halike) ▸ hchild
    rw [alike_comm] at halike
    rw [at?_cons, at?_cons, child?_without_cons hother, if_pos halike, if_neg hbelow, hchild,
      Option.bind_some, Option.bind_some, ih hback]

theorem Splits.at?_without (h : document.Splits location place) :
    (document.without location).at? place = document.at? place := by
  induction location generalizing document place with
  | nil => cases h
  | cons step rest ih =>
    cases place with
    | nil => cases h
    | cons other below =>
      rw [at?_cons, at?_cons]
      obtain halike | ⟨halike, child, hchild, hsplits⟩ := h.cons_cases
      · rw [child?_without_of_not_alike halike]
      · have hrest : rest ≠ [] := by
          rintro rfl
          cases hsplits
        rw [child?_without_cons hchild, if_pos halike, if_neg hrest, ← child?_of_alike halike,
          hchild, Option.bind_some, Option.bind_some, ih hsplits]

theorem at?_without_self {front : Location} (hparent : document.at? front = some parent)
    (hchild : parent.child? step = some child) :
    (document.without (front ++ [step])).at? (front ++ [step]) = parent.gap? := by
  rw [at?_append, at?_without_of_onward? (onward?_append hparent [step]), hparent, Option.map_some,
    Option.bind_some, at?_cons, child?_without_cons hchild, if_pos (alike_self hchild), if_pos rfl]
  cases parent.gap? <;> simp

/-- A value that is not taken out itself is left without the rest of the way to what is, or as it is
if it is not on the way. -/
theorem at?_without_cases (hvalue : document.at? place = some value)
    (hkept : document.onward? location place = none) :
    (∃ step rest, document.onward? place location = some (step :: rest) ∧
        (document.without location).at? place = some (value.without (step :: rest))) ∨
      document.onward? place location = none ∧
        (document.without location).at? place = some value := by
  obtain ⟨step, rest, hback⟩ | ⟨hback, hsplits⟩ := passes_or_splits hvalue hkept
  · refine .inl ⟨step, rest, hback, ?_⟩
    rw [at?_without_of_onward? hback, hvalue, Option.map_some]
  · exact .inr ⟨hback, by rw [hsplits.at?_without, hvalue]⟩

theorem exists_child_of_answer {front : Location} (hplace : front ++ [step] ≠ [])
    (hanswer : (removeAt? (front ++ [step]) document).map Prod.fst ≠ none)
    (hparent : document.at? front = some parent) : ∃ child, parent.child? step = some child := by
  rw [map_fst_removeAt? hplace, at?_append, hparent, Option.bind_some, at?_cons] at hanswer
  cases hchild : parent.child? step with
  | none => simp [hchild] at hanswer
  | some child => exact ⟨child, rfl⟩

/-! ### The laws of a removal -/

/-- What taking the value at a place out of a document answers and leaves. -/
structure IsRemoval (before : Document) (place : Location) (answer : Option Document)
    (after : Document) : Prop where
  /-- It answers what is found at the place. -/
  answer_eq : answer = before.at? place
  /-- Without an answer nothing changes. -/
  unchanged : answer = none → after = before
  /-- A member is gone. -/
  gone : ∀ front last members, place = front ++ [last] → answer ≠ none →
    before.at? front = some (.object members) → after.at? place = none
  /-- An element is null. -/
  nulled : ∀ front last items, place = front ++ [last] → answer ≠ none →
    before.at? front = some (.array items) → after.at? place = some .null
  /-- An array that is not taken out itself keeps its length. -/
  length_eq : ∀ here items, before.onward? place here = none →
    before.at? here = some (.array items) →
      ∃ left, after.at? here = some (.array left) ∧ left.length = items.length
  /-- An object that is not taken out itself keeps its members in order, but for the one that is. -/
  keys_eq : ∀ here members, before.onward? place here = none →
    before.at? here = some (.object members) →
      ∃ left, after.at? here = some (.object left) ∧
        Members.keys left = (Members.keys members).filter fun name =>
          (before.onward? here place).map (List.map Step.name) ≠ some [name]
  /-- What lies behind another child of a container on the way stays. -/
  apart : ∀ other, before.Splits place other → after.at? other = before.at? other

/-- Taking the value at a place out of a document keeps the laws of a removal. -/
theorem isRemoval_removeAt (document : Document) {place : Location} (hplace : place ≠ []) :
    document.IsRemoval place ((removeAt? place document).map Prod.fst)
      (document.without place) where
  answer_eq := map_fst_removeAt? hplace document
  unchanged hanswer := by
    rw [map_fst_removeAt? hplace] at hanswer
    exact without_of_at?_eq_none hanswer
  gone front last members hlast hanswer hparent := by
    subst hlast
    obtain ⟨child, hchild⟩ := exists_child_of_answer hplace hanswer hparent
    exact at?_without_self hparent hchild
  nulled front last items hlast hanswer hparent := by
    subst hlast
    obtain ⟨child, hchild⟩ := exists_child_of_answer hplace hanswer hparent
    exact at?_without_self hparent hchild
  length_eq here items hkept harray := by
    obtain ⟨step, rest, -, hleft⟩ | ⟨-, hleft⟩ := at?_without_cases harray hkept
    · obtain ⟨left, harray, hlength⟩ := without_array items (step :: rest)
      exact ⟨left, by rw [hleft, harray], hlength⟩
    · exact ⟨items, hleft, rfl⟩
  keys_eq here members hkept hobject := by
    obtain ⟨step, rest, hback, hleft⟩ | ⟨hback, hleft⟩ := at?_without_cases hobject hkept
    · obtain ⟨left, hobject, hkeys⟩ := without_object members (step :: rest)
      refine ⟨left, by rw [hleft, hobject], ?_⟩
      simpa [hback] using hkeys
    · refine ⟨members, hleft, (List.filter_eq_self.mpr fun name _ => ?_).symm⟩
      simp [hback]
  apart other hsplits := hsplits.at?_without

/-! Elements that are addressed by numerals, below and above a member that is named by one. -/

def drawers : Document := .object [("drawers", .array [
  .object [("0", .array [.text "x", .text "y"]), ("label", .null)], .bool true])]

def secondThing : Location := [.field "drawers", .field "0", .field "0", .field "01"]

theorem isRemoval_drawers :
    secondThing ≠ [] ∧
    drawers.IsRemoval secondThing ((removeAt? secondThing drawers).map Prod.fst)
      (drawers.without secondThing) ∧
    drawers.at? secondThing = some (.text "y") ∧
    drawers.without secondThing = .object [("drawers", .array [
      .object [("0", .array [.text "x", .null]), ("label", .null)], .bool true])] ∧
    drawers.Splits secondThing [.field "drawers", .index 0, .field "label"] := by
  have hplace : secondThing ≠ [] := List.cons_ne_nil _ _
  refine ⟨hplace, isRemoval_removeAt drawers hplace, rfl, rfl, ?_⟩
  exact .deeper rfl rfl (.deeper rfl rfl (.member _ _ (by decide)))

end FormFlow.Document
