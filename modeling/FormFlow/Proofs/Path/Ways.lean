import FormFlow.Proofs.Path.Removal

/-!
# Two locations in one document

Of two locations that lead to values, the one goes on behind the place of the other (`onward?`), or
they part at a container to which both lead and where they go on to different children (`Splits`).
Nothing else is possible (`onward_or_splits`).

Steps are compared by the child that they address in the document at hand. An element may be
addressed by its index or by a numeral for it, a member by its name or by the index that is written
as its name.
-/

namespace FormFlow.Document

/-- How a location goes on behind a place, if it leads through that place. -/
def onward? : Document → (place location : Location) → Option Location
  | _, [], location => some location
  | _, _ :: _, [] => none
  | document, step :: rest, other :: below =>
    if document.alike step other then
      (document.child? step).bind fun child => child.onward? rest below
    else none

/-- Whether two locations part at a container to which both lead. -/
inductive Splits : Document → Location → Location → Prop
  | member {members : Members Document} {step other : Step} (rest below : Location) :
      step.name ≠ other.name → Splits (.object members) (step :: rest) (other :: below)
  | element {items : List Document} {step other : Step} (rest below : Location) :
      step.position? ≠ other.position? → Splits (.array items) (step :: rest) (other :: below)
  | deeper {document child : Document} {step other : Step} {rest below : Location} :
      document.alike step other = true → document.child? step = some child →
        Splits child rest below → Splits document (step :: rest) (other :: below)

variable {document child value : Document} {step other : Step} {place location rest below : Location}

theorem Splits.cons_cases (h : document.Splits (step :: rest) (other :: below)) :
    document.alike step other = false ∨
      document.alike step other = true ∧
        ∃ child, document.child? step = some child ∧ child.Splits rest below := by
  cases h with
  | member _ _ hname => exact .inl (decide_eq_false hname)
  | element _ _ hposition => exact .inl (decide_eq_false hposition)
  | deeper halike hchild hsplits => exact .inr ⟨halike, _, hchild, hsplits⟩

theorem onward?_cons_iff {back : Location} :
    document.onward? (step :: rest) location = some back ↔ ∃ other below,
      location = other :: below ∧ document.alike step other = true ∧
        ∃ child, document.child? step = some child ∧ child.onward? rest below = some back := by
  cases location with
  | nil => simp [onward?]
  | cons other below => simp [onward?, Option.bind_eq_some_iff, and_assoc]

theorem onward?_append {front : Location} (h : document.at? front = some value) (back : Location) :
    document.onward? front (front ++ back) = some back := by
  induction front generalizing document with
  | nil => rfl
  | cons step rest ih =>
    rw [at?_cons] at h
    obtain ⟨child, hchild, hvalue⟩ := Option.bind_eq_some_iff.mp h
    exact onward?_cons_iff.mpr ⟨step, rest ++ back, rfl, alike_self hchild, child, hchild, ih hvalue⟩

theorem onward?_eq_nil_comm (h : document.onward? place location = some []) :
    document.onward? location place = some [] := by
  induction place generalizing document location with
  | nil =>
    obtain rfl : location = [] := Option.some.inj h
    rfl
  | cons step rest ih =>
    obtain ⟨other, below, rfl, halike, child, hchild, hback⟩ := onward?_cons_iff.mp h
    have hother : document.child? other = some child := child?_of_alike halike ▸ hchild
    rw [alike_comm] at halike
    exact onward?_cons_iff.mpr ⟨step, rest, rfl, halike, child, hother, ih hback⟩

theorem splits_of_not_alike (hchild : document.child? other = some child)
    (halike : document.alike step other = false) (rest below : Location) :
    document.Splits (step :: rest) (other :: below) := by
  cases document with
  | object members => exact .member rest below (of_decide_eq_false halike)
  | array items => exact .element rest below (of_decide_eq_false halike)
  | _ => simp [child?] at hchild

/-- A location that leads to a value goes on behind a place, leads there on the way to the place, or
parts from the location of the place. -/
theorem onward_or_splits (place : Location) (h : document.at? location = some value) :
    (∃ back, document.onward? place location = some back) ∨
      (∃ back, document.onward? location place = some back) ∨ document.Splits place location := by
  induction place generalizing document location with
  | nil => exact .inl ⟨location, rfl⟩
  | cons step rest ih =>
    cases location with
    | nil => exact .inr (.inl ⟨step :: rest, rfl⟩)
    | cons other below =>
      rw [at?_cons] at h
      obtain ⟨child, hchild, hvalue⟩ := Option.bind_eq_some_iff.mp h
      cases halike : document.alike step other with
      | false => exact .inr (.inr (splits_of_not_alike hchild halike rest below))
      | true =>
        have hstep : document.child? step = some child := (child?_of_alike halike).trans hchild
        refine (ih hvalue).imp ?_ (Or.imp ?_ (.deeper halike hstep))
        · rintro ⟨back, hback⟩
          exact ⟨back, onward?_cons_iff.mpr ⟨other, below, rfl, halike, child, hstep, hback⟩⟩
        · rintro ⟨back, hback⟩
          rw [alike_comm] at halike
          exact ⟨back, onward?_cons_iff.mpr ⟨step, rest, rfl, halike, child, hchild, hback⟩⟩

theorem passes_or_splits (h : document.at? location = some value)
    (hkept : document.onward? place location = none) :
    (∃ step rest, document.onward? location place = some (step :: rest)) ∨
      document.onward? location place = none ∧ document.Splits place location := by
  cases hback : document.onward? location place with
  | none =>
    obtain ⟨_, hon⟩ | ⟨_, hon⟩ | hsplits := onward_or_splits place h
    · exact absurd (hkept.symm.trans hon) (Option.some_ne_none _).symm
    · exact absurd (hback.symm.trans hon) (Option.some_ne_none _).symm
    · exact .inr ⟨rfl, hsplits⟩
  | some back =>
    cases back with
    | nil =>
      rw [onward?_eq_nil_comm hback] at hkept
      exact absurd hkept (Option.some_ne_none _)
    | cons step rest => exact .inl ⟨step, rest, rfl⟩

end FormFlow.Document
