import FormFlow.Proofs.Path.Removal

/-!
# Leaves

`Document.leaves` lists the places that hold no further place. In a document whose objects have
each of their names once, every one of them is a location that fits the document, with the listed
value (`isLeafAt_of_mem_leaves`). Taking out a value changes no leaf but those at or below it
(`IsLeafAt.without`).
-/

namespace FormFlow

namespace Document

/-- Whether there is no value below: a scalar or an empty container. -/
def IsBare (document : Document) : Prop := ∀ step, document.child? step = none

/-- A location fits a document and leads to a value that has none below it. -/
def IsLeafAt (document : Document) (location : Location) (value : Document) : Prop :=
  document.Fits location ∧ document.at? location = some value ∧ value.IsBare

variable {document child value : Document} {step : Step} {base location below removed : Location}

theorem WellFormed.child? (h : document.WellFormed) (hchild : document.child? step = some child) :
    child.WellFormed := by
  cases document with
  | object members => exact membersWellFormed_iff.mp h.2 _ (Members.mem_of_get? hchild)
  | array items =>
    obtain ⟨position, -, hitem⟩ := Option.bind_eq_some_iff.mp hchild
    exact itemsWellFormed_iff.mp h _ (List.mem_of_getElem? hitem)
  | _ => simp [Document.child?] at hchild

theorem IsLeafAt.cons (hstep : document.IsOwnStep step) (hchild : document.child? step = some child)
    (hleaf : child.IsLeafAt below value) : document.IsLeafAt (step :: below) value := by
  obtain ⟨hfits, hvalue, hbare⟩ := hleaf
  refine ⟨⟨hstep, child, hchild, hfits⟩, ?_, hbare⟩
  rw [at?_cons, hchild, Option.bind_some, hvalue]

theorem IsBare.isLeafAt (hbare : document.IsBare)
    (hmem : (location, value) ∈ [(base, document)]) :
    ∃ below, location = base ++ below ∧ document.IsLeafAt below value := by
  obtain ⟨rfl, rfl⟩ := Prod.mk.inj (List.mem_singleton.mp hmem)
  exact ⟨[], (List.append_nil _).symm, trivial, at?_nil _, hbare⟩

mutual

theorem isLeafAt_of_mem_leaves (document : Document) (hformed : document.WellFormed)
    {base location : Location} (hmem : (location, value) ∈ document.leaves base) :
    ∃ below, location = base ++ below ∧ document.IsLeafAt below value := by
  match document with
  | .object [] => exact IsBare.isLeafAt (fun _ => rfl) hmem
  | .object (member :: members) =>
    obtain ⟨hnodup, hformed⟩ := hformed
    obtain ⟨name, child, hchild, below, hlocation, hleaf⟩ :=
      exists_leaf_of_mem_memberLeaves (member :: members) hformed hmem
    exact ⟨_, hlocation, hleaf.cons trivial (Members.get?_of_mem hnodup hchild)⟩
  | .array [] =>
    refine IsBare.isLeafAt (fun step => ?_) hmem
    simp [child?]
  | .array (item :: items) =>
    obtain ⟨position, child, hchild, below, hlocation, hleaf⟩ :=
      exists_leaf_of_mem_itemLeaves (item :: items) hformed hmem
    rw [Nat.zero_add] at hlocation
    exact ⟨_, hlocation, hleaf.cons trivial hchild⟩
  | .null | .bool _ | .number _ | .text _ => exact IsBare.isLeafAt (fun _ => rfl) hmem

theorem exists_leaf_of_mem_memberLeaves (members : List (String × Document))
    (hformed : MembersWellFormed members) {base location : Location}
    (hmem : (location, value) ∈ memberLeaves base members) :
    ∃ name child, (name, child) ∈ members ∧
      ∃ below, location = base ++ .field name :: below ∧ child.IsLeafAt below value := by
  match members with
  | [] => simp [memberLeaves] at hmem
  | (name, child) :: rest =>
    rw [memberLeaves, List.mem_append] at hmem
    rcases hmem with hmem | hmem
    · obtain ⟨below, hlocation, hleaf⟩ := isLeafAt_of_mem_leaves child hformed.1 hmem
      exact ⟨name, child, List.mem_cons_self, below, by simpa using hlocation, hleaf⟩
    · obtain ⟨name, child, hchild, hleaf⟩ := exists_leaf_of_mem_memberLeaves rest hformed.2 hmem
      exact ⟨name, child, List.mem_cons_of_mem _ hchild, hleaf⟩

theorem exists_leaf_of_mem_itemLeaves (items : List Document) (hformed : ItemsWellFormed items)
    {base location : Location} {first : Nat}
    (hmem : (location, value) ∈ itemLeaves base first items) :
    ∃ position child, items[position]? = some child ∧
      ∃ below, location = base ++ .index (first + position) :: below ∧
        child.IsLeafAt below value := by
  match items with
  | [] => simp [itemLeaves] at hmem
  | child :: rest =>
    rw [itemLeaves, List.mem_append] at hmem
    rcases hmem with hmem | hmem
    · obtain ⟨below, hlocation, hleaf⟩ := isLeafAt_of_mem_leaves child hformed.1 hmem
      exact ⟨0, child, rfl, below, by simpa using hlocation, hleaf⟩
    · obtain ⟨position, child, hchild, below, hlocation, hleaf⟩ :=
        exists_leaf_of_mem_itemLeaves rest hformed.2 hmem
      refine ⟨position + 1, child, by simpa using hchild, below, ?_, hleaf⟩
      rwa [Nat.add_assoc, Nat.add_comm 1 position] at hlocation

end

theorem IsLeafAt.without (hremoved : document.Fits removed)
    (hleaf : document.IsLeafAt location value) (hapart : ¬ removed <+: location) :
    (document.without removed).IsLeafAt location value := by
  induction removed generalizing document location with
  | nil => exact absurd List.nil_prefix hapart
  | cons step rest ih =>
    obtain ⟨hstep, child, hchild, hrest⟩ := hremoved
    obtain ⟨hfits, hvalue, hbare⟩ := hleaf
    cases location with
    | nil =>
      obtain rfl := Option.some.inj ((at?_nil document).symm.trans hvalue)
      rw [hbare step] at hchild
      exact absurd hchild.symm (by simp)
    | cons other below =>
      obtain ⟨hother, found, hfound, hbelow⟩ := hfits
      have hleaf : found.IsLeafAt below value := by
        rw [at?_cons, hfound, Option.bind_some] at hvalue
        exact ⟨hbelow, hvalue, hbare⟩
      by_cases halike : document.alike step other = true
      · obtain rfl := eq_of_alike hstep hother halike
        obtain rfl := Option.some.inj (hchild.symm.trans hfound)
        have hne : rest ≠ [] := by
          rintro rfl
          exact hapart ⟨below, rfl⟩
        refine (ih hrest hleaf fun hbelow => hapart ?_).cons ((isOwnStep_without ..).mpr hother) ?_
        · exact List.cons_prefix_cons.mpr ⟨rfl, hbelow⟩
        · rw [child?_without_cons hchild, if_pos halike, if_neg hne]
      · refine hleaf.cons ((isOwnStep_without ..).mpr hother) ?_
        rw [child?_without_cons hchild, if_neg halike, hfound]

end Document

end FormFlow
