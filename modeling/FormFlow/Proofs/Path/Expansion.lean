import FormFlow.Proofs.Path.Distinct
import FormFlow.Proofs.Path.Lookup

/-!
# Slots are places and what is missing

The slots of a pattern of `*` and of names that are not read as indexes are the places of its part up
to the last `*`, each with the names behind it (`slots_eq`). Those that have a value are the places of
the pattern itself, in the same order, and there are as many slots as there are elements for that
last `*` (`slots_exact`).

Whether a slot has a value is told by a look-up of its names, and whether it is a place by listing
below the element. That is the same for a name that is not read as an index (`locations_of_keys`).
-/

namespace FormFlow

theorem Token.branches_key_of_isPlain {name : String} (hplain : (Token.key name).IsPlain)
    (document : Document) : (Token.key name).branches document =
      ((document.child? (.field name)).map fun child => (Step.field name, child)).toList := by
  have hnone : Text.readIndex name.toList = none := hplain
  cases document with
  | array items => simp [branches, Document.ownStep?, Document.child?, Step.position?, hnone]
  | object members => rfl
  | _ => rfl

/-- The elements of an array; other documents have none. -/
def Document.elements : Document → List Document
  | .array items => items
  | _ => []

namespace Pattern

variable {pattern front back : Pattern} {document : Document}

/-! ### The last `*` -/

@[simp] theorem cutAtLastEach_withEach (front : Pattern) :
    front.withEach.cutAtLastEach = (front.withEach, []) := by
  simp [cutAtLastEach, withEach]

theorem cutAtLastEach_concat {token : Token} (htoken : token ≠ .each) (front : Pattern) :
    cutAtLastEach (front ++ [token]) =
      (front.cutAtLastEach.1, front.cutAtLastEach.2 ++ [token]) := by
  simp [cutAtLastEach, htoken]

theorem hasEach_concat (front : Pattern) (token : Token) :
    hasEach (front ++ [token]) = (front.hasEach || token = .each) := by
  by_cases htoken : token = .each
  · simp [hasEach, htoken]
  · simp [hasEach, htoken, Ne.symm htoken]

theorem cutAtLastEach_cases (pattern : Pattern) :
    (pattern.hasEach = false ∧ pattern.cutAtLastEach = ([], pattern)) ∨
    ∃ stem back : Pattern, pattern = stem ++ .each :: back ∧ back.hasEach = false ∧
      pattern.cutAtLastEach = (stem.withEach, back) := by
  induction pattern using List.reverseRecOn with
  | nil => exact .inl ⟨rfl, rfl⟩
  | append_singleton front token ih =>
    by_cases htoken : token = .each
    · subst htoken
      exact .inr ⟨front, [], rfl, rfl, cutAtLastEach_withEach front⟩
    · rw [cutAtLastEach_concat htoken, hasEach_concat]
      obtain ⟨heach, hcut⟩ | ⟨stem, back, hpattern, heach, hcut⟩ := ih
      · exact .inl ⟨by simp [heach, htoken], by rw [hcut]⟩
      · refine .inr ⟨stem, back ++ [token], by rw [hpattern]; simp, ?_, by rw [hcut]⟩
        rw [hasEach_concat]
        simp [heach, htoken]

theorem hasEach_cutAtLastEach (pattern : Pattern) : pattern.cutAtLastEach.2.hasEach = false := by
  rw [hasEach, List.contains_eq_mem, decide_eq_false_iff_not]
  exact fun hmem => ne_each_of_mem_cutAtLastEach hmem rfl

/-! ### Names behind the last `*` -/

theorem IsPlain.hasSame (h : pattern.IsPlain) : pattern.hasSame = false := by
  rw [Pattern.hasSame, List.contains_eq_mem, decide_eq_false_iff_not]
  exact h .same

theorem locations_of_keys (hplain : pattern.IsPlain) (heach : pattern.hasEach = false)
    (document : Document) : pattern.locations document =
      if (document.at? pattern.keySteps).isSome then [pattern.keySteps] else [] := by
  induction pattern generalizing document with
  | nil => simp [locations, keySteps]
  | cons token rest ih =>
    rw [hasEach, List.contains_cons, Bool.or_eq_false_iff] at heach
    cases token with
    | key name =>
      have hsteps : keySteps (.key name :: rest) = .field name :: keySteps rest := rfl
      rw [locations_cons, Token.branches_key_of_isPlain (hplain _ List.mem_cons_self), hsteps,
        Document.at?_cons]
      cases document.child? (.field name) with
      | none => rfl
      | some child =>
        rw [Option.map_some, Option.toList_some, List.flatMap_singleton, Option.bind_some,
          ih hplain.tail heach.2 child]
        split <;> rfl
    | each => exact absurd heach.1 (by decide)
    | same => exact (hplain _ List.mem_cons_self).elim

/-! ### Slots -/

/-- The slots are the places of the part up to the last `*`, each with the names behind it. -/
theorem slots_eq (hplain : pattern.IsPlain) (document : Document) :
    pattern.slots document = (pattern.withoutEach.cutAtLastEach.1.locations document).map
      (· ++ pattern.withoutEach.cutAtLastEach.2.keySteps) := by
  obtain ⟨heach, hcut⟩ | ⟨stem, back, -, -, hcut⟩ := cutAtLastEach_cases pattern.withoutEach
  · simp [slots, hcut, location?_eq_keySteps heach hplain.withoutEach.hasSame, locations]
  · simp [slots, hcut, withEach]

theorem filter_map_append_keySteps (hplain : back.IsPlain) (heach : back.hasEach = false)
    (front : Pattern) (document : Document) :
    ((front.locations document).map (· ++ back.keySteps)).filter
        (fun place => (document.at? place).isSome) =
      (front ++ back).locations document := by
  rw [List.map_eq_flatMap, List.filter_flatMap, locations_append]
  refine List.flatMap_congr fun here _ => ?_
  rw [List.filter_singleton, Document.at?_append]
  cases document.at? here with
  | none => rfl
  | some value =>
    rw [Option.bind_some, Option.toList_some, List.flatMap_singleton,
      locations_of_keys hplain heach value]
    cases (value.at? back.keySteps).isSome <;> rfl

theorem length_locations_withEach (stem : Pattern) (document : Document) :
    (stem.withEach.locations document).length = ((stem.locations document).flatMap fun here =>
      (document.at? here).toList.flatMap Document.elements).length := by
  have heach : ∀ value : Document, (locations [.each] value).length = value.elements.length := by
    intro value
    rw [locations_cons, Token.branches.eq_def]
    cases value with
    | array items => simp [locations, Document.elements, List.length_flatMap, Function.comp_def]
    | _ => rfl
  rw [withEach, locations_append, List.length_flatMap, List.length_flatMap]
  simp [List.length_flatMap, heach]

/-- Of the slots of a pattern, those that have a value are the places that the pattern names without
a `*` at its end. No slot is listed twice. There is one if that pattern has no `*`, and else one for
each element of the arrays in front of the last `*`. -/
theorem slots_exact (hplain : pattern.IsPlain) (document : Document) :
    (pattern.slots document).filter (fun place => (document.at? place).isSome) =
        pattern.withoutEach.locations document ∧
      (pattern.slots document).Nodup ∧
      (pattern.withoutEach.hasEach = false → (pattern.slots document).length = 1) ∧
      (pattern.withoutEach.hasEach = true → ∃ stem back : Pattern,
        pattern.withoutEach = stem ++ .each :: back ∧ back.hasEach = false ∧
        (pattern.slots document).length = ((stem.locations document).flatMap fun here =>
          (document.at? here).toList.flatMap Document.elements).length) := by
  have hslots := slots_eq hplain document
  have hback : IsPlain pattern.withoutEach.cutAtLastEach.2 := by
    intro token hmem
    refine hplain.withoutEach token ?_
    rw [← append_cutAtLastEach pattern.withoutEach]
    exact List.mem_append_right _ hmem
  refine ⟨?_, nodup_slots pattern document, ?_, ?_⟩
  · rw [hslots, filter_map_append_keySteps hback (hasEach_cutAtLastEach _), append_cutAtLastEach]
  · intro hnone
    obtain ⟨-, hcut⟩ | ⟨stem, back, hpattern, -, -⟩ := cutAtLastEach_cases pattern.withoutEach
    · rw [hslots, hcut, List.length_map, locations, List.length_singleton]
    · rw [hpattern] at hnone
      simp [hasEach] at hnone
  · intro hsome
    obtain ⟨hnone, -⟩ | ⟨stem, back, hpattern, hkeys, hcut⟩ :=
      cutAtLastEach_cases pattern.withoutEach
    · exact absurd (hnone.symm.trans hsome) Bool.false_ne_true
    · refine ⟨stem, back, hpattern, hkeys, ?_⟩
      rw [hslots, hcut, List.length_map, length_locations_withEach]

/-! Orders of which one has no list of lines and another an object for it; some lines lack notes. -/

def orders : Document := .object [("orders", .array [
  .object [("lines", .array [.object [("notes", .array [.text "x", .text "y"])], .object [], .text "t"])],
  .object [("lines", .object [("notes", .text "n")])],
  .bool true,
  .object [("lines", .array [.object [("notes", .null)]])]])]

def notes : Pattern := [.key "orders", .each, .key "lines", .each, .key "notes", .each]

theorem slots_exact_notes :
    notes.IsPlain ∧
    notes.slots orders =
      [[.field "orders", .index 0, .field "lines", .index 0, .field "notes"],
       [.field "orders", .index 0, .field "lines", .index 1, .field "notes"],
       [.field "orders", .index 0, .field "lines", .index 2, .field "notes"],
       [.field "orders", .index 3, .field "lines", .index 0, .field "notes"]] ∧
    (notes.slots orders).filter (fun place => (orders.at? place).isSome) =
      notes.withoutEach.locations orders ∧
    (notes.slots orders).Nodup := by
  have hplain : notes.IsPlain := by
    simp only [IsPlain, notes, List.forall_mem_cons, Token.IsPlain]
    exact ⟨by decide, trivial, by decide, trivial, by decide, trivial, by simp⟩
  obtain ⟨hpresent, hnodup, -, -⟩ := slots_exact hplain orders
  exact ⟨hplain, by decide +kernel, hpresent, hnodup⟩

end Pattern

end FormFlow
