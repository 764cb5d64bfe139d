import FormFlow.Proofs.Path.Places
import Mathlib.Data.List.Induction
import Mathlib.Data.List.Basic

/-!
# Looking up and listing

A pattern of keys has one location, and looking that up finds what listing its places finds, once or
not at all. A `*` behind it stands for the numerals of the indexes of the array that is found there,
one after another (`locations_eq_unrolled`).

The looked-up location keeps each numeral as a name, the listed place has the index instead. So the
two are compared by the value that they lead to.
-/

namespace FormFlow

namespace Token

variable {document : Document}

theorem branches_key (name : String) (document : Document) :
    (document.child? (.field name) = none ∧ (Token.key name).branches document = []) ∨
    ∃ step child, document.child? (.field name) = some child ∧ document.child? step = some child ∧
      (Token.key name).branches document = [(step, child)] := by
  rw [Document.child?_field, branches]
  cases hstep : document.ownStep? name with
  | none => exact .inl ⟨rfl, rfl⟩
  | some step =>
    simp only [Option.bind_some]
    cases hchild : document.child? step with
    | none => exact .inl ⟨rfl, rfl⟩
    | some child => exact .inr ⟨step, child, rfl, hchild, rfl⟩

theorem flatMap_range_items (items : List Document) :
    (List.range items.length).flatMap (fun position =>
      (items[position]?.map fun item => (Step.index position, item)).toList) =
      items.zipIdx.map fun (item, position) => (.index position, item) := by
  induction items using List.reverseRecOn with
  | nil => rfl
  | append_singleton front last ih =>
    have hfront : ∀ position ∈ List.range front.length,
        (((front ++ [last])[position]?).map fun item => (Step.index position, item)).toList =
          (front[position]?.map fun item => (Step.index position, item)).toList := by
      intro position hmem
      rw [List.getElem?_append_left (List.mem_range.mp hmem)]
    rw [List.length_append, List.length_singleton, List.range_succ, List.flatMap_append,
      List.flatMap_congr hfront, ih, List.zipIdx_append, List.map_append]
    simp

theorem branches_each {items : List Document} (hlength : items.length ≤ Text.maxIndex) :
    Token.each.branches (.array items) = (List.range items.length).flatMap fun position =>
      (Token.key (Text.Natural.print position)).branches (.array items) := by
  rw [branches, ← flatMap_range_items]
  refine List.flatMap_congr fun position hmem => ?_
  have hread : Text.readIndex (Text.Natural.print position).toList = some position := by
    rw [Text.Natural.print, String.toList_ofList]
    exact Text.readIndex_digits (Nat.le_trans (Nat.le_of_lt (List.mem_range.mp hmem)) hlength)
  rw [branches, Document.ownStep?, hread]
  rfl

end Token

namespace Pattern

variable {front back : Pattern} {document : Document} {place : Location}

theorem location?_eq_keySteps (heach : front.hasEach = false) (hsame : front.hasSame = false) :
    front.location? = some front.keySteps := by
  induction front with
  | nil => rfl
  | cons token rest ih =>
    simp only [hasEach, hasSame, List.contains_cons, Bool.or_eq_false_iff] at heach hsame ih
    have hrest := ih heach.2 hsame.2
    cases token with
    | key name =>
      rw [location?] at hrest ⊢
      simp [hrest, keySteps]
    | each => simp at heach
    | same => simp at hsame

theorem exists_location? (heach : front.hasEach = false) (hsame : front.hasSame = false) :
    ∃ place, front.location? = some place :=
  ⟨front.keySteps, location?_eq_keySteps heach hsame⟩

/-- Listing the places of a pattern of keys finds the value that looking up its location finds. -/
theorem locations_of_location? (h : front.location? = some place) (document : Document) :
    (document.at? place = none ∧ front.locations document = []) ∨
    ∃ here value, document.at? place = some value ∧ document.at? here = some value ∧
      front.locations document = [here] := by
  induction front generalizing place document with
  | nil =>
    obtain rfl : [] = place := by simpa [location?] using h
    exact .inr ⟨[], document, document.at?_nil, document.at?_nil, rfl⟩
  | cons token rest ih =>
    obtain ⟨name, below, rfl, rfl, hbelow⟩ := exists_key_of_location? h
    rw [locations_cons, Document.at?_cons]
    obtain ⟨hnone, hbranches⟩ | ⟨step, child, hname, hstep, hbranches⟩ :=
      Token.branches_key name document
    · exact .inl ⟨by rw [hnone, Option.bind_none], by rw [hbranches, List.flatMap_nil]⟩
    rw [hname, hbranches, Option.bind_some, List.flatMap_singleton]
    obtain ⟨hnone, hlocations⟩ | ⟨here, value, hplace, hhere, hlocations⟩ := ih hbelow child
    · exact .inl ⟨hnone, by rw [hlocations, List.map_nil]⟩
    · refine .inr ⟨step :: here, value, hplace, ?_, by rw [hlocations]; rfl⟩
      rw [Document.at?_cons, hstep, Option.bind_some, hhere]

theorem locations_append (front back : Pattern) (document : Document) :
    (front ++ back).locations document = (front.locations document).flatMap fun here =>
      (document.at? here).toList.flatMap fun value => (back.locations value).map (here ++ ·) := by
  induction front generalizing document with
  | nil => simp [locations]
  | cons token rest ih =>
    rw [List.cons_append, locations_cons, locations_cons, List.flatMap_assoc]
    refine List.flatMap_congr fun branch hbranch => ?_
    obtain ⟨-, -, hchild⟩ := Token.mem_branches_iff.mp hbranch
    rw [ih, List.map_flatMap, List.flatMap_map]
    refine List.flatMap_congr fun here _ => ?_
    rw [Document.at?_cons, hchild, Option.bind_some, List.map_flatMap]
    simp only [List.map_map]
    rfl

theorem locations_each {items : List Document} (hlength : items.length ≤ Text.maxIndex)
    (back : Pattern) :
    locations (.each :: back) (.array items) = (List.range items.length).flatMap fun position =>
      locations (.key (Text.Natural.print position) :: back) (.array items) := by
  rw [locations_cons, Token.branches_each hlength, List.flatMap_assoc]
  refine List.flatMap_congr fun position _ => ?_
  rw [locations_cons]

/-- Looking up the location of a pattern of keys finds what listing its places finds, once or not at
all, and `*` behind it stands for the indexes of the array there, if there is one. An array in
memory has no more elements than an index can count. -/
theorem locations_eq_unrolled (heach : front.hasEach = false) (hsame : front.hasSame = false)
    (document : Document) :
    ∃ place, front.location? = some place ∧
      (front.locations document).map document.at? = (document.at? place).toList.map some ∧
      ∀ back,
        (∀ items, document.at? place = some (.array items) → items.length ≤ Text.maxIndex →
          (front ++ Token.each :: back).locations document =
            (List.range items.length).flatMap fun position =>
              (front ++ Token.key (Text.Natural.print position) :: back).locations document) ∧
        ((∀ items, document.at? place ≠ some (.array items)) →
          (front ++ Token.each :: back).locations document = []) := by
  obtain ⟨place, hplace⟩ := exists_location? heach hsame
  refine ⟨place, hplace, ?_⟩
  obtain ⟨hnone, hlocations⟩ | ⟨here, value, hvalue, hhere, hlocations⟩ :=
    locations_of_location? hplace document
  · refine ⟨by rw [hnone, hlocations]; rfl, fun back => ⟨fun items harray _ => ?_, fun _ => ?_⟩⟩
    · exact absurd (hnone.symm.trans harray) (Option.some_ne_none _).symm
    · rw [locations_append, hlocations, List.flatMap_nil]
  -- behind the one place that is listed, a pattern goes on in the value that is looked up
  have hbelow : ∀ back, (front ++ back).locations document =
      (back.locations value).map (here ++ ·) := by
    intro back
    rw [locations_append, hlocations, List.flatMap_singleton, hhere, Option.toList_some,
      List.flatMap_singleton]
  refine ⟨by rw [hlocations, List.map_singleton, hhere, hvalue]; rfl, fun back => ⟨?_, ?_⟩⟩
  · intro items harray hlength
    obtain rfl : value = .array items := Option.some.inj (hvalue.symm.trans harray)
    simp only [hbelow, locations_each hlength, List.map_flatMap]
  · intro hother
    rw [hbelow, locations_cons]
    cases value with
    | array items => exact absurd hvalue (hother items)
    | _ => rfl

/-! An object with a numeral for a name, and arrays that a numeral with a leading zero enters. -/

def grid : Document := .object [("0", .array [.null, .array [
  .object [("b", .text "x")], .bool true, .object [("b", .array [])]]])]

def secondRow : Pattern := [.key "0", .key "01"]

theorem locations_eq_unrolled_grid :
    secondRow.hasEach = false ∧ secondRow.hasSame = false ∧
    (secondRow.locations grid).map grid.at? =
      (grid.at? [.field "0", .field "01"]).toList.map some ∧
    (∃ items, grid.at? [.field "0", .field "01"] = some (.array items) ∧
      items.length ≤ Text.maxIndex) ∧
    (secondRow ++ [Token.each, Token.key "b"]).locations grid =
      (List.range 3).flatMap fun position =>
        (secondRow ++ [Token.key (Text.Natural.print position), Token.key "b"]).locations grid := by
  have heach : secondRow.hasEach = false := by decide
  have hsame : secondRow.hasSame = false := by decide
  have hrow : grid.at? [.field "0", .field "01"] = some (.array [
      .object [("b", .text "x")], .bool true, .object [("b", .array [])]]) := by rfl
  obtain ⟨place, hplace, hfound, hunrolled⟩ := locations_eq_unrolled heach hsame grid
  obtain rfl : [.field "0", .field "01"] = place := Option.some.inj hplace
  exact ⟨heach, hsame, hfound, ⟨_, hrow, by decide⟩, (hunrolled [.key "b"]).1 _ hrow (by decide)⟩

end Pattern

end FormFlow
