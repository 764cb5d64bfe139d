import FormFlow.Proofs.Path.Insertion
import FormFlow.Proofs.Path.Ways

/-!
# What writing a value leaves as it was

If a location enters the arrays of a document by indexes, no container on its way gives way to
another, and writing a value there leaves all values whose locations part from it
(`Splits.at?_insertAt`) and the members of every object that is not overwritten in their order
(`insertAt_undisturbed`).

An array may have grown by nulls and an object by a member at its end, so that a location that led
to nothing may lead to something afterwards.
-/

namespace FormFlow.Document

variable {document child found value : Document} {step other : Step}
  {place location rest : Location}

/-- Whether a location goes on by an index in each array that it passes through. -/
def EntersByIndex (document : Document) (location : Location) : Prop :=
  ∀ front step items, front ++ [step] <+: location → document.at? front = some (.array items) →
    step.isIndex = true

theorem entersByIndex_nil (document : Document) : document.EntersByIndex [] := by
  intro front step items hpart
  simp at hpart

theorem entersByIndex_cons_iff : document.EntersByIndex (step :: rest) ↔
    (∀ items, document = .array items → step.isIndex = true) ∧
      ∀ child, document.child? step = some child → child.EntersByIndex rest := by
  constructor
  · refine fun h => ⟨?_, fun child hchild front next items hpart harray => ?_⟩
    · rintro items rfl
      exact h [] step items (List.prefix_append [step] rest) rfl
    · refine h (step :: front) next items (List.cons_prefix_cons.mpr ⟨rfl, hpart⟩) ?_
      rw [at?_cons, hchild, Option.bind_some, harray]
  · rintro ⟨hindex, hbelow⟩ front next items hpart harray
    cases front with
    | nil =>
      obtain ⟨rfl, -⟩ := List.cons_prefix_cons.mp hpart
      exact hindex items (Option.some.inj ((at?_nil document).symm.trans harray))
    | cons first front =>
      obtain ⟨rfl, hrest⟩ := List.cons_prefix_cons.mp hpart
      rw [at?_cons] at harray
      obtain ⟨child, hchild, harray⟩ := Option.bind_eq_some_iff.mp harray
      exact hbelow child hchild front next items hrest harray

theorem EntersByIndex.opened_eq (h : document.EntersByIndex (step :: rest))
    (hchild : document.child? other = some child) : document.opened step = document := by
  cases document with
  | object members => rfl
  | array items =>
    have hindex := (entersByIndex_cons_iff.mp h).1 items rfl
    cases step with
    | field name => exact absurd hindex Bool.false_ne_true
    | index position => rfl
  | _ => simp [child?] at hchild

/-! ### One step -/

theorem EntersByIndex.child?_insertAt_of_alike (h : document.EntersByIndex (step :: rest))
    (hchild : document.child? step = some child) (halike : document.alike step other = true) :
    (document.insertAt (step :: rest) value).child? other = some (child.insertAt rest value) := by
  have hopened := h.opened_eq hchild
  rw [insertAt, child?_changeChild_of_alike (by rw [hopened, halike]), hopened, hchild,
    Option.getD_some]

theorem EntersByIndex.child?_insertAt_of_not_alike (h : document.EntersByIndex (step :: rest))
    (hchild : document.child? other = some child) (halike : document.alike step other = false) :
    (document.insertAt (step :: rest) value).child? other = some child := by
  have hopened := h.opened_eq hchild
  have hnot : ¬ (document.opened step).alike step other = true := by simp [hopened, halike]
  rw [insertAt]
  obtain hkept | ⟨hnone, -⟩ := child?_changeChild_of_not_alike hnot
  · rw [hkept, hopened, hchild]
  · rw [hopened, hchild] at hnone
    exact absurd hnone (Option.some_ne_none child)

theorem insertAt_object_keys (members : Members Document) (step : Step) (rest : Location)
    (value : Document) :
    ∃ written, (Document.object members).insertAt (step :: rest) value = .object written ∧
      Members.keys members <+: Members.keys written :=
  ⟨_, rfl, Members.keys_part_put _ _ members⟩

/-! ### A whole location -/

theorem Splits.at?_insertAt (h : document.Splits location place)
    (hindex : document.EntersByIndex location) (hfound : document.at? place = some found) :
    (document.insertAt location value).at? place = some found := by
  induction location generalizing document place with
  | nil => cases h
  | cons step rest ih =>
    cases place with
    | nil => cases h
    | cons other below =>
      rw [at?_cons] at hfound ⊢
      obtain ⟨child, hother, hbelow⟩ := Option.bind_eq_some_iff.mp hfound
      obtain halike | ⟨halike, next, hchild, hsplits⟩ := h.cons_cases
      · rw [hindex.child?_insertAt_of_not_alike hother halike, Option.bind_some, hbelow]
      · obtain rfl : next = child :=
          Option.some.inj (hchild.symm.trans ((child?_of_alike halike).trans hother))
        rw [hindex.child?_insertAt_of_alike hchild halike, Option.bind_some]
        exact ih hsplits ((entersByIndex_cons_iff.mp hindex).2 next hchild) hbelow

theorem at?_insertAt_of_onward? (hindex : document.EntersByIndex location)
    (h : document.onward? place location = some rest) :
    (document.insertAt location value).at? place =
      (document.at? place).map fun found => found.insertAt rest value := by
  induction place generalizing document location with
  | nil =>
    obtain rfl : location = rest := Option.some.inj h
    simp
  | cons first front ih =>
    obtain ⟨other, below, rfl, halike, child, hchild, hback⟩ := onward?_cons_iff.mp h
    have hother : document.child? other = some child := child?_of_alike halike ▸ hchild
    rw [alike_comm] at halike
    rw [at?_cons, at?_cons, hindex.child?_insertAt_of_alike hother halike, hchild, Option.bind_some,
      Option.bind_some, ih ((entersByIndex_cons_iff.mp hindex).2 child hother) hback]

theorem keys_part_insertAt {members : Members Document} (hindex : document.EntersByIndex location)
    (hkept : document.onward? location place = none)
    (hobject : document.at? place = some (.object members)) :
    ∃ written, (document.insertAt location value).at? place = some (.object written) ∧
      Members.keys members <+: Members.keys written := by
  obtain ⟨step, rest, hback⟩ | ⟨-, hsplits⟩ := passes_or_splits hobject hkept
  · obtain ⟨written, hwritten, hkeys⟩ := insertAt_object_keys members step rest value
    refine ⟨written, ?_, hkeys⟩
    rw [at?_insertAt_of_onward? hindex hback, hobject, Option.map_some, hwritten]
  · exact ⟨members, hsplits.at?_insertAt hindex hobject, List.prefix_refl _⟩

/-- What is written at a location is read there. If the location enters arrays by indexes, every
value stays that is found behind a location that parts from it, and so does the order of the members
of every object that is not overwritten. -/
theorem insertAt_undisturbed (document : Document) (location : Location) (value : Document) :
    (document.insertAt location value).at? location = some value ∧
      (document.EntersByIndex location →
        (∀ other found, document.Splits location other → document.at? other = some found →
          (document.insertAt location value).at? other = some found) ∧
        ∀ here members, document.onward? location here = none →
          document.at? here = some (.object members) →
          ∃ written, (document.insertAt location value).at? here = some (.object written) ∧
            Members.keys members <+: Members.keys written) := by
  refine ⟨at?_insertAt document location value, fun hindex => ⟨?_, ?_⟩⟩
  · intro other found hsplits hfound
    exact hsplits.at?_insertAt hindex hfound
  · intro here members hkept hobject
    exact keys_part_insertAt hindex hkept hobject

/-! A truth value gives way to an array, and the array grows. -/

def tray : Document := .object [("tray", .array [
  .object [("b", .null), ("a", .bool true)], .text "x"]), ("1", .text "y")]

def secondOfA : Location := [.field "tray", .index 0, .field "a", .index 1]

theorem insertAt_undisturbed_tray :
    tray.EntersByIndex secondOfA ∧
    tray.insertAt secondOfA (.text "v") = .object [("tray", .array [
      .object [("b", .null), ("a", .array [.null, .text "v"])], .text "x"]), ("1", .text "y")] ∧
    (tray.insertAt secondOfA (.text "v")).at? secondOfA = some (.text "v") ∧
    tray.Splits secondOfA [.field "tray", .field "01"] ∧
    (tray.insertAt secondOfA (.text "v")).at? [.field "tray", .field "01"] = some (.text "x") := by
  have hindex : tray.EntersByIndex secondOfA := by
    refine entersByIndex_cons_iff.mpr ⟨by simp [tray], fun row hrow => ?_⟩
    obtain rfl := Option.some.inj hrow
    refine entersByIndex_cons_iff.mpr ⟨fun _ _ => rfl, fun first hfirst => ?_⟩
    obtain rfl := Option.some.inj hfirst
    refine entersByIndex_cons_iff.mpr ⟨by simp, fun flag hflag => ?_⟩
    obtain rfl := Option.some.inj hflag
    exact entersByIndex_cons_iff.mpr ⟨by simp, fun _ _ => entersByIndex_nil _⟩
  have hsplits : tray.Splits secondOfA [.field "tray", .field "01"] :=
    .deeper rfl rfl (.element _ _ (by decide))
  obtain ⟨hread, hkept⟩ := insertAt_undisturbed tray secondOfA (.text "v")
  exact ⟨hindex, rfl, hread, hsplits, (hkept hindex).1 _ _ hsplits rfl⟩

end FormFlow.Document
