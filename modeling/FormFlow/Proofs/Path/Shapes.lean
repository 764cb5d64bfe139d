import Mathlib.Data.List.TakeWhile
import FormFlow.Proofs.Path.Places

/-!
# The shapes of locations

The shape of a location has `*` for every index. The places that a pattern names have the pattern as
their shape, and its slots have it less one `*` at the end, if none of its names can be taken for an
index (`shape_of_names`, `shape_of_mem_slots`).
-/

namespace FormFlow

/-- The token of a node for a step: `*` for every index. -/
def Step.shape : Step → Token
  | .field name => .key name
  | .index _ => .each

def Location.shape (location : Location) : Pattern := location.map Step.shape

theorem Location.exists_concat_of_shape {place : Location} {pattern : Pattern} {token : Token}
    (h : place.shape = pattern ++ [token]) :
    ∃ (front : Location) (step : Step),
      place = front ++ [step] ∧ front.shape = pattern ∧ step.shape = token := by
  obtain ⟨front, back, rfl, hfront, hback⟩ := List.map_eq_append_iff.mp h
  obtain ⟨step, rfl, hstep⟩ := List.map_eq_singleton_iff.mp hback
  exact ⟨front, step, rfl, hfront, hstep⟩

@[simp] theorem Location.length_shape (place : Location) : place.shape.length = place.length :=
  List.length_map _

/-- `*`, or a name that is not read as an index. -/
def Token.IsPlain : Token → Prop
  | .key name => Text.readIndex name.toList = none
  | .each => True
  | .same => False

namespace Pattern

theorem ofLocation_eq (location : Location) :
    ofLocation location = location.shape.withoutEach := rfl

theorem withoutEach_part (pattern : Pattern) : pattern.withoutEach <+: pattern := by
  unfold withoutEach
  split
  · exact List.dropLast_prefix pattern
  · exact List.prefix_refl pattern

@[simp] theorem withoutEach_withEach (pattern : Pattern) :
    pattern.withEach.withoutEach = pattern := by
  simp [withoutEach, withEach, endsWithEach]

@[simp] theorem withoutEach_concat_key (pattern : Pattern) (name : String) :
    withoutEach (pattern ++ [.key name]) = pattern ++ [.key name] := by
  simp [withoutEach, endsWithEach]

theorem eq_withoutEach_or (pattern : Pattern) :
    pattern = pattern.withoutEach ∨ pattern = pattern.withoutEach.withEach := by
  by_cases heach : pattern.endsWithEach = true
  · obtain ⟨front, rfl⟩ := List.getLast?_eq_some_iff.mp (of_decide_eq_true heach)
    exact Or.inr (congrArg withEach (withoutEach_withEach front)).symm
  · exact Or.inl (if_neg heach).symm

/-! ### Plain patterns -/

/-- A pattern of `*` and of names that are not read as indexes. -/
def IsPlain (pattern : Pattern) : Prop := ∀ token ∈ pattern, token.IsPlain

theorem IsPlain.concat {pattern : Pattern} {token : Token} (h : pattern.IsPlain)
    (htoken : token.IsPlain) : IsPlain (pattern ++ [token]) := by
  intro other hmem
  rcases List.mem_append.mp hmem with hmem | hmem
  · exact h other hmem
  · exact List.mem_singleton.mp hmem ▸ htoken

theorem IsPlain.tail {token : Token} {pattern : Pattern} (h : IsPlain (token :: pattern)) :
    pattern.IsPlain :=
  fun other hmem => h other (List.mem_cons_of_mem _ hmem)

theorem IsPlain.withoutEach {pattern : Pattern} (h : pattern.IsPlain) :
    pattern.withoutEach.IsPlain :=
  fun token hmem => h token (pattern.withoutEach_part.subset hmem)

theorem shape_of_denotes {token : Token} {step : Step} (hplain : token.IsPlain)
    (hdenotes : token.Denotes step) : step.shape = token := by
  match token, step, hdenotes with
  | .key _, .field _, rfl => rfl
  | .each, .index _, _ => rfl
  | .key name, .index position, hposition =>
    -- only a name that is read as an index leads into an array
    have hnone : Text.readIndex name.toList = none := hplain
    have hsome : Text.readIndex name.toList = some position := hposition
    simp [hnone] at hsome

theorem shape_of_names {pattern : Pattern} {place : Location} (hplain : pattern.IsPlain)
    (hnames : pattern.Names place) : place.shape = pattern := by
  induction pattern generalizing place with
  | nil =>
    cases place with
    | nil => rfl
    | cons step rest => exact hnames.elim
  | cons token pattern ih =>
    cases place with
    | nil => exact hnames.elim
    | cons step rest =>
      have hstep := shape_of_denotes (hplain token List.mem_cons_self) hnames.1
      have hrest := ih hplain.tail hnames.2
      exact congrArg₂ List.cons hstep hrest

theorem shape_keySteps {pattern : Pattern} (hplain : pattern.IsPlain)
    (hkeys : ∀ token ∈ pattern, token ≠ .each) : Location.shape (keySteps pattern) = pattern := by
  induction pattern with
  | nil => rfl
  | cons token pattern ih =>
    have hrest := ih hplain.tail fun other hmem => hkeys other (List.mem_cons_of_mem _ hmem)
    cases token with
    | key name => exact congrArg (Token.key name :: ·) hrest
    | each => exact absurd rfl (hkeys _ List.mem_cons_self)
    | same => exact (hplain _ List.mem_cons_self).elim

theorem append_cutAtLastEach (pattern : Pattern) :
    pattern.cutAtLastEach.1 ++ pattern.cutAtLastEach.2 = pattern := by
  rw [cutAtLastEach, ← List.reverse_append, List.takeWhile_append_dropWhile, List.reverse_reverse]

theorem ne_each_of_mem_cutAtLastEach {pattern : Pattern} {token : Token}
    (h : token ∈ pattern.cutAtLastEach.2) : token ≠ .each := by
  rw [cutAtLastEach, List.mem_reverse] at h
  simpa using List.mem_takeWhile_imp h

/-- The slots of a plain pattern have its shape, less one `*` at the end. -/
theorem shape_of_mem_slots {pattern : Pattern} {document : Document} {place : Location}
    (hplain : pattern.IsPlain) (h : place ∈ pattern.slots document) :
    place.shape = pattern.withoutEach := by
  have hcut := append_cutAtLastEach pattern.withoutEach
  simp only [slots] at h
  split at h
  · exact shape_of_names hplain.withoutEach (names_of_location? (Option.mem_toList.mp h)).1
  · next front back _ hparts =>
    have hkeys : ∀ token ∈ back, token ≠ .each := by
      intro token hmem
      have hback : token ∈ pattern.withoutEach.cutAtLastEach.2 := by rwa [hparts]
      exact ne_each_of_mem_cutAtLastEach hback
    rw [hparts] at hcut
    obtain ⟨here, hhere, rfl⟩ := List.mem_map.mp h
    have hpart : ∀ token ∈ front ++ back, token.IsPlain := hcut ▸ hplain.withoutEach
    have hfront : Location.shape here = front :=
      shape_of_names (fun token hmem => hpart token (List.mem_append_left _ hmem))
        (mem_locations_iff.mp hhere).1
    have hback : Location.shape (keySteps back) = back :=
      shape_keySteps (fun token hmem => hpart token (List.mem_append_right _ hmem)) hkeys
    rw [← hcut, Location.shape, List.map_append]
    exact congrArg₂ List.append hfront hback

theorem exists_mem_locations {pattern : Pattern} (hplain : pattern.IsPlain) :
    ∃ document place, place ∈ pattern.locations document := by
  induction pattern with
  | nil => exact ⟨.null, [], List.mem_singleton.mpr rfl⟩
  | cons token pattern ih =>
    obtain ⟨child, rest, hrest⟩ := ih hplain.tail
    cases token with
    | key name =>
      refine ⟨.object [(name, child)], .field name :: rest, mem_locations_cons.mpr
        ⟨.field name, rest, rfl, rfl, trivial, child, ?_, hrest⟩⟩
      simp [Document.child?, Step.name, Members.get?]
    | each =>
      exact ⟨.array [child], .index 0 :: rest, mem_locations_cons.mpr
        ⟨.index 0, rest, rfl, trivial, trivial, child, rfl, hrest⟩⟩
    | same => exact (hplain _ List.mem_cons_self).elim

end Pattern

end FormFlow
