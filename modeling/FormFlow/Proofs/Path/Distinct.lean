import Mathlib.Data.List.Induction
import Mathlib.Data.List.Nodup
import Mathlib.Data.List.Sigma
import FormFlow.Proofs.Path.RoundTrip
import FormFlow.Proofs.Path.Shapes

/-!
# Distinct places

A pattern names no place twice and has no slot twice (`nodup_locations`, `nodup_slots`). Two
locations without full stops in their names are written alike only if they have the same names step
by step (`map_name_of_print_eq`), and then they are the same location unless the one goes on by a
member where the other goes on by an element (`eq_of_map_name_eq`).
-/

namespace FormFlow

theorem Token.nodup_branches (token : Token) (document : Document) :
    ((token.branches document).map Prod.fst).Nodup := by
  cases token with
  | key name =>
    rw [branches]
    cases (document.ownStep? name).bind fun step =>
      (document.child? step).map fun child => (step, child) <;> simp
  | each =>
    cases document with
    | array items =>
      have hindex : (items.zipIdx.map fun entry => Step.index entry.2).Nodup := by
        rw [← Function.comp_def Step.index Prod.snd, ← List.map_map]
        exact (List.nodup_zipIdx_map_snd items).map fun _ _ heq => Step.index.inj heq
      rwa [branches, List.map_map]
    | _ => simp [branches]
  | same => simp [branches]

namespace Pattern

theorem nodup_locations (pattern : Pattern) (document : Document) :
    (pattern.locations document).Nodup := by
  induction pattern generalizing document with
  | nil => simp [locations]
  | cons token pattern ih =>
    rw [locations_cons, List.nodup_flatMap]
    refine ⟨fun branch _ => (ih branch.2).map List.cons_injective, ?_⟩
    -- the places below two branches differ in the first step
    refine (List.pairwise_map.mp (token.nodup_branches document)).imp ?_
    intro branch other hne place hbranch hother
    obtain ⟨_, _, rfl⟩ := List.mem_map.mp hbranch
    obtain ⟨_, _, heq⟩ := List.mem_map.mp hother
    exact hne (List.cons.inj heq).1.symm

theorem nodup_slots (pattern : Pattern) (document : Document) :
    (pattern.slots document).Nodup := by
  simp only [slots]
  split
  · cases pattern.withoutEach.location? <;> simp
  · exact (nodup_locations _ document).map (List.append_left_injective _)

/-- Behind the same part, the one pattern goes on by a key and the other by `*`. -/
def Forks (pattern other : Pattern) : Prop :=
  ∃ part name, part ++ [.key name] <+: pattern ∧ part ++ [.each] <+: other

theorem Forks.of_part {pattern longer other further : Pattern} (h : pattern.Forks other)
    (hpattern : pattern <+: longer) (hother : other <+: further) : longer.Forks further := by
  obtain ⟨part, name, hkey, heach⟩ := h
  exact ⟨part, name, hkey.trans hpattern, heach.trans hother⟩

end Pattern

namespace Location

variable {place other : Location}

theorem map_name_of_print_eq (hplace : place ≠ []) (hother : other ≠ [])
    (hnames : ∀ step ∈ place, '.' ∉ step.name.toList)
    (hothers : ∀ step ∈ other, '.' ∉ step.name.toList) (h : place.print = other.print) :
    place.map Step.name = other.map Step.name := by
  refine List.map_injective_iff.mpr (fun _ _ => String.toList_injective) ?_
  rw [List.map_map, List.map_map]
  calc place.map (String.toList ∘ Step.name)
    _ = Text.cut place.print.toList := (cut_print hplace hnames).symm
    _ = Text.cut other.print.toList := by rw [h]
    _ = other.map (String.toList ∘ Step.name) := cut_print hother hothers

/-- Locations of the same names are the same, unless the one goes on by a member where the other
goes on by an element. -/
theorem eq_of_map_name_eq (h : place.map Step.name = other.map Step.name)
    (hforks : ¬ place.shape.Forks other.shape) (hforked : ¬ other.shape.Forks place.shape) :
    place = other := by
  induction place using List.reverseRecOn generalizing other with
  | nil => simpa using h.symm
  | append_singleton front step ih =>
    rcases List.eq_nil_or_concat' other with rfl | ⟨front', step', rfl⟩
    · simp at h
    · rw [List.map_append, List.map_append] at h
      obtain ⟨hfront, hstep⟩ := List.append_inj' h rfl
      have hpart : Location.shape front <+: Location.shape (front ++ [step]) :=
        (List.prefix_append _ _).map _
      have hpart' : Location.shape front' <+: Location.shape (front' ++ [step']) :=
        (List.prefix_append _ _).map _
      obtain rfl : front = front' := ih hfront (fun hfork => hforks (hfork.of_part hpart hpart'))
        fun hfork => hforked (hfork.of_part hpart' hpart)
      have hshape (step : Step) : Location.shape (front ++ [step]) =
          Location.shape front ++ [step.shape] := List.map_append
      simp only [hshape] at hforks hforked
      have hname : step.name = step'.name := (List.cons.inj hstep).1
      -- a name and an index of one text are told apart by the shapes, which fork there
      cases step with
      | field name =>
        cases step' with
        | field name' => exact congrArg (front ++ [.field ·]) hname
        | index position =>
          exact absurd ⟨_, name, List.prefix_refl _, List.prefix_refl _⟩ hforks
      | index position =>
        cases step' with
        | field name' =>
          exact absurd ⟨_, name', List.prefix_refl _, List.prefix_refl _⟩ hforked
        | index position' =>
          exact congrArg (front ++ [.index ·]) (Text.Natural.print_injective hname)

end Location

end FormFlow
