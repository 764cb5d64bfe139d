import FormFlow.Flow.Pruning

/-!
# Checkpoints

The preconditions that a location has to meet are those of the nodes that hold it or what lies above
it, and each node is met at the longest part that it holds. So a location meets those of every
location above it, though a node that holds several parts may be met further down
(`exists_checkpoint_below`).
-/

namespace FormFlow

namespace Plan

variable {plan : Plan} {last : Option Nat} {locations front back : List Location}
  {checkpoint : Node × Location} {position : Nat} {node : Node}

theorem checkpoints_cons (plan : Plan) (last : Option Nat) (location : Location)
    (rest : List Location) : plan.checkpoints last (location :: rest) =
      match plan.positionAt? location with
      | none => plan.checkpoints last rest
      | some position =>
        if last = some position then plan.checkpoints last rest
        else
          ((plan.node? position).map (·, location)).toList ++
            plan.checkpoints (some position) rest := rfl

theorem mem_checkpoints (h : checkpoint ∈ plan.checkpoints last locations) :
    checkpoint.2 ∈ locations ∧ ∃ position, plan.positionAt? checkpoint.2 = some position ∧
      plan.node? position = some checkpoint.1 := by
  induction locations generalizing last with
  | nil => simp [checkpoints] at h
  | cons location rest ih =>
    have hrest : ∀ last, checkpoint ∈ plan.checkpoints last rest →
        checkpoint.2 ∈ location :: rest ∧ ∃ position,
          plan.positionAt? checkpoint.2 = some position ∧
            plan.node? position = some checkpoint.1 := fun last hmem =>
      ⟨List.mem_cons_of_mem _ (ih hmem).1, (ih hmem).2⟩
    rw [checkpoints_cons] at h
    cases hposition : plan.positionAt? location with
    | none => exact hrest last (by simpa [hposition] using h)
    | some position =>
      simp only [hposition] at h
      by_cases hsame : last = some position
      · rw [if_pos hsame] at h
        exact hrest last h
      · rw [if_neg hsame, List.mem_append] at h
        rcases h with h | h
        · simp only [Option.mem_toList, Option.map_eq_some_iff] at h
          obtain ⟨node, hnode, rfl⟩ := h
          exact ⟨List.mem_cons_self, position, hposition, hnode⟩
        · exact hrest _ h

/-- The node of the last of the locations that has one. -/
def lastPosition (plan : Plan) (last : Option Nat) : List Location → Option Nat
  | [] => last
  | location :: rest => plan.lastPosition ((plan.positionAt? location).or last) rest

theorem checkpoints_append (plan : Plan) (last : Option Nat) (front back : List Location) :
    plan.checkpoints last (front ++ back) =
      plan.checkpoints last front ++ plan.checkpoints (plan.lastPosition last front) back := by
  induction front generalizing last with
  | nil => rfl
  | cons location rest ih =>
    rw [List.cons_append, checkpoints_cons, checkpoints_cons, lastPosition]
    cases plan.positionAt? location with
    | none => simpa using ih last
    | some position =>
      by_cases hsame : last = some position
      · simpa [hsame] using ih (some position)
      · simp [hsame, ih (some position)]

/-- The node that was held last has a checkpoint, unless it was held before already. -/
theorem exists_checkpoint_of_lastPosition (hlast : plan.lastPosition last locations = some position)
    (hnode : plan.node? position = some node) :
    last = some position ∨ ∃ here, (node, here) ∈ plan.checkpoints last locations := by
  induction locations generalizing last with
  | nil => exact Or.inl hlast
  | cons location rest ih =>
    rw [lastPosition] at hlast
    rw [checkpoints_cons]
    cases hposition : plan.positionAt? location with
    | none => exact ih (by simpa [hposition] using hlast)
    | some found =>
      rw [hposition, Option.some_or] at hlast
      by_cases hsame : last = some found
      · simp only [hsame, if_true]
        exact ih hlast
      · right
        simp only [if_neg hsame]
        rcases ih hlast with heq | ⟨here, hhere⟩
        · obtain rfl := Option.some.inj heq
          exact ⟨location, by simp [hnode]⟩
        · exact ⟨here, List.mem_append_right _ hhere⟩

/-- Whatever node was held before, a checkpoint is left out only if its node was. -/
theorem mem_checkpoints_of_none (h : checkpoint ∈ plan.checkpoints none locations)
    (last : Option Nat) : checkpoint ∈ plan.checkpoints last locations ∨
      ∃ position, last = some position ∧ plan.node? position = some checkpoint.1 := by
  induction locations with
  | nil => simp [checkpoints] at h
  | cons location rest ih =>
    rw [checkpoints_cons] at h ⊢
    cases hposition : plan.positionAt? location with
    | none => exact ih (by simpa [hposition] using h)
    | some position =>
      simp only [hposition, reduceCtorEq, if_false] at h ⊢
      by_cases hsame : last = some position
      · rw [if_pos hsame, hsame]
        rcases List.mem_append.mp h with h | h
        · simp only [Option.mem_toList, Option.map_eq_some_iff] at h
          obtain ⟨node, hnode, rfl⟩ := h
          exact Or.inr ⟨position, rfl, hnode⟩
        · exact Or.inl h
      · rw [if_neg hsame]
        exact Or.inl h

end Plan

theorem Location.upward_append (location below : Location) :
    ∃ longer : List Location, (location ++ below).upward = longer ++ location.upward ∧
      ∀ part ∈ longer, location <+: part := by
  refine ⟨(List.range below.length).reverse.map fun length => location ++ below.take (length + 1),
    ?_, ?_⟩
  · simp only [upward, List.length_append, List.range_add, List.reverse_append, List.map_append,
      ← List.map_reverse, List.map_map]
    congr 1
    · apply List.map_congr_left
      intro length _
      rw [Function.comp_apply, List.take_append, List.take_of_length_le (by omega)]
      congr 2
      omega
    · apply List.map_congr_left
      intro length hlength
      rw [List.mem_reverse, List.mem_range] at hlength
      exact List.take_append_of_le_length hlength
  · intro part hpart
    obtain ⟨_, _, rfl⟩ := List.mem_map.mp hpart
    exact List.prefix_append _ _

theorem Location.upward_concat (location : Location) (step : Step) :
    Location.upward (location ++ [step]) = (location ++ [step]) :: location.upward := by
  simp only [upward, List.length_append, List.length_singleton, List.range_succ,
    List.reverse_concat, List.map_cons]
  congr 1
  · exact List.take_of_length_le (by simp)
  · apply List.map_congr_left
    intro length hlength
    rw [List.mem_reverse, List.mem_range] at hlength
    exact List.take_append_of_le_length hlength

theorem Plan.exists_checkpoint_below {plan : Plan} {location place : Location}
    {checkpoint : Node × Location} (hbelow : place <+: location)
    (h : checkpoint ∈ plan.checkpoints none place.upward) :
    ∃ here, (checkpoint.1, here) ∈ plan.checkpoints none location.upward ∧
      checkpoint.2 <+: here := by
  obtain ⟨below, rfl⟩ := hbelow
  obtain ⟨longer, hupward, hlonger⟩ := Location.upward_append place below
  rw [hupward, checkpoints_append]
  have habove := (Location.mem_upward.mp (mem_checkpoints h).1).1
  rcases mem_checkpoints_of_none h (plan.lastPosition none longer) with hmem |
    ⟨position, hlast, hnode⟩
  · exact ⟨checkpoint.2, List.mem_append_right _ hmem, List.prefix_refl _⟩
  · rcases exists_checkpoint_of_lastPosition hlast hnode with hnone | ⟨here, hhere⟩
    · simp at hnone
    · exact ⟨here, List.mem_append_left _ hhere,
        habove.trans (hlonger here (mem_checkpoints hhere).1)⟩

end FormFlow
