import FormFlow.Flow.Basic
import FormFlow.Path.Access

/-!
# Pruning

A value is live if the preconditions of its node and of every node above it hold. Pruning removes
every value that is not, in the order of the plan, so that each check sees what the checks before
it have left.
-/

namespace FormFlow

namespace Plan

/-- The nodes that hold the given locations, each with the first location of an unbroken run that
it holds; `last` is the node before. Locations without a node do not break a run. -/
def checkpoints (plan : Plan) (last : Option Nat) : List Location → List (Node × Location)
  | [] => []
  | location :: rest =>
    match plan.positionAt? location with
    | none => plan.checkpoints last rest
    | some position =>
      if last = some position then plan.checkpoints last rest
      else
        ((plan.node? position).map (·, location)).toList ++ plan.checkpoints (some position) rest

end Plan

namespace Location

/-- The location and all above it but the root, the longest first. -/
def upward (location : Location) : List Location :=
  (List.range location.length).reverse.map fun length => location.take (length + 1)

theorem mem_upward {part location : Location} :
    part ∈ location.upward ↔ part <+: location ∧ part ≠ [] := by
  simp only [upward, List.mem_map, List.mem_reverse, List.mem_range]
  constructor
  · rintro ⟨length, h, rfl⟩
    exact ⟨List.take_prefix _ _, by cases location <;> simp_all⟩
  · rintro ⟨⟨rest, rfl⟩, h⟩
    have hpos := List.length_pos_iff.mpr h
    exact ⟨part.length - 1, by simp; omega, by rw [Nat.sub_add_cancel hpos]; simp⟩

end Location

namespace Flow

/-- Whether the preconditions of every node on the way to a location hold, each for the longest
part of the location that the node holds. -/
def isLive (flow : Flow) (document : Document) (location : Location) : Bool :=
  (flow.plan.checkpoints none location.upward).all fun (node, here) =>
    node.preconditions.all fun precondition =>
      precondition.holds (flow.scope document (some here))

/-- Removes the value at a location whose preconditions are not met. -/
def pruneLocation (flow : Flow) (document : Document) (location : Location) : Document :=
  if flow.isLive document location then document else document.without location

/-- Removes what is not live among the places of a pattern, one after another. -/
def prunePattern (flow : Flow) (document : Document) (pattern : Pattern) : Document :=
  (pattern.locations document).foldl flow.pruneLocation document

/-- The document without what is not live. -/
def prune (flow : Flow) (document : Document) : Document :=
  flow.plan.guardOrder.foldl flow.prunePattern document

end Flow

end FormFlow
