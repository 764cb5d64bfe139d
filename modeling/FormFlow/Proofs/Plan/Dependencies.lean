import FormFlow.Proofs.Digraph.Cycle
import FormFlow.Proofs.Plan.Guards
import FormFlow.Proofs.Plan.Sections

/-!
# What preconditions depend on

`Plan.Precedes` says what has to be checked before a guarded path: what the preconditions of its
node read, and the guarded paths above that. `Plan.orderGuards` fails exactly if this relation has
a cycle, and it names a path or reference on one. Otherwise it lists every guarded path and every
reference once, each after all that precedes it (`IsCheckOrder`).
-/

namespace FormFlow.Plan

open Relation

/-- The preconditions of a node read a reference, `^` taken as `*`, other than its own path. -/
def Reads (node : Node) (reference : Pattern) : Prop :=
  reference ≠ node.path ∧ ∃ precondition ∈ node.preconditions, ∃ pattern ∈ precondition.references,
    pattern.absolute = reference

/-- A guarded path stands above a reference: it is a shorter part of it, or that part with `*`
behind it, where the part alone is no guarded path. The empty part counts neither alone nor with
`*`; no node of a form has such a path (`standsAbove_iff`). -/
def StandsAbove (nodes : List Node) (above reference : Pattern) : Prop :=
  above ∈ guardedPaths nodes ∧ ∃ part : Pattern, part <+: reference ∧ part ≠ reference ∧ part ≠ [] ∧
    (above = part ∨ above = part.withEach ∧ part ∉ guardedPaths nodes)

/-- One place is checked before the guarded path of a node: a reference of the node, or a guarded
path above one that the path does not lie below. -/
def Precedes (nodes : List Node) (source target : Pattern) : Prop :=
  ∃ node ∈ nodes, node.path = target ∧ ∃ reference, Reads node reference ∧
    (source = reference ∨ StandsAbove nodes source reference ∧ ¬ source <+: target)

/-- A place precedes itself by one step or more. -/
def OnCycle (nodes : List Node) (place : Pattern) : Prop := TransGen (Precedes nodes) place place

variable {nodes : List Node} {node : Node}

/-! ### The dependencies of a node -/

theorem Reads.isGuarded {reference : Pattern} (h : Reads node reference) :
    node.isGuarded = true := by
  obtain ⟨_, precondition, hmem, _⟩ := h
  simpa [Node.isGuarded] using List.ne_nil_of_mem hmem

theorem mem_guardedPaths {path : Pattern} :
    path ∈ guardedPaths nodes ↔ ∃ node ∈ nodes, node.isGuarded = true ∧ node.path = path := by
  simp [guardedPaths, and_assoc]

/-- Over the nodes of a form the empty part need not be left out: no path is empty or `*` alone. -/
theorem standsAbove_iff {sections : List Form.Node} (h : nodesOf sections = .ok nodes)
    {above reference : Pattern} : StandsAbove nodes above reference ↔
      above ∈ guardedPaths nodes ∧ ∃ part : Pattern, part <+: reference ∧ part ≠ reference ∧
        (above = part ∨ above = part.withEach ∧ part ∉ guardedPaths nodes) := by
  constructor
  · rintro ⟨hguarded, part, hpart, hne, -, hform⟩
    exact ⟨hguarded, part, hpart, hne, hform⟩
  · rintro ⟨hguarded, part, hpart, hne, hform⟩
    refine ⟨hguarded, part, hpart, hne, ?_, hform⟩
    rintro rfl
    obtain ⟨node, hmem, -, rfl⟩ := mem_guardedPaths.mp hguarded
    obtain ⟨name, rest, hpath⟩ := isRooted_of_nodesOf h hmem
    rw [hpath] at hform
    simp [Pattern.withEach] at hform

end FormFlow.Plan
