import FormFlow.Proofs.Digraph.Contents
import FormFlow.Proofs.Digraph.Order
import FormFlow.Proofs.Plan.Basic

/-!
# The order of the guards

Every node with preconditions has its path in the order in which preconditions are checked
(`mem_guardOrder`). The graph that is ordered consists of these paths and of what they depend on
(`consists_dependencyGraph`).
-/

namespace FormFlow.Plan

variable {guarded : List Pattern} {graph : Digraph Pattern} {node : Node}
  {places : Pattern → Prop} {dependent : Pattern → Pattern → Prop}

theorem consists_withNode (h : graph.Consists places dependent) :
    (withNode guarded graph node).Consists
      (fun place => places place ∨ place = node.path ∨ place ∈ dependencies guarded node)
      (fun source target =>
        dependent source target ∨ source ∈ dependencies guarded node ∧ target = node.path) :=
  ((h.withVertex node.path).withNewEdges (Or.inr rfl) _).congr (fun _ => or_assoc)
    fun _ _ => Iff.rfl

theorem consists_foldl_withNode (h : graph.Consists places dependent) (nodes : List Node) :
    (nodes.foldl (withNode guarded) graph).Consists
      (fun place => places place ∨
        ∃ node ∈ nodes, place = node.path ∨ place ∈ dependencies guarded node)
      (fun source target => dependent source target ∨
        ∃ node ∈ nodes, source ∈ dependencies guarded node ∧ target = node.path) := by
  induction nodes generalizing graph places dependent with
  | nil => exact h.congr (by simp) (by simp)
  | cons node rest ih =>
    refine (ih (consists_withNode h)).congr (fun place => ?_) (fun source target => ?_)
    · simp only [List.mem_cons, exists_eq_or_imp, or_assoc]
    · simp only [List.mem_cons, exists_eq_or_imp, or_assoc]

theorem consists_dependencyGraph (nodes : List Node) : (dependencyGraph nodes).Consists
    (fun place => ∃ node ∈ nodes.filter Node.isGuarded,
      place = node.path ∨ place ∈ dependencies (guardedPaths nodes) node)
    (fun source target => ∃ node ∈ nodes.filter Node.isGuarded,
      source ∈ dependencies (guardedPaths nodes) node ∧ target = node.path) :=
  (consists_foldl_withNode Digraph.Consists.empty _).congr (by simp) (by simp)

theorem isOrder_of_orderGuards {nodes : List Node} {order : List Pattern}
    (h : orderGuards nodes = .ok order) : (dependencyGraph nodes).IsOrder order := by
  unfold orderGuards at h
  split at h
  · next found hfound =>
    obtain rfl := Except.ok.inj h
    exact Digraph.isOrder_of_order (consists_dependencyGraph nodes).nodup hfound
  · simp at h

theorem mem_guardOrder {form : Form} {plan : Plan} (h : Makes form plan)
    (hmem : node ∈ plan.nodes) (hguarded : node.isGuarded = true) :
    node.path ∈ plan.guardOrder := by
  rw [(isOrder_of_orderGuards h.guardOrder).mem_iff,
    (consists_dependencyGraph plan.nodes).mem_vertices]
  exact ⟨node, List.mem_filter.mpr ⟨hmem, hguarded⟩, Or.inl rfl⟩

end FormFlow.Plan
