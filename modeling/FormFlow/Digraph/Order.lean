import FormFlow.Digraph.Basic

/-!
# Orders of a directed graph

`Digraph.order` lists the vertices so that every edge leads from an earlier to a later one. It
walks the graph depth first from each vertex and puts a vertex in front once all it leads to is
listed. If there is no such order, it answers with a vertex that lies on a cycle.
-/

namespace FormFlow.Digraph

variable {α : Type} [DecidableEq α]

/-- Walks on from the vertices of a stack. A vertex on top for the first time has its unseen
successors put above it; on top again it is finished and goes in front of those finished before.
An edge from a vertex to itself ends the walk. -/
def walk (graph : Digraph α) (unseen finished : List α) :
    List α → Except α (List α × List α)
  | [] => .ok (unseen, finished)
  | top :: stack =>
    if top ∈ unseen then
      let successors := graph.successors top
      if top ∈ successors then .error top
      else
        let rest := unseen.erase top
        walk graph rest finished ((successors.filter (· ∈ rest)).reverse ++ top :: stack)
    else walk graph unseen (if top ∈ finished then finished else top :: finished) stack
termination_by stack => (unseen.length, stack.length)
decreasing_by
  · rename_i h _
    refine Prod.Lex.left _ _ ?_
    rw [List.length_erase_of_mem h]
    exact Nat.sub_one_lt (Nat.ne_of_gt (List.length_pos_of_mem h))
  · exact Prod.Lex.right _ (Nat.lt_succ_self _)

/-- Walks from each vertex that no earlier walk has seen. -/
def walkAll (graph : Digraph α) (unseen finished : List α) : List α → Except α (List α)
  | [] => .ok finished
  | vertex :: rest =>
    if vertex ∈ unseen then
      match walk graph unseen finished [vertex] with
      | .ok (unseen, finished) => walkAll graph unseen finished rest
      | .error vertex => .error vertex
    else walkAll graph unseen finished rest

/-- The source of the first edge that leads back to a vertex of a list, from behind it. -/
def backSource? (graph : Digraph α) (passed : List α) : List α → Option α
  | [] => none
  | vertex :: rest =>
    match graph.edges.find? fun edge => edge.2 = vertex ∧ edge.1 ∉ vertex :: passed with
    | some edge => some edge.1
    | none => backSource? graph (vertex :: passed) rest

/-- The vertices with every edge leading from an earlier to a later one, or a vertex on a cycle. -/
def order (graph : Digraph α) : Except α (List α) :=
  match graph.walkAll graph.vertices [] graph.vertices with
  | .error vertex => .error vertex
  | .ok finished =>
    match graph.backSource? [] finished with
    | some vertex => .error vertex
    | none => .ok finished

end FormFlow.Digraph
