import FormFlow.Proofs.Digraph.Order

/-!
# Searching back along the edges

`Digraph.order` looks for an edge that leads back by one `find?` for each vertex. It answers as a
search would that goes back from each vertex in turn, depth first along the edges, remembers the
vertices it has seen, and stops when it comes to a second vertex (`order_eq`).

Such a search never gets far. All vertices before its start are seen, so the second vertex is the
unseen predecessor on top of the stack, which is the one with the edge that was added first.
-/

namespace FormFlow.Digraph

variable {α : Type} [DecidableEq α] {graph : Digraph α}

/-- Where the edges into a vertex come from, the last added first. -/
def predecessors (graph : Digraph α) (vertex : α) : List α :=
  (graph.edges.reverse.filter fun edge => edge.2 = vertex).map Prod.fst

/-- The unseen predecessors of a vertex as they are pushed, one after another, on a stack. -/
def pushedBack (graph : Digraph α) (seen : List α) (vertex : α) : List α :=
  ((graph.predecessors vertex).filter (· ∉ seen)).reverse

/-- Takes the next unseen vertex from a stack and pushes its unseen predecessors. -/
def nextBack? (graph : Digraph α) (seen : List α) : List α → Option (α × List α × List α)
  | [] => none
  | top :: stack =>
    if top ∈ seen then nextBack? graph seen stack
    else
      let seen := top :: seen
      some (top, seen, graph.pushedBack seen top ++ stack)

/-- The second vertex of the first search that comes to one, starting from each vertex of a list. -/
def searchBack? (graph : Digraph α) (seen : List α) : List α → Option α
  | [] => none
  | vertex :: rest =>
    match graph.nextBack? seen [vertex] with
    | none => searchBack? graph seen rest
    | some (_, seen, stack) =>
      match graph.nextBack? seen stack with
      | some (second, _, _) => some second
      | none => searchBack? graph seen rest

theorem head?_pushedBack (graph : Digraph α) (seen : List α) (vertex : α) :
    (graph.pushedBack seen vertex).head? =
      (graph.edges.find? fun edge => edge.2 = vertex ∧ edge.1 ∉ seen).map Prod.fst := by
  rw [pushedBack, predecessors, List.filter_map, ← List.map_reverse, List.filter_filter,
    ← List.filter_reverse, List.reverse_reverse, List.head?_map, List.head?_filter]
  congr 2
  funext edge
  simp [Bool.and_comm]

theorem not_seen_of_mem_pushedBack {seen : List α} {vertex other : α}
    (h : other ∈ graph.pushedBack seen vertex) : other ∉ seen := by
  rw [pushedBack, List.mem_reverse, List.mem_filter, decide_eq_true_eq] at h
  exact h.2

theorem map_fst_nextBack? {seen stack : List α} (h : ∀ vertex ∈ stack, vertex ∉ seen) :
    (graph.nextBack? seen stack).map Prod.fst = stack.head? := by
  cases stack with
  | nil => rfl
  | cons top stack => simp [nextBack?, h top List.mem_cons_self]

theorem searchBack?_eq_backSource? {seen rest : List α} (h : (seen ++ rest).Nodup) :
    graph.searchBack? seen rest = graph.backSource? seen rest := by
  induction rest generalizing seen with
  | nil => rfl
  | cons vertex rest ih =>
    have hnodup : (vertex :: seen ++ rest).Nodup := List.perm_middle.nodup_iff.mp h
    have hunseen : vertex ∉ seen := fun hmem =>
      (List.nodup_cons.mp hnodup).1 (List.mem_append_left _ hmem)
    have hstart : graph.nextBack? seen [vertex] =
        some (vertex, vertex :: seen, graph.pushedBack (vertex :: seen) vertex) := by
      simp [nextBack?, hunseen]
    have hsecond : (graph.nextBack? (vertex :: seen) (graph.pushedBack (vertex :: seen) vertex)).map
        Prod.fst = (graph.edges.find? fun edge =>
          edge.2 = vertex ∧ edge.1 ∉ vertex :: seen).map Prod.fst :=
      (map_fst_nextBack? fun _ => not_seen_of_mem_pushedBack).trans (head?_pushedBack _ _ _)
    rw [searchBack?, backSource?, hstart, ← ih hnodup]
    dsimp only
    cases hnext : graph.nextBack? (vertex :: seen) (graph.pushedBack (vertex :: seen) vertex) with
    | none =>
      rw [hnext, Option.map_none, eq_comm, Option.map_eq_none_iff] at hsecond
      rw [hsecond]
    | some next =>
      rw [hnext, Option.map_some, eq_comm, Option.map_eq_some_iff] at hsecond
      obtain ⟨edge, hfind, heq⟩ := hsecond
      rw [hfind]
      exact congrArg some heq.symm

/-- The order is found by a walk along the edges and a search back along them. -/
theorem order_eq (h : graph.vertices.Nodup) :
    graph.order = (graph.walkAll graph.vertices [] graph.vertices).bind fun finished =>
      (graph.searchBack? [] finished).elim (.ok finished) .error := by
  unfold order
  cases hwalk : graph.walkAll graph.vertices [] graph.vertices with
  | error vertex => rfl
  | ok finished =>
    have hfinished : ([] ++ finished).Nodup := (walkAll_ok h List.nodup_nil hwalk).1
    simp only [Except.bind, searchBack?_eq_backSource? hfinished]
    cases graph.backSource? [] finished with
    | none => rfl
    | some vertex => rfl

end FormFlow.Digraph
