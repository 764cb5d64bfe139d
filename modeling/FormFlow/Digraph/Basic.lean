/-!
# Directed graphs

A directed graph keeps its vertices and its edges in the order in which they were added. There may
be several edges between two vertices.
-/

namespace FormFlow

structure Digraph (α : Type) where
  vertices : List α
  edges : List (α × α)

namespace Digraph

variable {α : Type} [DecidableEq α]

def empty : Digraph α := ⟨[], []⟩

/-- Adds a vertex that is not there. -/
def withVertex (graph : Digraph α) (vertex : α) : Digraph α :=
  if vertex ∈ graph.vertices then graph
  else { graph with vertices := graph.vertices ++ [vertex] }

/-- Adds an edge, and its ends before it. -/
def withEdge (graph : Digraph α) (source target : α) : Digraph α :=
  let graph := (graph.withVertex source).withVertex target
  { graph with edges := graph.edges ++ [(source, target)] }

def withNewEdge (graph : Digraph α) (source target : α) : Digraph α :=
  if (source, target) ∈ graph.edges then graph else graph.withEdge source target

/-- Where the edges that leave a vertex lead to, the last added first. -/
def successors (graph : Digraph α) (vertex : α) : List α :=
  (graph.edges.reverse.filter fun edge => edge.1 = vertex).map Prod.snd

theorem mem_successors {graph : Digraph α} {source target : α} :
    target ∈ graph.successors source ↔ (source, target) ∈ graph.edges := by
  simp [successors]

@[simp] theorem mem_vertices_withVertex {graph : Digraph α} {vertex other : α} :
    other ∈ (graph.withVertex vertex).vertices ↔ other ∈ graph.vertices ∨ other = vertex := by
  unfold withVertex
  split <;> rename_i h
  · constructor
    · exact Or.inl
    · rintro (hother | rfl)
      · exact hother
      · exact h
  · simp

@[simp] theorem edges_withVertex (graph : Digraph α) (vertex : α) :
    (graph.withVertex vertex).edges = graph.edges := by
  unfold withVertex
  split <;> rfl

@[simp] theorem mem_vertices_withEdge {graph : Digraph α} {source target other : α} :
    other ∈ (graph.withEdge source target).vertices ↔
      (other ∈ graph.vertices ∨ other = source) ∨ other = target := by
  simp [withEdge]

@[simp] theorem edges_withEdge (graph : Digraph α) (source target : α) :
    (graph.withEdge source target).edges = graph.edges ++ [(source, target)] := by
  simp [withEdge]

theorem nodup_withVertex {graph : Digraph α} (h : graph.vertices.Nodup) (vertex : α) :
    (graph.withVertex vertex).vertices.Nodup := by
  unfold withVertex
  split <;> rename_i hmem
  · exact h
  · rw [List.nodup_append]
    refine ⟨h, by simp, ?_⟩
    intro a ha b hb hab
    rw [List.mem_singleton] at hb
    subst hab hb
    exact hmem ha

theorem nodup_withEdge {graph : Digraph α} (h : graph.vertices.Nodup) (source target : α) :
    (graph.withEdge source target).vertices.Nodup :=
  nodup_withVertex (nodup_withVertex h source) target

end Digraph

end FormFlow
