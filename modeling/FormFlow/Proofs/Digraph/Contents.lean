import FormFlow.Digraph.Basic

/-!
# What a graph consists of

A graph is put together by adding vertices and edges. `Digraph.Consists` says which vertices and
edges it has, and each step of the construction adds to both what it is meant to add.
-/

namespace FormFlow.Digraph

variable {α : Type}

/-- Every edge joins vertices of the graph. -/
def IsClosed (graph : Digraph α) : Prop :=
  ∀ edge ∈ graph.edges, edge.1 ∈ graph.vertices ∧ edge.2 ∈ graph.vertices

/-- A graph of the given vertices, each once, and of the given edges between them. -/
structure Consists (graph : Digraph α) (vertices : α → Prop) (edges : α → α → Prop) : Prop where
  nodup : graph.vertices.Nodup
  mem_vertices : ∀ vertex, vertex ∈ graph.vertices ↔ vertices vertex
  mem_edges : ∀ source target, (source, target) ∈ graph.edges ↔ edges source target
  ends : ∀ source target, edges source target → vertices source ∧ vertices target

namespace Consists

variable {graph : Digraph α} {vertices vertices' : α → Prop} {edges edges' : α → α → Prop}

theorem isClosed (h : graph.Consists vertices edges) : graph.IsClosed := by
  rintro ⟨source, target⟩ hedge
  obtain ⟨hsource, htarget⟩ := h.ends source target ((h.mem_edges source target).mp hedge)
  exact ⟨(h.mem_vertices source).mpr hsource, (h.mem_vertices target).mpr htarget⟩

theorem congr (h : graph.Consists vertices edges)
    (hvertices : ∀ vertex, vertices vertex ↔ vertices' vertex)
    (hedges : ∀ source target, edges source target ↔ edges' source target) :
    graph.Consists vertices' edges' := by
  obtain rfl : vertices = vertices' := funext fun vertex => propext (hvertices vertex)
  obtain rfl : edges = edges' := funext fun source => funext fun target =>
    propext (hedges source target)
  exact h

theorem empty : (Digraph.empty : Digraph α).Consists (fun _ => False) (fun _ _ => False) :=
  ⟨List.nodup_nil, by simp [Digraph.empty], by simp [Digraph.empty], by simp⟩

variable [DecidableEq α]

theorem withVertex (h : graph.Consists vertices edges) (vertex : α) :
    (graph.withVertex vertex).Consists (fun other => vertices other ∨ other = vertex) edges where
  nodup := nodup_withVertex h.nodup vertex
  mem_vertices other := by rw [mem_vertices_withVertex, h.mem_vertices]
  mem_edges source target := by rw [edges_withVertex, h.mem_edges]
  ends source target hedge := (h.ends source target hedge).imp Or.inl Or.inl

theorem withEdge (h : graph.Consists vertices edges) (source target : α) :
    (graph.withEdge source target).Consists
      (fun vertex => (vertices vertex ∨ vertex = source) ∨ vertex = target)
      (fun source' target' => edges source' target' ∨ source' = source ∧ target' = target) where
  nodup := nodup_withEdge h.nodup source target
  mem_vertices vertex := by rw [mem_vertices_withEdge, h.mem_vertices]
  mem_edges source' target' := by
    rw [edges_withEdge, List.mem_append, h.mem_edges, List.mem_singleton, Prod.mk.injEq]
  ends := by
    rintro source' target' (hedge | ⟨rfl, rfl⟩)
    · obtain ⟨hsource, htarget⟩ := h.ends source' target' hedge
      exact ⟨Or.inl (Or.inl hsource), Or.inl (Or.inl htarget)⟩
    · exact ⟨Or.inl (Or.inr rfl), Or.inr rfl⟩

theorem withNewEdge (h : graph.Consists vertices edges) (source : α) {target : α}
    (htarget : vertices target) : (graph.withNewEdge source target).Consists
      (fun vertex => vertices vertex ∨ vertex = source)
      (fun source' target' => edges source' target' ∨ source' = source ∧ target' = target) := by
  unfold Digraph.withNewEdge
  split
  · next hold =>
    rw [h.mem_edges] at hold
    refine h.congr (fun vertex => ?_) (fun source' target' => ?_)
    · rw [iff_self_or]
      rintro rfl
      exact (h.ends vertex target hold).1
    · rw [iff_self_or]
      rintro ⟨rfl, rfl⟩
      exact hold
  · refine (h.withEdge source target).congr (fun vertex => ?_) (fun _ _ => Iff.rfl)
    rw [or_iff_left_iff_imp]
    rintro rfl
    exact Or.inl htarget

theorem withNewEdges (h : graph.Consists vertices edges) {target : α} (htarget : vertices target)
    (sources : List α) :
    (sources.foldl (fun graph source => graph.withNewEdge source target) graph).Consists
      (fun vertex => vertices vertex ∨ vertex ∈ sources)
      (fun source' target' => edges source' target' ∨ source' ∈ sources ∧ target' = target) := by
  induction sources generalizing graph vertices edges with
  | nil => exact h.congr (by simp) (by simp)
  | cons source rest ih =>
    refine (ih (h.withNewEdge source htarget) (Or.inl htarget)).congr
      (fun vertex => ?_) (fun source' target' => ?_)
    · rw [List.mem_cons, or_assoc]
    · rw [List.mem_cons, or_and_right, or_assoc]

end Consists

end FormFlow.Digraph
