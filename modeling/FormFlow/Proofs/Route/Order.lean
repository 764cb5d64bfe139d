import FormFlow.Proofs.Digraph.Contents
import FormFlow.Proofs.Digraph.Order
import FormFlow.Route.Order

/-!
# The order of the edges

`Route.orderEdges` lists the declared edges vertex by vertex. What it answers is a run of the
declared edges of each vertex (`filter_orderEdges`), and no edge leads to the source of an edge
before it or to its own source (`forward_orderEdges`, `noLoop_orderEdges`).
-/

namespace FormFlow.Route

/-! ### The graph of the edges -/

theorem consists_foldl_withEdge {start : Digraph String} {places : String → Prop}
    {joined : String → String → Prop} (h : start.Consists places joined)
    (edges : List Form.Edge) :
    (edges.foldl (fun graph edge => graph.withEdge edge.source edge.target) start).Consists
      (fun id => places id ∨ ∃ edge ∈ edges, id = edge.source ∨ id = edge.target)
      (fun source target => joined source target ∨
        ∃ edge ∈ edges, source = edge.source ∧ target = edge.target) := by
  induction edges generalizing start places joined with
  | nil => exact h.congr (by simp) (by simp)
  | cons edge rest ih =>
    refine (ih (h.withEdge edge.source edge.target)).congr (fun id => ?_) (fun source target => ?_)
    · simp only [List.mem_cons, exists_eq_or_imp, or_assoc]
    · simp only [List.mem_cons, exists_eq_or_imp, or_assoc]

/-- `START` and `END` with the ends of the edges, and the edges with one from `START` to `END`. -/
theorem consists_graph (edges : List Form.Edge) : (graph edges).Consists
    (fun id => (id = startId ∨ id = endId) ∨
      ∃ edge ∈ edges, id = edge.source ∨ id = edge.target)
    (fun source target => (source = startId ∧ target = endId) ∨
      ∃ edge ∈ edges, source = edge.source ∧ target = edge.target) :=
  (consists_foldl_withEdge (Digraph.Consists.empty.withEdge startId endId) edges).congr
    (by simp) (by simp)

theorem source_mem_graph {edges : List Form.Edge} {edge : Form.Edge} (h : edge ∈ edges) :
    edge.source ∈ (graph edges).vertices :=
  ((consists_graph edges).mem_vertices _).mpr (Or.inr ⟨edge, h, Or.inl rfl⟩)

/-! ### The ordered edges -/

@[simp] theorem source_ofForm (kinds : Members VertexKind) (edge : Form.Edge) :
    (Edge.ofForm kinds edge).source = edge.source := rfl

@[simp] theorem target_ofForm (kinds : Members VertexKind) (edge : Form.Edge) :
    (Edge.ofForm kinds edge).target = edge.target := rfl

variable {kinds : Members VertexKind} {declared : List Form.Edge} {edges : List Edge}

theorem orderEdges_ok (h : orderEdges kinds declared = .ok edges) :
    ∃ order, (graph declared).IsOrder order ∧
      edges = order.flatMap fun id =>
        (declared.filter (·.source = id)).map (Edge.ofForm kinds) := by
  unfold orderEdges at h
  split at h
  · next order horder =>
    have hnodup := (consists_graph declared).nodup
    exact ⟨order, Digraph.isOrder_of_order hnodup horder, by simpa using h.symm⟩
  · simp at h

theorem flatMap_if_eq {order : List String} (hnodup : order.Nodup) (id : String)
    (group : List Edge) :
    (order.flatMap fun vertex => if vertex = id then group else []) =
      if id ∈ order then group else [] := by
  induction order with
  | nil => simp
  | cons first rest ih =>
    obtain ⟨hfirst, hrest⟩ := List.nodup_cons.mp hnodup
    rw [List.flatMap_cons, ih hrest]
    by_cases heq : first = id
    · subst heq
      simp [hfirst]
    · simp [heq, Ne.symm heq]

theorem filter_orderEdges (h : orderEdges kinds declared = .ok edges) (id : String) :
    edges.filter (·.source = id) =
      (declared.filter (·.source = id)).map (Edge.ofForm kinds) := by
  obtain ⟨order, horder, rfl⟩ := orderEdges_ok h
  have hgroup : ∀ vertex : String,
      ((declared.filter (·.source = vertex)).map (Edge.ofForm kinds)).filter (·.source = id) =
        if vertex = id then (declared.filter (·.source = id)).map (Edge.ofForm kinds) else [] := by
    intro vertex
    have hleaves : (fun edge : Edge => decide (edge.source = id)) ∘ Edge.ofForm kinds =
        fun edge => decide (edge.source = id) := rfl
    rw [List.filter_map, hleaves, List.filter_filter]
    split_ifs with heq
    · subst heq
      simp only [Bool.and_self]
    · rw [List.map_eq_nil_iff, List.filter_eq_nil_iff]
      intro edge _ hboth
      have hids : edge.source = id ∧ edge.source = vertex := by simpa using hboth
      exact heq (hids.2.symm.trans hids.1)
  rw [List.filter_flatMap, funext hgroup, flatMap_if_eq horder.nodup]
  split_ifs with hmem
  · rfl
  · symm
    rw [List.map_eq_nil_iff, List.filter_eq_nil_iff]
    intro edge hedge
    simp only [decide_eq_true_eq]
    rintro rfl
    exact hmem ((horder.mem_iff _).mpr (source_mem_graph hedge))

theorem mem_orderEdges (h : orderEdges kinds declared = .ok edges) {edge : Edge} :
    edge ∈ edges ↔ ∃ original ∈ declared, Edge.ofForm kinds original = edge := by
  have hfilter := filter_orderEdges h edge.source
  have hin : edge ∈ edges ↔ edge ∈ edges.filter (·.source = edge.source) := by
    rw [List.mem_filter]
    simp
  rw [hin, hfilter, List.mem_map]
  constructor
  · rintro ⟨original, hmem, rfl⟩
    exact ⟨original, List.mem_of_mem_filter hmem, rfl⟩
  · rintro ⟨original, hmem, rfl⟩
    exact ⟨original, List.mem_filter.mpr ⟨hmem, by simp⟩, rfl⟩

theorem target_ne_of_not_mem_graph {edge : Form.Edge} {id : String} (hmem : edge ∈ declared)
    (h : (edge.source, id) ∉ (graph declared).edges) : edge.target ≠ id := by
  rintro rfl
  exact h (((consists_graph declared).mem_edges _ _).mpr (Or.inr ⟨edge, hmem, rfl, rfl⟩))

theorem noLoop_orderEdges (h : orderEdges kinds declared = .ok edges) :
    ∀ edge ∈ edges, edge.target ≠ edge.source := by
  intro edge hedge
  obtain ⟨order, horder, -⟩ := orderEdges_ok h
  obtain ⟨original, hmem, rfl⟩ := (mem_orderEdges h).mp hedge
  have hin : original.source ∈ order := (horder.mem_iff _).mpr (source_mem_graph hmem)
  exact target_ne_of_not_mem_graph hmem (horder.noLoop _ hin)

theorem forward_orderEdges (h : orderEdges kinds declared = .ok edges) :
    edges.Pairwise fun earlier later => later.target ≠ earlier.source := by
  obtain ⟨order, horder, rfl⟩ := orderEdges_ok h
  have hgroup : ∀ id, ∀ edge ∈ (declared.filter (·.source = id)).map (Edge.ofForm kinds),
      ∃ original ∈ declared, original.source = id ∧ Edge.ofForm kinds original = edge := by
    intro id edge hedge
    obtain ⟨original, hmem, rfl⟩ := List.mem_map.mp hedge
    rw [List.mem_filter, decide_eq_true_eq] at hmem
    exact ⟨original, hmem.1, hmem.2, rfl⟩
  rw [List.pairwise_flatMap]
  constructor
  · intro id hid
    refine List.pairwise_of_forall_mem_list ?_
    intro earlier hearlier later hlater
    obtain ⟨_, _, rfl, rfl⟩ := hgroup id earlier hearlier
    obtain ⟨original, hmem, hsource, rfl⟩ := hgroup _ later hlater
    exact target_ne_of_not_mem_graph hmem (hsource ▸ horder.noLoop _ hid)
  · refine horder.forward.imp ?_
    intro front back hnot earlier hearlier later hlater
    obtain ⟨_, _, rfl, rfl⟩ := hgroup front earlier hearlier
    obtain ⟨original, hmem, rfl, rfl⟩ := hgroup back later hlater
    exact target_ne_of_not_mem_graph hmem hnot

end FormFlow.Route
