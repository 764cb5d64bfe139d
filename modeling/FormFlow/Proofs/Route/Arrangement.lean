import Mathlib.Data.List.Count
import FormFlow.Proofs.Digraph.Cycle
import FormFlow.Proofs.Route.Order

/-!
# Arrangements of edges

`Route.orderEdges` fails exactly if the declared edges, with one from `START` to `END`, have a
cycle, and it names a vertex on one. What it answers is an arrangement of the declared edges
(`IsArrangement`): all of them, every edge into a vertex before the edges that leave it, and the
edges of one vertex together and as they are declared.
-/

namespace FormFlow.Route

open Relation

def Leads (declared : List Form.Edge) (source target : String) : Prop :=
  ∃ edge ∈ declared, edge.source = source ∧ edge.target = target

/-- A declared edge leads from one vertex to another, or the vertices are `START` and `END`. -/
def LeadsOrEnds (declared : List Form.Edge) (source target : String) : Prop :=
  Leads declared source target ∨ source = startId ∧ target = endId

/-- A path of declared edges, with one from `START` to `END`, leads from a vertex back to it. -/
def OnCycle (declared : List Form.Edge) (id : String) : Prop :=
  TransGen (LeadsOrEnds declared) id id

/-- The edges are the declared ones, in an order of evaluation. -/
structure IsArrangement (kinds : Members VertexKind) (declared : List Form.Edge)
    (edges : List Edge) : Prop where
  perm : edges.Perm (declared.map (Edge.ofForm kinds))
  /-- An edge into a vertex comes before every edge that leaves it. -/
  forward : ∀ (i j : Nat) (entering leaving : Edge), edges[i]? = some entering →
    edges[j]? = some leaving → entering.target = leaving.source → i < j
  /-- Only edges of the same vertex stand between two edges of a vertex. -/
  together : ∀ (i j k : Nat) (first between last : Edge), i < j → j < k →
    edges[i]? = some first → edges[j]? = some between → edges[k]? = some last →
    first.source = last.source → between.source = first.source
  /-- The edges of a vertex keep the order of their declaration. -/
  stable : ∀ id, edges.filter (·.source = id) =
    (declared.filter (·.source = id)).map (Edge.ofForm kinds)

variable {kinds : Members VertexKind} {declared : List Form.Edge} {edges : List Edge}

/-! ### Cycles -/

theorem leads_graph (declared : List Form.Edge) :
    (graph declared).Leads = LeadsOrEnds declared := by
  funext source target
  refine propext (((consists_graph declared).mem_edges source target).trans ?_)
  simp only [LeadsOrEnds, Leads, eq_comm, or_comm]

theorem onCycle_graph (declared : List Form.Edge) (id : String) :
    (graph declared).OnCycle id ↔ OnCycle declared id := by
  rw [Digraph.OnCycle, OnCycle, leads_graph]

theorem exists_orderEdges_iff :
    (∃ edges, orderEdges kinds declared = .ok edges) ↔ ∀ id, ¬ OnCycle declared id := by
  have hgraph := consists_graph declared
  simp only [← onCycle_graph]
  rw [← Digraph.exists_order_iff hgraph.nodup hgraph.isClosed]
  unfold orderEdges
  cases (graph declared).order with
  | ok order => simp
  | error id => simp

theorem onCycle_of_orderEdges {error : FormError}
    (h : orderEdges kinds declared = .error error) :
    ∃ id, error = .cycle id ∧ OnCycle declared id := by
  have hgraph := consists_graph declared
  unfold orderEdges at h
  split at h
  · simp at h
  · next id hid =>
    have hcycle := Digraph.onCycle_of_order hgraph.nodup hgraph.isClosed hid
    exact ⟨id, (Except.error.inj h).symm, (onCycle_graph declared id).mp hcycle⟩

/-! ### The places of the edges -/

theorem getElem?_lt {i j : Nat} {earlier later : Edge} {R : Edge → Edge → Prop}
    (hpairwise : edges.Pairwise R) (hearlier : edges[i]? = some earlier)
    (hlater : edges[j]? = some later) (hlt : i < j) : R earlier later := by
  obtain ⟨hi, rfl⟩ := List.getElem?_eq_some_iff.mp hearlier
  obtain ⟨hj, rfl⟩ := List.getElem?_eq_some_iff.mp hlater
  exact List.pairwise_iff_getElem.mp hpairwise i j hi hj hlt

theorem pairwise_idxOf {order : List String} (hnodup : order.Nodup) :
    order.Pairwise fun earlier later => order.idxOf earlier < order.idxOf later := by
  rw [List.pairwise_iff_getElem]
  intro i j hi hj hlt
  rwa [hnodup.idxOf_getElem i hi, hnodup.idxOf_getElem j hj]

theorem pairwise_source {order : List String} (hnodup : order.Nodup) :
    (order.flatMap fun id => (declared.filter (·.source = id)).map (Edge.ofForm kinds)).Pairwise
      fun earlier later => order.idxOf earlier.source ≤ order.idxOf later.source := by
  have hsource : ∀ id, ∀ edge ∈ (declared.filter (·.source = id)).map (Edge.ofForm kinds),
      edge.source = id := by
    intro id edge hedge
    obtain ⟨original, hmem, rfl⟩ := List.mem_map.mp hedge
    simpa using (List.mem_filter.mp hmem).2
  rw [List.pairwise_flatMap]
  constructor
  · intro id _
    refine List.pairwise_of_forall_mem_list fun earlier hearlier later hlater => ?_
    rw [hsource id earlier hearlier, hsource id later hlater]
  · refine (pairwise_idxOf hnodup).imp ?_
    intro front back hlt earlier hearlier later hlater
    rw [hsource front earlier hearlier, hsource back later hlater]
    exact hlt.le

theorem perm_of_stable (h : ∀ id, edges.filter (·.source = id) =
    (declared.filter (·.source = id)).map (Edge.ofForm kinds)) :
    edges.Perm (declared.map (Edge.ofForm kinds)) := by
  rw [List.perm_iff_count]
  intro edge
  have hleaves : (declared.map (Edge.ofForm kinds)).filter (·.source = edge.source) =
      (declared.filter (·.source = edge.source)).map (Edge.ofForm kinds) := List.filter_map
  calc edges.count edge
      = (edges.filter (·.source = edge.source)).count edge :=
        (List.count_filter (by simp)).symm
    _ = ((declared.map (Edge.ofForm kinds)).filter (·.source = edge.source)).count edge := by
        rw [h, hleaves]
    _ = (declared.map (Edge.ofForm kinds)).count edge := List.count_filter (by simp)

theorem isArrangement_of_orderEdges (h : orderEdges kinds declared = .ok edges) :
    IsArrangement kinds declared edges := by
  have hstable := filter_orderEdges h
  refine ⟨perm_of_stable hstable, ?_, ?_, hstable⟩
  · intro i j entering leaving hi hj hjoined
    rcases Nat.lt_trichotomy i j with hlt | rfl | hlt
    · exact hlt
    · obtain rfl := Option.some.inj (hi.symm.trans hj)
      exact absurd hjoined (noLoop_orderEdges h entering (List.mem_of_getElem? hi))
    · exact absurd hjoined (getElem?_lt (forward_orderEdges h) hj hi hlt)
  · intro i j k first between last hij hjk hi hj hk hsame
    obtain ⟨order, horder, rfl⟩ := orderEdges_ok h
    have hplaces := @pairwise_source kinds declared order horder.nodup
    have hbefore := getElem?_lt hplaces hi hj hij
    have hafter := getElem?_lt hplaces hj hk hjk
    rw [← hsame] at hafter
    obtain ⟨original, hmem, rfl⟩ := (mem_orderEdges h).mp (List.mem_of_getElem? hj)
    have hlisted : original.source ∈ order := (horder.mem_iff _).mpr (source_mem_graph hmem)
    exact (List.idxOf_inj hlisted).mp (Nat.le_antisymm hafter hbefore)

/-- There is an order of evaluation exactly if the declared edges, with one from `START` to `END`,
have no cycle. The ordered edges are then an arrangement of the declared ones, and otherwise the
vertex named in the error lies on a cycle. -/
theorem orderEdges_arranges (kinds : Members VertexKind) (declared : List Form.Edge) :
    ((∃ edges, orderEdges kinds declared = .ok edges) ↔ ∀ id, ¬ OnCycle declared id) ∧
    (∀ edges, orderEdges kinds declared = .ok edges → IsArrangement kinds declared edges) ∧
    ∀ error, orderEdges kinds declared = .error error →
      ∃ id, error = .cycle id ∧ OnCycle declared id :=
  ⟨exists_orderEdges_iff, fun _ => isArrangement_of_orderEdges, fun _ => onCycle_of_orderEdges⟩

end FormFlow.Route
