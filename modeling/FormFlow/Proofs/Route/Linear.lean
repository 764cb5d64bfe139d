import Mathlib.Data.List.Chain
import FormFlow.Proofs.Route.Active
import FormFlow.Proofs.Route.Arrangement
import FormFlow.Proofs.Route.WellFormed

/-!
# The linear route

A form whose decisions and edges are left out leads through its sections in their order, from
`START` to `END`. Such a form is well-formed whatever the number of its sections
(`isWellFormed_linear`).

Its vertices stand in a line. As each is joined to the next, the line is the only order of the graph
(`eq_of_isChain`), and the edges are evaluated as they are declared (`orderEdges_line`). The walk
along them goes as far as the sections are valid (`walks_line`), and the sections that are reached
are those passed and the next (`pathway_line`).
-/

namespace FormFlow

namespace Form.Edge

variable {line : List String} {edge : Edge}

theorem mem_chain_iff :
    edge ∈ chain line ↔ edge.condition = none ∧ [edge.source, edge.target] <:+: line := by
  fun_induction chain line with
  | case1 source target rest ih =>
    obtain ⟨source', target', condition⟩ := edge
    rw [List.mem_cons, ih, @List.infix_cons_iff _ _ source (target :: rest)]
    simp only [mk.injEq, List.cons_prefix_cons, List.nil_prefix, and_true]
    tauto
  | case2 line hshort =>
    refine iff_of_false List.not_mem_nil fun h => ?_
    obtain ⟨front, back, rfl⟩ := h.2
    cases front with
    | nil => exact hshort _ _ _ rfl
    | cons first rest => cases rest <;> exact hshort _ _ _ rfl

theorem chain_eq (line : List String) : chain line =
    (line.dropLast.zip line.tail).map fun (source, target) => ⟨source, target, none⟩ := by
  fun_induction chain line with
  | case1 source target rest ih => simp [ih]
  | case2 line hshort =>
    match line, hshort with
    | [], _ | [_], _ => rfl
    | _ :: _ :: _, hshort => exact (hshort _ _ _ rfl).elim

theorem map_source_chain (line : List String) : (chain line).map (·.source) = line.dropLast := by
  rw [chain_eq, List.map_map]
  exact List.map_fst_zip (by simp)

theorem map_target_chain (line : List String) : (chain line).map (·.target) = line.tail := by
  rw [chain_eq, List.map_map]
  exact List.map_snd_zip (by simp)

end Form.Edge

namespace Route

theorem eq_of_isChain {graph : Digraph String} {order line : List String}
    (horder : graph.IsOrder order) (hline : graph.IsOrder line) (hgraph : graph.IsClosed)
    (hchain : line.IsChain graph.Leads) : order = line := by
  have hperm : order.Perm line := by
    rw [List.perm_ext_iff_of_nodup horder.nodup hline.nodup]
    intro vertex
    rw [horder.mem_iff, hline.mem_iff]
  have hgrows : (line.map order.idxOf).Pairwise (· < ·) := by
    rw [← List.isChain_iff_pairwise, List.isChain_map]
    exact hchain.imp fun _ _ hleads => horder.idxOf_lt hgraph hleads
  refine hperm.eq_of_pairwise ?_ (pairwise_idxOf horder.nodup) (List.pairwise_map.mp hgrows)
  intro earlier later _ _ hlt hgt
  exact absurd hlt hgt.asymm

variable {kinds : Members VertexKind} {ids : List String} {judgement : Judgement}

def line (ids : List String) : List String := startId :: ids ++ [endId]

theorem nodup_line (hdistinct : ids.Nodup) (hstart : startId ∉ ids) (hend : endId ∉ ids) :
    (line ids).Nodup := by
  rw [line, List.nodup_append, List.nodup_cons]
  refine ⟨⟨hstart, hdistinct⟩, List.nodup_singleton _, fun id hid other hother => ?_⟩
  rw [List.mem_singleton.mp hother]
  rintro rfl
  rcases List.mem_cons.mp hid with hid | hid
  · exact absurd hid (by decide)
  · exact hend hid

theorem chain_line (ids : List String) : Form.Edge.chain (line ids) =
    ((startId :: ids).zip (ids ++ [endId])).map fun (source, target) => ⟨source, target, none⟩ := by
  rw [Form.Edge.chain_eq, line, List.dropLast_concat]
  rfl

theorem map_source_line (ids : List String) :
    (Form.Edge.chain (line ids)).map (·.source) = startId :: ids := by
  rw [Form.Edge.map_source_chain, line, List.dropLast_concat]

theorem map_target_line (ids : List String) :
    (Form.Edge.chain (line ids)).map (·.target) = ids ++ [endId] :=
  Form.Edge.map_target_chain (line ids)

theorem target_ne_start_of_line (hline : (line ids).Nodup) {edge : Form.Edge}
    (hmem : edge ∈ Form.Edge.chain (line ids)) : edge.target ≠ startId := by
  intro htarget
  have hlater : startId ∈ ids ++ [endId] := by
    rw [← map_target_line, ← htarget]
    exact List.mem_map_of_mem hmem
  exact (List.nodup_cons.mp hline).1 hlater

/-! ### The order of the edges -/

theorem sublist_of_leads {source target : String}
    (h : (graph (Form.Edge.chain (line ids))).Leads source target) :
    [source, target].Sublist (line ids) := by
  rw [leads_graph] at h
  rcases h with ⟨edge, hmem, rfl, rfl⟩ | ⟨rfl, rfl⟩
  · exact (Form.Edge.mem_chain_iff.mp hmem).2.sublist
  · exact .cons_cons _ (List.singleton_sublist.mpr (by simp))

theorem idxOf_lt_of_leads (hline : (line ids).Nodup) {source target : String}
    (h : (graph (Form.Edge.chain (line ids))).Leads source target) :
    (line ids).idxOf source < (line ids).idxOf target := by
  simpa using (pairwise_idxOf hline).sublist (sublist_of_leads h)

theorem mem_vertices_line {id : String} :
    id ∈ (graph (Form.Edge.chain (line ids))).vertices ↔ id ∈ line ids := by
  have hsources := Form.Edge.map_source_chain (line ids)
  have htargets := Form.Edge.map_target_chain (line ids)
  rw [(consists_graph _).mem_vertices]
  constructor
  · rintro ((rfl | rfl) | ⟨edge, hmem, rfl | rfl⟩)
    · simp [line]
    · simp [line]
    · exact List.mem_of_mem_dropLast (hsources ▸ List.mem_map_of_mem hmem)
    · exact List.mem_of_mem_tail (htargets ▸ List.mem_map_of_mem hmem)
  · intro hid
    rcases List.mem_cons.mp hid with rfl | htail
    · exact .inl (.inl rfl)
    · have htarget : id ∈ (line ids).tail := htail
      rw [← htargets] at htarget
      obtain ⟨edge, hmem, rfl⟩ := List.mem_map.mp htarget
      exact .inr ⟨edge, hmem, .inr rfl⟩

theorem isOrder_line (hline : (line ids).Nodup) :
    (graph (Form.Edge.chain (line ids))).IsOrder (line ids) where
  nodup := hline
  mem_iff _ := mem_vertices_line.symm
  forward := (pairwise_idxOf hline).imp fun hlt hback =>
    absurd hlt (idxOf_lt_of_leads hline hback).asymm
  noLoop _ _ hloop := Nat.lt_irrefl _ (idxOf_lt_of_leads hline hloop)

theorem filter_source_eq {edges : List Form.Edge} {edge : Form.Edge}
    (hnodup : (edges.map (·.source)).Nodup) (hmem : edge ∈ edges) :
    edges.filter (·.source = edge.source) = [edge] := by
  obtain ⟨front, back, rfl⟩ := List.append_of_mem hmem
  rw [List.map_append, List.map_cons, List.nodup_middle, ← List.map_append,
    List.nodup_cons] at hnodup
  have hother : ∀ other ∈ front ++ back, other.source ≠ edge.source := fun other hother heq =>
    hnodup.1 (List.mem_map.mpr ⟨other, hother, heq⟩)
  rw [List.filter_append, List.filter_cons_of_pos (by simp), List.filter_eq_nil_iff.mpr,
    List.filter_eq_nil_iff.mpr, List.nil_append]
  · intro other hmem
    simpa using hother other (List.mem_append_right _ hmem)
  · intro other hmem
    simpa using hother other (List.mem_append_left _ hmem)

theorem flatMap_filter_source {edges : List Form.Edge} {last : String}
    (hnodup : (edges.map (·.source) ++ [last]).Nodup) :
    ((edges.map (·.source) ++ [last]).flatMap fun id => edges.filter (·.source = id)) = edges := by
  obtain ⟨hsources, -, hlast⟩ := List.nodup_append.mp hnodup
  have hnone : edges.filter (·.source = last) = [] := by
    rw [List.filter_eq_nil_iff]
    intro edge hmem
    simpa using hlast _ (List.mem_map_of_mem hmem) last (List.mem_singleton_self last)
  calc ((edges.map (·.source) ++ [last]).flatMap fun id => edges.filter (·.source = id))
      = edges.flatMap fun edge => edges.filter (·.source = edge.source) := by
        rw [List.flatMap_append, List.flatMap_map, List.flatMap_singleton, hnone, List.append_nil]
    _ = edges.flatMap fun edge => [edge] :=
        List.flatMap_congr fun edge hmem => filter_source_eq hsources hmem
    _ = edges := List.flatMap_singleton' edges

theorem orderEdges_line (hline : (line ids).Nodup) (kinds : Members VertexKind) :
    orderEdges kinds (Form.Edge.chain (line ids)) =
      .ok ((Form.Edge.chain (line ids)).map (Edge.ofForm kinds)) := by
  have hgraph := consists_graph (Form.Edge.chain (line ids))
  have hchain : (line ids).IsChain (graph (Form.Edge.chain (line ids))).Leads := by
    rw [leads_graph]
    exact (List.isChain_isInfix _).imp fun source target hnext =>
      .inl ⟨⟨source, target, none⟩, Form.Edge.mem_chain_iff.mpr ⟨rfl, hnext⟩, rfl, rfl⟩
  obtain ⟨order, horder⟩ := (Digraph.exists_order_iff hgraph.nodup hgraph.isClosed).mpr
    ((isOrder_line hline).not_onCycle hgraph.isClosed)
  obtain rfl := eq_of_isChain (Digraph.isOrder_of_order hgraph.nodup horder) (isOrder_line hline)
    hgraph.isClosed hchain
  have hvertices : (Form.Edge.chain (line ids)).map (·.source) ++ [endId] = line ids := by
    rw [map_source_line, line]
  have hgroups := @flatMap_filter_source (Form.Edge.chain (line ids)) endId
    (by rw [hvertices]; exact hline)
  rw [hvertices] at hgroups
  rw [orderEdges, horder]
  simp only
  rw [← List.map_flatMap, hgroups]

/-! ### The check -/

section

variable {sections : List Form.Node}

theorem filterMap_id_eq (hids : sections.map (·.id) = ids.map some) :
    sections.filterMap (·.id) = ids := by
  rw [← Function.id_comp (fun node : Form.Node => node.id), ← List.filterMap_map, hids]
  simp

theorem isWellFormed_linear (hids : sections.map (·.id) = ids.map some) (hline : (line ids).Nodup)
    (derived : List Form.Derived) :
    Form.IsWellFormed ⟨sections, [], Form.Edge.linear sections, derived⟩ := by
  have hsectionIds : sections.filterMap (·.id) = ids := filterMap_id_eq hids
  rw [Form.Edge.linear, hsectionIds, ← line]
  have hvertices : Form.vertexIds ⟨sections, [], Form.Edge.chain (line ids), derived⟩ = ids := by
    simp [Form.vertexIds, Form.sectionIds, Form.decisionIds, hsectionIds]
  obtain ⟨hfront, -, hend⟩ := List.nodup_append.mp hline
  obtain ⟨hstart, hdistinct⟩ := List.nodup_cons.mp hfront
  refine
    { named := fun node hmem hnone => ?_
      distinct := hvertices ▸ hdistinct
      unreserved := by
        rw [hvertices]
        exact ⟨hstart, fun hid => hend _ (.tail _ hid) _ (.head _) rfl⟩
      target := fun edge hmem => ?_
      source := fun edge hmem => ?_
      conditional := fun edge hmem => ?_
      started := ?_
      intoStart := ?_
      entered := fun id hid => iff_of_true ?_ fun edge hmem _ => target_ne_start_of_line hline hmem
      sectionEdge := fun id hid => ?_
      decisionEdges := fun id hid => absurd hid List.not_mem_nil }
  · have hid : node.id ∈ ids.map some := hids ▸ List.mem_map_of_mem hmem
    simp [hnone] at hid
  · have htarget : edge.target ∈ ids ++ [endId] := by
      rw [← map_target_line]
      exact List.mem_map_of_mem hmem
    rw [hvertices]
    exact (List.mem_append.mp htarget).imp_right fun hlast => .inr (List.mem_singleton.mp hlast)
  · have hsource : edge.source ∈ startId :: ids := by
      rw [← map_source_line]
      exact List.mem_map_of_mem hmem
    rw [hvertices]
    exact (List.mem_cons.mp hsource).symm
  · simp [(Form.Edge.mem_chain_iff.mp hmem).1, Form.decisionIds]
  · have hmem : startId ∈ (Form.Edge.chain (line ids)).map (·.source) := by simp [map_source_line]
    simpa using hmem
  · rw [List.filter_eq_nil_iff.mpr fun edge hmem => by
      simpa using target_ne_start_of_line hline hmem]
    exact Nat.zero_le _
  · rw [hvertices] at hid
    have hmem : id ∈ (Form.Edge.chain (line ids)).map (·.target) := by simp [map_target_line, hid]
    simpa using hmem
  · rw [Form.sectionIds, hsectionIds] at hid
    have hmem : id ∈ (Form.Edge.chain (line ids)).map (·.source) := by simp [map_source_line, hid]
    obtain ⟨edge, hedge, rfl⟩ := List.mem_map.mp hmem
    exact ⟨edge, filter_source_eq (by rw [map_source_line]; exact hfront) hedge⟩

end

/-! ### The walk -/

/-- From any place in the line, the walk goes as far as the sections are valid. -/
theorem walks_line {edges : List Edge} {first : String} {below : List String}
    (hedges : edges = (Form.Edge.chain (line ids)).map (Edge.ofForm kinds))
    (hsections : ∀ id ∈ ids, Members.get? id kinds = some .sectionVertex)
    (hsuffix : first :: below <:+ ids ++ [endId]) :
    Walks kinds edges judgement first
      (((Form.Edge.chain (first :: below)).map (Edge.ofForm kinds)).takeWhile
        (judgement.valid ·.source)) := by
  induction below generalizing first with
  | nil =>
    obtain ⟨front, hsplit⟩ := hsuffix
    obtain rfl : first = endId := by simpa using (List.append_inj' hsplit rfl).2
    exact .finish
  | cons second rest ih =>
    have hrest := ih ((List.suffix_cons _ _).trans hsuffix)
    have hfirst : first ∈ ids := by
      obtain ⟨front, hsplit⟩ := hsuffix
      have hids := congrArg List.dropLast hsplit
      rw [List.dropLast_concat, List.dropLast_append_cons] at hids
      simp [← hids]
    have hedge : Edge.ofForm kinds ⟨first, second, none⟩ ∈ edges := by
      rw [hedges]
      refine List.mem_map_of_mem (Form.Edge.mem_chain_iff.mpr ⟨rfl, ?_⟩)
      refine List.IsInfix.trans ?_ (hsuffix.isInfix.trans (List.infix_cons (List.infix_refl _)))
      exact (List.prefix_append [first, second] rest).isInfix
    rw [Form.Edge.chain, List.map_cons, List.takeWhile_cons, source_ofForm]
    cases hvalid : judgement.valid first with
    | true =>
      rw [if_pos rfl]
      exact .onward hedge (hsections first hfirst) hvalid hrest
    | false => exact .halt (hsections first hfirst) hvalid

section

variable {edges : List Edge}

theorem target_ne_start_of_edges
    (hedges : edges = (Form.Edge.chain (line ids)).map (Edge.ofForm kinds))
    (hline : (line ids).Nodup) : ∀ edge ∈ edges, edge.target ≠ startId := by
  intro edge hmem
  obtain ⟨original, hdeclared, rfl⟩ := List.mem_map.mp (hedges ▸ hmem)
  exact target_ne_start_of_line hline hdeclared

theorem activeForward_line (hsound : Sound kinds edges)
    (hedges : edges = (Form.Edge.chain (line ids)).map (Edge.ofForm kinds))
    (hsections : ∀ id ∈ ids, Members.get? id kinds = some .sectionVertex)
    (hline : (line ids).Nodup) (judgement : Judgement) :
    ∃ first walked, first.source = startId ∧ first :: walked <+: edges ∧
      walked.map Edge.source = ids.takeWhile judgement.valid ∧
      Walks kinds edges judgement first.target walked ∧
      activeForward (judge judgement edges) = first :: walked := by
  obtain ⟨second, below, hbelow⟩ := List.exists_cons_of_ne_nil
    (List.append_ne_nil_of_right_ne_nil ids (List.cons_ne_nil endId []))
  have hsplit : edges = Edge.ofForm kinds ⟨startId, second, none⟩ ::
      (Form.Edge.chain (second :: below)).map (Edge.ofForm kinds) := by
    rw [hedges, line, List.cons_append, hbelow, Form.Edge.chain, List.map_cons]
  have hsources : ((Form.Edge.chain (second :: below)).map (Edge.ofForm kinds)).map Edge.source =
      ids := by
    rw [List.map_map, ← @List.dropLast_concat _ ids endId, hbelow]
    exact Form.Edge.map_source_chain _
  have hfirst : edges.filter (·.source = startId) =
      [Edge.ofForm kinds ⟨startId, second, none⟩] := by
    rw [hsplit, List.filter_cons_of_pos (by simp), List.filter_eq_nil_iff.mpr]
    intro edge hmem
    have hid : edge.source ∈ ids := hsources ▸ List.mem_map_of_mem hmem
    have hstart : startId ∉ ids := fun hstart =>
      (List.nodup_cons.mp hline).1 (List.mem_append_left _ hstart)
    simpa using fun heq : edge.source = startId => hstart (heq ▸ hid)
  have hbefore : ∀ edge ∈ edges, edge.target = startId → edge.sourceKind = .sectionVertex →
      judgement.valid edge.source = true := fun edge hmem htarget =>
    absurd htarget (target_ne_start_of_edges hedges hline edge hmem)
  obtain ⟨walked, hwalked, hactive⟩ := activeForward_judge hsound hfirst hbefore
  -- what the judge walks is the walk along the line
  obtain rfl := hwalked.unique hsound (walks_line hedges hsections ⟨[], hbelow.symm⟩)
  refine ⟨_, _, rfl, ?_, ?_, hwalked, hactive⟩
  · conv_rhs => rw [hsplit]
    exact List.cons_prefix_cons.mpr ⟨rfl, List.takeWhile_prefix _⟩
  · have hvalid := @List.takeWhile_map _ _ Edge.source judgement.valid
      ((Form.Edge.chain (second :: below)).map (Edge.ofForm kinds))
    rw [hsources] at hvalid
    exact hvalid.symm

theorem activeForward_eq (hforward : ∀ edge ∈ edges, edge.target ≠ startId)
    (judgement : Judgement) :
    activeForward (judge judgement edges) = activeEdges (judge judgement edges) := by
  rw [activeForward, List.filter_eq_self]
  intro edge hactive
  simpa using hforward edge (chooses_of_mem_activeEdges hactive).1

theorem isReached_iff_of_forward (hforward : ∀ edge ∈ edges, edge.target ≠ startId) {id : String}
    (hstart : id ≠ startId) : isReached (judge judgement edges) id = true ↔
      id ∈ (activeForward (judge judgement edges)).map Edge.target := by
  rw [isReached_iff, activeForward_eq hforward, map_toEdge_judge, List.mem_map]
  refine ⟨?_, fun hactive => .inr (.inl hactive)⟩
  rintro (hid | hactive | ⟨edge, hmem, -, htarget⟩)
  · exact absurd hid hstart
  · exact hactive
  · exact absurd htarget (hforward edge hmem)

theorem pathway_line (hsound : Sound kinds edges)
    (hedges : edges = (Form.Edge.chain (line ids)).map (Edge.ofForm kinds))
    (hsections : ∀ id ∈ ids, Members.get? id kinds = some .sectionVertex)
    (hline : (line ids).Nodup) (judgement : Judgement) :
    pathway (judge judgement edges) = ids.takeWhile judgement.valid ∧
      ids.filter (isReached (judge judgement edges)) =
        ids.take ((ids.takeWhile judgement.valid).length + 1) := by
  obtain ⟨first, walked, hfirst, hprefix, hsources, hwalked, hactive⟩ :=
    activeForward_line hsound hedges hsections hline judgement
  refine ⟨(pathway_of_activeForward hsound hfirst hwalked hactive).trans hsources, ?_⟩
  have htargets : (first :: walked).map Edge.target =
      (ids ++ [endId]).take ((ids.takeWhile judgement.valid).length + 1) := by
    have hall : edges.map Edge.target = ids ++ [endId] := by
      rw [hedges, List.map_map, ← map_target_line]
      rfl
    rw [← hall, ← hsources, List.length_map, ← List.length_cons (a := first), ← List.map_take,
      ← List.prefix_iff_eq_take.mp hprefix]
  have hforward := target_ne_start_of_edges hedges hline
  obtain ⟨hfront, -, hend⟩ := List.nodup_append.mp hline
  obtain ⟨hstart, hdistinct⟩ := List.nodup_cons.mp hfront
  have hreached : ∀ id ∈ ids, isReached (judge judgement edges) id =
      (ids.take ((ids.takeWhile judgement.valid).length + 1)).elem id := by
    intro id hid
    have hne : id ∉ [endId].take ((ids.takeWhile judgement.valid).length + 1 - ids.length) :=
      fun hlast => hend id (.tail _ hid) id (List.mem_of_mem_take hlast) rfl
    rw [Bool.eq_iff_iff, List.elem_iff,
      isReached_iff_of_forward hforward (ne_of_mem_of_not_mem hid hstart), hactive, htargets,
      List.take_append, List.mem_append, or_iff_left hne]
  rw [List.filter_congr hreached, ← List.Nodup.take_eq_filter_mem hdistinct]

end

end Route

end FormFlow
