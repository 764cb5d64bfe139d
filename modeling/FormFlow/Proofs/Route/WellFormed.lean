import Mathlib.Data.List.Nodup
import Mathlib.Data.List.Perm.Subperm
import FormFlow.Proofs.Plan.Sections
import FormFlow.Proofs.Route.Check

/-!
# Well-formed routes

`Form.checkRoute` accepts exactly the forms whose sections, decisions and edges make a route, as
`Form.IsWellFormed` says it without the check (`checkRoute_accepts`). What it answers are the ids of
the sections and decisions, `START` and `END`, each with its kind.

That the check accepts such a form is shown step by step, from the rules that `Proofs.Route.Check`
reads off an accepted one.
-/

namespace FormFlow.Form

/-! ### What makes a route -/

def sectionIds (form : Form) : List String := form.sections.filterMap (·.id)

def decisionIds (form : Form) : List String := form.decisions.map (·.id)

def vertexIds (form : Form) : List String := form.sectionIds ++ form.decisionIds

/-- Sections and decisions with ids of their own, joined by edges into a route. -/
structure IsWellFormed (form : Form) : Prop where
  named : ∀ node ∈ form.sections, node.id ≠ none
  distinct : form.vertexIds.Nodup
  unreserved : startId ∉ form.vertexIds ∧ endId ∉ form.vertexIds
  target : ∀ edge ∈ form.edges,
    edge.target ∈ form.vertexIds ∨ edge.target = startId ∨ edge.target = endId
  source : ∀ edge ∈ form.edges, edge.source ∈ form.vertexIds ∨ edge.source = startId
  conditional : ∀ edge ∈ form.edges, edge.condition ≠ none ↔ edge.source ∈ form.decisionIds
  started : ∃ edge ∈ form.edges, edge.source = startId
  intoStart : (form.edges.filter (·.target = startId)).length ≤ 1
  /-- Nothing leads to the vertex before `START`, and something to every other. -/
  entered : ∀ id ∈ form.vertexIds, (∃ edge ∈ form.edges, edge.target = id) ↔
    ∀ edge ∈ form.edges, edge.source = id → edge.target ≠ startId
  sectionEdge : ∀ id ∈ form.sectionIds, ∃ edge, form.edges.filter (·.source = id) = [edge]
  decisionEdges : ∀ id ∈ form.decisionIds, ∃ yes no,
    (form.edges.filter (·.source = id)).Perm [yes, no] ∧
      yes.condition = some true ∧ no.condition = some false

/-- Whether a vertex of a form is of a kind. -/
def IsOfKind (form : Form) (id : String) : VertexKind → Prop
  | .start => id = startId
  | .finish => id = endId
  | .sectionVertex => id ∈ form.sectionIds
  | .decision => id ∈ form.decisionIds

/-- The sections and decisions that have an id, with their kinds. -/
def vertices (form : Form) : Members VertexKind :=
  form.sectionIds.map (·, .sectionVertex) ++ form.decisionIds.map (·, .decision)

variable {form : Form}

@[simp] theorem keys_vertices (form : Form) : Members.keys form.vertices = form.vertexIds := by
  simp [Members.keys, vertices, vertexIds, Function.comp_def]

theorem mem_vertices {id : String} {kind : VertexKind} : (id, kind) ∈ form.vertices ↔
    id ∈ form.sectionIds ∧ kind = .sectionVertex ∨ id ∈ form.decisionIds ∧ kind = .decision := by
  simp [vertices, eq_comm]

theorem declaredVertices_eq_iff : form.declaredVertices =
    form.vertices.map (fun vertex => (some vertex.1, vertex.2)) ↔
      ∀ node ∈ form.sections, node.id ≠ none := by
  have hdecisions : form.decisions.map (fun decision => (some decision.id, VertexKind.decision)) =
      (form.decisionIds.map (·, VertexKind.decision)).map
        (fun vertex => (some vertex.1, vertex.2)) := by
    simp [decisionIds, Function.comp_def]
  rw [declaredVertices, vertices, List.map_append, ← hdecisions, List.append_left_inj, sectionIds]
  induction form.sections with
  | nil => simp
  | cons node rest ih =>
    cases hid : node.id with
    | none =>
      have hlength := List.length_filterMap_le (fun node : Node => node.id) rest
      simp only [List.map_cons, hid, List.filterMap_cons, List.mem_cons, forall_eq_or_imp,
        ne_eq, not_true_eq_false, false_and, iff_false]
      intro heq
      have hcount := congrArg List.length heq
      simp only [List.length_cons, List.length_map] at hcount
      omega
    | some id => simpa [hid] using ih

/-! ### Each step of the check accepts -/

theorem addVertices_eq_ok {before added : Members VertexKind}
    (hunreserved : ∀ vertex ∈ added, isReserved vertex.1 = false)
    (hnodup : (Members.keys (before ++ added)).Nodup) :
    addVertices before (added.map fun vertex => (some vertex.1, vertex.2)) =
      .ok (before ++ added) := by
  induction added generalizing before with
  | nil => simp [addVertices]
  | cons first rest ih =>
    obtain ⟨name, kind⟩ := first
    have hfree : Members.get? name before = none := by
      rw [Members.get?_eq_none_iff]
      intro hmem
      rw [Members.keys, List.map_append, List.nodup_append] at hnodup
      exact hnodup.2.2 name hmem name (by simp) rfl
    have hname : isReserved name = false := hunreserved _ List.mem_cons_self
    have hfirst : addVertex before (some name) kind = .ok (before ++ [(name, kind)]) := by
      simp [addVertex, hname, Members.contains, hfree]
    have hrest := @ih (before ++ [(name, kind)])
      (fun vertex hmem => hunreserved vertex (List.mem_cons_of_mem _ hmem)) (by simpa using hnodup)
    rw [List.map_cons, addVertices, hfirst]
    simpa using hrest

theorem checkEdge_eq_ok {vertices : Members VertexKind} {earlier : List Edge} {edge : Edge}
    (htarget : isReserved edge.target = true ∨
      ∃ kind, Members.get? edge.target vertices = some kind)
    (hsource : ∃ kind, sourceKind? vertices edge.source = some kind ∧ Allows kind edge.condition)
    (hstart : edge.target = startId → ∀ other ∈ earlier, other.target ≠ startId) :
    checkEdge vertices earlier edge = .ok () := by
  have hjoined : (!isReserved edge.target && !Members.contains edge.target vertices) = false := by
    rcases htarget with hreserved | ⟨kind, hkind⟩
    · simp [hreserved]
    · simp [Members.contains, hkind]
  have honce : (edge.target = startId && earlier.any (·.target = startId)) = false := by
    rw [Bool.and_eq_false_imp, decide_eq_true_eq]
    intro heq
    simpa using hstart heq
  obtain ⟨kind, hkind, hallows⟩ := hsource
  unfold checkEdge
  rw [hjoined, hkind]
  cases kind <;> cases hcondition : edge.condition <;> simp_all [Allows]

theorem checkEdges_eq_ok {vertices : Members VertexKind} {earlier edges : List Edge}
    (h : ∀ front edge back, edges = front ++ edge :: back →
      checkEdge vertices (earlier ++ front) edge = .ok ()) :
    checkEdges vertices earlier edges = .ok () := by
  induction edges generalizing earlier with
  | nil => rfl
  | cons first rest ih =>
    have hfirst : checkEdge vertices earlier first = .ok () := by simpa using h [] first rest rfl
    rw [checkEdges, hfirst]
    refine ih fun front edge back hsplit => ?_
    simpa using h (first :: front) edge back (by rw [hsplit, List.cons_append])

theorem checkVertex_of_tests {edges : List Edge} {id : String} {kind : VertexKind}
    (hbefore : (edges.filter (·.source = id)).any (·.target = startId) = true →
      edges.filter (·.target = id) = [])
    (honward : edges.filter (·.source = id) ≠ [])
    (hsingle : kind = .sectionVertex → (edges.filter (·.source = id)).length ≤ 1)
    (hentered : (edges.filter (·.source = id)).any (·.target = startId) = false →
      edges.filter (·.target = id) ≠ [])
    (hdecision : kind = .decision → (edges.filter (·.source = id)).length ≤ 2 ∧
      ∀ output, (edges.filter (·.source = id)).any (·.condition = some output) = true) :
    checkVertex edges id kind = .ok () := by
  unfold checkVertex
  simp only
  split
  · next first tail hprecedes hincoming =>
    rw [hbefore hprecedes] at hincoming
    exact absurd hincoming (List.cons_ne_nil _ _).symm
  · rw [if_neg (by simpa using honward), if_neg (by simpa using hsingle),
      if_neg (by simpa using hentered)]
    by_cases hkind : kind = .decision
    · obtain ⟨hfew, hbranch⟩ := hdecision hkind
      rw [if_pos hkind, if_neg (by simpa using hbranch true),
        if_neg (by simpa using hbranch false), if_neg (by omega)]
    · rw [if_neg hkind]

theorem checkVertex_eq_ok {edges : List Edge} {id : String} {kind : VertexKind}
    (h : Fits edges id kind) : checkVertex edges id kind = .ok () := by
  refine checkVertex_of_tests (fun hprecedes => ?_) h.onward h.single (fun hnot hnone => ?_)
    fun hkind => ⟨h.double hkind, fun output => ?_⟩
  · obtain ⟨edge, hedge, htarget⟩ := List.any_eq_true.mp hprecedes
    obtain ⟨hmem, hsource⟩ := List.mem_filter.mp hedge
    rw [List.filter_eq_nil_iff]
    intro other hother
    simpa using h.beforeStart edge hmem (by simpa using hsource) (by simpa using htarget) other
      hother
  · rw [List.any_eq_false] at hnot
    obtain ⟨edge, hmem, htarget⟩ := h.entered fun edge hmem hsource => by
      simpa using hnot edge (List.mem_filter.mpr ⟨hmem, by simpa using hsource⟩)
    exact List.filter_eq_nil_iff.mp hnone edge hmem (by simpa using htarget)
  · obtain ⟨edge, hmem, hsource, hcondition⟩ := h.branches hkind output
    rw [List.any_eq_true]
    exact ⟨edge, List.mem_filter.mpr ⟨hmem, by simpa using hsource⟩, by simpa using hcondition⟩

theorem checkVertices_eq_ok {edges : List Edge} {vertices : Members VertexKind}
    (h : ∀ vertex ∈ vertices, Fits edges vertex.1 vertex.2) :
    checkVertices edges vertices = .ok () := by
  induction vertices with
  | nil => rfl
  | cons first rest ih =>
    rw [checkVertices, checkVertex_eq_ok (h first List.mem_cons_self)]
    exact ih fun vertex hmem => h vertex (List.mem_cons_of_mem _ hmem)

theorem checkRoute_of_isRoute {vertices : Members VertexKind} (h : IsRoute form vertices) :
    form.checkRoute = .ok (vertices ++ [(startId, .start), (endId, .finish)]) := by
  have hvertices : addVertices [] form.declaredVertices = .ok vertices := by
    rw [h.declared]
    simpa using @addVertices_eq_ok [] vertices h.unreserved (by simpa using h.nodup)
  have hedges : checkEdges vertices [] form.edges = .ok () := by
    refine checkEdges_eq_ok fun front edge back hsplit => ?_
    have hmem : edge ∈ form.edges := by simp [hsplit]
    refine checkEdge_eq_ok (h.target edge hmem) (h.source edge hmem) fun hstart other hother => ?_
    have hpairwise := h.intoStart
    rw [hsplit, List.pairwise_append] at hpairwise
    exact hpairwise.2.2 other (by simpa using hother) edge List.mem_cons_self hstart
  have hstarted : form.edges.any (·.source = startId) = true := by simpa using h.started
  simp [checkRoute, bind, Except.bind, hvertices, hedges, hstarted, checkVertices_eq_ok h.fits]

/-! ### Routes are the well-formed forms -/

theorem IsWellFormed.fits (h : form.IsWellFormed) {id : String} {kind : VertexKind}
    (hmem : (id, kind) ∈ form.vertices) : Fits form.edges id kind := by
  have hid : id ∈ form.vertexIds := by
    rw [← keys_vertices]
    exact List.mem_map.mpr ⟨_, hmem, rfl⟩
  have hentered : (∀ edge ∈ form.edges, edge.source = id → edge.target ≠ startId) →
      ∃ edge ∈ form.edges, edge.target = id := (h.entered id hid).mpr
  have hbefore : ∀ edge ∈ form.edges, edge.source = id → edge.target = startId →
      ∀ other ∈ form.edges, other.target ≠ id := fun edge hedge hsource htarget other hother heq =>
    (h.entered id hid).mp ⟨other, hother, heq⟩ edge hedge hsource htarget
  rcases mem_vertices.mp hmem with ⟨hsection, rfl⟩ | ⟨hdecision, rfl⟩
  · obtain ⟨edge, honly⟩ := h.sectionEdge id hsection
    exact ⟨by simp [honly], fun _ => by simp [honly], nofun, nofun, hentered, hbefore⟩
  · obtain ⟨yes, no, hperm, hyes, hno⟩ := h.decisionEdges id hdecision
    have hlength : (form.edges.filter (·.source = id)).length = 2 := hperm.length_eq
    refine ⟨?_, nofun, fun _ output => ?_, fun _ => Nat.le_of_eq hlength, hentered, hbefore⟩
    · rw [← List.length_pos_iff, hlength]
      exact Nat.two_pos
    · have hleaves : ∀ edge ∈ [yes, no], edge ∈ form.edges ∧ edge.source = id := by
        intro edge hedge
        simpa using hperm.mem_iff.mpr hedge
      cases output with
      | true => exact ⟨yes, (hleaves yes (by simp)).1, (hleaves yes (by simp)).2, hyes⟩
      | false => exact ⟨no, (hleaves no (by simp)).1, (hleaves no (by simp)).2, hno⟩

theorem get?_vertices (hdistinct : form.vertexIds.Nodup) {id : String} {kind : VertexKind} :
    Members.get? id form.vertices = some kind ↔
      id ∈ form.sectionIds ∧ kind = .sectionVertex ∨ id ∈ form.decisionIds ∧ kind = .decision := by
  rw [← mem_vertices]
  refine ⟨Members.mem_of_get?, Members.get?_of_mem ?_⟩
  rwa [keys_vertices]

theorem mem_vertexIds {id : String} :
    id ∈ form.vertexIds ↔ ∃ kind, (id, kind) ∈ form.vertices := by
  rw [← keys_vertices, Members.keys]
  simp

theorem sourceKind?_eq_some_iff (hdistinct : form.vertexIds.Nodup)
    (hstart : startId ∉ form.vertexIds) {id : String} {kind : VertexKind} :
    sourceKind? form.vertices id = some kind ↔ form.IsOfKind id kind ∧ kind ≠ .finish := by
  unfold sourceKind?
  split_ifs with hid
  · subst hid
    rw [vertexIds, List.mem_append, not_or] at hstart
    cases kind <;> simp [IsOfKind, hstart.1, hstart.2]
  · rw [get?_vertices hdistinct]
    cases kind <;> simp [IsOfKind, hid]

theorem conditional_iff (hdistinct : form.vertexIds.Nodup) (hstart : startId ∉ form.vertexIds)
    {edge : Edge} {kind : VertexKind} (hkind : form.IsOfKind edge.source kind)
    (hfinish : kind ≠ .finish) :
    Allows kind edge.condition ↔ (edge.condition ≠ none ↔ edge.source ∈ form.decisionIds) := by
  cases kind with
  | finish => exact absurd rfl hfinish
  | decision => simp [Allows, show edge.source ∈ form.decisionIds from hkind]
  | start =>
    have hsource : edge.source = startId := hkind
    have hnot : edge.source ∉ form.decisionIds := fun hmem =>
      hstart (hsource ▸ List.mem_append_right _ hmem)
    simp [Allows, hnot]
  | sectionVertex =>
    have hnot : edge.source ∉ form.decisionIds := fun hmem =>
      (List.nodup_append.mp hdistinct).2.2 _ hkind _ hmem rfl
    simp [Allows, hnot]

theorem pairwise_iff_length_le_one {edges : List Edge} :
    edges.Pairwise (fun earlier later => later.target = startId → earlier.target ≠ startId) ↔
      (edges.filter (·.target = startId)).length ≤ 1 := by
  have hshort : ∀ kept : List Edge, kept.Pairwise (fun _ _ => False) ↔ kept.length ≤ 1 := by
    intro kept
    match kept with
    | [] => simp
    | [_] => simp
    | first :: second :: rest =>
      refine iff_of_false (fun h => ?_) (by simp)
      exact (List.pairwise_cons.mp h).1 second List.mem_cons_self
  rw [← hshort, List.pairwise_filter]
  refine List.Pairwise.iff fun earlier later => ?_
  rw [decide_eq_true_eq, decide_eq_true_eq]
  exact forall_comm

theorem IsWellFormed.isRoute (h : form.IsWellFormed) : IsRoute form form.vertices := by
  have hget : ∀ id ∈ form.vertexIds, ∃ kind, Members.get? id form.vertices = some kind := by
    intro id hid
    obtain ⟨kind, hmem⟩ := mem_vertexIds.mp hid
    exact ⟨kind, (get?_vertices h.distinct).mpr (mem_vertices.mp hmem)⟩
  refine ⟨declaredVertices_eq_iff.mpr h.named, by rw [keys_vertices]; exact h.distinct,
    fun vertex hmem => ?_, fun edge hmem => ?_, fun edge hmem => ?_,
    pairwise_iff_length_le_one.mpr h.intoStart, h.started, fun vertex hmem => h.fits hmem⟩
  · have hid : vertex.1 ∈ form.vertexIds := mem_vertexIds.mpr ⟨vertex.2, hmem⟩
    have hne : vertex.1 ≠ startId ∧ vertex.1 ≠ endId :=
      ⟨fun heq => h.unreserved.1 (heq ▸ hid), fun heq => h.unreserved.2 (heq ▸ hid)⟩
    simp [isReserved, hne]
  · rcases h.target edge hmem with hid | hreserved
    · exact Or.inr (hget _ hid)
    · exact Or.inl (by simpa [isReserved] using hreserved)
  · obtain ⟨kind, hkind, hfinish⟩ :
        ∃ kind, form.IsOfKind edge.source kind ∧ kind ≠ .finish := by
      rcases h.source edge hmem with hid | hstart
      · rcases List.mem_append.mp hid with hsection | hdecision
        · exact ⟨.sectionVertex, hsection, by simp⟩
        · exact ⟨.decision, hdecision, by simp⟩
      · exact ⟨.start, hstart, by simp⟩
    exact ⟨kind, (sourceKind?_eq_some_iff h.distinct h.unreserved.1).mpr ⟨hkind, hfinish⟩,
      (conditional_iff h.distinct h.unreserved.1 hkind hfinish).mpr (h.conditional edge hmem)⟩

theorem perm_of_branches {edges : List Edge} (hlength : edges.length ≤ 2)
    (hbranch : ∀ output, ∃ edge ∈ edges, edge.condition = some output) :
    ∃ yes no, edges.Perm [yes, no] ∧ yes.condition = some true ∧ no.condition = some false := by
  obtain ⟨yes, hyes, hyesCondition⟩ := hbranch true
  obtain ⟨no, hno, hnoCondition⟩ := hbranch false
  have hne : yes ≠ no := by
    rintro rfl
    simp [hyesCondition] at hnoCondition
  have hsub : [yes, no].Subperm edges :=
    List.subperm_of_subset (by simp [hne]) (by simp [hyes, hno])
  exact ⟨yes, no, (hsub.perm_of_length_le hlength).symm, hyesCondition, hnoCondition⟩

theorem IsRoute.vertices_eq {vertices : Members VertexKind} (h : IsRoute form vertices) :
    (∀ node ∈ form.sections, node.id ≠ none) ∧ vertices = form.vertices := by
  have hnamed : ∀ node ∈ form.sections, node.id ≠ none := by
    intro node hnode hnone
    have hmem : (node.id, VertexKind.sectionVertex) ∈ form.declaredVertices :=
      List.mem_append_left _ (List.mem_map.mpr ⟨node, hnode, rfl⟩)
    rw [h.declared, List.mem_map, hnone] at hmem
    obtain ⟨vertex, _, hvertex⟩ := hmem
    simp at hvertex
  have hinjective : Function.Injective
      fun vertex : String × VertexKind => (some vertex.1, vertex.2) := by
    rintro ⟨id, kind⟩ ⟨id', kind'⟩ heq
    simpa using heq
  have hsame := h.declared.symm.trans (declaredVertices_eq_iff.mpr hnamed)
  exact ⟨hnamed, List.map_injective_iff.mpr hinjective hsame⟩

theorem IsRoute.isWellFormed (h : IsRoute form form.vertices) : form.IsWellFormed := by
  have hdistinct : form.vertexIds.Nodup := by
    rw [← keys_vertices]
    exact h.nodup
  have hunreserved : ∀ id ∈ form.vertexIds, isReserved id = false := by
    intro id hid
    obtain ⟨kind, hmem⟩ := mem_vertexIds.mp hid
    exact h.unreserved _ hmem
  have hstart : startId ∉ form.vertexIds := fun hmem => by
    simpa [isReserved] using hunreserved _ hmem
  have hend : endId ∉ form.vertexIds := fun hmem => by
    simpa [isReserved] using hunreserved _ hmem
  have hget : ∀ {id kind}, Members.get? id form.vertices = some kind → id ∈ form.vertexIds :=
    fun hkind => mem_vertexIds.mpr ⟨_, Members.mem_of_get? hkind⟩
  have hsource : ∀ edge ∈ form.edges, ∃ kind, form.IsOfKind edge.source kind ∧
      kind ≠ .finish ∧ Allows kind edge.condition := by
    intro edge hmem
    obtain ⟨kind, hkind, hallows⟩ := h.source edge hmem
    obtain ⟨hkind, hfinish⟩ := (sourceKind?_eq_some_iff hdistinct hstart).mp hkind
    exact ⟨kind, hkind, hfinish, hallows⟩
  refine
    { named := h.vertices_eq.1
      distinct := hdistinct
      unreserved := ⟨hstart, hend⟩
      target := fun edge hmem => ?_
      source := fun edge hmem => ?_
      conditional := fun edge hmem => ?_
      started := h.started
      intoStart := pairwise_iff_length_le_one.mp h.intoStart
      entered := fun id hid => ?_
      sectionEdge := fun id hid => ?_
      decisionEdges := fun id hid => ?_ }
  · rcases h.target edge hmem with hreserved | ⟨kind, hkind⟩
    · exact Or.inr (by simpa [isReserved] using hreserved)
    · exact Or.inl (hget hkind)
  · obtain ⟨kind, hkind, hfinish, _⟩ := hsource edge hmem
    cases kind with
    | start => exact Or.inr hkind
    | finish => exact absurd rfl hfinish
    | sectionVertex => exact Or.inl (List.mem_append_left _ hkind)
    | decision => exact Or.inl (List.mem_append_right _ hkind)
  · obtain ⟨kind, hkind, hfinish, hallows⟩ := hsource edge hmem
    exact (conditional_iff hdistinct hstart hkind hfinish).mp hallows
  · obtain ⟨kind, hmem⟩ := mem_vertexIds.mp hid
    have hfits := h.fits _ hmem
    refine ⟨?_, hfits.entered⟩
    rintro ⟨other, hother, htarget⟩ edge hedge hsource hprecedes
    exact hfits.beforeStart edge hedge hsource hprecedes other hother htarget
  · have hfits := h.fits _ (mem_vertices.mpr (Or.inl ⟨hid, rfl⟩))
    have hpos := List.length_pos_iff.mpr hfits.onward
    have hle := hfits.single rfl
    exact List.length_eq_one_iff.mp (Nat.le_antisymm hle hpos)
  · have hfits := h.fits _ (mem_vertices.mpr (Or.inr ⟨hid, rfl⟩))
    refine perm_of_branches (hfits.double rfl) fun output => ?_
    obtain ⟨edge, hmem, hsource, hcondition⟩ := hfits.branches rfl output
    exact ⟨edge, List.mem_filter.mpr ⟨hmem, by simpa using hsource⟩, hcondition⟩

theorem checkRoute_eq_ok_iff {kinds : Members VertexKind} :
    form.checkRoute = .ok kinds ↔ form.IsWellFormed ∧ kinds = Route.withEnds form.vertices := by
  constructor
  · intro h
    obtain ⟨vertices, hroute, hkinds⟩ := checkRoute_ok h
    obtain rfl := hroute.vertices_eq.2
    exact ⟨hroute.isWellFormed, hkinds⟩
  · rintro ⟨h, rfl⟩
    exact checkRoute_of_isRoute h.isRoute

theorem IsWellFormed.get?_kinds (h : form.IsWellFormed) {id : String} {kind : VertexKind} :
    Members.get? id (Route.withEnds form.vertices) = some kind ↔ form.IsOfKind id kind := by
  have hnot : ∀ other ∉ form.vertexIds, other ∉ form.sectionIds ∧ other ∉ form.decisionIds := by
    intro other hother
    rwa [vertexIds, List.mem_append, not_or] at hother
  rw [Route.get?_withEnds h.isRoute]
  split_ifs with hstart hend
  · have hne : startId ≠ endId := by decide
    cases kind <;> simp [IsOfKind, hstart, hne, hnot _ h.unreserved.1]
  · have hne : endId ≠ startId := by decide
    cases kind <;> simp [IsOfKind, hend, hne, hnot _ h.unreserved.2]
  · rw [get?_vertices h.distinct]
    cases kind <;> simp [IsOfKind, hstart, hend]

theorem IsWellFormed.nodup_kinds (h : form.IsWellFormed) :
    (Members.keys (Route.withEnds form.vertices)).Nodup := by
  have hkeys : Members.keys (Route.withEnds form.vertices) =
      form.vertexIds ++ [startId, endId] := by
    rw [← keys_vertices]
    simp [Members.keys, Route.withEnds]
  rw [hkeys, List.nodup_append]
  refine ⟨h.distinct, by decide, ?_⟩
  rintro id hid _ hend rfl
  rcases List.mem_pair.mp hend with rfl | rfl
  · exact h.unreserved.1 hid
  · exact h.unreserved.2 hid

/-- The check accepts exactly the well-formed forms, and answers with the ids of their sections and
decisions, `START` and `END`, each once and with its kind. -/
theorem checkRoute_accepts (form : Form) :
    ((∃ kinds, form.checkRoute = .ok kinds) ↔ form.IsWellFormed) ∧
      ∀ kinds, form.checkRoute = .ok kinds → (Members.keys kinds).Nodup ∧
        ∀ id kind, Members.get? id kinds = some kind ↔ form.IsOfKind id kind := by
  refine ⟨by simp [checkRoute_eq_ok_iff], fun kinds h => ?_⟩
  obtain ⟨hform, rfl⟩ := checkRoute_eq_ok_iff.mp h
  exact ⟨hform.nodup_kinds, fun id kind => hform.get?_kinds⟩

end FormFlow.Form
