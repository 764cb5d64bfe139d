import FormFlow.Proofs.Plan.Basic
import FormFlow.Proofs.Route.Check
import FormFlow.Proofs.Route.Order

/-!
# Sound routes

What is known of the vertices and the ordered edges of every plan (`Route.Sound`). All that is said
of judged edges and of the way through them rests on these facts and on no others.
-/

namespace FormFlow.Route

/-- The kinds of the vertices and the edges, in the order of evaluation, of an accepted route. -/
structure Sound (kinds : Members VertexKind) (edges : List Edge) : Prop where
  /-- No edge leads to the source of an edge before it. -/
  forward : edges.Pairwise fun earlier later => later.target ≠ earlier.source
  noLoop : ∀ edge ∈ edges, edge.target ≠ edge.source
  sourceKind : ∀ edge ∈ edges, Members.get? edge.source kinds = some edge.sourceKind
  targetKind : ∀ edge ∈ edges, Members.get? edge.target kinds = some edge.targetKind
  startKind : ∀ id, Members.get? id kinds = some .start ↔ id = startId
  finishKind : ∀ id, Members.get? id kinds = some .finish ↔ id = endId
  source_ne_end : ∀ edge ∈ edges, edge.source ≠ endId
  started : ∃ edge ∈ edges, edge.source = startId
  /-- A section leads on by one edge. -/
  section_edge : ∀ id, Members.get? id kinds = some .sectionVertex →
    ∃ edge, edges.filter (·.source = id) = [edge]
  /-- A decision leads on by one edge for each output. -/
  decision_edge : ∀ id, Members.get? id kinds = some .decision → ∀ output,
    ∃ edge, (edges.filter (·.source = id)).filter (·.condition = some output) = [edge]
  conditional : ∀ edge ∈ edges, edge.sourceKind = .decision → edge.condition ≠ none
  /-- Nothing leads to the vertex before `START`. -/
  beforeStart : ∀ edge ∈ edges, edge.target = startId → ∀ other ∈ edges, other.target ≠ edge.source
  /-- At most one edge leads to `START`. -/
  intoStart : ∀ edge ∈ edges, ∀ other ∈ edges,
    edge.target = startId → other.target = startId → edge = other

section

variable {form : Form} {vertices : Members VertexKind}

theorem get?_reserved (h : form.IsRoute vertices) {id : String} (hid : isReserved id = true) :
    Members.get? id vertices = none := by
  rw [Members.get?_eq_none_iff]
  intro hmem
  obtain ⟨vertex, hvertex, rfl⟩ := List.mem_map.mp hmem
  simp [h.unreserved vertex hvertex] at hid

theorem get?_vertices_kind (h : form.IsRoute vertices) {id : String} {kind : VertexKind}
    (hget : Members.get? id vertices = some kind) :
    kind = .sectionVertex ∨ kind = .decision := by
  have hmem : (some id, kind) ∈ form.declaredVertices := by
    rw [h.declared, List.mem_map]
    exact ⟨(id, kind), Members.mem_of_get? hget, rfl⟩
  simp only [Form.declaredVertices, List.mem_append, List.mem_map, Prod.mk.injEq] at hmem
  rcases hmem with ⟨_, _, _, rfl⟩ | ⟨_, _, _, rfl⟩
  · exact Or.inl rfl
  · exact Or.inr rfl

/-- The kinds of all vertices, `START` and `END` last. -/
def withEnds (vertices : Members VertexKind) : Members VertexKind :=
  vertices ++ [(startId, .start), (endId, .finish)]

theorem get?_withEnds (h : form.IsRoute vertices) (id : String) :
    Members.get? id (withEnds vertices) =
      if id = startId then some .start else if id = endId then some .finish
      else Members.get? id vertices := by
  rw [withEnds, Members.get?_append]
  by_cases hstart : id = startId
  · subst hstart
    rw [get?_reserved h (by simp [isReserved])]
    simp [Members.get?]
  · by_cases hend : id = endId
    · subst hend
      rw [get?_reserved h (by simp [isReserved])]
      simp [Members.get?, startId, endId]
    · rw [if_neg hstart, if_neg hend]
      simp [Members.get?, Ne.symm hstart, Ne.symm hend]

theorem get?_withEnds_end_iff (h : form.IsRoute vertices) {id : String} {kind : VertexKind}
    (hsection : kind ≠ .sectionVertex) (hdecision : kind ≠ .decision) :
    Members.get? id (withEnds vertices) = some kind ↔
      id = startId ∧ kind = .start ∨ id = endId ∧ kind = .finish := by
  rw [get?_withEnds h]
  by_cases hstart : id = startId
  · simp [hstart, startId, endId, eq_comm]
  · by_cases hend : id = endId
    · simp [hend, startId, endId, eq_comm]
    · simp only [hstart, hend, if_false, false_and, or_false, iff_false]
      intro hget
      rcases get?_vertices_kind h hget with hkind | hkind
      · exact hsection hkind
      · exact hdecision hkind

theorem get?_withEnds_of_sourceKind? (h : form.IsRoute vertices) {id : String} {kind : VertexKind}
    (hkind : Form.sourceKind? vertices id = some kind) :
    Members.get? id (withEnds vertices) = some kind ∧ id ≠ endId := by
  rw [get?_withEnds h]
  unfold Form.sourceKind? at hkind
  by_cases hstart : id = startId
  · rw [if_pos hstart] at hkind ⊢
    exact ⟨hkind, by simp [hstart, startId, endId]⟩
  · rw [if_neg hstart] at hkind ⊢
    have hend : id ≠ endId := by
      rintro rfl
      rw [get?_reserved h (by simp [isReserved])] at hkind
      simp at hkind
    rw [if_neg hend]
    exact ⟨hkind, hend⟩

theorem exists_get?_target (h : form.IsRoute vertices) {edge : Form.Edge}
    (hmem : edge ∈ form.edges) :
    ∃ kind, Members.get? edge.target (withEnds vertices) = some kind := by
  rw [get?_withEnds h]
  by_cases hstart : edge.target = startId
  · exact ⟨.start, if_pos hstart⟩
  · by_cases hend : edge.target = endId
    · exact ⟨.finish, by rw [if_neg hstart, if_pos hend]⟩
    · rw [if_neg hstart, if_neg hend]
      rcases h.target edge hmem with hreserved | hkind
      · simp [isReserved, hstart, hend] at hreserved
      · exact hkind

end

/-! ### The edges of one vertex -/

theorem mem_filter_singleton {edges : List Edge} {keep : Edge → Bool} {edge only : Edge}
    (h : edges.filter keep = [only]) : edge ∈ edges ∧ keep edge = true ↔ edge = only := by
  rw [← List.mem_filter, h, List.mem_singleton]

theorem singleton_of_branches {edges : List Edge} (hlength : edges.length ≤ 2)
    (hbranch : ∀ output, ∃ edge ∈ edges, edge.condition = some output) (output : Bool) :
    ∃ edge, edges.filter (·.condition = some output) = [edge] := by
  obtain ⟨yes, hyes, hyesCond⟩ := hbranch true
  obtain ⟨no, hno, hnoCond⟩ := hbranch false
  match edges, hlength with
  | [], _ => simp at hyes
  | [only], _ =>
    rw [List.mem_singleton] at hyes hno
    subst hyes hno
    simp [hyesCond] at hnoCond
  | [first, second], _ =>
    simp only [List.mem_cons, List.not_mem_nil, or_false] at hyes hno
    rcases hyes with rfl | rfl <;> rcases hno with rfl | rfl
    · simp [hyesCond] at hnoCond
    · cases output <;> simp [hyesCond, hnoCond]
    · cases output <;> simp [hyesCond, hnoCond]
    · simp [hyesCond] at hnoCond

section

variable {form : Form} {vertices : Members VertexKind} {edges : List Edge}

theorem fits_of_get? (h : form.IsRoute vertices) {id : String} {kind : VertexKind}
    (hkind : Members.get? id (withEnds vertices) = some kind) (hstart : kind ≠ .start)
    (hfinish : kind ≠ .finish) : Form.Fits form.edges id kind := by
  rw [get?_withEnds h] at hkind
  split_ifs at hkind
  · exact absurd (Option.some.inj hkind).symm hstart
  · exact absurd (Option.some.inj hkind).symm hfinish
  · exact h.fits (id, kind) (Members.mem_of_get? hkind)

theorem section_edge_of_isRoute (h : form.IsRoute vertices)
    (hedges : orderEdges (withEnds vertices) form.edges = .ok edges) {id : String}
    (hkind : Members.get? id (withEnds vertices) = some .sectionVertex) :
    ∃ edge, edges.filter (·.source = id) = [edge] := by
  have hfits := fits_of_get? h hkind (by simp) (by simp)
  have hlength : (edges.filter (·.source = id)).length = 1 := by
    rw [filter_orderEdges hedges, List.length_map]
    have hpos := List.length_pos_iff.mpr hfits.onward
    have hle := hfits.single rfl
    omega
  exact List.length_eq_one_iff.mp hlength

theorem decision_edge_of_isRoute (h : form.IsRoute vertices)
    (hedges : orderEdges (withEnds vertices) form.edges = .ok edges) {id : String}
    (hkind : Members.get? id (withEnds vertices) = some .decision) (output : Bool) :
    ∃ edge, (edges.filter (·.source = id)).filter (·.condition = some output) = [edge] := by
  have hfits := fits_of_get? h hkind (by simp) (by simp)
  apply singleton_of_branches
  · rw [filter_orderEdges hedges, List.length_map]
    exact hfits.double rfl
  · intro output
    obtain ⟨edge, hmem, hsource, hcondition⟩ := hfits.branches rfl output
    rw [filter_orderEdges hedges]
    refine ⟨Edge.ofForm (withEnds vertices) edge, ?_, hcondition⟩
    exact List.mem_map.mpr ⟨edge, List.mem_filter.mpr ⟨hmem, by simpa using hsource⟩, rfl⟩

theorem nothing_before_start (h : form.IsRoute vertices) {edge other : Form.Edge}
    (hedge : edge ∈ form.edges) (hother : other ∈ form.edges) (htarget : edge.target = startId)
    (hloop : edge.target ≠ edge.source) : other.target ≠ edge.source := by
  obtain ⟨kind, hkind, _⟩ := h.source edge hedge
  have hne : edge.source ≠ startId := fun heq => hloop (htarget.trans heq.symm)
  rw [Form.sourceKind?, if_neg hne] at hkind
  exact (h.fits _ (Members.mem_of_get? hkind)).beforeStart edge hedge rfl htarget other hother

theorem eq_of_intoStart (h : form.IsRoute vertices) {edge other : Form.Edge}
    (hedge : edge ∈ form.edges) (hother : other ∈ form.edges) (htarget : edge.target = startId)
    (htarget' : other.target = startId) : edge = other := by
  by_contra hne
  obtain ⟨front, back, hsplit⟩ := List.append_of_mem hedge
  have hpairwise := h.intoStart
  rw [hsplit, List.pairwise_append, List.pairwise_cons] at hpairwise
  rw [hsplit, List.mem_append, List.mem_cons] at hother
  rcases hother with hfront | rfl | hback
  · exact hpairwise.2.2 other hfront edge List.mem_cons_self htarget htarget'
  · exact hne rfl
  · exact hpairwise.2.1.1 other hback htarget' htarget

/-! ### Every plan -/

theorem sourceKind_ofForm (h : form.IsRoute vertices) {edge : Form.Edge}
    (hmem : edge ∈ form.edges) : Members.get? edge.source (withEnds vertices) =
      some (Edge.ofForm (withEnds vertices) edge).sourceKind := by
  obtain ⟨kind, hkind, _⟩ := h.source edge hmem
  rw [Edge.ofForm, (get?_withEnds_of_sourceKind? h hkind).1]
  rfl

theorem targetKind_ofForm (h : form.IsRoute vertices) {edge : Form.Edge}
    (hmem : edge ∈ form.edges) : Members.get? edge.target (withEnds vertices) =
      some (Edge.ofForm (withEnds vertices) edge).targetKind := by
  obtain ⟨kind, hkind⟩ := exists_get?_target h hmem
  rw [Edge.ofForm, hkind]
  rfl

theorem condition_of_decision (h : form.IsRoute vertices) {edge : Form.Edge}
    (hmem : edge ∈ form.edges)
    (hkind : (Edge.ofForm (withEnds vertices) edge).sourceKind = .decision) :
    edge.condition ≠ none := by
  obtain ⟨kind, hsourceKind, hallows⟩ := h.source edge hmem
  have hget := (get?_withEnds_of_sourceKind? h hsourceKind).1
  rw [sourceKind_ofForm h hmem, hkind, Option.some.injEq] at hget
  subst hget
  exact hallows

theorem sound_of_isRoute (h : form.IsRoute vertices)
    (hedges : orderEdges (withEnds vertices) form.edges = .ok edges) :
    Sound (withEnds vertices) edges := by
  have horiginal : ∀ edge ∈ edges, ∃ original ∈ form.edges,
      Edge.ofForm (withEnds vertices) original = edge := fun edge hedge =>
    (mem_orderEdges hedges).mp hedge
  refine
    { forward := forward_orderEdges hedges
      noLoop := noLoop_orderEdges hedges
      sourceKind := ?_
      targetKind := ?_
      startKind := fun id => by simp [get?_withEnds_end_iff h]
      finishKind := fun id => by simp [get?_withEnds_end_iff h]
      source_ne_end := ?_
      started := ?_
      section_edge := fun id => section_edge_of_isRoute h hedges
      decision_edge := fun id => decision_edge_of_isRoute h hedges
      conditional := ?_
      beforeStart := ?_
      intoStart := ?_ }
  · intro edge hedge
    obtain ⟨original, hmem, rfl⟩ := horiginal edge hedge
    exact sourceKind_ofForm h hmem
  · intro edge hedge
    obtain ⟨original, hmem, rfl⟩ := horiginal edge hedge
    exact targetKind_ofForm h hmem
  · intro edge hedge
    obtain ⟨original, hmem, rfl⟩ := horiginal edge hedge
    obtain ⟨kind, hkind, _⟩ := h.source original hmem
    exact (get?_withEnds_of_sourceKind? h hkind).2
  · obtain ⟨original, hmem, hstart⟩ := h.started
    exact ⟨_, (mem_orderEdges hedges).mpr ⟨original, hmem, rfl⟩, hstart⟩
  · intro edge hedge hkind
    obtain ⟨original, hmem, rfl⟩ := horiginal edge hedge
    exact condition_of_decision h hmem hkind
  · intro edge hedge htarget other hother
    have hloop := noLoop_orderEdges hedges edge hedge
    obtain ⟨original, hmem, rfl⟩ := horiginal edge hedge
    obtain ⟨original', hmem', rfl⟩ := horiginal other hother
    exact nothing_before_start h hmem hmem' htarget hloop
  · intro edge hedge other hother htarget htarget'
    obtain ⟨original, hmem, rfl⟩ := horiginal edge hedge
    obtain ⟨original', hmem', rfl⟩ := horiginal other hother
    rw [eq_of_intoStart h hmem hmem' htarget htarget']

end

theorem sound_of_makes {form : Form} {plan : Plan} (h : Plan.Makes form plan) :
    Sound plan.kinds plan.edges := by
  obtain ⟨vertices, hroute, hkinds⟩ := Form.checkRoute_ok h.kinds
  have hedges := h.edges
  rw [hkinds] at hedges ⊢
  exact sound_of_isRoute hroute hedges

theorem sound_of_ofDocument {document : Document} {plan : Plan}
    (h : Plan.ofDocument document = .ok plan) : Sound plan.kinds plan.edges := by
  obtain ⟨form, hform⟩ := Plan.exists_makes h
  exact sound_of_makes hform

end FormFlow.Route
