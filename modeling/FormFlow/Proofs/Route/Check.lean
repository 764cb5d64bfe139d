import Mathlib.Data.List.Induction
import FormFlow.Route.Check

/-!
# What the check of a route accepts

Each lemma reads the success of one step of `Form.checkRoute` as the rule that the step decides.
`checkRoute_ok` gathers them: the vertices are the declared sections and decisions, each once and
none of them `START` or `END`, every edge joins vertices under the condition that its source asks
for, and the edges of every vertex are as its kind asks (`Fits`).
-/

namespace FormFlow.Form

/-! ### Vertices -/

theorem addVertex_ok {before vertices : Members VertexKind} {id : Option String}
    {kind : VertexKind} (h : addVertex before id kind = .ok vertices) :
    ∃ name, id = some name ∧ isReserved name = false ∧ name ∉ Members.keys before ∧
      vertices = before ++ [(name, kind)] := by
  unfold addVertex at h
  cases id with
  | none => simp at h
  | some name =>
    simp only at h
    split at h
    · simp at h
    · next hreserved =>
      split at h
      · simp at h
      · next hfree =>
        refine ⟨name, rfl, by simpa using hreserved, ?_, by simpa using h.symm⟩
        rw [← Members.get?_eq_none_iff]
        simpa [Members.contains] using hfree

theorem addVertices_ok {before vertices : Members VertexKind}
    {declared : List (Option String × VertexKind)}
    (h : addVertices before declared = .ok vertices) (hbefore : (Members.keys before).Nodup) :
    ∃ added : Members VertexKind, vertices = before ++ added ∧
      declared = added.map (fun vertex => (some vertex.1, vertex.2)) ∧
      (∀ vertex ∈ added, isReserved vertex.1 = false) ∧ (Members.keys vertices).Nodup := by
  induction declared generalizing before with
  | nil =>
    obtain rfl : before = vertices := by simpa [addVertices] using h
    exact ⟨[], by simp, rfl, by simp, hbefore⟩
  | cons first rest ih =>
    obtain ⟨id, kind⟩ := first
    rw [addVertices] at h
    split at h
    · next middle hfirst =>
      obtain ⟨name, rfl, hreserved, hfree, rfl⟩ := addVertex_ok hfirst
      have hnodup : (Members.keys (before ++ [(name, kind)])).Nodup := by
        rw [Members.keys, List.map_append, List.nodup_append]
        refine ⟨hbefore, by simp, ?_⟩
        intro a ha b hb hab
        have hbname : b = name := by simpa using hb
        exact hfree (hbname ▸ hab ▸ ha)
      obtain ⟨added, rfl, rfl, hall, hkeys⟩ := ih h hnodup
      refine ⟨(name, kind) :: added, by simp, rfl, ?_, hkeys⟩
      intro vertex hmem
      rcases List.mem_cons.mp hmem with rfl | hrest
      · exact hreserved
      · exact hall vertex hrest
    · simp at h

/-! ### Edges -/

/-- Whether an edge of this condition may leave a vertex of this kind. -/
def Allows : VertexKind → Option Bool → Prop
  | .decision, condition => condition ≠ none
  | .finish, _ => True
  | _, condition => condition = none

theorem checkEdge_ok {vertices : Members VertexKind} {earlier : List Edge} {edge : Edge}
    (h : checkEdge vertices earlier edge = .ok ()) :
    (isReserved edge.target = true ∨ ∃ kind, Members.get? edge.target vertices = some kind) ∧
      (∃ kind, sourceKind? vertices edge.source = some kind ∧ Allows kind edge.condition) ∧
      (edge.target = startId → ∀ other ∈ earlier, other.target ≠ startId) := by
  unfold checkEdge at h
  split at h
  · simp at h
  · next htarget =>
    have hjoined : isReserved edge.target = true ∨
        ∃ kind, Members.get? edge.target vertices = some kind := by
      by_cases hreserved : isReserved edge.target = true
      · exact Or.inl hreserved
      · have hin : Members.contains edge.target vertices = true := by
          simpa [hreserved] using htarget
        exact Or.inr (Option.isSome_iff_exists.mp hin)
    refine ⟨hjoined, ?_⟩
    cases hsource : sourceKind? vertices edge.source with
    | none => simp [hsource] at h
    | some kind =>
      rw [hsource] at h
      cases kind <;> cases hcondition : edge.condition <;> rw [hcondition] at h <;>
        simp only [reduceCtorEq, ite_eq_right_iff, imp_false, Bool.and_eq_true,
          decide_eq_true_eq, List.any_eq_true, not_and, not_exists] at h
      all_goals
        exact ⟨⟨_, rfl, by simp [Allows]⟩, h⟩

theorem checkEdges_ok {vertices : Members VertexKind} {earlier edges : List Edge}
    (h : checkEdges vertices earlier edges = .ok ()) {front back : List Edge} {edge : Edge}
    (hsplit : edges = front ++ edge :: back) :
    checkEdge vertices (earlier ++ front) edge = .ok () := by
  induction front generalizing earlier edges with
  | nil =>
    subst hsplit
    rw [List.nil_append, checkEdges] at h
    split at h
    · next hedge => simpa using hedge
    · simp at h
  | cons first rest ih =>
    subst hsplit
    rw [List.cons_append, checkEdges] at h
    split at h
    · simpa using ih h rfl
    · simp at h

theorem pairwise_of_split {α : Type} {R : α → α → Prop} {items : List α}
    (h : ∀ front item back, items = front ++ item :: back → ∀ other ∈ front, R other item) :
    items.Pairwise R := by
  induction items using List.reverseRecOn with
  | nil => exact List.Pairwise.nil
  | append_singleton init last ih =>
    rw [List.pairwise_append]
    refine ⟨ih ?_, List.pairwise_singleton _ _, ?_⟩
    · rintro front item back rfl
      exact h front item (back ++ [last]) (by simp)
    · intro other hother item hitem
      rw [List.mem_singleton] at hitem
      subst hitem
      exact h init item [] rfl other hother

/-! ### The edges of one vertex -/

/-- The edges of a vertex are as its kind asks: nothing leads to the vertex before `START` and
something to every other, a section leads on by one edge, and a decision by one for each output. -/
structure Fits (edges : List Edge) (id : String) (kind : VertexKind) : Prop where
  onward : edges.filter (·.source = id) ≠ []
  single : kind = .sectionVertex → (edges.filter (·.source = id)).length ≤ 1
  branches : kind = .decision → ∀ output,
    ∃ edge ∈ edges, edge.source = id ∧ edge.condition = some output
  double : kind = .decision → (edges.filter (·.source = id)).length ≤ 2
  entered : (∀ edge ∈ edges, edge.source = id → edge.target ≠ startId) →
    ∃ edge ∈ edges, edge.target = id
  beforeStart : ∀ edge ∈ edges, edge.source = id → edge.target = startId →
    ∀ other ∈ edges, other.target ≠ id

theorem checkVertex_tests {edges : List Edge} {id : String} {kind : VertexKind}
    (h : checkVertex edges id kind = .ok ()) :
    ((edges.filter (·.source = id)).any (·.target = startId) = true →
      edges.filter (·.target = id) = []) ∧
    edges.filter (·.source = id) ≠ [] ∧
    (kind = .sectionVertex → (edges.filter (·.source = id)).length ≤ 1) ∧
    ((edges.filter (·.source = id)).any (·.target = startId) = false →
      edges.filter (·.target = id) ≠ []) ∧
    (kind = .decision → (edges.filter (·.source = id)).length ≤ 2 ∧
      ∀ output, (edges.filter (·.source = id)).any (·.condition = some output) = true) := by
  unfold checkVertex at h
  simp only at h
  split at h
  · simp at h
  · next hstart =>
    split at h
    · simp at h
    · next honward =>
      split at h
      · simp at h
      · next hsingle =>
        split at h
        · simp at h
        · next hentered =>
          refine ⟨fun hprecedes => ?_, by simpa using honward, fun hkind => ?_, fun hnot => ?_,
            fun hkind => ?_⟩
          · by_contra hne
            obtain ⟨first, tail, hfirst⟩ := List.exists_cons_of_ne_nil hne
            exact hstart first tail hprecedes hfirst
          · simp only [hkind, decide_true, Bool.true_and, decide_eq_true_eq] at hsingle
            omega
          · simpa [hnot] using hentered
          · rw [if_pos hkind] at h
            split at h
            · simp at h
            · next htrue =>
              split at h
              · simp at h
              · next hfalse =>
                split at h
                · simp at h
                · next hfew =>
                  refine ⟨by omega, fun output => ?_⟩
                  cases output with
                  | true => simpa using htrue
                  | false => simpa using hfalse

theorem checkVertex_ok {edges : List Edge} {id : String} {kind : VertexKind}
    (h : checkVertex edges id kind = .ok ()) : Fits edges id kind := by
  obtain ⟨hbefore, honward, hsingle, hentered, hdecision⟩ := checkVertex_tests h
  refine ⟨honward, hsingle, fun hkind output => ?_, fun hkind => (hdecision hkind).1,
    fun hnone => ?_, fun edge hmem hsource htarget other hother hin => ?_⟩
  · obtain ⟨edge, hmem, hcondition⟩ := List.any_eq_true.mp ((hdecision hkind).2 output)
    rw [List.mem_filter] at hmem
    exact ⟨edge, hmem.1, by simpa using hmem.2, by simpa using hcondition⟩
  · have hnot : (edges.filter (·.source = id)).any (·.target = startId) = false := by
      rw [List.any_eq_false]
      intro edge hmem
      rw [List.mem_filter] at hmem
      simpa using hnone edge hmem.1 (by simpa using hmem.2)
    obtain ⟨edge, hmem⟩ := List.exists_mem_of_ne_nil _ (hentered hnot)
    rw [List.mem_filter] at hmem
    exact ⟨edge, hmem.1, by simpa using hmem.2⟩
  · have hprecedes : (edges.filter (·.source = id)).any (·.target = startId) = true := by
      rw [List.any_eq_true]
      exact ⟨edge, List.mem_filter.mpr ⟨hmem, by simpa using hsource⟩, by simpa using htarget⟩
    exact List.filter_eq_nil_iff.mp (hbefore hprecedes) other hother (by simpa using hin)

theorem checkVertices_ok {edges : List Edge} {vertices : Members VertexKind}
    (h : checkVertices edges vertices = .ok ()) :
    ∀ vertex ∈ vertices, Fits edges vertex.1 vertex.2 := by
  induction vertices with
  | nil => simp
  | cons first rest ih =>
    obtain ⟨id, kind⟩ := first
    rw [checkVertices] at h
    split at h
    · next hfirst =>
      intro vertex hmem
      rcases List.mem_cons.mp hmem with rfl | hrest
      · exact checkVertex_ok hfirst
      · exact ih h vertex hrest
    · simp at h

/-! ### The route -/

/-- The vertices and edges of an accepted form. -/
structure IsRoute (form : Form) (vertices : Members VertexKind) : Prop where
  declared : form.declaredVertices = vertices.map fun vertex => (some vertex.1, vertex.2)
  nodup : (Members.keys vertices).Nodup
  unreserved : ∀ vertex ∈ vertices, isReserved vertex.1 = false
  target : ∀ edge ∈ form.edges,
    isReserved edge.target = true ∨ ∃ kind, Members.get? edge.target vertices = some kind
  source : ∀ edge ∈ form.edges,
    ∃ kind, sourceKind? vertices edge.source = some kind ∧ Allows kind edge.condition
  intoStart : form.edges.Pairwise fun earlier later =>
    later.target = startId → earlier.target ≠ startId
  started : ∃ edge ∈ form.edges, edge.source = startId
  fits : ∀ vertex ∈ vertices, Fits form.edges vertex.1 vertex.2

theorem checkRoute_ok {form : Form} {kinds : Members VertexKind}
    (h : form.checkRoute = .ok kinds) :
    ∃ vertices, IsRoute form vertices ∧
      kinds = vertices ++ [(startId, .start), (endId, .finish)] := by
  unfold checkRoute at h
  simp only [bind, Except.bind] at h
  split at h
  · simp at h
  · next vertices hvertices =>
    split at h
    · simp at h
    · next hedges =>
      split at h
      · simp at h
      · next hstarted =>
        split at h
        · simp at h
        · next hfits =>
          obtain ⟨added, hadded, hdeclared, hunreserved, hnodup⟩ :=
            addVertices_ok hvertices List.nodup_nil
          obtain rfl : vertices = added := by simpa using hadded
          have hedge : ∀ front edge back, form.edges = front ++ edge :: back →
              checkEdge vertices front edge = .ok () := by
            intro front edge back hsplit
            simpa using checkEdges_ok hedges hsplit
          have hall : ∀ edge ∈ form.edges, ∃ front, checkEdge vertices front edge = .ok () := by
            intro edge hmem
            obtain ⟨front, back, hsplit⟩ := List.append_of_mem hmem
            exact ⟨front, hedge front edge back hsplit⟩
          refine ⟨vertices,
            ⟨hdeclared, hnodup, hunreserved, ?_, ?_, ?_, ?_, checkVertices_ok hfits⟩,
            by simpa using h.symm⟩
          · intro edge hmem
            obtain ⟨front, hok⟩ := hall edge hmem
            exact (checkEdge_ok hok).1
          · intro edge hmem
            obtain ⟨front, hok⟩ := hall edge hmem
            exact (checkEdge_ok hok).2.1
          · refine pairwise_of_split ?_
            intro front edge back hsplit other hother htarget
            exact (checkEdge_ok (hedge front edge back hsplit)).2.2 htarget other hother
          · simpa using hstarted

end FormFlow.Form
