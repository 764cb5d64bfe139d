import FormFlow.Proofs.Plan.Lineage
import FormFlow.Proofs.Route.Check
import FormFlow.Proofs.Route.Sound

/-!
# The sections and decisions of a plan

The nodes at the positions that a plan keeps for its sections are those of the sections that are
declared at the top of the form, in their order (`map_id_sectionNodes`). So they are the section
vertices (`kind?_eq_section_iff`), and each is there once (`nodup_sectionIds`). The decisions of the
plan are the vertices of the other kind (`kind?_eq_decision_iff`).
-/

namespace FormFlow.Plan

/-- The nodes at the topmost positions are those of the topmost declarations, in order, if all of
these have an id. `front` are the nodes that are listed before. -/
theorem map_id_rootsAll {place : Place} {front : List Node} {declared : List Form.Node}
    (hids : ∀ node ∈ declared, node.id.isSome = true) :
    ((rootsAll front.length declared).filterMap fun position =>
        (front ++ flattenAll place front.length declared)[position]?).map
      (fun node => some node.id) = declared.map (·.id) := by
  induction declared generalizing front with
  | nil => rfl
  | cons head rest ih =>
    obtain ⟨attributes, children⟩ := head
    obtain ⟨id, hid⟩ := Option.isSome_iff_exists.mp (hids _ List.mem_cons_self)
    simp only at hid
    have hrest := @ih (front ++ flatten place front.length ⟨attributes, children⟩)
      fun node hmem => hids node (List.mem_cons_of_mem _ hmem)
    rw [List.length_append, length_flatten, List.append_assoc] at hrest
    rw [rootsAll, flattenAll, List.filterMap_append, List.map_append, hrest]
    simp [roots, flatten, nodeAt, hid]

variable {form : Form} {plan : Plan}

theorem map_id_sectionNodes (h : Makes form plan) :
    plan.sectionNodes.map (fun node => some node.id) = form.sections.map (·.id) := by
  obtain ⟨vertices, hroute, _⟩ := Form.checkRoute_ok h.kinds
  have hids : ∀ declared ∈ form.sections, declared.id.isSome = true := by
    intro declared hmem
    have hin : (declared.id, VertexKind.sectionVertex) ∈ form.declaredVertices :=
      List.mem_append_left _ (List.mem_map.mpr ⟨declared, hmem, rfl⟩)
    rw [hroute.declared, List.mem_map] at hin
    obtain ⟨vertex, _, heq⟩ := hin
    simp [← (Prod.mk.inj heq).1]
  have hroots := @map_id_rootsAll .top [] form.sections hids
  rwa [List.length_nil, List.nil_append, ← h.sections, ← (nodesOf_eq_ok h.nodes).1] at hroots

theorem nodup_declaredIds (h : Makes form plan) :
    (form.sections.map (·.id) ++ form.decisions.map (some ·.id)).Nodup := by
  obtain ⟨vertices, hroute, _⟩ := Form.checkRoute_ok h.kinds
  have hids : (form.declaredVertices.map Prod.fst).Nodup := by
    rw [hroute.declared, List.map_map]
    have hkeys := hroute.nodup.map fun _ _ => Option.some.inj
    rwa [Members.keys, List.map_map] at hkeys
  rwa [Form.declaredVertices, List.map_append, List.map_map, List.map_map] at hids

theorem nodup_sectionIds (h : Makes form plan) : (plan.sectionNodes.map Node.id).Nodup := by
  have hsections := (nodup_declaredIds h).of_append_left
  rw [← map_id_sectionNodes h, ← Function.comp_def, ← List.map_map] at hsections
  exact hsections.of_map some

theorem nodup_decisionIds (h : Makes form plan) : (plan.decisions.map Decision.id).Nodup := by
  have hdecisions := (nodup_declaredIds h).of_append_right
  rw [← Function.comp_def, ← List.map_map] at hdecisions
  rw [h.decisions, List.map_map]
  exact hdecisions.of_map some

theorem kind?_eq_declared_iff (h : Makes form plan) {id : String} {kind : VertexKind}
    (hstart : kind ≠ .start) (hfinish : kind ≠ .finish) :
    plan.kind? id = some kind ↔ (some id, kind) ∈ form.declaredVertices := by
  obtain ⟨vertices, hroute, hkinds⟩ := Form.checkRoute_ok h.kinds
  have hdeclared : (some id, kind) ∈ form.declaredVertices ↔ (id, kind) ∈ vertices := by
    simp [hroute.declared]
  rw [hdeclared, kind?, hkinds]
  constructor
  · intro hkind
    have hsome := Route.get?_withEnds hroute id
    rw [Route.withEnds, hkind] at hsome
    split_ifs at hsome
    · exact absurd (Option.some.inj hsome) hstart
    · exact absurd (Option.some.inj hsome) hfinish
    · exact Members.mem_of_get? hsome.symm
  · intro hmem
    rw [Members.get?_append, Members.get?_of_mem hroute.nodup hmem, Option.some_or]

theorem kind?_eq_section_iff (h : Makes form plan) {id : String} :
    plan.kind? id = some .sectionVertex ↔ ∃ node ∈ plan.sectionNodes, node.id = id := by
  have hid : (some id, VertexKind.sectionVertex) ∈ form.declaredVertices ↔
      some id ∈ form.sections.map (·.id) := by
    simp [Form.declaredVertices]
  rw [kind?_eq_declared_iff h (by decide) (by decide), hid, ← map_id_sectionNodes h]
  simp

theorem kind?_eq_decision_iff (h : Makes form plan) {id : String} :
    plan.kind? id = some .decision ↔ ∃ decision ∈ plan.decisions, decision.id = id := by
  rw [kind?_eq_declared_iff h (by decide) (by decide), h.decisions]
  simp [Form.declaredVertices]

theorem decision?_id (h : Makes form plan) {decision : Decision}
    (hdecision : decision ∈ plan.decisions) : plan.decision? decision.id = some decision := by
  cases hfound : plan.decision? decision.id with
  | none =>
    rw [decision?, List.find?_eq_none] at hfound
    exact absurd (decide_eq_true rfl) (hfound decision hdecision)
  | some other =>
    have hid : other.id = decision.id := by simpa using List.find?_some hfound
    rw [List.inj_on_of_nodup_map (nodup_decisionIds h) (List.mem_of_find?_eq_some hfound) hdecision
      hid]

end FormFlow.Plan
