import FormFlow.Flow.Outcome
import FormFlow.Proofs.Plan.Sections

/-!
# The results of the sections

A section is valid exactly if it has no messages (`isValid_validate`), and the sections of the plan
and no others have a result in the outcome (`section?_eq_none_iff`). So the edges of an outcome are
judged by the messages that it shows (`judgement_eq`), although the verdicts of unreached sections
are overwritten afterwards.
-/

namespace FormFlow

/-- What the edges of an outcome are judged by: whether a section has no messages, and the outputs
of the decisions on the pruned document. -/
def Flow.shownJudgement (flow : Flow) (document : Document) : Route.Judgement where
  valid id := ((flow.run document).section? id).any fun result => result.messages.isEmpty
  output id := (flow.plan.decision? id).any fun decision =>
    decision.output.holds (flow.scope (flow.prune document) none)

namespace Flow

variable {flow : Flow} {document : Document}

theorem output_shownJudgement {form : Form} (h : Plan.Makes form flow.plan)
    {decision : Plan.Decision} (hdecision : decision ∈ flow.plan.decisions) :
    (flow.shownJudgement document).output decision.id =
      decision.output.holds (flow.scope (flow.prune document) none) := by
  simp [shownJudgement, Plan.decision?_id h hdecision]

theorem get?_validate {pruned : Document} {id : String} {result : SectionResult}
    (h : Members.get? id (flow.validate pruned) = some result) :
    result = .ofMessages result.messages := by
  rw [validate, Members.get?_sorted] at h
  have hmem := Members.mem_of_get? h
  simp only [List.mem_filterMap, Option.map_eq_some_iff, Prod.mk.injEq] at hmem
  obtain ⟨_, _, _, _, _, rfl⟩ := hmem
  rfl

theorem isValid_validate {pruned : Document} {id : String} {result : SectionResult}
    (h : Members.get? id (flow.validate pruned) = some result) :
    result.isValid = result.messages.isEmpty := by
  rw [get?_validate h]
  cases result.messages <;> simp [SectionResult.isValid, SectionResult.ofMessages]

theorem section?_run (flow : Flow) (document : Document) (id : String) :
    (flow.run document).section? id =
      (Members.get? id (flow.validate (flow.prune document))).map
        (finalResult (flow.run document).edges id) :=
  Members.get?_map _ _ _

theorem messages_finalResult (edges : List Route.JudgedEdge) (id : String)
    (result : SectionResult) : (finalResult edges id result).messages = result.messages := by
  unfold finalResult
  split <;> rfl

theorem judgement_eq (flow : Flow) (document : Document) :
    flow.judgement (flow.prune document) (flow.validate (flow.prune document)) =
      flow.shownJudgement document := by
  rw [judgement, shownJudgement]
  congr 1
  funext id
  rw [section?_run]
  cases hget : Members.get? id (flow.validate (flow.prune document)) with
  | none => rfl
  | some result => simp [messages_finalResult, isValid_validate hget]

theorem edges_run (flow : Flow) (document : Document) :
    (flow.run document).edges = Route.judge (flow.shownJudgement document) flow.plan.edges := by
  rw [← judgement_eq]
  rfl

theorem map_toEdge_run (flow : Flow) (document : Document) :
    (flow.run document).edges.map Route.JudgedEdge.toEdge = flow.plan.edges := by
  rw [edges_run, Route.map_toEdge_judge]

theorem toEdge_mem_edges {edge : Route.JudgedEdge} (h : edge ∈ (flow.run document).edges) :
    edge.toEdge ∈ flow.plan.edges := by
  rw [← map_toEdge_run flow document]
  exact List.mem_map_of_mem h

theorem isReached_start : (flow.run document).isReached startId = true := by
  simp [Outcome.isReached, Route.isReached]

theorem pathway_run (flow : Flow) (document : Document) :
    (flow.run document).pathway = Route.pathway (flow.run document).edges := rfl

theorem perm_keys_validate {form : Form} (h : Plan.Makes form flow.plan) (pruned : Document) :
    (Members.keys (flow.validate pruned)).Perm (flow.plan.sectionNodes.map Plan.Node.id) := by
  have hkeys : Members.keys (flow.plan.sections.filterMap fun position =>
      (flow.plan.node? position).map fun node =>
        (node.id, SectionResult.ofMessages (flow.sectionMessages pruned position node.id))) =
      flow.plan.sectionNodes.map Plan.Node.id := by
    simp [Members.keys, Plan.sectionNodes, List.map_filterMap, Function.comp_def]
  rw [← hkeys]
  refine (Members.perm_sorted ?_).map Prod.fst
  rw [hkeys]
  exact Plan.nodup_sectionIds h

theorem section?_eq_none_iff {form : Form} (h : Plan.Makes form flow.plan) {id : String} :
    (flow.run document).section? id = none ↔ ¬ flow.plan.kind? id = some .sectionVertex := by
  rw [section?_run, Option.map_eq_none_iff, Members.get?_eq_none_iff,
    (perm_keys_validate h _).mem_iff, Plan.kind?_eq_section_iff h, List.mem_map]

theorem exists_section? {form : Form} (h : Plan.Makes form flow.plan) {id : String}
    (hkind : flow.plan.kind? id = some .sectionVertex) :
    ∃ result, (flow.run document).section? id = some result := by
  rw [← Option.ne_none_iff_exists', ne_eq, section?_eq_none_iff h, not_not]
  exact hkind

theorem kind?_of_section? {form : Form} (h : Plan.Makes form flow.plan) {id : String}
    {result : SectionResult} (hresult : (flow.run document).section? id = some result) :
    flow.plan.kind? id = some .sectionVertex := by
  by_contra hkind
  have hnone : (flow.run document).section? id = none := (section?_eq_none_iff h).mpr hkind
  simp [hresult] at hnone

end Flow

end FormFlow
