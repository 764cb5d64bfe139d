import Mathlib.Data.List.Permutation
import FormFlow.Proofs.Flow.Results
import FormFlow.Proofs.Route.Reach
import FormFlow.Proofs.Route.Walk

/-!
# The route through an outcome

What the judged edges of an outcome say of the way through a form. If a single edge leaves `START`,
they are those of a walk that stops at the first section with messages (`pathway_walks`). Whatever
the edges at `START` are, a vertex is reached along active edges only (`reached_along_active`).
-/

namespace FormFlow.Flow

open Route

variable {flow : Flow} {config document : Document}

def IsClear (flow : Flow) (document : Document) (id : String) : Prop :=
  ∃ result, (flow.run document).section? id = some result ∧ result.messages = []

def HasMessages (flow : Flow) (document : Document) (id : String) : Prop :=
  ∃ result, (flow.run document).section? id = some result ∧ result.messages ≠ []

/-- An edge is left by a section without messages, or by a decision of its output. -/
def LeadsOn (flow : Flow) (document : Document) (edge : Edge) : Prop :=
  (flow.plan.kind? edge.source = some .sectionVertex → flow.IsClear document edge.source) ∧
    (flow.plan.kind? edge.source = some .decision →
      ∃ decision ∈ flow.plan.decisions, decision.id = edge.source ∧
        edge.condition = some (decision.output.holds (flow.scope (flow.prune document) none)))

theorem shownJudgement_valid_iff {id : String} :
    (flow.shownJudgement document).valid id = true ↔ flow.IsClear document id := by
  simp [shownJudgement, IsClear, Option.any_eq_true]

theorem IsClear.not_hasMessages {id : String} (h : flow.IsClear document id) :
    ¬ flow.HasMessages document id := by
  rintro ⟨other, hother, hmessages⟩
  obtain ⟨result, hresult, hnone⟩ := h
  rw [hresult, Option.some.injEq] at hother
  exact hmessages (hother ▸ hnone)

theorem shownJudgement_invalid_iff (h : Plan.ofDocument config = .ok flow.plan) {id : String}
    (hkind : flow.plan.kind? id = some .sectionVertex) :
    (flow.shownJudgement document).valid id = false ↔ flow.HasMessages document id := by
  rw [← Bool.not_eq_true, shownJudgement_valid_iff]
  constructor
  · intro hclear
    obtain ⟨form, hform⟩ := Plan.exists_makes h
    obtain ⟨result, hresult⟩ : ∃ result, (flow.run document).section? id = some result :=
      exists_section? hform hkind
    exact ⟨result, hresult, fun hnone => hclear ⟨result, hresult, hnone⟩⟩
  · intro hmessages hclear
    exact hclear.not_hasMessages hmessages

/-! ### The walk of the active edges -/

theorem valid_before_start (hsound : Sound flow.plan.kinds flow.plan.edges)
    (hbefore : ∀ edge ∈ flow.plan.edges, edge.target = startId →
      flow.plan.kind? edge.source = some .sectionVertex → flow.IsClear document edge.source) :
    ∀ edge ∈ flow.plan.edges, edge.target = startId → edge.sourceKind = .sectionVertex →
      (flow.shownJudgement document).valid edge.source = true := by
  intro edge hedge htarget hkind
  exact shownJudgement_valid_iff.mpr
    (hbefore edge hedge htarget (hkind ▸ hsound.sourceKind edge hedge))

/-- With a single edge that leaves `START`, and no section with messages before `START`, there is
exactly one walk from the target of that edge: it goes on from a section without messages and from
a decision by its output on the pruned document, and stops at `END` or at a section with messages.
The pathway is what the walk leaves, and the active edges, the one into `START` left aside, are the
first edge and those walked. -/
theorem pathway_walks (h : Plan.ofDocument config = .ok flow.plan) {first : Edge}
    (hfirst : flow.plan.edges.filter (·.source = startId) = [first]) (document : Document)
    (hbefore : ∀ edge ∈ flow.plan.edges, edge.target = startId →
      flow.plan.kind? edge.source = some .sectionVertex → flow.IsClear document edge.source) :
    (∀ id, flow.plan.kind? id = some .sectionVertex →
      ((flow.shownJudgement document).valid id = false ↔ flow.HasMessages document id)) ∧
    (∀ decision ∈ flow.plan.decisions, (flow.shownJudgement document).output decision.id =
      decision.output.holds (flow.scope (flow.prune document) none)) ∧
    ∃ walked, Walks flow.plan.kinds flow.plan.edges (flow.shownJudgement document)
        first.target walked ∧
      (∀ other, Walks flow.plan.kinds flow.plan.edges (flow.shownJudgement document)
        first.target other → other = walked) ∧
      (flow.run document).pathway = walked.map Edge.source ∧
      activeForward (flow.run document).edges = first :: walked := by
  have hsound := sound_of_ofDocument h
  obtain ⟨form, hform⟩ := Plan.exists_makes h
  obtain ⟨walked, hwalked, hactive⟩ :=
    activeForward_judge hsound hfirst (valid_before_start hsound hbefore)
  have hsource : first.source = startId := by
    have hmem : first ∈ flow.plan.edges.filter (·.source = startId) := by simp [hfirst]
    simpa using (List.mem_filter.mp hmem).2
  refine ⟨fun id hkind => shownJudgement_invalid_iff h hkind,
    fun decision hdecision => output_shownJudgement hform hdecision, walked, hwalked,
    fun other hother => hother.unique hsound hwalked, ?_, ?_⟩
  · rw [pathway_run, edges_run]
    exact pathway_of_activeForward hsound hsource hwalked hactive
  · rw [edges_run]
    exact hactive

/-! In the branching form, a document that leads to `d` and from there to `b`, which lacks a value,
and one that leads from `d` to `END`. -/

def branching : Flow := ⟨branchingPlan, []⟩

def branchingDocument : Document :=
  .object [("a", .object [("on", .bool true)]), ("b", .object [])]

def passingDocument : Document := .object [("a", .object [("on", .bool false)])]

theorem plan_branching : Plan.ofDocument branchingForm = .ok branching.plan := plan_branchingForm

theorem first_branching : branching.plan.edges.filter (·.source = startId) =
    [⟨"START", "a", none, .start, .sectionVertex⟩] := rfl

theorem source_eq_intro : ∀ edge ∈ branching.plan.edges, edge.target = startId →
    edge.source = "intro" := by decide

theorem target_ne_start_branching {id : String} (hid : "intro" ≠ id) :
    ∀ edge ∈ branching.plan.edges, edge.source = id → edge.target ≠ startId :=
  fun edge hedge hsource htarget => hid (source_eq_intro edge hedge htarget ▸ hsource)

theorem isClear_before_branching (hintro : branching.IsClear document "intro") :
    ∀ edge ∈ branching.plan.edges, edge.target = startId →
      branching.plan.kind? edge.source = some .sectionVertex →
        branching.IsClear document edge.source := by
  intro edge hedge htarget _
  rw [source_eq_intro edge hedge htarget]
  exact hintro

theorem walks_branching :
    Walks branchingPlan.kinds branchingPlan.edges (branching.shownJudgement branchingDocument) "a"
      [⟨"a", "d", none, .sectionVertex, .decision⟩,
        ⟨"d", "b", some true, .decision, .sectionVertex⟩] ∧
    Walks branchingPlan.kinds branchingPlan.edges (branching.shownJudgement passingDocument) "a"
      [⟨"a", "d", none, .sectionVertex, .decision⟩,
        ⟨"d", "END", some false, .decision, .finish⟩] := by
  have honward : (⟨"a", "d", none, .sectionVertex, .decision⟩ : Edge) ∈ branchingPlan.edges := by
    decide
  have hyes : (⟨"d", "b", some true, .decision, .sectionVertex⟩ : Edge) ∈ branchingPlan.edges := by
    decide
  have hno : (⟨"d", "END", some false, .decision, .finish⟩ : Edge) ∈ branchingPlan.edges := by
    decide
  exact ⟨.onward honward rfl rfl (.branch hyes rfl rfl (.halt rfl rfl)),
    .onward honward rfl rfl (.branch hno rfl rfl .finish)⟩

theorem pathway_branching :
    ((branching.run branchingDocument).pathway = ["a", "d"] ∧
      activeForward (branching.run branchingDocument).edges =
        [⟨"START", "a", none, .start, .sectionVertex⟩, ⟨"a", "d", none, .sectionVertex, .decision⟩,
          ⟨"d", "b", some true, .decision, .sectionVertex⟩]) ∧
    (branching.run passingDocument).pathway = ["a", "d"] ∧
      activeForward (branching.run passingDocument).edges =
        [⟨"START", "a", none, .start, .sectionVertex⟩, ⟨"a", "d", none, .sectionVertex, .decision⟩,
          ⟨"d", "END", some false, .decision, .finish⟩] := by
  obtain ⟨-, -, walked, -, hunique, hpathway, hactive⟩ := pathway_walks plan_branching first_branching
    branchingDocument (isClear_before_branching ⟨⟨.valid, []⟩, rfl, rfl⟩)
  obtain ⟨-, -, walked', -, hunique', hpathway', hactive'⟩ := pathway_walks plan_branching first_branching
    passingDocument (isClear_before_branching ⟨⟨.valid, []⟩, rfl, rfl⟩)
  rw [← hunique _ walks_branching.1] at hpathway hactive
  rw [← hunique' _ walks_branching.2] at hpathway' hactive'
  exact ⟨⟨hpathway, hactive⟩, hpathway', hactive'⟩

/-! ### Reached vertices -/

theorem leadsOn_iff_chooses (h : Plan.ofDocument config = .ok flow.plan) {edge : Edge}
    (hedge : edge ∈ flow.plan.edges) :
    flow.LeadsOn document edge ↔ (flow.shownJudgement document).chooses edge = true := by
  have hsound := sound_of_ofDocument h
  obtain ⟨form, hform⟩ := Plan.exists_makes h
  have hkind : flow.plan.kind? edge.source = some edge.sourceKind := hsound.sourceKind edge hedge
  unfold LeadsOn Judgement.chooses
  rw [hkind]
  cases hsourceKind : edge.sourceKind with
  | start => simp
  | finish =>
    rw [hsourceKind] at hkind
    exact absurd ((hsound.finishKind _).mp hkind) (hsound.source_ne_end edge hedge)
  | sectionVertex => simp [shownJudgement_valid_iff]
  | decision =>
    obtain ⟨decision, hdecision, hid⟩ :=
      (Plan.kind?_eq_decision_iff hform).mp (hsourceKind ▸ hkind)
    have houtput : (flow.shownJudgement document).output decision.id =
        decision.output.holds (flow.scope (flow.prune document) none) :=
      output_shownJudgement hform hdecision
    rw [decide_eq_true_eq, ← hid, houtput]
    constructor
    · rintro ⟨-, hleft⟩
      obtain ⟨other, hother, hotherId, hcondition⟩ := hleft rfl
      rw [hcondition, ← output_shownJudgement hform hother, hotherId, houtput]
    · intro hcondition
      exact ⟨nofun, fun _ => ⟨decision, hdecision, rfl, hcondition⟩⟩

theorem leadsOn_of_active (h : Plan.ofDocument config = .ok flow.plan) {edge : Edge}
    (hactive : edge ∈ activeEdges (flow.run document).edges) : flow.LeadsOn document edge := by
  rw [edges_run] at hactive
  obtain ⟨hmem, hchooses⟩ := chooses_of_mem_activeEdges hactive
  exact (leadsOn_iff_chooses h hmem).mpr hchooses

theorem mem_edges_of_active {edge : Edge} (hactive : edge ∈ activeEdges (flow.run document).edges) :
    edge ∈ flow.plan.edges := by
  rw [edges_run] at hactive
  exact (chooses_of_mem_activeEdges hactive).1

theorem exists_path_of_isReached {id : String} (hreached : (flow.run document).isReached id = true)
    (hstart : id ≠ startId)
    (hbefore : ∀ edge ∈ flow.plan.edges, edge.source = id → edge.target ≠ startId) :
    ∃ path, IsPath (activeEdges (flow.run document).edges) startId id path := by
  rcases isReached_iff.mp hreached with hid | ⟨edge, hactive, rfl⟩ | ⟨edge, hedge, hsource, htarget⟩
  · exact absurd hid hstart
  · rw [edges_run] at hactive ⊢
    exact exists_active_path _ _ edge hactive hstart
  · rw [map_toEdge_run] at hedge
    exact absurd htarget (hbefore edge hedge hsource)

/-- At most one active edge leaves a section or a decision. A vertex that is reached, neither
`START` nor before it, is joined to `START` by active edges, on which no section has messages and
every decision is left by its output. So it is not reached if every path to it passes through
another section with messages. -/
theorem reached_along_active (h : Plan.ofDocument config = .ok flow.plan) (document : Document) :
    (∀ id, flow.plan.kind? id = some .sectionVertex ∨ flow.plan.kind? id = some .decision →
      ((activeEdges (flow.run document).edges).filter (·.source = id)).length ≤ 1) ∧
    ∀ id, id ≠ startId → (∀ edge ∈ flow.plan.edges, edge.source = id → edge.target ≠ startId) →
      ((flow.run document).isReached id = true →
        ∃ path, path ≠ [] ∧ IsPath (activeEdges (flow.run document).edges) startId id path ∧
          ∀ edge ∈ path, flow.LeadsOn document edge) ∧
      ((∀ path, IsPath flow.plan.edges startId id path →
          ∃ edge ∈ path, edge.source ≠ id ∧ flow.plan.kind? edge.source = some .sectionVertex ∧
            flow.HasMessages document edge.source) →
        (flow.run document).isReached id = false) := by
  have hsound := sound_of_ofDocument h
  refine ⟨fun id hkind => ?_, fun id hstart hbefore => ⟨fun hreached => ?_, fun hblocked => ?_⟩⟩
  · rw [edges_run]
    refine hsound.length_active_le_one _ ?_
    rintro rfl
    have hstartKind := (hsound.startKind startId).mpr rfl
    rcases hkind with hkind | hkind <;>
    · rw [Plan.kind?, hstartKind] at hkind
      simp at hkind
  · obtain ⟨path, hpath⟩ := exists_path_of_isReached hreached hstart hbefore
    refine ⟨path, ?_, hpath, fun edge hedge => leadsOn_of_active h (hpath.mem edge hedge)⟩
    rintro rfl
    exact hstart hpath.symm
  · rw [← Bool.not_eq_true]
    intro hreached
    obtain ⟨path, hpath⟩ := exists_path_of_isReached hreached hstart hbefore
    obtain ⟨edge, hedge, _, hkind, hmessages⟩ :=
      hblocked path (hpath.mono fun _ => mem_edges_of_active)
    exact ((leadsOn_of_active h (hpath.mem edge hedge)).1 hkind).not_hasMessages hmessages

/-- `b` is reached and has messages, so `c` behind it is not reached. With the other document `END`
is reached by the other edge of `d`. -/
theorem reached_branching :
    ((activeEdges (branching.run branchingDocument).edges).filter (·.source = "d")).length ≤ 1 ∧
      (∃ path, path ≠ [] ∧
        IsPath (activeEdges (branching.run branchingDocument).edges) startId "b" path ∧
        ∀ edge ∈ path, branching.LeadsOn branchingDocument edge) ∧
      (branching.run branchingDocument).isReached "c" = false ∧
      ∃ path, path ≠ [] ∧
        IsPath (activeEdges (branching.run passingDocument).edges) startId endId path ∧
        ∀ edge ∈ path, branching.LeadsOn passingDocument edge := by
  have hinto : ∀ edge ∈ branchingPlan.edges, edge.target = "c" → edge.source = "b" := by decide
  obtain ⟨hone, hreached⟩ := reached_along_active plan_branching branchingDocument
  obtain ⟨-, hreached'⟩ := reached_along_active plan_branching passingDocument
  refine ⟨hone "d" (.inr rfl), (hreached "b" (by decide) (target_ne_start_branching (by decide))).1 rfl,
    (hreached "c" (by decide) (target_ne_start_branching (by decide))).2 fun path hpath => ?_,
    (hreached' endId (by decide) (target_ne_start_branching (by decide))).1 rfl⟩
  obtain ⟨edge, hedge, htarget⟩ := hpath.exists_target (by decide)
  have hsource := hinto edge (hpath.mem edge hedge) htarget
  refine ⟨edge, hedge, ?_⟩
  rw [hsource]
  exact ⟨by decide, rfl, _, rfl, by decide⟩

end FormFlow.Flow
