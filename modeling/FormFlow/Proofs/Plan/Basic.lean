import Mathlib.Data.List.Permutation
import FormFlow.Plan.Basic

/-!
# How a plan is made

The parts of a plan, each by the step of `Plan.ofForm` that makes it.
-/

namespace FormFlow

namespace Plan

/-- The steps by which the plan of a form is made. -/
structure Makes (form : Form) (plan : Plan) : Prop where
  kinds : form.checkRoute = .ok plan.kinds
  nodes : nodesOf form.sections = .ok plan.nodes
  edges : Route.orderEdges plan.kinds form.edges = .ok plan.edges
  guardOrder : orderGuards plan.nodes = .ok plan.guardOrder
  sections : plan.sections = rootsAll 0 form.sections
  decisions : plan.decisions = form.decisions.map fun decision =>
    ⟨decision.id, Expr.ofDocument decision.output, decision.attributes⟩

theorem makes_of_ofForm {form : Form} {plan : Plan} (h : ofForm form = .ok plan) :
    Makes form plan := by
  unfold ofForm at h
  simp only [bind, Except.bind] at h
  split at h
  · simp at h
  · next kinds hkinds =>
    split at h
    · simp at h
    · next nodes hnodes =>
      split at h
      · simp at h
      · next edges hedges =>
        split at h
        · simp at h
        · next order horder =>
          simp only [Except.ok.injEq] at h
          subst h
          exact ⟨hkinds, hnodes, hedges, horder, rfl, rfl⟩

theorem exists_read_makes {document : Document} {plan : Plan}
    (h : ofDocument document = .ok plan) :
    ∃ form, Form.read document = .ok form ∧ Makes form plan := by
  unfold ofDocument at h
  simp only [bind, Except.bind] at h
  split at h
  · simp at h
  · next form hread => exact ⟨form, hread, makes_of_ofForm h⟩

theorem exists_makes {document : Document} {plan : Plan} (h : ofDocument document = .ok plan) :
    ∃ form, Makes form plan :=
  (exists_read_makes h).imp fun _ => And.right

theorem ofDocument_eq_ok {document : Document} {form : Form} {kinds : Members VertexKind}
    {nodes : List Node} {edges : List Route.Edge} {order : List Pattern}
    (hread : Form.read document = .ok form) (hkinds : form.checkRoute = .ok kinds)
    (hnodes : nodesOf form.sections = .ok nodes)
    (hedges : Route.orderEdges kinds form.edges = .ok edges)
    (horder : orderGuards nodes = .ok order) :
    ofDocument document = .ok {
      nodes := nodes
      sections := rootsAll 0 form.sections
      decisions := form.decisions.map fun decision =>
        ⟨decision.id, Expr.ofDocument decision.output, decision.attributes⟩
      edges := edges
      derived := form.derived.map fun derived => ⟨derived.id, Expr.ofDocument derived.expression⟩
      kinds := kinds
      guardOrder := order } := by
  simp only [ofDocument, ofForm, bind, Except.bind, hread, hkinds, hnodes, hedges, horder]

/-! A form whose only section is `a`. -/

theorem orderEdges_lone : Route.orderEdges
    [("a", .sectionVertex), ("START", .start), ("END", .finish)]
    [⟨"START", "a", none⟩, ⟨"a", "END", none⟩] =
    .ok [⟨"START", "a", none, .start, .sectionVertex⟩,
      ⟨"a", "END", none, .sectionVertex, .finish⟩] := by cbv

/-- The plan of such a form without decisions, derived values and preconditions. -/
def lone (sections : List Form.Node) : Plan where
  nodes := flattenAll .top 0 sections
  sections := [0]
  decisions := []
  edges := [⟨"START", "a", none, .start, .sectionVertex⟩,
    ⟨"a", "END", none, .sectionVertex, .finish⟩]
  derived := []
  kinds := [("a", .sectionVertex), ("START", .start), ("END", .finish)]
  guardOrder := []

end Plan

/-! A form with a section before `START` and a decision. -/

def branchingForm : Document := .object [
  ("sections", .array [
    .object [("id", .text "intro")],
    .object [("id", .text "a"), ("children", .array [
      .object [("id", .text "on"), ("type", .text "value")]])],
    .object [("id", .text "b"), ("children", .array [
      .object [("id", .text "name"), ("type", .text "value"), ("required", .bool true)]])],
    .object [("id", .text "c")]]),
  ("decisions", .array [.object [("id", .text "d"), ("output", .text "$.a.on")]]),
  ("edges", .array [
    .array [.text "intro", .text "START"], .array [.text "START", .text "a"],
    .array [.text "a", .text "d"], .array [.text "d", .text "b", .bool true],
    .array [.text "d", .text "END", .bool false], .array [.text "b", .text "c"],
    .array [.text "c", .text "END"]])]

def branchingRead : Form := (Form.read branchingForm).toOption.getD ⟨[], [], [], []⟩

def branchingPlan : Plan where
  nodes := Plan.flattenAll .top 0 branchingRead.sections
  sections := [0, 1, 3, 5]
  decisions := [⟨"d", .reference [.key "a", .key "on"], []⟩]
  edges := [⟨"intro", "START", none, .sectionVertex, .start⟩,
    ⟨"START", "a", none, .start, .sectionVertex⟩, ⟨"a", "d", none, .sectionVertex, .decision⟩,
    ⟨"d", "b", some true, .decision, .sectionVertex⟩,
    ⟨"d", "END", some false, .decision, .finish⟩,
    ⟨"b", "c", none, .sectionVertex, .sectionVertex⟩, ⟨"c", "END", none, .sectionVertex, .finish⟩]
  derived := []
  kinds := [("intro", .sectionVertex), ("a", .sectionVertex), ("b", .sectionVertex),
    ("c", .sectionVertex), ("d", .decision), ("START", .start), ("END", .finish)]
  guardOrder := []

theorem plan_branchingForm : Plan.ofDocument branchingForm = .ok branchingPlan := by
  have hedges : Route.orderEdges branchingPlan.kinds branchingRead.edges =
      .ok branchingPlan.edges := by cbv
  have horder : Plan.orderGuards branchingPlan.nodes = .ok [] := by cbv
  have hread : Form.read branchingForm = .ok branchingRead := rfl
  exact Plan.ofDocument_eq_ok hread rfl rfl hedges horder

end FormFlow
