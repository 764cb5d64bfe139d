import Mathlib.Data.List.Forall2
import FormFlow.Proofs.Flow.Route
import FormFlow.Proofs.Route.Linear

/-!
# Forms without a route of their own

A form may leave out its decisions and its edges, or write them as null or as empty arrays
(`IsUnrouted`). It is then read with the edges of the linear route (`read_unrouted`), which are
always accepted and ordered, so only its derived values, the paths of its nodes and their
preconditions can keep it from having a plan.

Whatever the document, the sections before the first with messages make up the pathway, and these
and the next are reached (`unrouted_is_linear`).
-/

namespace FormFlow

namespace Form

/-- A collection that is left out, null or empty. -/
def IsLeftOut (collection : Option Document) : Prop :=
  collection = none ∨ collection = some .null ∨ collection = some (.array [])

/-- The members of a form without decisions and edges, whose sections have ids of their own. -/
structure IsUnrouted (members : Members Document) (sections : List Node) (ids : List String) :
    Prop where
  readable : ∃ items, Members.get? "sections" members = some (.array items) ∧
    List.Forall₂ (fun item node => Node.read item = .ok node) items sections
  nonempty : sections ≠ []
  named : sections.map (·.id) = ids.map some
  distinct : ids.Nodup
  unreserved : startId ∉ ids ∧ endId ∉ ids
  noDecisions : IsLeftOut (Members.get? "decisions" members)
  noEdges : IsLeftOut (Members.get? "edges" members)

variable {members : Members Document} {sections : List Node} {ids : List String}

theorem readPart_eq_ok {α : Type} {part : Part} {read : Document → Except Fault α}
    {items : List Document} {values : List α}
    (h : List.Forall₂ (fun item value => read item = .ok value) items values) :
    readPart part read items = .ok values := by
  induction h with
  | nil => rfl
  | cons hfirst _ ih => simp [readPart, hfirst, ih, Except.map]

theorem readOptionalPart_eq_nil {α : Type} {part : Part} {read : Document → Except Fault α}
    {collection : Option Document} (h : IsLeftOut collection) :
    readOptionalPart part read collection = .ok [] := by
  rcases h with rfl | rfl | rfl <;> rfl

theorem readEdges_eq_linear {collection : Option Document} (h : IsLeftOut collection) :
    readEdges sections false collection = .ok (Edge.linear sections) := by
  rcases h with rfl | rfl | rfl <;> rfl

theorem read_unrouted (h : IsUnrouted members sections ids) :
    Form.read (.object members) =
      (readOptionalPart .derived Derived.read (Members.get? "derived" members)).map fun derived =>
        ⟨sections, [], Edge.linear sections, derived⟩ := by
  obtain ⟨items, hitems, hread⟩ := h.readable
  have hsections : readSections (some (.array items)) = .ok sections := by
    cases hread with
    | nil => exact absurd rfl h.nonempty
    | cons hfirst hrest => exact readPart_eq_ok (.cons hfirst hrest)
  rw [Form.read, hitems, hsections, readOptionalPart_eq_nil h.noDecisions]
  simp only [bind, Except.bind, List.isEmpty_nil, Bool.not_true, readEdges_eq_linear h.noEdges]
  rfl

theorem IsUnrouted.nodup_line (h : IsUnrouted members sections ids) : (Route.line ids).Nodup :=
  Route.nodup_line h.distinct h.unreserved.1 h.unreserved.2

end Form

namespace Flow

open Route

variable {flow : Flow} {members : Members Document} {sections : List Form.Node}
  {ids : List String}

/-- The edges of the linear route, from `START` to the first section, from each section to the next,
and from the last to `END`. -/
def linearEdges (kinds : Members VertexKind) (ids : List String) : List Edge :=
  ((startId :: ids).zip (ids ++ [endId])).map fun (source, target) =>
    .ofForm kinds ⟨source, target, none⟩

theorem linearEdges_eq (kinds : Members VertexKind) (ids : List String) :
    linearEdges kinds ids = (Form.Edge.chain (line ids)).map (Edge.ofForm kinds) := by
  rw [chain_line, List.map_map]
  rfl

/-- A flow that leads through sections of the given ids, one after another. -/
structure IsLinear (flow : Flow) (ids : List String) : Prop where
  sections : flow.plan.sectionNodes.map (·.id) = ids
  edges : flow.plan.edges = linearEdges flow.plan.kinds ids
  /-- The sections before the first with messages make up the pathway. -/
  pathway : ∀ document, (flow.run document).pathway = ids.takeWhile fun id =>
    ((flow.run document).section? id).any fun result => result.messages.isEmpty
  /-- The sections of the pathway and the next one are reached. -/
  reached : ∀ document, ids.filter (flow.run document).isReached =
    ids.take ((flow.run document).pathway.length + 1)

theorem checkRoute_unrouted (h : Form.IsUnrouted members sections ids)
    (derived : List Form.Derived) :
    ∃ kinds, Form.checkRoute ⟨sections, [], Form.Edge.linear sections, derived⟩ = .ok kinds ∧
      orderEdges kinds (Form.Edge.linear sections) = .ok (linearEdges kinds ids) := by
  refine ⟨_, Form.checkRoute_eq_ok_iff.mpr
    ⟨isWellFormed_linear h.named h.nodup_line derived, rfl⟩, ?_⟩
  rw [Form.Edge.linear, filterMap_id_eq h.named, ← line, orderEdges_line h.nodup_line,
    linearEdges_eq]

theorem exists_derived_unrouted (h : Form.IsUnrouted members sections ids) {form : Form}
    (hread : Form.read (.object members) = .ok form) :
    ∃ derived, Form.readOptionalPart .derived Form.Derived.read
        (Members.get? "derived" members) = .ok derived ∧
      form = ⟨sections, [], Form.Edge.linear sections, derived⟩ := by
  rw [Form.read_unrouted h] at hread
  cases hderived : Form.readOptionalPart .derived Form.Derived.read
      (Members.get? "derived" members) with
  | error error => simp [hderived, Except.map] at hread
  | ok derived =>
    rw [hderived] at hread
    exact ⟨derived, rfl, (Except.ok.inj hread).symm⟩

theorem exists_plan_unrouted_iff (h : Form.IsUnrouted members sections ids) :
    (∃ plan, Plan.ofDocument (.object members) = .ok plan) ↔
      (∃ derived, Form.readOptionalPart .derived Form.Derived.read
        (Members.get? "derived" members) = .ok derived) ∧
      ∃ nodes, Plan.nodesOf sections = .ok nodes ∧ ∃ order, Plan.orderGuards nodes = .ok order := by
  constructor
  · rintro ⟨plan, hplan⟩
    obtain ⟨form, hread, hmakes⟩ := Plan.exists_read_makes hplan
    obtain ⟨derived, hderived, rfl⟩ := exists_derived_unrouted h hread
    exact ⟨⟨derived, hderived⟩, _, hmakes.nodes, _, hmakes.guardOrder⟩
  · rintro ⟨⟨derived, hderived⟩, nodes, hnodes, order, horder⟩
    obtain ⟨kinds, hkinds, hedges⟩ := checkRoute_unrouted h derived
    have hread := Form.read_unrouted h
    rw [hderived] at hread
    exact ⟨_, Plan.ofDocument_eq_ok hread hkinds hnodes hedges horder⟩

theorem isLinear_of_unrouted (h : Form.IsUnrouted members sections ids)
    (hplan : Plan.ofDocument (.object members) = .ok flow.plan) : flow.IsLinear ids := by
  obtain ⟨form, hread, hmakes⟩ := Plan.exists_read_makes hplan
  obtain ⟨derived, -, rfl⟩ := exists_derived_unrouted h hread
  obtain ⟨hform, hkinds⟩ := Form.checkRoute_eq_ok_iff.mp hmakes.kinds
  have hedges : flow.plan.edges = linearEdges flow.plan.kinds ids := by
    have horder := hmakes.edges
    rw [Form.Edge.linear, filterMap_id_eq h.named, ← line, orderEdges_line h.nodup_line] at horder
    rw [linearEdges_eq]
    exact (Except.ok.inj horder).symm
  have hsections : ∀ id ∈ ids, Members.get? id flow.plan.kinds = some .sectionVertex := by
    intro id hid
    rw [hkinds, hform.get?_kinds]
    show id ∈ sections.filterMap (·.id)
    rwa [filterMap_id_eq h.named]
  have hwalk (document : Document) := pathway_line (sound_of_makes hmakes)
    (hedges.trans (linearEdges_eq _ _)) hsections h.nodup_line (flow.shownJudgement document)
  have hpathway : ∀ document, (flow.run document).pathway = ids.takeWhile fun id =>
      ((flow.run document).section? id).any fun result => result.messages.isEmpty := by
    intro document
    rw [pathway_run, edges_run]
    exact (hwalk document).1
  refine ⟨?_, hedges, hpathway, fun document => ?_⟩
  · have hnamed := (Plan.map_id_sectionNodes hmakes).trans h.named
    rw [← Function.comp_def, ← List.map_map] at hnamed
    exact List.map_injective_iff.mpr (fun _ _ => Option.some.inj) hnamed
  · show ids.filter (Route.isReached (flow.run document).edges) = _
    rw [hpathway document, edges_run]
    exact (hwalk document).2

/-- The route of a form without decisions and edges is accepted, and its edges are ordered from
`START` through the sections to `END`. The form has a plan if nothing else in it is wrong. In every
flow with this plan, the sections before the first with messages make up the pathway, and these and
the next are reached. -/
theorem unrouted_is_linear (h : Form.IsUnrouted members sections ids) :
    (∀ form, Form.read (.object members) = .ok form → ∃ kinds, form.checkRoute = .ok kinds ∧
      orderEdges kinds form.edges = .ok (linearEdges kinds ids)) ∧
    ((∃ plan, Plan.ofDocument (.object members) = .ok plan) ↔
      (∃ derived, Form.readOptionalPart .derived Form.Derived.read
        (Members.get? "derived" members) = .ok derived) ∧
      ∃ nodes, Plan.nodesOf sections = .ok nodes ∧ ∃ order, Plan.orderGuards nodes = .ok order) ∧
    ∀ flow : Flow, Plan.ofDocument (.object members) = .ok flow.plan → flow.IsLinear ids := by
  refine ⟨fun form hread => ?_, exists_plan_unrouted_iff h, fun flow => isLinear_of_unrouted h⟩
  obtain ⟨derived, -, rfl⟩ := exists_derived_unrouted h hread
  exact checkRoute_unrouted h derived

/-! A form of the sections `a`, `b` and `c`, and a document that lacks a value of `b`. -/

def unroutedMembers : Members Document := [
  ("sections", .array [
    .object [("id", .text "a")],
    .object [("id", .text "b"), ("children", .array [
      .object [("id", .text "name"), ("type", .text "value"), ("required", .bool true)]])],
    .object [("id", .text "c")]]),
  ("decisions", .array []), ("edges", .null)]

def unroutedSections : List Form.Node :=
  [⟨{ Form.Attributes.blank with id := "a" }, []⟩,
    ⟨{ Form.Attributes.blank with id := "b" },
      [⟨{ Form.Attributes.blank with
        id := "name", kind := some .value, required := some (.bool true) }, []⟩]⟩,
    ⟨{ Form.Attributes.blank with id := "c" }, []⟩]

def unrouted : Flow where
  plan := {
    nodes := Plan.flattenAll .top 0 unroutedSections
    sections := [0, 1, 3]
    decisions := []
    edges := [⟨"START", "a", none, .start, .sectionVertex⟩,
      ⟨"a", "b", none, .sectionVertex, .sectionVertex⟩,
      ⟨"b", "c", none, .sectionVertex, .sectionVertex⟩, ⟨"c", "END", none, .sectionVertex, .finish⟩]
    derived := []
    kinds := [("a", .sectionVertex), ("b", .sectionVertex), ("c", .sectionVertex),
      ("START", .start), ("END", .finish)]
    guardOrder := [] }
  table := []

theorem isUnrouted_abc : Form.IsUnrouted unroutedMembers unroutedSections ["a", "b", "c"] where
  readable := ⟨_, rfl, .cons rfl (.cons rfl (.cons rfl .nil))⟩
  nonempty := List.cons_ne_nil _ _
  named := rfl
  distinct := by decide
  unreserved := by decide
  noDecisions := .inr (.inr rfl)
  noEdges := .inr (.inl rfl)

theorem plan_unrouted : Plan.ofDocument (.object unroutedMembers) = .ok unrouted.plan := by
  obtain ⟨kinds, hkinds, hedges⟩ := checkRoute_unrouted isUnrouted_abc []
  have horder : Plan.orderGuards unrouted.plan.nodes = .ok [] := by cbv
  have hread : Form.read (.object unroutedMembers) =
    .ok ⟨unroutedSections, [], Form.Edge.linear unroutedSections, []⟩ := rfl
  obtain rfl : unrouted.plan.kinds = kinds := Except.ok.inj hkinds
  exact Plan.ofDocument_eq_ok hread hkinds rfl hedges horder

theorem unrouted_is_linear_abc :
    (∃ plan, Plan.ofDocument (.object unroutedMembers) = .ok plan) ∧
      (unrouted.run (.object [])).pathway = ["a"] ∧
      ["a", "b", "c"].filter (unrouted.run (.object [])).isReached = ["a", "b"] := by
  obtain ⟨-, hplan, hlinear⟩ := unrouted_is_linear isUnrouted_abc
  have hflow := hlinear unrouted plan_unrouted
  have hpathway : (unrouted.run (.object [])).pathway = ["a"] := by
    rw [hflow.pathway]
    rfl
  refine ⟨hplan.mpr ⟨⟨[], rfl⟩, _, rfl, [], by cbv⟩, hpathway, ?_⟩
  rw [hflow.reached, hpathway]
  rfl

end Flow

end FormFlow
