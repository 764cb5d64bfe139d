import Mathlib.Data.List.Infix
import Mathlib.Data.List.Permutation
import FormFlow.Function.Standard
import FormFlow.Proofs.Flow.Checkpoints
import FormFlow.Proofs.Flow.Inspections
import FormFlow.Proofs.Path.Leaves
import FormFlow.Proofs.Path.Remains
import FormFlow.Proofs.Plan.Basic

/-!
# What pruning leaves alone

Pruning takes values out and does nothing else, and it takes them out only at or below a place whose
node, or the node of a place above it, has preconditions (`prune_only_removes`). This is so although
it inspects places of other patterns as well, those that preconditions refer to: what is not live has
a failing precondition on the way to it, whatever the pattern it was inspected for
(`isGoverned_of_not_isLive`).
-/

namespace FormFlow.Flow

variable {flow : Flow} {document : Document} {location place : Location} {value : Document}

/-- A node with preconditions holds a location or some location above it. -/
def IsGoverned (flow : Flow) (location : Location) : Prop :=
  ∃ part : Location, part <+: location ∧
    ∃ node, flow.plan.nodeAt? part = some node ∧ node.isGuarded = true

theorem IsGoverned.of_above (habove : place <+: location) (h : flow.IsGoverned place) :
    flow.IsGoverned location :=
  h.imp fun _ => And.imp_left (·.trans habove)

theorem isGoverned_of_not_isLive (hfailed : flow.isLive document place = false) :
    flow.IsGoverned place := by
  rw [isLive, List.all_eq_false] at hfailed
  obtain ⟨⟨node, here⟩, hcheckpoint, hfailed⟩ := hfailed
  obtain ⟨hupward, position, hposition, hnode⟩ := Plan.mem_checkpoints hcheckpoint
  refine ⟨here, (Location.mem_upward.mp hupward).1, node, ?_, ?_⟩
  · rw [Plan.nodeAt?, hposition, Option.bind_some, hnode]
  · -- a node without preconditions does not fail
    by_contra hfree
    simp only [Plan.Node.isGuarded, Bool.not_eq_true', Bool.not_eq_false, List.isEmpty_iff] at hfree
    simp [hfree] at hfailed

theorem remains_prune (flow : Flow) (document : Document) :
    document.Remains (flow.prune document) :=
  prune_induction (motive := document.Remains) (.same document) fun front place _ _ _ _ hseen =>
    hseen.trans (Document.remains_without (flow.after document front) place)

theorem isLeafAt_prune (hleaf : document.IsLeafAt location value)
    (hfree : ¬ flow.IsGoverned location) : (flow.prune document).IsLeafAt location value :=
  prune_induction (motive := fun seen => seen.IsLeafAt location value) hleaf
    fun _ _ _ _ hplace hfailed hseen => hseen.without hplace fun habove =>
      hfree ((isGoverned_of_not_isLive hfailed).of_above habove)

theorem prune_eq_self (hlive : ∀ pattern ∈ flow.plan.guardOrder,
    ∀ place ∈ pattern.locations document, flow.isLive document place = true) :
    flow.prune document = document := by
  refine prune_induction (motive := fun seen => seen = document) rfl ?_
  intro front place back hsplit hplace hfailed hseen
  obtain ⟨passed, pattern, rest, horder, hnames, _⟩ := inspected_split hsplit
  rw [hseen] at hplace hfailed
  have hpattern : pattern ∈ flow.plan.guardOrder := by simp [horder]
  rw [hlive pattern hpattern place (Pattern.mem_locations_iff.mpr ⟨hnames, hplace⟩)] at hfailed
  exact absurd hfailed (by decide)

/-- What pruning leaves remains of the document: members of objects go, elements of arrays become
null, and all else stays as it is. A leaf stays if no node with preconditions holds it or what lies
above it, and the whole document stays if it is live wherever it is inspected. -/
theorem prune_only_removes (flow : Flow) (document : Document) :
    document.Remains (flow.prune document) ∧
      (document.WellFormed → ∀ leaf ∈ document.leaves [], ¬ flow.IsGoverned leaf.1 →
        (flow.prune document).at? leaf.1 = some leaf.2) ∧
      ((∀ pattern ∈ flow.plan.guardOrder, ∀ place ∈ pattern.locations document,
          flow.isLive document place = true) → flow.prune document = document) := by
  refine ⟨remains_prune flow document, fun hformed leaf hmem hfree => ?_, prune_eq_self⟩
  obtain ⟨location, hlocation, hleaf⟩ :=
    Document.isLeafAt_of_mem_leaves document hformed hmem
  rw [List.nil_append] at hlocation
  subst hlocation
  exact (isLeafAt_prune hleaf hfree).2.1

/-! A form in which every element of an array is guarded by one of its own values, which is
inspected before the element itself. -/

def elementsForm : Document := .object [("sections", .array [
  .object [("id", .text "a"), ("children", .array [
    .object [("id", .text "note"), ("type", .text "value")],
    .object [("id", .text "g"), ("type", .text "array_group"),
      ("preconditions", .array [.text "$.a.g.^.on"]),
      ("children", .array [.object [("id", .text "on"), ("type", .text "value")],
        .object [("id", .text "v"), ("type", .text "value")]])]])]])]

def elementsRead : Form := (Form.read elementsForm).toOption.getD ⟨[], [], [], []⟩

def elementsPlan : Plan where
  nodes := Plan.flattenAll .top 0 elementsRead.sections
  sections := [0]
  decisions := []
  edges := [⟨"START", "a", none, .start, .sectionVertex⟩,
    ⟨"a", "END", none, .sectionVertex, .finish⟩]
  derived := []
  kinds := [("a", .sectionVertex), ("START", .start), ("END", .finish)]
  guardOrder := [[.key "a", .key "g", .each, .key "on"], [.key "a", .key "g", .each]]

theorem plan_elementsForm : Plan.ofDocument elementsForm = .ok elementsPlan := by
  have hread : Form.read elementsForm = .ok elementsRead := rfl
  have hgraph : Plan.dependencyGraph elementsPlan.nodes =
      ⟨[[.key "a", .key "g", .each], [.key "a", .key "g", .each, .key "on"]],
        [([.key "a", .key "g", .each, .key "on"], [.key "a", .key "g", .each])]⟩ := rfl
  have horder : Plan.orderGuards elementsPlan.nodes =
      .ok [[.key "a", .key "g", .each, .key "on"], [.key "a", .key "g", .each]] := by
    rw [Plan.orderGuards, hgraph]
    cbv
  exact Plan.ofDocument_eq_ok hread rfl rfl Plan.orderEdges_lone horder

def elements : Flow := ⟨elementsPlan, Standard.table⟩

def elementsDocument : Document := .object [("a", .object [("note", .text "kept"), ("g", .array [
  .object [("on", .bool true), ("v", .text "1")], .object [("on", .bool false), ("v", .text "2")]])])]

def liveElements : Document := .object [("a", .object [("g", .array [
  .object [("on", .bool true), ("v", .text "1")], .object [("on", .bool true)]])])]

theorem prune_only_removes_elements :
    Plan.ofDocument elementsForm = .ok elements.plan ∧
      elementsDocument.Remains (elements.prune elementsDocument) ∧
      ((elements.prune elementsDocument).at? [.field "a", .field "g", .index 1]).any
        Document.isNull = true ∧
      (elements.prune elementsDocument).at? [.field "a", .field "note"] = some (.text "kept") ∧
      elements.prune liveElements = liveElements := by
  have hformed : elementsDocument.WellFormed := by
    simp [elementsDocument, Document.WellFormed, Document.ItemsWellFormed,
      Document.MembersWellFormed, Members.keys]
  have hleaf : ([.field "a", .field "note"], .text "kept") ∈ elementsDocument.leaves [] := by
    simp [elementsDocument, Document.leaves, Document.memberLeaves]
  have hfree : ¬ elements.IsGoverned [.field "a", .field "note"] := by
    rintro ⟨part, hpart, node, hnode, hguarded⟩
    have hparts : ∀ part ∈ [Step.field "a", Step.field "note"].inits,
        (elements.plan.nodeAt? part).all (fun node => !node.isGuarded) = true := by
      decide +kernel
    simpa [hnode, hguarded] using hparts part ((List.mem_inits _ _).mpr hpart)
  have hlive : ∀ pattern ∈ elements.plan.guardOrder, ∀ place ∈ pattern.locations liveElements,
      elements.isLive liveElements place = true := by decide +kernel
  obtain ⟨hremains, hleaves, -⟩ := prune_only_removes elements elementsDocument
  exact ⟨plan_elementsForm, hremains, by decide +kernel, hleaves hformed _ hleaf hfree,
    (prune_only_removes elements liveElements).2.2 hlive⟩

end FormFlow.Flow
