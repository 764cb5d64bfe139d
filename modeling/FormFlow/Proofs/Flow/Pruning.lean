import Mathlib.Data.List.Permutation
import FormFlow.Function.Standard
import FormFlow.Proofs.Flow.Settled
import FormFlow.Proofs.Plan.Basic

/-!
# What pruning keeps and what it takes

Pruning goes over the document once. What it keeps was live when it was inspected, and what it takes
was not; either may be otherwise in the document that is left.

A value that is not live is kept exactly if its inspection is undermined by a later removal
(`keepsLive_iff`), and one that is live is taken exactly if it is misjudged: the inspection that
took it is disturbed from then on, or was at a place above it where the same preconditions read
something else (`losesNoneLive_iff`). Neither happens if the plan is settled, and there are plans
that are not, for which both happen (`not_keepsLive_whole`, `not_losesNoneLive_inherited`).
-/

namespace FormFlow.Flow

variable {flow : Flow} {config : Document}

/-! ### What is kept -/

/-- Every guarded value that pruning keeps is live in the document that is left. -/
def KeepsLive (flow : Flow) (document : Document) : Prop :=
  ∀ node ∈ flow.plan.nodes, node.isGuarded = true →
    ∀ place ∈ node.path.locations (flow.prune document),
      (flow.prune document).IsPresent place → flow.isLive (flow.prune document) place = true

/-- From an inspection of a place on, something is taken out that its preconditions read, and in the
document that is left it is not live. -/
def Undermines (flow : Flow) (document : Document) (place : Location) : Prop :=
  ∃ front back, flow.inspections document = front ++ place :: back ∧
    flow.Disturbs (flow.after document front) (place :: back) place ∧
    flow.isLive (flow.prune document) place = false

/-- What was inspected is live in the end as it was then, or the inspection is disturbed. -/
theorem isLive_prune_eq {document : Document} {front back : List Location} {place : Location}
    (hsplit : flow.inspections document = front ++ place :: back)
    (hundisturbed : ¬ flow.Disturbs (flow.after document front) (place :: back) place) :
    flow.isLive (flow.prune document) place =
      flow.isLive (flow.after document front) place := by
  rw [prune_eq_after, hsplit, after_append]
  by_contra hne
  exact hundisturbed (disturbs_of_isLive_ne (Ne.symm hne))

/-- Pruning keeps only what is live in the document that is left, unless a guarded value is kept
that is undermined. In a settled plan none is, whatever the document. -/
theorem keepsLive_iff (h : Plan.ofDocument config = .ok flow.plan) (document : Document) :
    (flow.KeepsLive document ↔
      ∀ node ∈ flow.plan.nodes, node.isGuarded = true →
        ∀ place ∈ node.path.locations (flow.prune document),
          (flow.prune document).IsPresent place → ¬ flow.Undermines document place) ∧
      (flow.plan.isSettled = true → flow.KeepsLive document) := by
  obtain ⟨form, hform⟩ := Plan.exists_makes h
  -- a guarded value that is kept was found live, and stays so while nothing disturbs this
  have hlive : ∀ node ∈ flow.plan.nodes, node.isGuarded = true →
      ∀ place ∈ node.path.locations (flow.prune document),
        (flow.prune document).IsPresent place → ∃ front back,
          flow.inspections document = front ++ place :: back ∧
          (¬ flow.Disturbs (flow.after document front) (place :: back) place →
            flow.isLive (flow.prune document) place = true) := by
    intro node hnode hguarded place hplace hpresent
    obtain ⟨front, back, hsplit⟩ := exists_split_of_kept hform hnode hguarded hplace
    refine ⟨front, back, hsplit, fun hundisturbed => ?_⟩
    rw [isLive_prune_eq hsplit hundisturbed]
    exact isLive_of_kept hsplit hpresent
  refine ⟨⟨fun hkeeps node hnode hguarded place hplace hpresent => ?_,
    fun hnone node hnode hguarded place hplace hpresent => ?_⟩,
    fun hsettled node hnode hguarded place hplace hpresent => ?_⟩
  · rintro ⟨_, _, _, _, hfailed⟩
    simp [hkeeps node hnode hguarded place hplace hpresent] at hfailed
  · obtain ⟨front, back, hsplit, hundisturbed⟩ := hlive node hnode hguarded place hplace hpresent
    by_contra hfailed
    rw [Bool.not_eq_true] at hfailed
    refine hnone node hnode hguarded place hplace hpresent ⟨front, back, hsplit, ?_, hfailed⟩
    by_contra hdisturbs
    simp [hundisturbed hdisturbs] at hfailed
  · obtain ⟨front, back, hsplit, hundisturbed⟩ := hlive node hnode hguarded place hplace hpresent
    exact hundisturbed (not_disturbs hsettled hsplit)

/-! A form in which the only guarded value depends on another value. -/

def settledForm : Document := .object [("sections", .array [
  .object [("id", .text "a"), ("children", .array [
    .object [("id", .text "on"), ("type", .text "value")],
    .object [("id", .text "y"), ("type", .text "value"),
      ("preconditions", .array [.text "$.a.on"])]])]])]

def settledRead : Form := (Form.read settledForm).toOption.getD ⟨[], [], [], []⟩

def settledPlan : Plan where
  nodes := Plan.flattenAll .top 0 settledRead.sections
  sections := [0]
  decisions := []
  edges := [⟨"START", "a", none, .start, .sectionVertex⟩,
    ⟨"a", "END", none, .sectionVertex, .finish⟩]
  derived := []
  kinds := [("a", .sectionVertex), ("START", .start), ("END", .finish)]
  guardOrder := [[.key "a", .key "on"], [.key "a", .key "y"]]

theorem plan_settledForm : Plan.ofDocument settledForm = .ok settledPlan := by
  have hgraph : Plan.dependencyGraph settledPlan.nodes =
      ⟨[[.key "a", .key "y"], [.key "a", .key "on"]],
        [([.key "a", .key "on"], [.key "a", .key "y"])]⟩ := rfl
  have horder : Plan.orderGuards settledPlan.nodes =
      .ok [[.key "a", .key "on"], [.key "a", .key "y"]] := by
    rw [Plan.orderGuards, hgraph]
    cbv
  have hread : Form.read settledForm = .ok settledRead := rfl
  exact Plan.ofDocument_eq_ok hread rfl rfl Plan.orderEdges_lone horder

def settled : Flow := ⟨settledPlan, Standard.table⟩

theorem keepsLive_settled :
    settled.KeepsLive (.object [("a", .object [("on", .bool true), ("y", .text "kept")])]) :=
  (keepsLive_iff plan_settledForm _).2 rfl

/-! A form in which `b` depends on the whole of `a`, but not on the member `y` of `a`, which goes
only after `b` was inspected. -/

def wholeForm : Document := .object [("sections", .array [
  .object [("id", .text "a"), ("children", .array [
    .object [("id", .text "y"), ("type", .text "value"),
      ("preconditions", .array [.bool false])]])],
  .object [("id", .text "b"),
    ("preconditions", .array [.object [("fn", .text "equals"),
      ("args", .array [.text "$.a", .object [("y", .text "1")]])]]),
    ("children", .array [.object [("id", .text "z"), ("type", .text "value")]])]])]

def wholeRead : Form := (Form.read wholeForm).toOption.getD ⟨[], [], [], []⟩

def wholePlan : Plan where
  nodes := Plan.flattenAll .top 0 wholeRead.sections
  sections := [0, 2]
  decisions := []
  edges := [⟨"START", "a", none, .start, .sectionVertex⟩,
    ⟨"a", "b", none, .sectionVertex, .sectionVertex⟩, ⟨"b", "END", none, .sectionVertex, .finish⟩]
  derived := []
  kinds := [("a", .sectionVertex), ("b", .sectionVertex), ("START", .start), ("END", .finish)]
  guardOrder := [[.key "a"], [.key "b"], [.key "a", .key "y"]]

theorem plan_wholeForm : Plan.ofDocument wholeForm = .ok wholePlan := by
  have hedges : Route.orderEdges
      [("a", .sectionVertex), ("b", .sectionVertex), ("START", .start), ("END", .finish)]
      [⟨"START", "a", none⟩, ⟨"a", "b", none⟩, ⟨"b", "END", none⟩] =
      .ok [⟨"START", "a", none, .start, .sectionVertex⟩,
        ⟨"a", "b", none, .sectionVertex, .sectionVertex⟩,
        ⟨"b", "END", none, .sectionVertex, .finish⟩] := by cbv
  have hgraph : Plan.dependencyGraph wholePlan.nodes =
      ⟨[[.key "a", .key "y"], [.key "b"], [.key "a"]], [([.key "a"], [.key "b"])]⟩ := rfl
  have horder : Plan.orderGuards wholePlan.nodes =
      .ok [[.key "a"], [.key "b"], [.key "a", .key "y"]] := by
    rw [Plan.orderGuards, hgraph]
    cbv
  have hread : Form.read wholeForm = .ok wholeRead := rfl
  exact Plan.ofDocument_eq_ok hread rfl rfl hedges horder

def whole : Flow := ⟨wholePlan, Standard.table⟩

def wholeDocument : Document :=
  .object [("a", .object [("y", .text "1")]), ("b", .object [("z", .text "kept")])]

/-- `b` is kept although `a` is no longer what `b` depends on. -/
theorem not_keepsLive_whole :
    Plan.ofDocument wholeForm = .ok whole.plan ∧ ¬ whole.KeepsLive wholeDocument := by
  have hprune : whole.prune wholeDocument =
      .object [("a", .object []), ("b", .object [("z", .text "kept")])] := rfl
  refine ⟨plan_wholeForm, fun hkeeps => ?_⟩
  obtain ⟨node, hnode, hguarded, hpath⟩ : ∃ node ∈ whole.plan.nodes,
      node.isGuarded = true ∧ node.path = [.key "b"] :=
    ⟨_, List.mem_of_getElem? (show whole.plan.nodes[2]? = some _ from rfl), rfl, rfl⟩
  have hlive := hkeeps node hnode hguarded [.field "b"]
  rw [hpath, hprune] at hlive
  exact absurd (hlive (by exact List.mem_singleton.mpr rfl) ⟨_, rfl, rfl⟩) (by decide)

/-! ### What is taken -/

/-- Every guarded value that pruning takes is not live in the document that is left. -/
def LosesNoneLive (flow : Flow) (document : Document) : Prop :=
  ∀ node ∈ flow.plan.nodes, node.isGuarded = true →
    ∀ location ∈ node.path.locations document, document.IsPresent location →
      ¬ (flow.prune document).IsPresent location →
        flow.isLive (flow.prune document) location = false

/-- An inspection at or above a location fails, this is disturbed from then on or read elsewhere
than for the location, and in the document that is left the location is live. -/
def Misjudges (flow : Flow) (document : Document) (location : Location) : Prop :=
  ∃ front place back, flow.inspections document = front ++ place :: back ∧ place <+: location ∧
    flow.isLive (flow.after document front) place = false ∧
    (flow.Disturbs (flow.after document front) (place :: back) place ∨
      flow.Shifts (flow.prune document) place location) ∧
    flow.isLive (flow.prune document) location = true

/-- Pruning takes only what is not live in the document that is left, unless a guarded value is
misjudged. In a settled plan whose `^` all stand within the paths of their nodes none is, whatever
the document. -/
theorem losesNoneLive_iff (flow : Flow) (document : Document) :
    (flow.LosesNoneLive document ↔
      ∀ node ∈ flow.plan.nodes, node.isGuarded = true →
        ∀ location ∈ node.path.locations document, document.IsPresent location →
          ¬ flow.Misjudges document location) ∧
      (flow.plan.isSettled = true → flow.plan.isAnchored = true → flow.LosesNoneLive document) := by
  -- what is lost although it is live was misjudged
  have hmisjudged : ∀ location, document.Fits location → document.IsPresent location →
      ¬ (flow.prune document).IsPresent location →
      flow.isLive (flow.prune document) location = true → flow.Misjudges document location := by
    intro location hfits hpresent hlost hlive
    obtain ⟨front, place, back, hsplit, hbelow, hfailed⟩ :=
      exists_failed_of_lost hfits hpresent hlost
    refine ⟨front, place, back, hsplit, hbelow, hfailed, ?_, hlive⟩
    by_cases hdisturbs : flow.Disturbs (flow.after document front) (place :: back) place
    · exact Or.inl hdisturbs
    · rw [← isLive_prune_eq hsplit hdisturbs] at hfailed
      exact Or.inr (shifts_of_isLive hbelow hfailed hlive)
  have hloses : (∀ node ∈ flow.plan.nodes, node.isGuarded = true →
      ∀ location ∈ node.path.locations document, document.IsPresent location →
        ¬ flow.Misjudges document location) → flow.LosesNoneLive document := by
    intro hnone node hnode hguarded location hlocation hpresent hlost
    by_contra hlive
    rw [Bool.not_eq_false] at hlive
    exact hnone node hnode hguarded location hlocation hpresent
      (hmisjudged location (Pattern.mem_locations_iff.mp hlocation).2 hpresent hlost hlive)
  refine ⟨⟨fun hloses node hnode hguarded location hlocation hpresent => ?_, hloses⟩,
    fun hsettled hanchored => hloses fun _ _ _ _ _ _ => ?_⟩
  · rintro ⟨front, place, back, hsplit, hbelow, hfailed, _, hlive⟩
    have hlost : ¬ (flow.prune document).IsPresent location := by
      rw [prune_eq_after, hsplit, after_append]
      exact not_isPresent_of_failed hfailed hbelow
    simp [hloses node hnode hguarded location hlocation hpresent hlost] at hlive
  · rintro ⟨front, place, back, hsplit, _, _, hdisturbs | hshifts, _⟩
    · exact not_disturbs hsettled hsplit hdisturbs
    · exact not_shifts hsettled hanchored hsplit _ _ hshifts

theorem losesNoneLive_settled :
    settled.LosesNoneLive (.object [("a", .object [("y", .text "taken")])]) :=
  (losesNoneLive_iff settled _).2 rfl rfl

/-! A form in which the preconditions of `a` read `x`, and `y` below `a` is inspected before `x`.
No precondition speaks of its own node, nor of what lies above or below it. -/

def inheritedForm : Document := .object [("sections", .array [
  .object [("id", .text "a"),
    ("preconditions", .array [.object [("fn", .text "isBlank"), ("args", .array [.text "$.c.x"])]]),
    ("children", .array [.object [("id", .text "y"), ("type", .text "value"),
      ("preconditions", .array [.bool true])]])],
  .object [("id", .text "c"), ("children", .array [
    .object [("id", .text "x"), ("type", .text "value"),
      ("preconditions", .array [.bool false])]])]])]

def inheritedRead : Form := (Form.read inheritedForm).toOption.getD ⟨[], [], [], []⟩

def inheritedPlan : Plan where
  nodes := Plan.flattenAll .top 0 inheritedRead.sections
  sections := [0, 2]
  decisions := []
  edges := [⟨"START", "a", none, .start, .sectionVertex⟩,
    ⟨"a", "c", none, .sectionVertex, .sectionVertex⟩, ⟨"c", "END", none, .sectionVertex, .finish⟩]
  derived := []
  kinds := [("a", .sectionVertex), ("c", .sectionVertex), ("START", .start), ("END", .finish)]
  guardOrder := [[.key "a", .key "y"], [.key "c", .key "x"], [.key "a"]]

theorem plan_inheritedForm : Plan.ofDocument inheritedForm = .ok inheritedPlan := by
  have hedges : Route.orderEdges
      [("a", .sectionVertex), ("c", .sectionVertex), ("START", .start), ("END", .finish)]
      [⟨"START", "a", none⟩, ⟨"a", "c", none⟩, ⟨"c", "END", none⟩] =
      .ok [⟨"START", "a", none, .start, .sectionVertex⟩,
        ⟨"a", "c", none, .sectionVertex, .sectionVertex⟩,
        ⟨"c", "END", none, .sectionVertex, .finish⟩] := by cbv
  have hgraph : Plan.dependencyGraph inheritedPlan.nodes =
      ⟨[[.key "a"], [.key "c", .key "x"], [.key "a", .key "y"]],
        [([.key "c", .key "x"], [.key "a"])]⟩ := rfl
  have horder : Plan.orderGuards inheritedPlan.nodes =
      .ok [[.key "a", .key "y"], [.key "c", .key "x"], [.key "a"]] := by
    rw [Plan.orderGuards, hgraph]
    cbv
  have hread : Form.read inheritedForm = .ok inheritedRead := rfl
  exact Plan.ofDocument_eq_ok hread rfl rfl hedges horder

def inherited : Flow := ⟨inheritedPlan, Standard.table⟩

def inheritedDocument : Document :=
  .object [("a", .object [("y", .text "lost")]), ("c", .object [("x", .text "old")])]

/-- `y` is taken while `x` is still there, and is live once `x` is gone. -/
theorem not_losesNoneLive_inherited :
    Plan.ofDocument inheritedForm = .ok inherited.plan ∧ inherited.plan.looksElsewhere = true ∧
      ¬ inherited.LosesNoneLive inheritedDocument := by
  have hprune : inherited.prune inheritedDocument =
      .object [("a", .object []), ("c", .object [])] := rfl
  refine ⟨plan_inheritedForm, rfl, fun hloses => ?_⟩
  obtain ⟨node, hnode, hguarded, hpath⟩ : ∃ node ∈ inherited.plan.nodes,
      node.isGuarded = true ∧ node.path = [.key "a", .key "y"] :=
    ⟨_, List.mem_of_getElem? (show inherited.plan.nodes[1]? = some _ from rfl), rfl, rfl⟩
  have hdead := hloses node hnode hguarded [.field "a", .field "y"]
  rw [hpath, hprune] at hdead
  have hlost : ¬ Document.IsPresent (.object [("a", .object []), ("c", .object [])])
      [.field "a", .field "y"] := by
    rintro ⟨_, hvalue, _⟩
    simp [Document.at?_cons, Document.child?, Step.name, Members.get?] at hvalue
  exact absurd (hdead (List.mem_singleton.mpr rfl) ⟨_, rfl, rfl⟩ hlost) (by decide)

end FormFlow.Flow
