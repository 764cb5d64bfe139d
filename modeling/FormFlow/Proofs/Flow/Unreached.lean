import Mathlib.Data.List.Forall2
import FormFlow.Proofs.Flow.Frame
import FormFlow.Proofs.Flow.Route
import FormFlow.Proofs.Route.Influence

/-!
# What is not reached

The edges of a flow are judged by what is reached alone: whatever else is in two documents and in
the results of their sections, the edges are judged alike if the sections and decisions that are
reached under the first are valid alike and have the same outputs (`judge_eq_of_agree`).

An outcome shows nothing of the sections that are not reached either. Their verdict is
`unreachable`, the document is the pruned one without their members, and what these members held has
no influence on the document or on what is handed on (`run_consistent`).
-/

namespace FormFlow

/-- Whether a name is that of a section that is called unreachable. -/
def Outcome.hides (outcome : Outcome) (name : String) : Bool :=
  (outcome.section? name).any fun result => result.verdict = .unreachable

namespace Flow

open Route

variable {flow : Flow} {config document : Document}

/-! ### The edges -/

/-- Two runs judge the edges alike if the sections that are reached in the first are valid in both or
in neither, and the decisions that are reached there have the same output. -/
theorem judge_eq_of_agree (h : Plan.ofDocument config = .ok flow.plan) {other : Document}
    {sections others : Members SectionResult}
    (hsections : ∀ node ∈ flow.plan.sectionNodes,
      isReached (flow.judge document sections) node.id = true →
        (Members.get? node.id sections).any SectionResult.isValid =
          (Members.get? node.id others).any SectionResult.isValid)
    (hdecisions : ∀ decision ∈ flow.plan.decisions,
      isReached (flow.judge document sections) decision.id = true →
        decision.output.holds (flow.scope document none) =
          decision.output.holds (flow.scope other none)) :
    flow.judge document sections = flow.judge other others := by
  obtain ⟨form, hform⟩ := Plan.exists_makes h
  refine judge_congr fun edge hedge hreached => ?_
  unfold Judgement.chooses
  cases hkind : edge.sourceKind with
  | start => rfl
  | finish => rfl
  | sectionVertex =>
    have hsource : flow.plan.kind? edge.source = some .sectionVertex :=
      hkind ▸ (sound_of_ofDocument h).sourceKind edge hedge
    obtain ⟨node, hnode, hid⟩ := (Plan.kind?_eq_section_iff hform).mp hsource
    rw [← hid] at hreached ⊢
    exact hsections node hnode hreached
  | decision =>
    have houtput : flow.output document edge.source = flow.output other edge.source := by
      unfold output
      cases hfound : flow.plan.decision? edge.source with
      | none => rfl
      | some decision =>
        have hid : decision.id = edge.source := by simpa using List.find?_some hfound
        exact hdecisions decision (List.mem_of_find?_eq_some hfound) (hid ▸ hreached)
    exact decide_eq_decide.mpr (by simp only [judgement, houtput])

/-! In the branching form, `c` stands behind a section with messages. -/

def otherDocument : Document :=
  .object [("a", .object [("on", .text "yes")]), ("c", .object [("note", .bool true)])]

def otherResults : Members SectionResult :=
  [("a", ⟨.valid, []⟩), ("b", ⟨.invalid, []⟩), ("c", ⟨.invalid, []⟩), ("intro", ⟨.valid, []⟩)]

theorem judge_branching :
    branching.judge branchingDocument (branching.validate branchingDocument) =
        branching.judge otherDocument otherResults ∧
      (Members.get? "c" (branching.validate branchingDocument)).any SectionResult.isValid ≠
        (Members.get? "c" otherResults).any SectionResult.isValid := by
  have hsections : ∀ node ∈ branching.plan.sectionNodes,
      isReached (branching.judge branchingDocument (branching.validate branchingDocument))
          node.id = true →
        (Members.get? node.id (branching.validate branchingDocument)).any SectionResult.isValid =
          (Members.get? node.id otherResults).any SectionResult.isValid := by decide
  have hdecisions : ∀ decision ∈ branching.plan.decisions,
      isReached (branching.judge branchingDocument (branching.validate branchingDocument))
          decision.id = true →
        decision.output.holds (branching.scope branchingDocument none) =
          decision.output.holds (branching.scope otherDocument none) := by decide
  exact ⟨judge_eq_of_agree plan_branching hsections hdecisions, by decide⟩

/-! ### The outcome -/

theorem verdict_validate_ne {pruned : Document} {id : String} {result : SectionResult}
    (h : Members.get? id (flow.validate pruned) = some result) :
    result.verdict ≠ .unreachable := by
  rw [get?_validate h]
  unfold SectionResult.ofMessages
  split <;> simp

theorem hides_run (flow : Flow) (document : Document) (name : String) :
    (flow.run document).hides name =
      (Members.contains name (flow.validate (flow.prune document)) &&
        !(flow.run document).isReached name) := by
  rw [Outcome.hides, section?_run, Members.contains]
  cases hget : Members.get? name (flow.validate (flow.prune document)) with
  | none => rfl
  | some result =>
    have hverdict := verdict_validate_ne hget
    rw [Option.map_some, Option.any_some, Option.isSome_some, Bool.true_and, finalResult]
    unfold Outcome.isReached
    cases isReached (flow.run document).edges name <;> simp [hverdict]

theorem exists_pruned (flow : Flow) (members : Members Document) :
    ∃ pruned, flow.prune (.object members) = .object pruned :=
  (remains_prune flow (.object members)).exists_members.imp fun _ => And.left

/-- The members of the sections that are called unreachable are taken out, and no others. -/
theorem document_run {pruned : Members Document} (h : flow.prune document = .object pruned) :
    (flow.run document).document =
      .object (pruned.filter fun member => !(flow.run document).hides member.1) := by
  have hremoved : (flow.run document).document =
      ((Members.keys (flow.validate (flow.prune document))).filter fun name =>
        !(flow.run document).isReached name).foldl
          (fun (document : Document) name => document.without [.field name])
          (flow.prune document) := by
    rw [Members.keys, List.filter_map, List.foldl_map]
    rfl
  rw [hremoved, h, Document.foldl_without_field]
  congr 1
  refine List.filter_congr fun member _ => congrArg not ?_
  rw [hides_run, h, Bool.eq_iff_iff]
  simp [Members.contains_iff]

/-- The parts of an outcome agree with each other, with the sections of the form and with the pruned
document. -/
structure IsConsistent (flow : Flow) (form : Form) (document : Document) : Prop where
  /-- Each section of the form has one result, and there are no others. -/
  sections : ((Members.keys (flow.run document).sections).map some).Perm (form.sections.map (·.id))
  nodup : (Members.keys (flow.run document).sections).Nodup
  unreachable_iff : ∀ id result, (flow.run document).section? id = some result →
    (result.verdict = .unreachable ↔ (flow.run document).isReached id = false)
  valid_iff : ∀ id result, (flow.run document).section? id = some result →
    (flow.run document).isReached id = true → (result.verdict = .valid ↔ result.messages = [])
  /-- The pruned document loses the members of unreachable sections, and nothing else. -/
  remaining : ∃ pruned, flow.prune document = .object pruned ∧
    (flow.run document).document =
      .object (pruned.filter fun member => !(flow.run document).hides member.1)

/-- Two lists of members have the same names in order, and the same values but under hidden names. -/
def AgreeOutside (hidden : String → Bool) (members others : Members Document) : Prop :=
  List.Forall₂ (fun member other =>
    member.1 = other.1 ∧ (hidden member.1 = false → member.2 = other.2)) members others

theorem AgreeOutside.filter_eq {hidden : String → Bool} {members others : Members Document}
    (h : AgreeOutside hidden members others) :
    (members.filter fun member => !hidden member.1) =
      others.filter fun member => !hidden member.1 := by
  unfold AgreeOutside at h
  induction h with
  | nil => rfl
  | @cons member other members others hhead _ ih =>
    obtain ⟨hname, hvalue⟩ := hhead
    rw [List.filter_cons, List.filter_cons, ih, ← hname]
    cases hhidden : hidden member.1 with
    | true => rfl
    | false => rw [Prod.ext hname (hvalue hhidden)]

theorem hides_congr {form : Form} (h : Plan.Makes form flow.plan) {other : Document}
    (hedges : (flow.run document).edges = (flow.run other).edges) :
    (flow.run document).hides = (flow.run other).hides := by
  funext name
  have hkeys : Members.contains name (flow.validate (flow.prune document)) =
      Members.contains name (flow.validate (flow.prune other)) := by
    rw [Bool.eq_iff_iff, Members.contains_iff, Members.contains_iff,
      (perm_keys_validate h _).mem_iff, (perm_keys_validate h _).mem_iff]
  rw [hides_run, hides_run, hkeys, Outcome.isReached, Outcome.isReached, hedges]

theorem isConsistent_run {form : Form} (h : Plan.Makes form flow.plan)
    (members : Members Document) : flow.IsConsistent form (.object members) := by
  have hkeys : Members.keys (flow.run (.object members)).sections =
      Members.keys (flow.validate (flow.prune (.object members))) := by
    simp [run, Members.keys, Function.comp_def]
  have hperm := perm_keys_validate h (flow.prune (.object members))
  refine {
    sections := ?_
    nodup := hkeys ▸ hperm.nodup_iff.mpr (Plan.nodup_sectionIds h)
    unreachable_iff := ?_
    valid_iff := ?_
    remaining := (exists_pruned flow members).imp fun _ hpruned =>
      ⟨hpruned, document_run hpruned⟩ }
  · rw [hkeys, ← Plan.map_id_sectionNodes h]
    simpa [Function.comp_def] using hperm.map some
  · intro id result hresult
    rw [section?_run, Option.map_eq_some_iff] at hresult
    obtain ⟨found, hfound, rfl⟩ := hresult
    have hverdict := verdict_validate_ne hfound
    unfold finalResult Outcome.isReached
    cases isReached (flow.run (.object members)).edges id <;> simp [hverdict]
  · intro id result hresult hreached
    rw [section?_run, Option.map_eq_some_iff] at hresult
    obtain ⟨found, hfound, rfl⟩ := hresult
    rw [Outcome.isReached] at hreached
    have hvalid := isValid_validate hfound
    rw [finalResult, if_pos hreached, ← decide_eq_true_iff (p := found.verdict = .valid)]
    rw [SectionResult.isValid] at hvalid
    rw [hvalid, List.isEmpty_iff]

/-- The outcome for an object is consistent. If the edges of another object are judged alike, and the
pruned members are the same but for the values of those that are hidden, then the documents of both
outcomes and the documents handed on are the same. -/
theorem run_consistent (h : Plan.ofDocument config = .ok flow.plan) (members : Members Document) :
    (∃ form, Form.read config = .ok form ∧ flow.IsConsistent form (.object members)) ∧
      ∀ others pruned prunedOthers, flow.prune (.object members) = .object pruned →
        flow.prune (.object others) = .object prunedOthers →
        (flow.run (.object members)).edges = (flow.run (.object others)).edges →
        AgreeOutside (flow.run (.object members)).hides pruned prunedOthers →
        (flow.run (.object members)).document = (flow.run (.object others)).document ∧
          (flow.run (.object members)).outer = (flow.run (.object others)).outer := by
  obtain ⟨form, hread, hform⟩ := Plan.exists_read_makes h
  refine ⟨⟨form, hread, isConsistent_run hform members⟩, ?_⟩
  intro others pruned prunedOthers hpruned hprunedOthers hedges hagree
  have hdocument : (flow.run (.object members)).document =
      (flow.run (.object others)).document := by
    rw [document_run hpruned, document_run hprunedOthers, ← hides_congr hform hedges,
      hagree.filter_eq]
  exact ⟨hdocument, congrArg flow.plan.outerDocument hdocument⟩

/-! Two documents for the branching form that differ behind `b`, which lacks a value. -/

def draftMembers : Members Document :=
  [("a", .object [("on", .bool true)]), ("c", .object [("note", .text "1")]), ("b", .object [])]

def otherMembers : Members Document :=
  [("a", .object [("on", .bool true)]), ("c", .array [.text "2"]), ("b", .object [])]

theorem run_consistent_branching :
    ((branching.run (.object draftMembers)).section? "c").any (·.verdict = .unreachable) = true ∧
      ((branching.run (.object draftMembers)).isReached "c" = false) ∧
      (branching.run (.object draftMembers)).document =
        (branching.run (.object otherMembers)).document ∧
      (branching.run (.object draftMembers)).outer =
        (branching.run (.object otherMembers)).outer := by
  have hresult : (branching.run (.object draftMembers)).section? "c" =
      some ⟨.unreachable, []⟩ := rfl
  have hedges : (branching.run (.object draftMembers)).edges =
      (branching.run (.object otherMembers)).edges := by decide
  have hagree : AgreeOutside (branching.run (.object draftMembers)).hides draftMembers
      otherMembers := by
    have hhidden : (branching.run (.object draftMembers)).hides "c" = true := rfl
    exact .cons ⟨rfl, fun _ => rfl⟩ (.cons ⟨rfl, fun hshown => by simp [hhidden] at hshown⟩
      (.cons ⟨rfl, fun _ => rfl⟩ .nil))
  have hpruned : branching.prune (.object draftMembers) = .object draftMembers := rfl
  have hprunedOthers : branching.prune (.object otherMembers) = .object otherMembers := rfl
  obtain ⟨⟨form, _, hconsistent⟩, hnoLeak⟩ := run_consistent plan_branching draftMembers
  have hunreached := (hconsistent.unreachable_iff "c" _ hresult).mp rfl
  exact ⟨by rw [hresult]; rfl, hunreached,
    hnoLeak otherMembers draftMembers otherMembers hpruned hprunedOthers hedges hagree⟩

end Flow

end FormFlow
