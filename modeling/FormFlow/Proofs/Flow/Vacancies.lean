import FormFlow.Flow.Validation
import FormFlow.Function.Standard
import FormFlow.Proofs.Plan.Slots
import FormFlow.Proofs.Plan.Subtree

/-!
# The messages of required values

A section is gone through slot by slot, over all its nodes with a requirement (`mem_requiredSlots`).
A slot owes a message if there is no value to speak of, the requirement has a text for it and the
slot is live (`Owes`). No two slots of a section are written alike (`nodup_requiredSlots`), so each
has exactly the message that it owes, and there are no other messages (`vacancies_exact`).
-/

namespace FormFlow

namespace Document

/-- Nothing there, null or the empty text. -/
def IsNothing (value : Option Document) : Prop :=
  value = none ∨ value = some .null ∨ value = some (.text "")

/-- No value to speak of: an array is none either if there is nothing first. -/
def LacksValue (value : Option Document) : Prop :=
  IsNothing value ∨ ∃ items, value = some (.array items) ∧ IsNothing items.head?

theorem isBlank_iff {value : Option Document} : isBlank value = true ↔ IsNothing value := by
  cases value with
  | none => simp [isBlank, IsNothing]
  | some document => cases document <;> simp [isBlank, IsNothing]

theorem isVacant_iff {value : Option Document} : isVacant value = true ↔ LacksValue value := by
  cases value with
  | none => simp [isVacant, isBlank, LacksValue, IsNothing]
  | some document =>
    cases document with
    | array items => simp [isVacant, isBlank_iff, LacksValue, IsNothing]
    | _ => simp [isVacant, isBlank_iff, LacksValue]

end Document

namespace Plan

/-- A slot of a node of a section that has a requirement. -/
structure Requires (plan : Plan) (document : Document) (position : Nat) (node : Node)
    (requirement : Requirement) (place : Location) : Prop where
  node_mem : node ∈ plan.nodes
  sectionNode : node.sectionNode = position
  required : node.required = some requirement
  slot : place ∈ node.path.slots document

/-- The slots of a section that are gone through, node by node. -/
def requiredSlots (plan : Plan) (document : Document) (position : Nat) :
    List (Node × Requirement × Location) :=
  (plan.nodesIn position).flatMap fun node =>
    node.required.toList.flatMap fun requirement =>
      (node.path.slots document).map (node, requirement, ·)

variable {plan : Plan} {form : Form} {document : Document} {position : Nat} {node : Node}
  {requirement : Requirement} {place : Location}

theorem mem_requiredSlots (h : Makes form plan) (hsection : position ∈ plan.sections) :
    (node, requirement, place) ∈ plan.requiredSlots document position ↔
      plan.Requires document position node requirement place := by
  simp only [requiredSlots, List.mem_flatMap, mem_nodesIn_iff h hsection, Option.mem_toList,
    List.mem_map, Prod.mk.injEq]
  constructor
  · rintro ⟨_, ⟨hmem, hbelongs⟩, _, hrequired, _, hplace, rfl, rfl, rfl⟩
    exact ⟨hmem, hbelongs, hrequired, hplace⟩
  · rintro ⟨hmem, hbelongs, hrequired, hplace⟩
    exact ⟨node, ⟨hmem, hbelongs⟩, requirement, hrequired, place, hplace, rfl, rfl, rfl⟩

theorem nodup_requiredSlots (h : Makes form plan) (hsection : position ∈ plan.sections) :
    (plan.requiredSlots document position).Nodup := by
  have hnodes := nodup_nodesIn h ((nodup_paths h.nodes).of_map _) hsection
  refine List.nodup_flatMap.mpr ⟨fun node _ => ?_, hnodes.imp fun hne entry hentry hother => ?_⟩
  · cases node.required with
    | none => simp
    | some requirement =>
      rw [Option.toList_some, List.flatMap_singleton]
      exact (Pattern.nodup_slots _ _).map fun _ _ heq => (Prod.mk.inj (Prod.mk.inj heq).2).2
  · simp only [List.mem_flatMap, List.mem_map] at hentry hother
    obtain ⟨_, _, _, _, rfl⟩ := hentry
    obtain ⟨_, _, _, _, heq⟩ := hother
    exact hne (Prod.mk.inj heq).1.symm

theorem nodup_print_requiredSlots (h : Makes form plan)
    (hids : ∀ node ∈ plan.nodes, Text.readIndex node.id.toList = none)
    (hstops : ∀ node ∈ plan.nodes, '.' ∉ node.id.toList)
    (hfree : ∀ node ∈ plan.nodes, ¬ plan.IsShadowed node) (hsection : position ∈ plan.sections) :
    ((plan.requiredSlots document position).map fun entry => entry.2.2.print).Nodup := by
  refine (nodup_requiredSlots h hsection).map_on ?_
  rintro ⟨node, requirement, place⟩ hentry ⟨other, requirement', place'⟩ hentry' hprint
  obtain ⟨hnode, -, hrequired, hplace⟩ := (mem_requiredSlots h hsection).mp hentry
  obtain ⟨hother, -, hrequired', hplace'⟩ := (mem_requiredSlots h hsection).mp hentry'
  obtain ⟨rfl, rfl⟩ := slot_inj h.nodes hids hstops hfree hnode hother hplace hplace' hprint
  obtain rfl := Option.some.inj (hrequired.symm.trans hrequired')
  rfl

end Plan

/-- If the results of entries are labelled by the keys of the entries and no key occurs twice, the
results with the label of an entry are its own. -/
theorem filter_filterMap_eq {α β κ : Type} [DecidableEq κ] {entries : List α}
    (result : α → Option β) (key : α → κ) (label : β → κ)
    (hlabel : ∀ entry value, result entry = some value → label value = key entry)
    (hnodup : (entries.map key).Nodup) {entry : α} (hmem : entry ∈ entries) :
    (entries.filterMap result).filter (fun value => label value = key entry) =
      (result entry).toList := by
  induction entries with
  | nil => simp at hmem
  | cons head rest ih =>
    obtain ⟨hfresh, hnodup⟩ := List.nodup_cons.mp hnodup
    have hcons : (head :: rest).filterMap result =
        (result head).toList ++ rest.filterMap result := by
      rw [List.filterMap_cons]
      cases result head <;> rfl
    rw [hcons, List.filter_append]
    rcases List.mem_cons.mp hmem with rfl | hmem
    · have hown : (result entry).toList.filter (fun value => label value = key entry) =
          (result entry).toList :=
        List.filter_eq_self.mpr fun value hvalue =>
          decide_eq_true (hlabel entry value (Option.mem_toList.mp hvalue))
      have hothers :
          (rest.filterMap result).filter (fun value => label value = key entry) = [] := by
        refine List.filter_eq_nil_iff.mpr fun value hvalue => ?_
        obtain ⟨other, hother, hresult⟩ := List.mem_filterMap.mp hvalue
        rw [decide_eq_true_iff, hlabel other value hresult]
        exact fun heq => hfresh (heq ▸ List.mem_map_of_mem hother)
      rw [hown, hothers, List.append_nil]
    · have hother : (result head).toList.filter (fun value => label value = key entry) = [] := by
        refine List.filter_eq_nil_iff.mpr fun value hvalue => ?_
        rw [decide_eq_true_iff, hlabel head value (Option.mem_toList.mp hvalue)]
        exact fun heq => hfresh (heq ▸ List.mem_map_of_mem hmem)
      rw [hother, List.nil_append, ih hnodup hmem]

namespace Flow

variable {flow : Flow} {config document : Document} {position : Nat} {node : Plan.Node}
  {requirement : Requirement} {place : Location} {text : String}

/-- A rule that has a message and whose check holds. -/
def Speaks (flow : Flow) (document : Document) (place : Location) (rule : Rule) : Prop :=
  rule.message ≠ "" ∧ rule.check.holds (flow.scope document (some place)) = true

/-- The text that a requirement of a node has at a place. -/
inductive Asks (flow : Flow) (document : Document) (node : Plan.Node) (place : Location) :
    Requirement → String → Prop
  | given {text : Expr} {message : String}
      (hresolve : text.resolve (flow.scope document (some place)) = .text message)
      (hmessage : message ≠ "") : Asks flow document node place (.message text) message
  | general {text : Expr} (hresolve : ∀ message,
        text.resolve (flow.scope document (some place)) ≠ .text message)
      (htruthy : text.holds (flow.scope document (some place)) = true) :
      Asks flow document node place (.message text) (node.id ++ " is required")
  | rule {before after : List Rule} {rule : Rule}
      (hbefore : ∀ other ∈ before, ¬ flow.Speaks document place other)
      (hrule : flow.Speaks document place rule) :
      Asks flow document node place (.oneOf (before ++ rule :: after)) rule.message

theorem requirementText?_eq_some_iff :
    flow.requirementText? document node requirement place = some text ↔
      flow.Asks document node place requirement text := by
  cases requirement with
  | message expr =>
    constructor
    · intro h
      simp only [requirementText?] at h
      split at h
      · next message hresolve =>
        split_ifs at h with hempty
        obtain rfl := Option.some.inj h
        exact .given hresolve hempty
      · next hresolve =>
        split_ifs at h with htruthy
        obtain rfl := Option.some.inj h
        exact .general (fun message => hresolve message) htruthy
    · intro h
      cases h with
      | given hresolve hmessage => simp [requirementText?, hresolve, hmessage]
      | general hresolve htruthy =>
        rw [Expr.holds] at htruthy
        simp only [requirementText?]
        cases hvalue : expr.resolve (flow.scope document (some place)) with
        | text message => exact absurd hvalue (hresolve message)
        | _ => exact if_pos (hvalue ▸ htruthy)
  | oneOf rules =>
    have hspeaks : ∀ rule : Rule, (decide (rule.message ≠ "") &&
        rule.check.holds (flow.scope document (some place))) = true ↔
          flow.Speaks document place rule := by
      simp [Speaks]
    constructor
    · intro h
      simp only [requirementText?, Option.map_eq_some_iff, List.find?_eq_some_iff_append] at h
      obtain ⟨rule, ⟨hrule, before, after, rfl, hbefore⟩, rfl⟩ := h
      refine .rule (fun other hother hspeaks' => ?_) ((hspeaks rule).mp hrule)
      have hsilent := hbefore other hother
      rw [(hspeaks other).mpr hspeaks'] at hsilent
      exact absurd hsilent (by decide)
    · intro h
      cases h with
      | rule hbefore hrule =>
        simp only [requirementText?, Option.map_eq_some_iff, List.find?_eq_some_iff_append]
        refine ⟨_, ⟨(hspeaks _).mpr hrule, _, _, rfl, fun other hother => ?_⟩, rfl⟩
        rw [Bool.not_eq_true', ← Bool.not_eq_true, hspeaks]
        exact hbefore other hother

/-- What a slot of a node with a requirement owes. -/
structure Owes (flow : Flow) (document : Document) (node : Plan.Node) (requirement : Requirement)
    (place : Location) (text : String) : Prop where
  lacks : Document.LacksValue (document.at? place)
  asks : flow.Asks document node place requirement text
  live : flow.isLive document place = true

theorem vacancy?_eq_some_iff {message : Message} :
    flow.vacancy? document node requirement place = some message ↔
      ∃ text, flow.Owes document node requirement place text ∧ message = .at place text := by
  constructor
  · intro h
    by_cases hvacant : Document.isVacant (document.at? place) = true
    · rw [vacancy?, if_pos hvacant] at h
      cases htext : flow.requirementText? document node requirement place with
      | none => simp [htext] at h
      | some text =>
        simp only [htext] at h
        split_ifs at h with hlive
        have hasks := requirementText?_eq_some_iff.mp htext
        exact ⟨text, ⟨Document.isVacant_iff.mp hvacant, hasks, hlive⟩, (Option.some.inj h).symm⟩
    · rw [vacancy?, if_neg hvacant] at h
      simp at h
  · rintro ⟨text, ⟨hlacks, hasks, hlive⟩, rfl⟩
    rw [vacancy?, if_pos (Document.isVacant_iff.mpr hlacks),
      requirementText?_eq_some_iff.mpr hasks]
    exact if_pos hlive

theorem vacancies_eq (flow : Flow) (document : Document) (position : Nat) :
    flow.vacancies document position =
      (flow.plan.requiredSlots document position).filterMap fun (node, requirement, place) =>
        flow.vacancy? document node requirement place := by
  have hnode : ∀ node : Plan.Node, flow.vacanciesOf document node =
      (node.required.toList.flatMap fun requirement =>
        (node.path.slots document).map (node, requirement, ·)).filterMap
          fun (node, requirement, place) => flow.vacancy? document node requirement place := by
    intro node
    rw [vacanciesOf]
    cases node.required with
    | none => rfl
    | some requirement =>
      rw [Option.toList_some, List.flatMap_singleton, List.filterMap_map]
      rfl
  rw [Plan.requiredSlots, List.filterMap_flatMap]
  exact List.flatMap_congr fun node _ => hnode node

/-- Each slot of a node of a section with a requirement has exactly the message that it owes, and
the section has no other messages for required values. -/
theorem vacancies_exact (h : Plan.ofDocument config = .ok flow.plan)
    (hids : ∀ node ∈ flow.plan.nodes, Text.readIndex node.id.toList = none)
    (hstops : ∀ node ∈ flow.plan.nodes, '.' ∉ node.id.toList)
    (hfree : ∀ node ∈ flow.plan.nodes, ¬ flow.plan.IsShadowed node)
    (hsection : position ∈ flow.plan.sections) (document : Document) :
    (∀ node requirement place, flow.plan.Requires document position node requirement place →
      (∀ text, flow.Owes document node requirement place text →
        (flow.vacancies document position).filter (·.path = place.print) = [.at place text]) ∧
      ((∀ text, ¬ flow.Owes document node requirement place text) →
        (flow.vacancies document position).filter (·.path = place.print) = [])) ∧
      ∀ message ∈ flow.vacancies document position, ∃ node requirement place,
        flow.plan.Requires document position node requirement place ∧
          message.path = place.print := by
  obtain ⟨form, hform⟩ := Plan.exists_makes h
  rw [vacancies_eq]
  refine ⟨fun node requirement place hrequires => ?_, fun message hmessage => ?_⟩
  · have hown := filter_filterMap_eq
      (fun (node, requirement, place) => flow.vacancy? document node requirement place)
      (fun entry => entry.2.2.print) Message.path
      (fun entry message hresult => by
        obtain ⟨text, -, rfl⟩ := vacancy?_eq_some_iff.mp hresult
        rfl)
      (Plan.nodup_print_requiredSlots hform hids hstops hfree hsection)
      ((Plan.mem_requiredSlots hform hsection).mpr hrequires)
    rw [hown]
    refine ⟨fun text howes => ?_, fun hnone => ?_⟩
    · rw [Option.toList_eq_singleton_iff]
      exact vacancy?_eq_some_iff.mpr ⟨text, howes, rfl⟩
    · rw [Option.toList_eq_nil_iff, Option.eq_none_iff_forall_ne_some]
      intro message hmessage
      obtain ⟨text, howes, -⟩ := vacancy?_eq_some_iff.mp hmessage
      exact hnone text howes
  · obtain ⟨⟨node, requirement, place⟩, hentry, hresult⟩ := List.mem_filterMap.mp hmessage
    obtain ⟨text, -, rfl⟩ := vacancy?_eq_some_iff.mp hresult
    exact ⟨node, requirement, place, (Plan.mem_requiredSlots hform hsection).mp hentry, rfl⟩

/-! A form with a required value below two arrays, and a required array of values. -/

def nestedForm : Document := .object [("sections", .array [
  .object [("id", .text "a"), ("children", .array [
    .object [("id", .text "g"), ("type", .text "array_group"), ("children", .array [
      .object [("id", .text "h"), ("type", .text "array_group"), ("children", .array [
        .object [("id", .text "y"), ("type", .text "value"), ("required", .bool true)]])]])],
    .object [("id", .text "tags"), ("type", .text "array_value"),
      ("required", .text "name a tag")]])]])]

def nestedRead : Form := (Form.read nestedForm).toOption.getD ⟨[], [], [], []⟩

theorem plan_nestedForm : Plan.ofDocument nestedForm = .ok (.lone nestedRead.sections) := by
  have hread : Form.read nestedForm = .ok nestedRead := rfl
  have horder : Plan.orderGuards (Plan.lone nestedRead.sections).nodes = .ok [] := by cbv
  exact Plan.ofDocument_eq_ok hread rfl rfl Plan.orderEdges_lone horder

def nested : Flow := ⟨.lone nestedRead.sections, Standard.table⟩

def nestedDocument : Document := .object [("a", .object [("g", .array [
  .object [("h", .array [.object [("y", .text "1")], .object [("y", .text "")]])],
  .object [("h", .array [.object []])]])])]

/-- Below both arrays, the second value of the first element owes a message and the first does not.
An array that is missing owes its own message. -/
theorem vacancies_exact_nested :
    (nested.vacancies nestedDocument 0).filter (·.path = Location.print
        [.field "a", .field "g", .index 0, .field "h", .index 1, .field "y"]) =
      [.at [.field "a", .field "g", .index 0, .field "h", .index 1, .field "y"] "y is required"] ∧
    (nested.vacancies nestedDocument 0).filter (·.path = Location.print
        [.field "a", .field "g", .index 0, .field "h", .index 0, .field "y"]) = [] ∧
    (nested.vacancies nestedDocument 0).filter (·.path = Location.print
        [.field "a", .field "tags"]) = [.at [.field "a", .field "tags"] "name a tag"] := by
  have hids : ∀ node ∈ nested.plan.nodes, Text.readIndex node.id.toList = none := by decide +kernel
  have hstops : ∀ node ∈ nested.plan.nodes, '.' ∉ node.id.toList := by decide +kernel
  have hfree : ∀ node ∈ nested.plan.nodes, ¬ nested.plan.IsShadowed node := by decide +kernel
  have hsection : 0 ∈ nested.plan.sections := List.mem_singleton.mpr rfl
  obtain ⟨hexact, -⟩ :=
    vacancies_exact plan_nestedForm hids hstops hfree hsection nestedDocument
  refine ⟨?_, ?_, ?_⟩
  · refine (hexact _ _ _ ⟨List.mem_of_getElem? (i := 3) rfl, rfl, rfl, by decide⟩).1 _ ⟨?_, ?_, ?_⟩
    · exact Document.isVacant_iff.mp rfl
    · exact .general (fun _ heq => by cases heq) rfl
    · rfl
  · refine (hexact _ _ _ ⟨List.mem_of_getElem? (i := 3) rfl, rfl, rfl, by decide⟩).2 ?_
    intro text howes
    exact absurd (Document.isVacant_iff.mpr howes.lacks) (by decide)
  · refine (hexact _ _ _ ⟨List.mem_of_getElem? (i := 4) rfl, rfl, rfl, by decide⟩).1 _ ⟨?_, ?_, ?_⟩
    · exact Document.isVacant_iff.mp rfl
    · exact .given rfl (by decide)
    · rfl

end Flow

end FormFlow
