import FormFlow.Flow.Report
import FormFlow.Proofs.Flow.Unreached
import FormFlow.Proofs.Flow.Vacancies
import FormFlow.Proofs.Plan.Kinship

/-!
# The progress of the sections

A report has one line for each section, which says how many of its values are answered out of how
many. It counts the slots of values whose first step has the name of the section, in a document that
has lost the members of the sections that are not reached.

In an object these are the slots of the nodes that belong to the section (`slotsOf_valueSlots`), as
the path of a node starts with the id of its section (`exists_top`). So each slot is counted in one
line, and what a section that is reached has in its slots is what they hold in the pruned document
(`slots_run`). A slot that owes a message is then counted and not answered (`report_accounts`).
-/

namespace FormFlow

namespace Pattern

variable {name : String} {rest : Pattern} {members others : Members Document} {place : Location}

/-- The slots of a pattern that starts with a key are the same in every document, or stand at the
places of a pattern that starts with this key. -/
theorem slots_key_cases (name : String) (rest : Pattern) :
    (∃ places : List Location, (∀ place ∈ places, place.head? = some (.field name)) ∧
      ∀ document, slots (.key name :: rest) document = places) ∨
    ∃ (front : Pattern) (back : Location), ∀ document, slots (.key name :: rest) document =
      (locations (.key name :: front) document).map (· ++ back) := by
  obtain ⟨stem, hstem⟩ : ∃ stem, withoutEach (.key name :: rest) = .key name :: stem := by
    rcases eq_withoutEach_or (.key name :: rest) with hall | hall
    · exact ⟨rest, hall.symm⟩
    · cases hstem : withoutEach (.key name :: rest) with
      | nil => simp [hstem, withEach] at hall
      | cons token stem =>
        rw [hstem, withEach, List.cons_append, List.cons.injEq] at hall
        exact ⟨stem, by rw [hall.1]⟩
  have hcut := append_cutAtLastEach (.key name :: stem)
  cases hparts : cutAtLastEach (.key name :: stem) with
  | mk front back =>
    rw [hparts] at hcut
    cases front with
    | nil =>
      refine .inl ⟨(location? (.key name :: stem)).toList, fun place hplace => ?_,
        fun document => ?_⟩
      · obtain ⟨first, below, hkey, rfl, -⟩ := exists_key_of_location? (Option.mem_toList.mp hplace)
        obtain rfl := Token.key.inj hkey
        rfl
      · simp [slots, hstem, hparts]
    | cons token front =>
      obtain ⟨rfl, -⟩ := List.cons.inj hcut
      exact .inr ⟨front, back.keySteps, fun document => by simp [slots, hstem, hparts]⟩

theorem locations_key_object (name : String) (front : Pattern) (members : Members Document) :
    locations (.key name :: front) (.object members) =
      (Members.get? name members).toList.flatMap fun child =>
        (locations front child).map (.field name :: ·) := by
  rw [locations]
  cases Members.get? name members <;> simp

theorem head?_of_mem_slots (h : place ∈ slots (.key name :: rest) (.object members)) :
    place.head? = some (.field name) := by
  rcases slots_key_cases name rest with ⟨places, hheads, hslots⟩ | ⟨front, back, hslots⟩
  · exact hheads place (hslots _ ▸ h)
  · rw [hslots, locations_key_object] at h
    simp only [List.mem_map, List.mem_flatMap] at h
    obtain ⟨_, ⟨_, _, _, _, rfl⟩, rfl⟩ := h
    rfl

theorem slots_congr (h : Members.get? name members = Members.get? name others) :
    slots (.key name :: rest) (.object members) = slots (.key name :: rest) (.object others) := by
  rcases slots_key_cases name rest with ⟨places, -, hslots⟩ | ⟨front, back, hslots⟩
  · rw [hslots, hslots]
  · rw [hslots, hslots, locations_key_object, locations_key_object, h]

end Pattern

theorem Document.at?_congr {name : String} {members others : Members Document} {place : Location}
    (h : Members.get? name members = Members.get? name others)
    (hplace : place.head? = some (.field name)) :
    (Document.object members).at? place = (Document.object others).at? place := by
  obtain ⟨below, rfl⟩ := List.head?_eq_some_iff.mp hplace
  rw [at?_cons, at?_cons, child?, child?, Step.name, h]

namespace Plan

variable {form : Form} {plan : Plan} {node top : Node} {document : Document}
  {members : Members Document} {position : Nat} {place : Location}

/-! ### The nodes of a section -/

theorem exists_top {sections : List Form.Node} {nodes : List Node}
    (h : nodesOf sections = .ok nodes) (hmem : node ∈ nodes) :
    ∃ top rest, nodes[node.sectionNode]? = some top ∧ node.path = .key top.id :: rest := by
  refine node_induction (motive := fun node => ∃ top rest,
    nodes[node.sectionNode]? = some top ∧ node.path = .key top.id :: rest) h ?_ ?_ hmem
  · intro position node hnode hholds
    have hpath := hholds.path
    rw [Place.pathOf_eq] at hpath
    refine ⟨node, if node.repeatable then [.each] else [], ?_, ?_⟩
    · rw [hholds.sectionNode]
      exact hnode
    · rw [hpath]
      unfold tokens
      split <;> rfl
  · rintro position node above parent _ _ hholds ⟨top, rest, htop, hpath⟩
    refine ⟨top, rest ++ tokens node.id node.repeatable, ?_, ?_⟩
    · rw [hholds.sectionNode]
      exact htop
    · rw [hholds.path, Place.pathOf_eq, Node.placeBelow, hpath, List.cons_append]

theorem sectionNode_of_section (h : Makes form plan) (hsection : position ∈ plan.sections)
    (htop : plan.node? position = some top) : top.sectionNode = position := by
  rw [h.sections] at hsection
  obtain ⟨attributes, children, id, hid, hpart⟩ :=
    exists_standsAt_of_mem_rootsAll form.sections (standsAt_sections h.nodes) hsection
  rw [flatten_of_some hid] at hpart
  obtain rfl := Option.some.inj (hpart.head.symm.trans htop)
  rfl

theorem node?_of_mem_sectionNodes (h : Makes form plan) (htop : top ∈ plan.sectionNodes) :
    top.sectionNode ∈ plan.sections ∧ plan.node? top.sectionNode = some top := by
  obtain ⟨position, hsection, hnode⟩ := List.mem_filterMap.mp htop
  rw [sectionNode_of_section h hsection hnode]
  exact ⟨hsection, hnode⟩

theorem exists_section (h : Makes form plan) (hnode : node ∈ plan.nodes) :
    ∃ top ∈ plan.sectionNodes, top.sectionNode = node.sectionNode := by
  obtain ⟨offset, hoffset⟩ := List.getElem?_of_mem hnode
  have hlt := (List.getElem?_eq_some_iff.mp hoffset).1
  rw [← List.mem_range, ← flatMap_subtree h, List.mem_flatMap] at hlt
  obtain ⟨position, hsection, hmem⟩ := hlt
  have hbelongs := sectionNode_of_mem_subtree h hsection hmem hoffset
  obtain ⟨top, rest, htop, -⟩ := exists_top h.nodes hnode
  rw [hbelongs] at htop
  refine ⟨top, List.mem_filterMap.mpr ⟨position, hsection, htop⟩, ?_⟩
  rw [hbelongs]
  exact sectionNode_of_section h hsection htop

theorem exists_path_eq_cons (h : Makes form plan) (htop : top ∈ plan.sectionNodes)
    (hnode : node ∈ plan.nodes) (hbelongs : node.sectionNode = top.sectionNode) :
    ∃ rest, node.path = .key top.id :: rest := by
  obtain ⟨other, rest, hother, hpath⟩ := exists_top h.nodes hnode
  rw [hbelongs] at hother
  obtain rfl := Option.some.inj (hother.symm.trans (node?_of_mem_sectionNodes h htop).2)
  exact ⟨rest, hpath⟩

theorem eq_of_section_id_eq (h : Makes form plan) {other : Node} (htop : top ∈ plan.sectionNodes)
    (hother : other ∈ plan.sectionNodes) (hid : top.id = other.id) : top = other :=
  List.inj_on_of_nodup_map (nodup_sectionIds h) htop hother hid

/-! ### Slots section by section -/

/-- The value slots of the nodes that belong to a section. -/
def slotsIn (plan : Plan) (document : Document) (position : Nat) : List Location :=
  ((plan.nodesIn position).filter Node.isValue).flatMap fun node => node.path.slots document

theorem mem_slotsIn_iff (h : Makes form plan) (hsection : position ∈ plan.sections) :
    place ∈ plan.slotsIn document position ↔ ∃ node ∈ plan.nodes,
      node.sectionNode = position ∧ node.isValue = true ∧ place ∈ node.path.slots document := by
  simp only [slotsIn, List.mem_flatMap, List.mem_filter, mem_nodesIn_iff h hsection, and_assoc]

theorem filterMap_getElem?_range {α : Type} (items : List α) :
    (List.range items.length).filterMap (fun position => items[position]?) = items := by
  induction items using List.reverseRecOn with
  | nil => rfl
  | append_singleton front last ih =>
    have hfront : (List.range front.length).filterMap
          (fun position => (front ++ [last])[position]?) =
        (List.range front.length).filterMap fun position => front[position]? :=
      List.filterMap_congr fun position hlt =>
        List.getElem?_append_left (List.mem_range.mp hlt)
    rw [List.length_append, List.length_singleton, List.range_succ, List.filterMap_append, hfront,
      ih]
    simp

theorem map_sectionNode_sectionNodes (h : Makes form plan) :
    plan.sectionNodes.map Node.sectionNode = plan.sections := by
  rw [sectionNodes, List.map_filterMap]
  have hown : ∀ position ∈ plan.sections,
      (plan.node? position).map Node.sectionNode = some position := by
    intro position hsection
    obtain ⟨top, htop, -⟩ := parent_of_mem_sections h.nodes (h.sections ▸ hsection)
    have hnode : plan.node? position = some top := htop
    rw [hnode, Option.map_some, sectionNode_of_section h hsection hnode]
  rw [List.filterMap_congr hown, List.filterMap_some]

theorem valueSlots_eq (h : Makes form plan) (document : Document) :
    plan.valueSlots document =
      plan.sectionNodes.flatMap fun top => plan.slotsIn document top.sectionNode := by
  have hnodes : plan.nodes = plan.sections.flatMap plan.nodesIn := by
    rw [← filterMap_getElem?_range plan.nodes, ← flatMap_subtree h, List.filterMap_flatMap]
    rfl
  rw [valueSlots, hnodes, List.filter_flatMap, List.flatMap_assoc, ← map_sectionNode_sectionNodes h,
    List.flatMap_map]
  rfl

theorem head?_of_mem_slotsIn (h : Makes form plan) (htop : top ∈ plan.sectionNodes)
    (hplace : place ∈ plan.slotsIn (.object members) top.sectionNode) :
    place.head? = some (.field top.id) := by
  have hsection := (node?_of_mem_sectionNodes h htop).1
  obtain ⟨node, hnode, hbelongs, -, hslot⟩ := (mem_slotsIn_iff h hsection).mp hplace
  obtain ⟨rest, hpath⟩ := exists_path_eq_cons h htop hnode hbelongs
  rw [hpath] at hslot
  exact Pattern.head?_of_mem_slots hslot

/-- The slots whose first step has the name of a section are the slots of its nodes. -/
theorem slotsOf_valueSlots (h : Makes form plan) (htop : top ∈ plan.sectionNodes)
    (members : Members Document) :
    Report.slotsOf (plan.valueSlots (.object members)) top.id =
      plan.slotsIn (.object members) top.sectionNode := by
  have hlies {place : Location} {other : Node} (hother : other ∈ plan.sectionNodes)
      (hplace : place ∈ plan.slotsIn (.object members) other.sectionNode) :
      place.head?.any (·.name = top.id) = decide (other.id = top.id) := by
    rw [head?_of_mem_slotsIn h hother hplace]
    rfl
  have hothers : ∀ {others : List Node}, (∀ other ∈ others, other ∈ plan.sectionNodes) →
      (∀ other ∈ others, other.id ≠ top.id) →
      (others.flatMap fun other => (plan.slotsIn (.object members) other.sectionNode).filter
        fun place => place.head?.any (·.name = top.id)) = [] := by
    intro others hsections hne
    rw [List.flatMap_eq_nil_iff]
    intro other hother
    rw [List.filter_eq_nil_iff]
    intro place hplace
    rw [hlies (hsections other hother) hplace]
    simpa using hne other hother
  -- the slots are listed section by section, and no other section has this id
  obtain ⟨front, back, hsplit⟩ := List.append_of_mem htop
  have hnodup := nodup_sectionIds h
  rw [hsplit, List.map_append, List.map_cons, List.nodup_middle, List.nodup_cons,
    ← List.map_append] at hnodup
  have hne : ∀ other ∈ front ++ back, other.id ≠ top.id := fun other hother hid =>
    hnodup.1 (hid ▸ List.mem_map_of_mem hother)
  have hown : (plan.slotsIn (.object members) top.sectionNode).filter
      (fun place => place.head?.any (·.name = top.id)) =
        plan.slotsIn (.object members) top.sectionNode := by
    rw [List.filter_eq_self]
    intro place hplace
    rw [hlies htop hplace]
    simp
  rw [Report.slotsOf, valueSlots_eq h, List.filter_flatMap]
  conv_lhs => rw [hsplit]
  rw [List.flatMap_append, List.flatMap_cons, hown, hothers, hothers, List.nil_append,
    List.append_nil]
  · intro other hother
    simp [hsplit, hother]
  · exact fun other hother => hne other (List.mem_append_right _ hother)
  · intro other hother
    simp [hsplit, hother]
  · exact fun other hother => hne other (List.mem_append_left _ hother)

/-- How many slots of the values of a section there are, and how many of them are not vacant. -/
def progressIn (plan : Plan) (document : Document) (position : Nat) : Report.Progress where
  answered := ((plan.slotsIn document position).filter fun place =>
    !Document.isVacant (document.at? place)).length
  total := (plan.slotsIn document position).length

theorem progress_valueSlots (h : Makes form plan) (htop : top ∈ plan.sectionNodes)
    (members : Members Document) :
    Report.progress (plan.valueSlots (.object members)) (.object members) top.id =
      plan.progressIn (.object members) top.sectionNode := by
  rw [Report.progress, slotsOf_valueSlots h htop]
  rfl

end Plan

namespace Report

/-- How a verdict is shown in front of the id of a section. -/
def mark : Verdict → String
  | .valid => "[valid]      "
  | .invalid => "[invalid]    "
  | .unreachable => "[unreachable]"

/-- How the number of messages is shown behind that of the values. -/
def remark : Nat → String
  | 0 => ""
  | 1 => ", 1 message"
  | count => ", " ++ toString count ++ " messages"

theorem label_eq_mark (verdict : Verdict) : label verdict = mark verdict := by
  cases verdict <;> decide

theorem messageCount_eq_remark (count : Nat) : messageCount count = remark count := by
  match count with
  | 0 | 1 => rfl
  | count + 2 => simp [messageCount, remark, Text.Natural.print_eq_toString]

theorem sectionLines_eq (id : String) (progress : Progress) (result : SectionResult) :
    sectionLines id progress result =
      "  " ++ mark result.verdict ++ " " ++ id ++
        " (" ++ toString progress.answered ++ "/" ++ toString progress.total ++ " answered" ++
        remark result.messages.length ++ ")\n" ++
        String.join (result.messages.map fun message =>
          "      - " ++ message.path ++ ": " ++ message.text ++ "\n") := by
  unfold sectionLines messageLine
  simp only [label_eq_mark, messageCount_eq_remark, Text.Natural.print_eq_toString]

theorem pathwayLine_eq (pathway : List String) :
    pathwayLine pathway = "Pathway: " ++
      (if pathway = [] then "(not started)" else String.intercalate " -> " pathway) ++ "\n" := by
  simp only [pathwayLine, List.isEmpty_iff]

theorem derivedLines_eq (derived : Members Document) :
    derivedLines derived = if derived = [] then "" else "Derived:\n" ++
      String.join (derived.map fun (id, value) => "  " ++ id ++ " = " ++ value.print ++ "\n") := by
  simp only [derivedLines, List.isEmpty_iff]

end Report

theorem Members.get?_filter {α : Type} {keep : String → Bool} {name : String}
    (h : keep name = true) (members : Members α) :
    get? name (members.filter fun member => keep member.1) = get? name members := by
  induction members with
  | nil => rfl
  | cons member rest ih =>
    obtain ⟨key, value⟩ := member
    by_cases hkey : key = name
    · subst hkey
      simp [get?, h]
    · by_cases hkeep : keep key = true
      · simp [get?, hkey, hkeep, ih]
      · simp [get?, hkey, hkeep, ih]

namespace Flow

variable {flow : Flow} {form : Form} {config : Document} {top : Plan.Node}
  {members pruned : Members Document} {place : Location}

/-! ### What a section that is reached keeps -/

theorem exists_remaining (flow : Flow) (members : Members Document) :
    ∃ pruned remaining, flow.prune (.object members) = .object pruned ∧
      (flow.run (.object members)).document = .object remaining ∧
      ∀ name, (flow.run (.object members)).isReached name = true →
        Members.get? name remaining = Members.get? name pruned := by
  obtain ⟨pruned, hpruned⟩ := exists_pruned flow members
  refine ⟨pruned, _, hpruned, document_run hpruned, fun name hreached => ?_⟩
  refine @Members.get?_filter _ (fun name => !(flow.run (.object members)).hides name) _ ?_ pruned
  rw [hides_run, hreached]
  simp

theorem slots_run (h : Plan.Makes form flow.plan) (htop : top ∈ flow.plan.sectionNodes)
    (hreached : (flow.run (.object members)).isReached top.id = true) :
    flow.plan.slotsIn (flow.run (.object members)).document top.sectionNode =
        flow.plan.slotsIn (flow.prune (.object members)) top.sectionNode ∧
      ∀ place ∈ flow.plan.slotsIn (flow.prune (.object members)) top.sectionNode,
        (flow.run (.object members)).document.at? place =
          (flow.prune (.object members)).at? place := by
  obtain ⟨pruned, remaining, hpruned, hremaining, hsame⟩ := exists_remaining flow members
  rw [hpruned, hremaining]
  refine ⟨List.flatMap_congr fun node hnode => ?_, fun place hplace =>
    Document.at?_congr (hsame _ hreached) (Plan.head?_of_mem_slotsIn h htop hplace)⟩
  have hsection := (Plan.node?_of_mem_sectionNodes h htop).1
  obtain ⟨hmem, hbelongs⟩ := (Plan.mem_nodesIn_iff h hsection).mp (List.mem_of_mem_filter hnode)
  obtain ⟨rest, hpath⟩ := Plan.exists_path_eq_cons h htop hmem hbelongs
  rw [hpath]
  exact Pattern.slots_congr (hsame _ hreached)

/-! ### The report -/

/-- What the report of an outcome counts. -/
structure IsAccounted (flow : Flow) (document : Document) : Prop where
  /-- Between the pathway and the derived values, the report has one line for each section, in order,
  with the numbers of its slots in decimal. Behind it stand the messages of the section. -/
  lines : ∃ results : String → SectionResult,
    (∀ top ∈ flow.plan.sectionNodes,
      (flow.run document).section? top.id = some (results top.id)) ∧
    (flow.run document).report flow.plan =
      "Pathway: " ++
        (if (flow.run document).pathway = [] then "(not started)"
        else String.intercalate " -> " (flow.run document).pathway) ++ "\n" ++
        "Sections:\n" ++
        String.join (flow.plan.sectionNodes.map fun top =>
          let progress := flow.plan.progressIn (flow.run document).document top.sectionNode
          let result := results top.id
          "  " ++ Report.mark result.verdict ++ " " ++ top.id ++
            " (" ++ toString progress.answered ++ "/" ++ toString progress.total ++ " answered" ++
            Report.remark result.messages.length ++ ")\n" ++
            String.join (result.messages.map fun message =>
              "      - " ++ message.path ++ ": " ++ message.text ++ "\n")) ++
        (if (flow.run document).derived = [] then ""
        else "Derived:\n" ++ String.join ((flow.run document).derived.map fun (id, value) =>
          "  " ++ id ++ " = " ++ value.print ++ "\n"))
  /-- The lines together count the value slots. -/
  slots : flow.plan.valueSlots (flow.run document).document =
    flow.plan.sectionNodes.flatMap fun top =>
      flow.plan.slotsIn (flow.run document).document top.sectionNode
  /-- The line of the section of a node, and no other, counts the slots of the node. -/
  own : ∀ node ∈ flow.plan.nodes, node.isValue = true →
    ∀ place ∈ node.path.slots (flow.run document).document,
      ∃ top ∈ flow.plan.sectionNodes, top.sectionNode = node.sectionNode ∧
        ∀ other ∈ flow.plan.sectionNodes,
          place ∈ flow.plan.slotsIn (flow.run document).document other.sectionNode ↔ other = top
  /-- A slot of a section that is reached is counted and not answered if it owes a message. -/
  owed : ∀ top ∈ flow.plan.sectionNodes, (flow.run document).isReached top.id = true →
    ∀ node requirement place,
      flow.plan.Requires (flow.prune document) top.sectionNode node requirement place →
      node.isValue = true →
      ∀ message, flow.vacancy? (flow.prune document) node requirement place = some message →
        place ∈ flow.plan.slotsIn (flow.run document).document top.sectionNode ∧
          Document.isVacant ((flow.run document).document.at? place) = true

theorem report_eq (h : Plan.Makes form flow.plan) (members : Members Document) :
    (flow.run (.object members)).report flow.plan =
      Report.pathwayLine (flow.run (.object members)).pathway ++ "Sections:\n" ++
        String.join (flow.plan.sectionNodes.filterMap fun top =>
          ((flow.run (.object members)).section? top.id).map (Report.sectionLines top.id
            (flow.plan.progressIn (flow.run (.object members)).document top.sectionNode))) ++
        Report.derivedLines (flow.run (.object members)).derived := by
  obtain ⟨_, remaining, _, hremaining, _⟩ := exists_remaining flow members
  have hprogress : ∀ top ∈ flow.plan.sectionNodes,
      ((flow.run (.object members)).section? top.id).map (Report.sectionLines top.id
        (Report.progress (flow.plan.valueSlots (.object remaining)) (.object remaining) top.id)) =
      ((flow.run (.object members)).section? top.id).map (Report.sectionLines top.id
        (flow.plan.progressIn (.object remaining) top.sectionNode)) := fun top htop => by
    rw [Plan.progress_valueSlots h htop]
  rw [Outcome.report, hremaining]
  simp only [List.filterMap_congr hprogress]

/-- The report of the outcome for an object counts each value slot in the line of the section that
its node belongs to. In a section that is reached, it does not count a slot as answered that owes a
message. -/
theorem report_accounts (h : Plan.ofDocument config = .ok flow.plan) (members : Members Document) :
    flow.IsAccounted (.object members) := by
  obtain ⟨form, hform⟩ := Plan.exists_makes h
  refine ⟨?lines, Plan.valueSlots_eq hform _, ?own, ?owed⟩
  case lines =>
    have hresult : ∀ top ∈ flow.plan.sectionNodes,
        ∃ result, (flow.run (.object members)).section? top.id = some result := fun top htop =>
      exists_section? hform ((Plan.kind?_eq_section_iff hform).mpr ⟨top, htop, rfl⟩)
    refine ⟨fun id => ((flow.run (.object members)).section? id).getD ⟨.valid, []⟩,
      fun top htop => ?_, ?_⟩
    · obtain ⟨result, hsome⟩ := hresult top htop
      simp [hsome]
    · rw [report_eq hform, Report.pathwayLine_eq, Report.derivedLines_eq]
      congr 3
      rw [← List.filterMap_eq_map]
      refine List.filterMap_congr fun top htop => ?_
      obtain ⟨result, hsome⟩ := hresult top htop
      simp [hsome, Report.sectionLines_eq]
  case own =>
    intro node hnode hvalue place hplace
    obtain ⟨_, remaining, _, hremaining, _⟩ := exists_remaining flow members
    rw [hremaining] at hplace ⊢
    obtain ⟨top, htop, hbelongs⟩ := Plan.exists_section hform hnode
    have hown : place ∈ flow.plan.slotsIn (.object remaining) top.sectionNode :=
      (Plan.mem_slotsIn_iff hform (Plan.node?_of_mem_sectionNodes hform htop).1).mpr
        ⟨node, hnode, hbelongs.symm, hvalue, hplace⟩
    refine ⟨top, htop, hbelongs, fun other hother => ⟨fun hmem => ?_, fun heq => heq ▸ hown⟩⟩
    have hhead := Plan.head?_of_mem_slotsIn hform hother hmem
    rw [Plan.head?_of_mem_slotsIn hform htop hown] at hhead
    exact Plan.eq_of_section_id_eq hform hother htop (Step.field.inj (Option.some.inj hhead)).symm
  case owed =>
    intro top htop hreached node requirement place hrequires hvalue message hmessage
    obtain ⟨hslots, hvalues⟩ := slots_run hform htop hreached
    have hplace : place ∈ flow.plan.slotsIn (flow.prune (.object members)) top.sectionNode :=
      (Plan.mem_slotsIn_iff hform (Plan.node?_of_mem_sectionNodes hform htop).1).mpr
        ⟨node, hrequires.node_mem, hrequires.sectionNode, hvalue, hrequires.slot⟩
    obtain ⟨text, howes, -⟩ := vacancy?_eq_some_iff.mp hmessage
    exact ⟨hslots ▸ hplace, hvalues place hplace ▸ Document.isVacant_iff.mpr howes.lacks⟩

/-- In the branching form `b` is reached and lacks its value: its slot is counted and not
answered. -/
theorem report_accounts_branching :
    (branching.run (.object draftMembers)).report branching.plan =
      "Pathway: a -> d\n" ++
      "Sections:\n" ++
      "  [valid]       intro (0/0 answered)\n" ++
      "  [valid]       a (1/1 answered)\n" ++
      "  [invalid]     b (0/1 answered, 1 message)\n" ++
      "      - b.name: name is required\n" ++
      "  [unreachable] c (0/0 answered)\n" ∧
    ((branching.run (.object draftMembers)).isReached "b" = true ∧
      branching.plan.progressIn (branching.run (.object draftMembers)).document 3 = ⟨0, 1⟩) ∧
    [.field "b", .field "name"] ∈
      branching.plan.slotsIn (branching.run (.object draftMembers)).document 3 ∧
    Document.isVacant ((branching.run (.object draftMembers)).document.at?
      [.field "b", .field "name"]) = true := by
  have hpruned : branching.prune (.object draftMembers) = .object draftMembers := rfl
  have htop : branchingPlan.nodes[3] ∈ branching.plan.sectionNodes :=
    List.mem_filterMap.mpr ⟨3, by decide, rfl⟩
  have hrequires : branching.plan.Requires (branching.prune (.object draftMembers)) 3
      branchingPlan.nodes[4] (.message (.literal (.bool true))) [.field "b", .field "name"] :=
    ⟨List.getElem_mem _, rfl, rfl, by rw [hpruned]; decide⟩
  have hmessage : branching.vacancy? (branching.prune (.object draftMembers))
      branchingPlan.nodes[4] (.message (.literal (.bool true))) [.field "b", .field "name"] =
        some ⟨"b.name", "name is required"⟩ := by rw [hpruned]; rfl
  exact ⟨by decide +kernel, ⟨rfl, rfl⟩,
    (report_accounts plan_branching draftMembers).owed _ htop rfl _ _ _ hrequires rfl _ hmessage⟩

end Flow

end FormFlow
