import FormFlow.Proofs.Flow.Frame
import FormFlow.Proofs.Plan.Addresses

/-!
# What the liveness of an address depends on

A location is live if the preconditions of the nodes met on the way up from it hold. At an address
of a node these are the nodes of its line, each met once, at the part of the address that is as long
as the path of the node (`checkpoints_eq_of_isLine`): the way up comes to an element first, where it
meets the array, and does not meet it again one step above. So the address is live exactly if every
precondition on the line holds there (`isLive_iff_line`).
-/

namespace FormFlow

namespace Plan

variable {plan : Plan} {node : Node} {position : Nat} {last : Option Nat} {place : Location}
  {above : Place}

/-- A location has the shape of the path of a node, with or without a `*` at its end. -/
def Node.Spans (node : Node) (place : Location) : Prop :=
  place.shape = node.path ∨ place.shape = node.path.withoutEach

theorem Node.spans_of_isAddress {document : Document} (hplain : node.path.IsPlain)
    (h : node.IsAddress document place) : node.Spans place := by
  rcases h with hslot | hlocation
  · exact Or.inr (Pattern.shape_of_mem_slots hplain hslot)
  · exact Or.inl (Pattern.shape_of_names hplain (Pattern.mem_locations_iff.mp hlocation).1)

theorem Node.Spans.exists_front (h : node.Spans place)
    (hpath : node.path = above.pathOf node.id node.repeatable) :
    ∃ front : Location, front.shape = above.path ∧
      (place = front ++ [.field node.id] ∨
        ∃ index, place = front ++ [.field node.id] ++ [.index index]) := by
  have hstem : ∀ {stem : Location}, stem.shape = above.path ++ [.key node.id] →
      ∃ front : Location, front.shape = above.path ∧ stem = front ++ [.field node.id] := by
    intro stem hshape
    obtain ⟨front, step, rfl, hfront, hstep⟩ := Location.exists_concat_of_shape hshape
    cases step with
    | field name => exact ⟨front, hfront, by rw [Token.key.inj hstep]⟩
    | index => cases hstep
  have hwithout : node.path.withoutEach = above.path ++ [.key node.id] :=
    hpath ▸ above.withoutEach_pathOf _ _
  rcases h with hshape | hshape
  · cases hrepeatable : node.repeatable with
    | false =>
      rw [hrepeatable] at hpath
      obtain ⟨front, hfront, rfl⟩ := hstem (hshape.trans hpath)
      exact ⟨front, hfront, Or.inl rfl⟩
    | true =>
      rw [hrepeatable] at hpath
      obtain ⟨stem, step, rfl, hshape, hstep⟩ :=
        Location.exists_concat_of_shape (hshape.trans hpath)
      obtain ⟨front, hfront, rfl⟩ := hstem hshape
      cases step with
      | field => cases hstep
      | index index => exact ⟨front, hfront, Or.inr ⟨index, rfl⟩⟩
  · obtain ⟨front, hfront, rfl⟩ := hstem (hshape.trans hwithout)
    exact ⟨front, hfront, Or.inl rfl⟩

theorem Node.Spans.length_le (h : node.Spans place) : place.length ≤ node.path.length := by
  rw [← Location.length_shape]
  rcases h with hshape | hshape
  · exact hshape ▸ le_rfl
  · exact hshape ▸ node.path.withoutEach_part.length_le

/-- The way up from a location that a node spans meets the node once, and then goes on at the part
that has the shape of the place of the node. -/
theorem exists_checkpoints_of_spans
    (hfound : ∀ place, node.Spans place → plan.positionAt? place = some position)
    (hnode : plan.node? position = some node)
    (hpath : node.path = above.pathOf node.id node.repeatable) (hspans : node.Spans place)
    (hlast : last ≠ some position) :
    ∃ front : Location, front.shape = above.path ∧ front <+: place ∧
      plan.checkpoints last place.upward =
        (node, place) :: plan.checkpoints (some position) front.upward := by
  obtain ⟨front, hfront, hplace⟩ := hspans.exists_front hpath
  have hstem : node.Spans (front ++ [.field node.id]) := by
    refine Or.inr ?_
    rw [hpath, Place.withoutEach_pathOf, Location.shape, List.map_append, ← hfront]
    rfl
  rcases hplace with rfl | ⟨index, rfl⟩
  · refine ⟨front, hfront, List.prefix_append _ _, ?_⟩
    rw [Location.upward_concat, checkpoints_cons, hfound _ hstem]
    simp [hlast, hnode]
  · -- behind the element the array is the same node, which is not met again
    refine ⟨front, hfront, (List.prefix_append _ _).trans (List.prefix_append _ _), ?_⟩
    have hagain : plan.checkpoints (some position) ((front ++ [.field node.id]) :: front.upward) =
        plan.checkpoints (some position) front.upward := by
      rw [checkpoints_cons, hfound _ hstem]
      exact if_pos rfl
    rw [Location.upward_concat, Location.upward_concat, checkpoints_cons, hfound _ hspans, ← hagain]
    simp [hlast, hnode]

/-- If every node is found wherever it spans a location, the way up from there meets the nodes of
its line, each at the part that is as long as its path. -/
theorem checkpoints_eq_of_isLine {sections : List Form.Node} (h : nodesOf sections = .ok plan.nodes)
    (hfound : ∀ position node place, plan.node? position = some node → node.Spans place →
      plan.positionAt? place = some position) (hmem : node ∈ plan.nodes)
    {line : List Node} (hline : IsLine plan.nodes node line) (hspans : node.Spans place)
    (hlast : last.bind plan.node? ≠ some node) :
    plan.checkpoints last place.upward =
      line.map fun above => (above, place.take above.path.length) := by
  have hother : ∀ {last : Option Nat} {position : Nat} {node : Node},
      last.bind plan.node? ≠ some node → plan.node? position = some node →
      last ≠ some position := by
    rintro _ position node hlast hnode rfl
    exact hlast hnode
  revert hline hspans hlast line place last
  -- from the section down: past a node, the way up goes on as from its parent
  refine node_induction (motive := fun node => ∀ {last : Option Nat} {place : Location}
    {line : List Node}, IsLine plan.nodes node line → node.Spans place →
      last.bind plan.node? ≠ some node →
      plan.checkpoints last place.upward =
        line.map fun above => (above, place.take above.path.length)) h ?_ ?_ hmem
  · intro position node hnode hholds last place line hline hspans hlast
    obtain ⟨front, hfront, -, heq⟩ := exists_checkpoints_of_spans (hfound position node · hnode)
      hnode hholds.path hspans (hother hlast hnode)
    obtain rfl : front = [] := by simpa [Location.shape, Place.top] using hfront
    obtain rfl : line = [node] := hline.unique (.ofSection hholds.parent)
    rw [heq, List.map_singleton, List.take_of_length_le hspans.length_le]
    rfl
  · intro position node above parent hnode hparent hholds ih last place line hline hspans hlast
    obtain ⟨front, hfront, hpart, heq⟩ := exists_checkpoints_of_spans
      (hfound position node · hnode) hnode hholds.path hspans (hother hlast hnode)
    obtain ⟨rest, hrest, -, hparts⟩ := exists_line h (List.mem_of_getElem? hparent)
    obtain rfl : line = node :: rest := hline.unique (.upward hholds.parent hparent hrest)
    have hne : (some position).bind plan.node? ≠ some parent := by
      intro hsame
      obtain rfl := Option.some.inj (hnode.symm.trans hsame)
      have hlt := (node.placeBelow above).length_lt_pathOf node.id node.repeatable
      rw [← hholds.path] at hlt
      exact lt_irrefl _ hlt
    rw [heq, ih hrest (Or.inl hfront) hne, List.map_cons, List.take_of_length_le hspans.length_le]
    refine congrArg (_ :: ·) (List.map_congr_left fun other hother => ?_)
    have hlength : other.path.length ≤ front.length := by
      rw [← Location.length_shape, hfront]
      exact (hparts other hother).length_le
    obtain ⟨back, rfl⟩ := hpart
    rw [List.take_append_of_le_length hlength]

theorem positionAt?_of_spans {sections : List Form.Node} (h : nodesOf sections = .ok plan.nodes)
    (hids : ∀ node ∈ plan.nodes, Text.readIndex node.id.toList = none)
    (hfree : ∀ node ∈ plan.nodes, ¬ plan.IsShadowed node) (hnode : plan.node? position = some node)
    (hspans : node.Spans place) : plan.positionAt? place = some position := by
  have hmem : node ∈ plan.nodes := List.mem_of_getElem? hnode
  obtain ⟨above, -, hpath⟩ := exists_plain_place h hids hmem
  have hstem : Pattern.ofLocation place = above.path ++ [.key node.id] := by
    rw [Pattern.ofLocation_eq]
    rcases hspans with hshape | hshape
    · rw [hshape, hpath, Place.withoutEach_pathOf]
    · rw [hshape, hpath, Place.withoutEach_pathOf, Pattern.withoutEach_concat_key]
  rw [positionAt?, hstem]
  exact (positionOfPath?_eq_some_iff (nodup_paths h) hnode hpath).mpr (hfree node hmem)

end Plan

namespace Flow

variable {flow : Flow} {config document : Document} {node : Plan.Node} {place : Location}

/-- An address of a node is live exactly if all preconditions of the nodes from there up to the
section hold, each for the part of the address that is as long as the path of its node. -/
theorem isLive_iff_line (h : Plan.ofDocument config = .ok flow.plan)
    (hids : ∀ node ∈ flow.plan.nodes, Text.readIndex node.id.toList = none)
    (hfree : ∀ node ∈ flow.plan.nodes, ¬ flow.plan.IsShadowed node)
    (hmem : node ∈ flow.plan.nodes) (haddress : node.IsAddress document place) (other : Document) :
    ∃ line, Plan.IsLine flow.plan.nodes node line ∧
      line.getLast? = flow.plan.node? node.sectionNode ∧
      (flow.isLive other place = true ↔ ∀ above ∈ line, ∀ precondition ∈ above.preconditions,
        precondition.holds (flow.scope other (some (place.take above.path.length))) = true) := by
  obtain ⟨form, hform⟩ := Plan.exists_makes h
  have hplain := Plan.isPlain_path hform.nodes hids hmem
  obtain ⟨line, hline, hlast, -⟩ := Plan.exists_line hform.nodes hmem
  have hcheckpoints : flow.plan.checkpoints none place.upward =
      line.map fun above => (above, place.take above.path.length) :=
    Plan.checkpoints_eq_of_isLine hform.nodes
      (fun _ _ _ => Plan.positionAt?_of_spans hform.nodes hids hfree) hmem hline
      (Plan.Node.spans_of_isAddress hplain haddress) (by simp)
  refine ⟨line, hline, hlast, ?_⟩
  rw [isLive, hcheckpoints]
  simp

/-- The value in the first element is live, the one in the second is not: the precondition of the
array between them and the section holds at the first element only. -/
theorem isLive_iff_line_elements :
    ∃ value array top, elements.plan.node? 4 = some value ∧
      Plan.IsLine elements.plan.nodes value [value, array, top] ∧
      array.path = [.key "a", .key "g", .each] ∧
      (∀ precondition ∈ array.preconditions, precondition.holds (elements.scope elementsDocument
        (some [.field "a", .field "g", .index 0])) = true) ∧
      ¬ ∀ precondition ∈ array.preconditions, precondition.holds (elements.scope elementsDocument
        (some [.field "a", .field "g", .index 1])) = true := by
  have hids : ∀ node ∈ elements.plan.nodes, Text.readIndex node.id.toList = none := by
    decide +kernel
  have hfree : ∀ node ∈ elements.plan.nodes, ¬ elements.plan.IsShadowed node := by decide +kernel
  obtain ⟨value, array, top, hvalue, hline, hslots, hpath, hbare, htop⟩ : ∃ value array top,
      elements.plan.node? 4 = some value ∧
      Plan.IsLine elements.plan.nodes value [value, array, top] ∧
      value.path = [.key "a", .key "g", .each, .key "v"] ∧
      array.path = [.key "a", .key "g", .each] ∧ value.preconditions = [] ∧
      top.preconditions = [] :=
    ⟨_, _, _, rfl, .upward rfl rfl (.upward rfl rfl (.ofSection rfl)), rfl, rfl, rfl, rfl⟩
  -- nothing but the array has preconditions
  have hiff (index : Nat) (haddress : value.IsAddress elementsDocument
      [.field "a", .field "g", .index index, .field "v"]) : elements.isLive elementsDocument
      [.field "a", .field "g", .index index, .field "v"] = true ↔
      ∀ precondition ∈ array.preconditions, precondition.holds (elements.scope elementsDocument
        (some [.field "a", .field "g", .index index])) = true := by
    obtain ⟨line, hunique, -, hiff⟩ := isLive_iff_line plan_elementsForm hids hfree
      (List.mem_of_getElem? hvalue) haddress elementsDocument
    obtain rfl := hunique.unique hline
    simpa [hbare, htop, hpath] using hiff
  have hfirst : value.IsAddress elementsDocument [.field "a", .field "g", .index 0, .field "v"] :=
    Or.inl (by rw [hslots]; decide)
  have hsecond : value.IsAddress elementsDocument [.field "a", .field "g", .index 1, .field "v"] :=
    Or.inl (by rw [hslots]; decide)
  refine ⟨value, array, top, hvalue, hline, hpath, (hiff 0 hfirst).mp (by decide +kernel), ?_⟩
  rw [← hiff 1 hsecond]
  decide +kernel

end Flow

end FormFlow
