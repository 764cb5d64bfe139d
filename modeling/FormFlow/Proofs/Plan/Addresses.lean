import Mathlib.Data.List.Permutation
import FormFlow.Proofs.Path.Shapes
import FormFlow.Proofs.Plan.Sections

/-!
# The addresses of nodes

A node addresses the slots of its path and the places that its path names, and the node of such an
address is looked up by the shape of the address, less one `*` at the end. If no id is read as an
index, then the shape leads back to the path of the node, but for that `*`
(`ofLocation_of_isAddress`). So a repeatable node is found at its addresses exactly if no other node
has the same path without the `*`, and every other node is found at all of them (`findsOwn_iff`).

No two nodes have the same path (`nodup_paths`), but two nodes may differ by the `*` alone, and then
the addresses of the repeatable one lead to the other (`not_findsOwn_twins`).
-/

namespace FormFlow.Plan

variable {nodes : List Node} {node : Node} {position : Nat}

/-! ### No path is repeated -/

theorem nodup_of_repeatedPath? {earlier : List Pattern} (h : repeatedPath? earlier nodes = none) :
    (nodes.map Node.path).Nodup ∧ ∀ node ∈ nodes, node.path ∉ earlier := by
  induction nodes generalizing earlier with
  | nil => simp
  | cons head rest ih =>
    have hstep : (if head.path ∈ earlier then some head.path
        else repeatedPath? (head.path :: earlier) rest) = none := h
    split_ifs at hstep with hhead
    obtain ⟨hnodup, hfresh⟩ := ih hstep
    refine ⟨?_, fun node hmem => ?_⟩
    · rw [List.map_cons, List.nodup_cons]
      refine ⟨fun hmem => ?_, hnodup⟩
      obtain ⟨other, hother, hpath⟩ := List.mem_map.mp hmem
      exact hfresh other hother (hpath ▸ List.mem_cons_self)
    · rcases List.mem_cons.mp hmem with rfl | hmem
      · exact hhead
      · exact fun hin => hfresh node hmem (List.mem_cons_of_mem _ hin)

theorem nodup_paths {sections : List Form.Node} (h : nodesOf sections = .ok nodes) :
    (nodes.map Node.path).Nodup :=
  (nodup_of_repeatedPath? (nodesOf_eq_ok h).2).1

theorem positionOf?_path (hnodup : (nodes.map Node.path).Nodup)
    (hnode : nodes[position]? = some node) : positionOf? nodes node.path = some position := by
  obtain ⟨hlt, rfl⟩ := List.getElem?_eq_some_iff.mp hnode
  rw [positionOf?, List.findIdx?_eq_some_iff_getElem]
  refine ⟨hlt, by simp, fun earlier hearlier => ?_⟩
  have hne := List.pairwise_iff_getElem.mp hnodup earlier position (by simp; omega) (by simpa)
    hearlier
  simpa using hne

theorem positionOf?_eq_none_iff {path : Pattern} :
    positionOf? nodes path = none ↔ ∀ node ∈ nodes, node.path ≠ path := by
  simp [positionOf?, List.findIdx?_eq_none_iff]

/-! ### The paths of the nodes -/

theorem Place.withoutEach_pathOf (place : Place) (id : String) (repeatable : Bool) :
    (place.pathOf id repeatable).withoutEach = place.path ++ [.key id] := by
  cases repeatable <;> simp [pathOf]

theorem Place.isPlain_pathOf {place : Place} (h : place.path.IsPlain) {id : String}
    (hid : Text.readIndex id.toList = none) (repeatable : Bool) :
    (place.pathOf id repeatable).IsPlain := by
  have hstem : Pattern.IsPlain (place.path ++ [.key id]) := h.concat hid
  cases repeatable with
  | false => exact hstem
  | true => exact hstem.concat trivial

theorem exists_plain_place {sections : List Form.Node} (h : nodesOf sections = .ok nodes)
    (hids : ∀ node ∈ nodes, Text.readIndex node.id.toList = none) (hmem : node ∈ nodes) :
    ∃ above : Place, above.path.IsPlain ∧ node.path = above.pathOf node.id node.repeatable := by
  obtain ⟨position, hnode⟩ := List.getElem?_of_mem hmem
  obtain ⟨above, habove, hholds⟩ := exists_place_of_passed
    (motive := fun place => place.path.IsPlain) h (fun _ hnone => by simp [Place.top] at hnone)
    (fun place position node hnode hholds hplace => by
      have hplain := Place.isPlain_pathOf hplace (hids node (List.mem_of_getElem? hnode))
        node.repeatable
      rwa [← hholds.path] at hplain) hnode
  exact ⟨above, habove, hholds.path⟩

theorem isPlain_path {sections : List Form.Node} (h : nodesOf sections = .ok nodes)
    (hids : ∀ node ∈ nodes, Text.readIndex node.id.toList = none) (hmem : node ∈ nodes) :
    node.path.IsPlain := by
  obtain ⟨above, habove, hpath⟩ := exists_plain_place h hids hmem
  exact hpath ▸ Place.isPlain_pathOf habove (hids node hmem) _

/-! ### Looking up addresses -/

/-- Whether a location is a slot of a node in a document, or a place that the path of the node names
there. -/
def Node.IsAddress (node : Node) (document : Document) (place : Location) : Prop :=
  place ∈ node.path.slots document ∨ place ∈ node.path.locations document

variable {plan : Plan} {config : Document}

/-- Whatever a node addresses in a document, the node at a position is found there. -/
def FindsOwn (plan : Plan) (position : Nat) (node : Node) : Prop :=
  ∀ document place, node.IsAddress document place → plan.positionAt? place = some position

/-- Another node has the same path without a `*` at its end. -/
def IsShadowed (plan : Plan) (node : Node) : Prop :=
  ∃ other ∈ plan.nodes, other.path.withEach = node.path

instance (plan : Plan) (node : Node) : Decidable (plan.IsShadowed node) :=
  inferInstanceAs (Decidable (∃ other ∈ plan.nodes, other.path.withEach = node.path))

theorem ofLocation_of_isAddress {above : Place} {document : Document} {place : Location}
    (habove : above.path.IsPlain) (hid : Text.readIndex node.id.toList = none)
    (hpath : node.path = above.pathOf node.id node.repeatable)
    (h : node.IsAddress document place) :
    Pattern.ofLocation place = above.path ++ [.key node.id] := by
  have hplain : node.path.IsPlain := hpath ▸ Place.isPlain_pathOf habove hid _
  rw [Pattern.ofLocation_eq]
  rcases h with hslot | hlocation
  · rw [Pattern.shape_of_mem_slots hplain hslot, hpath, Place.withoutEach_pathOf,
      Pattern.withoutEach_concat_key]
  · rw [Pattern.shape_of_names hplain (Pattern.mem_locations_iff.mp hlocation).1, hpath,
      Place.withoutEach_pathOf]

/-- By its path without a `*` at the end, a node is found exactly if it is not shadowed. -/
theorem positionOfPath?_eq_some_iff {above : Place} (hnodup : (plan.nodes.map Node.path).Nodup)
    (hnode : plan.node? position = some node)
    (hpath : node.path = above.pathOf node.id node.repeatable) :
    plan.positionOfPath? (above.path ++ [.key node.id]) = some position ↔
      ¬ plan.IsShadowed node := by
  have hown := positionOf?_path hnodup hnode
  rw [positionOfPath?]
  cases hrepeatable : node.repeatable with
  | false =>
    have hstem : node.path = above.path ++ [.key node.id] := by rw [hpath, hrepeatable]; rfl
    rw [← hstem, hown, Option.some_or]
    refine iff_of_true rfl ?_
    rintro ⟨other, _, heq⟩
    have hlast := congrArg List.getLast? (heq.trans hstem)
    simp [Pattern.withEach] at hlast
  | true =>
    have hstem : node.path = Pattern.withEach (above.path ++ [.key node.id]) := by
      rw [hpath, hrepeatable]; rfl
    rw [← hstem, hown]
    -- the stem is looked up first, so a node of this path shadows the repeatable one
    cases hfound : positionOf? plan.nodes (above.path ++ [.key node.id]) with
    | none =>
      refine iff_of_true rfl ?_
      rintro ⟨other, hother, heq⟩
      have hsame := congrArg Pattern.withoutEach (heq.trans hstem)
      rw [Pattern.withoutEach_withEach, Pattern.withoutEach_withEach] at hsame
      exact positionOf?_eq_none_iff.mp hfound other hother hsame
    | some found =>
      obtain ⟨other, hother, hsame⟩ := exists_of_positionOf? hfound
      refine iff_of_false (fun heq => ?_) fun hfree => hfree ?_
      · obtain rfl : found = position := Option.some.inj heq
        obtain rfl : other = node := Option.some.inj (hother.symm.trans hnode)
        have hlength := congrArg List.length (hsame.symm.trans hstem)
        simp [Pattern.withEach] at hlength
      · exact ⟨other, List.mem_of_getElem? hother, by rw [hsame, hstem]⟩

/-- If no id is read as an index, a node is found at all that it addresses exactly if no other node
has the same path but for the `*` at its end. -/
theorem findsOwn_iff (h : ofDocument config = .ok plan)
    (hids : ∀ node ∈ plan.nodes, Text.readIndex node.id.toList = none)
    (hnode : plan.node? position = some node) :
    plan.FindsOwn position node ↔ ¬ plan.IsShadowed node := by
  obtain ⟨form, hform⟩ := exists_makes h
  have hmem : node ∈ plan.nodes := List.mem_of_getElem? hnode
  obtain ⟨above, habove, hpath⟩ := exists_plain_place hform.nodes hids hmem
  have hplain : node.path.IsPlain := hpath ▸ Place.isPlain_pathOf habove (hids node hmem) _
  have hfound : ∀ document place, node.IsAddress document place →
      (plan.positionAt? place = some position ↔ ¬ plan.IsShadowed node) := by
    intro document place haddress
    rw [positionAt?, ofLocation_of_isAddress habove (hids node hmem) hpath haddress]
    exact positionOfPath?_eq_some_iff (nodup_paths hform.nodes) hnode hpath
  constructor
  · intro hown
    obtain ⟨document, place, hplace⟩ := Pattern.exists_mem_locations hplain
    exact (hfound document place (Or.inr hplace)).mp (hown document place (Or.inr hplace))
  · intro hfree document place haddress
    exact (hfound document place haddress).mpr hfree

/-! A form with a value and an array of records of the same name, and with another array below. -/

def twinsForm : Document := .object [("sections", .array [
  .object [("id", .text "a"), ("children", .array [
    .object [("id", .text "g"), ("type", .text "value")],
    .object [("id", .text "g"), ("type", .text "array_group"), ("children", .array [
      .object [("id", .text "x"), ("type", .text "value")],
      .object [("children", .array [
        .object [("id", .text "h"), ("type", .text "array_group"), ("children", .array [
          .object [("id", .text "y"), ("type", .text "value")]])]])]])]])]])]

def twinsRead : Form := (Form.read twinsForm).toOption.getD ⟨[], [], [], []⟩

def twinsPlan : Plan where
  nodes := flattenAll .top 0 twinsRead.sections
  sections := [0]
  decisions := []
  edges := [⟨"START", "a", none, .start, .sectionVertex⟩,
    ⟨"a", "END", none, .sectionVertex, .finish⟩]
  derived := []
  kinds := [("a", .sectionVertex), ("START", .start), ("END", .finish)]
  guardOrder := []

theorem plan_twinsForm : ofDocument twinsForm = .ok twinsPlan := by
  have hread : Form.read twinsForm = .ok twinsRead := rfl
  have horder : orderGuards twinsPlan.nodes = .ok [] := by cbv
  exact ofDocument_eq_ok hread rfl rfl orderEdges_lone horder

theorem findsOwn_iff_twins :
    ∃ inner outer, twinsPlan.node? 5 = some inner ∧ twinsPlan.node? 2 = some outer ∧
      inner.path = [.key "a", .key "g", .each, .key "h", .each, .key "y"] ∧
      outer.path = [.key "a", .key "g", .each] ∧
      twinsPlan.FindsOwn 5 inner ∧ ¬ twinsPlan.FindsOwn 2 outer := by
  have hids : ∀ node ∈ twinsPlan.nodes, Text.readIndex node.id.toList = none := by decide
  refine ⟨_, _, rfl, rfl, rfl, rfl, ?_, ?_⟩
  · exact (findsOwn_iff plan_twinsForm hids rfl).mpr (by decide)
  · rw [findsOwn_iff plan_twinsForm hids rfl]
    decide

def twinsDocument : Document :=
  .object [("a", .object [("g", .array [.object [("x", .text "1")]])])]

/-- An element of the outer array is looked up as the value of the same name. -/
theorem not_findsOwn_twins :
    ofDocument twinsForm = .ok twinsPlan ∧
      (∀ node ∈ twinsPlan.nodes, Text.readIndex node.id.toList = none) ∧
      ∃ outer, twinsPlan.node? 2 = some outer ∧
        outer.IsAddress twinsDocument [.field "a", .field "g", .index 0] ∧
        twinsPlan.positionAt? [.field "a", .field "g", .index 0] = some 1 ∧
        ¬ twinsPlan.FindsOwn 2 outer := by
  refine ⟨plan_twinsForm, by decide, _, rfl, Or.inr (by decide), rfl, fun hown => ?_⟩
  have hfound := hown twinsDocument [.field "a", .field "g", .index 0] (Or.inr (by decide))
  exact absurd hfound (by decide)

end FormFlow.Plan
