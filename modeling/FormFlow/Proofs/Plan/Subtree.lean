import Mathlib.Data.List.Nodup
import FormFlow.Proofs.Plan.Basic
import FormFlow.Proofs.Plan.Lineage

/-!
# Subtrees

The nodes of a tree stand in the list one behind another, and a walk from the topmost of them meets
them in that order before it returns to what else is on its stack (`walkDown_roots`). So the subtree
of a node is the run of positions from its own on, as many as the tree has nodes
(`subtreeOf_eq_range'`), and the subtrees of the sections together are all positions in order
(`flatMap_subtree`). A position is in the subtree of a section exactly if its node belongs to that
section (`mem_subtree_iff`).
-/

namespace FormFlow.Plan

variable {nodes part : List Node} {node : Node} {place : Place} {first position : Nat}
  {attributes : Form.Attributes} {children : List Form.Node}

theorem count_of_none (hid : attributes.id = none) :
    count ⟨attributes, children⟩ = countAll children := by
  simp [count, hid]

theorem count_of_some {id : String} (hid : attributes.id = some id) :
    count ⟨attributes, children⟩ = countAll children + 1 := by
  simp [count, hid, Nat.add_comm]

theorem roots_of_none (hid : attributes.id = none) :
    roots first ⟨attributes, children⟩ = rootsAll first children := by
  simp [roots, hid]

theorem roots_of_some {id : String} (hid : attributes.id = some id) :
    roots first ⟨attributes, children⟩ = [first] := by
  simp [roots, hid]

theorem StandsAt.length_le (h : StandsAt nodes first part) :
    first + part.length ≤ nodes.length := by
  obtain ⟨front, back, rfl, rfl⟩ := h
  simp

theorem StandsAt.getElem?_add (h : StandsAt nodes first part) {offset : Nat}
    (hoffset : offset < part.length) : nodes[first + offset]? = part[offset]? := by
  obtain ⟨front, back, rfl, rfl⟩ := h
  rw [List.append_assoc, List.getElem?_append_right (Nat.le_add_right _ _), Nat.add_sub_cancel_left,
    List.getElem?_append_left hoffset]

@[simp] theorem walkDown_nil (nodes : List Node) (fuel : Nat) : walkDown nodes fuel [] = [] := by
  cases fuel <;> rfl

mutual

theorem walkDown_roots {place : Place} {first : Nat} (declared : Form.Node)
    (hpart : StandsAt nodes first (flatten place first declared)) {fuel : Nat}
    (hfuel : count declared ≤ fuel) (stack : List Nat) :
    walkDown nodes fuel (roots first declared ++ stack) =
      List.range' first (count declared) ++ walkDown nodes (fuel - count declared) stack := by
  obtain ⟨attributes, children⟩ := declared
  cases hid : attributes.id with
  | none =>
    rw [flatten_of_none hid] at hpart
    rw [count_of_none hid] at hfuel ⊢
    rw [roots_of_none hid]
    exact walkDown_rootsAll children hpart hfuel stack
  | some id =>
    rw [flatten_of_some hid] at hpart
    rw [count_of_some hid] at hfuel ⊢
    rw [roots_of_some hid]
    obtain ⟨fuel, rfl⟩ := Nat.exists_eq_add_of_le' (Nat.le_of_add_left_le hfuel)
    rw [List.singleton_append, walkDown, hpart.head]
    simp only [nodeAt]
    rw [walkDown_rootsAll children hpart.tail (by omega) stack, List.range'_succ,
      List.cons_append, Nat.add_sub_add_right]

theorem walkDown_rootsAll {place : Place} {first : Nat} (declared : List Form.Node)
    (hpart : StandsAt nodes first (flattenAll place first declared)) {fuel : Nat}
    (hfuel : countAll declared ≤ fuel) (stack : List Nat) :
    walkDown nodes fuel (rootsAll first declared ++ stack) =
      List.range' first (countAll declared) ++ walkDown nodes (fuel - countAll declared) stack := by
  cases declared with
  | nil => simp [rootsAll, countAll]
  | cons head rest =>
    rw [countAll] at hfuel ⊢
    rw [rootsAll, List.append_assoc, walkDown_roots head hpart.ofHead (by omega),
      walkDown_rootsAll rest hpart.ofRest (by omega), ← List.append_assoc, List.range'_append_1,
      Nat.sub_sub]

end

/-- The subtree of a node is the run of the positions of its tree. -/
theorem subtreeOf_eq_range' {id : String} (hid : attributes.id = some id)
    (hpart : StandsAt nodes first (flatten place first ⟨attributes, children⟩)) :
    subtreeOf nodes first = List.range' first (count ⟨attributes, children⟩) := by
  have hfuel := hpart.length_le
  rw [length_flatten] at hfuel
  have hwalk := walkDown_roots ⟨attributes, children⟩ hpart (Nat.le_of_add_left_le hfuel) []
  rw [roots_of_some hid] at hwalk
  simpa [subtreeOf] using hwalk

/-! ### The trees of the topmost nodes -/

mutual

theorem flatMap_subtreeOf_roots {place : Place} {first : Nat} (declared : Form.Node)
    (hpart : StandsAt nodes first (flatten place first declared)) :
    (roots first declared).flatMap (subtreeOf nodes) = List.range' first (count declared) := by
  obtain ⟨attributes, children⟩ := declared
  cases hid : attributes.id with
  | none =>
    rw [flatten_of_none hid] at hpart
    rw [roots_of_none hid, count_of_none hid]
    exact flatMap_subtreeOf_rootsAll children hpart
  | some id => rw [roots_of_some hid, List.flatMap_singleton, subtreeOf_eq_range' hid hpart]

theorem flatMap_subtreeOf_rootsAll {place : Place} {first : Nat} (declared : List Form.Node)
    (hpart : StandsAt nodes first (flattenAll place first declared)) :
    (rootsAll first declared).flatMap (subtreeOf nodes) =
      List.range' first (countAll declared) := by
  cases declared with
  | nil => rfl
  | cons head rest =>
    rw [rootsAll, List.flatMap_append, flatMap_subtreeOf_roots head hpart.ofHead,
      flatMap_subtreeOf_rootsAll rest hpart.ofRest, countAll, List.range'_append_1]

end

mutual

theorem exists_standsAt_of_mem_roots {place : Place} {first : Nat} (declared : Form.Node)
    (hpart : StandsAt nodes first (flatten place first declared))
    (hroot : position ∈ roots first declared) :
    ∃ (attributes : Form.Attributes) (children : List Form.Node) (id : String),
      attributes.id = some id ∧
        StandsAt nodes position (flatten place position ⟨attributes, children⟩) := by
  obtain ⟨attributes, children⟩ := declared
  cases hid : attributes.id with
  | none =>
    rw [flatten_of_none hid] at hpart
    rw [roots_of_none hid] at hroot
    exact exists_standsAt_of_mem_rootsAll children hpart hroot
  | some id =>
    rw [roots_of_some hid, List.mem_singleton] at hroot
    exact ⟨attributes, children, id, hid, hroot ▸ hpart⟩

theorem exists_standsAt_of_mem_rootsAll {place : Place} {first : Nat} (declared : List Form.Node)
    (hpart : StandsAt nodes first (flattenAll place first declared))
    (hroot : position ∈ rootsAll first declared) :
    ∃ (attributes : Form.Attributes) (children : List Form.Node) (id : String),
      attributes.id = some id ∧
        StandsAt nodes position (flatten place position ⟨attributes, children⟩) := by
  cases declared with
  | nil => simp [rootsAll] at hroot
  | cons head rest =>
    rw [rootsAll, List.mem_append] at hroot
    rcases hroot with hroot | hroot
    · exact exists_standsAt_of_mem_roots head hpart.ofHead hroot
    · exact exists_standsAt_of_mem_rootsAll rest hpart.ofRest hroot

end

section

variable {sections : List Form.Node} (h : nodesOf sections = .ok nodes)

include h

theorem standsAt_sections : StandsAt nodes 0 (flattenAll .top 0 sections) :=
  (nodesOf_eq_ok h).1 ▸ .self nodes

theorem countAll_sections : countAll sections = nodes.length := by
  rw [(nodesOf_eq_ok h).1, length_flattenAll]

theorem flatMap_subtreeOf_sections :
    (rootsAll 0 sections).flatMap (subtreeOf nodes) = List.range nodes.length := by
  rw [flatMap_subtreeOf_rootsAll sections (standsAt_sections h), countAll_sections h,
    List.range_eq_range']

end

theorem sectionNode_of_standsAt {id : String} (hid : attributes.id = some id)
    (hpart : StandsAt nodes first (flatten .top first ⟨attributes, children⟩)) {offset : Nat}
    (hnode : (flatten .top first ⟨attributes, children⟩)[offset]? = some node) :
    node.sectionNode = first := by
  rw [flatten_of_some hid] at hpart hnode
  cases offset with
  | zero =>
    obtain rfl := Option.some.inj hnode
    rfl
  | succ offset =>
    obtain ⟨place, ⟨above, habove⟩, hholds⟩ := exists_place_flattenAll
      (motive := fun place => ∃ above, place.above = some (above, first))
      (fun place position node _ hholds ⟨above, habove⟩ =>
        ⟨position, by rw [Node.placeBelow, hholds.sectionNode, Place.sectionOf, habove]⟩)
      ⟨first, rfl⟩ children hpart.tail hnode
    rw [hholds.sectionNode, Place.sectionOf, habove]

/-! ### The subtrees of the sections -/

variable {form : Form} {plan : Plan} {offset : Nat}

theorem flatMap_subtree (h : Makes form plan) :
    plan.sections.flatMap plan.subtree = List.range plan.nodes.length := by
  rw [h.sections]
  exact flatMap_subtreeOf_sections h.nodes

theorem nodup_subtree (h : Makes form plan) (hsection : position ∈ plan.sections) :
    (plan.subtree position).Nodup := by
  have hnodup : (plan.sections.flatMap plan.subtree).Nodup :=
    flatMap_subtree h ▸ List.nodup_range
  exact (List.nodup_flatMap.mp hnodup).1 position hsection

theorem sectionNode_of_mem_subtree (h : Makes form plan) (hsection : position ∈ plan.sections)
    (hmem : offset ∈ plan.subtree position) (hnode : plan.node? offset = some node) :
    node.sectionNode = position := by
  rw [h.sections] at hsection
  obtain ⟨attributes, children, id, hid, hpart⟩ :=
    exists_standsAt_of_mem_rootsAll form.sections (standsAt_sections h.nodes) hsection
  rw [subtree, subtreeOf_eq_range' hid hpart, List.mem_range'_1] at hmem
  obtain ⟨offset, rfl⟩ := Nat.exists_eq_add_of_le hmem.1
  have hoffset : offset < (flatten .top position ⟨attributes, children⟩).length := by
    rw [length_flatten]
    omega
  exact sectionNode_of_standsAt hid hpart ((hpart.getElem?_add hoffset).symm.trans hnode)

theorem mem_subtree_iff (h : Makes form plan) (hsection : position ∈ plan.sections) :
    offset ∈ plan.subtree position ↔
      ∃ node, plan.node? offset = some node ∧ node.sectionNode = position := by
  have hall {offset : Nat} : (∃ top ∈ plan.sections, offset ∈ plan.subtree top) ↔
      offset < plan.nodes.length := by
    rw [← List.mem_flatMap, flatMap_subtree h, List.mem_range]
  constructor
  · intro hmem
    have hlt := hall.mp ⟨position, hsection, hmem⟩
    exact ⟨plan.nodes[offset], List.getElem?_eq_getElem hlt,
      sectionNode_of_mem_subtree h hsection hmem (List.getElem?_eq_getElem hlt)⟩
  · rintro ⟨node, hnode, rfl⟩
    obtain ⟨top, htop, hmem⟩ := hall.mpr (List.getElem?_eq_some_iff.mp hnode).1
    rwa [sectionNode_of_mem_subtree h htop hmem hnode]

def nodesIn (plan : Plan) (position : Nat) : List Node :=
  (plan.subtree position).filterMap plan.node?

theorem mem_nodesIn_iff (h : Makes form plan) (hsection : position ∈ plan.sections) :
    node ∈ plan.nodesIn position ↔ node ∈ plan.nodes ∧ node.sectionNode = position := by
  rw [nodesIn, List.mem_filterMap]
  constructor
  · rintro ⟨offset, hmem, hnode⟩
    exact ⟨List.mem_of_getElem? hnode, sectionNode_of_mem_subtree h hsection hmem hnode⟩
  · rintro ⟨hmem, hbelongs⟩
    obtain ⟨offset, hnode⟩ := List.getElem?_of_mem hmem
    exact ⟨offset, (mem_subtree_iff h hsection).mpr ⟨node, hnode, hbelongs⟩, hnode⟩

theorem nodup_nodesIn (h : Makes form plan) (hnodup : plan.nodes.Nodup)
    (hsection : position ∈ plan.sections) : (plan.nodesIn position).Nodup := by
  refine (nodup_subtree h hsection).filterMap fun offset other node hnode hother => ?_
  have hlt := (List.getElem?_eq_some_iff.mp hnode).1
  exact (List.getElem?_inj hlt hnodup).mp (hnode.trans hother.symm)

end FormFlow.Plan
