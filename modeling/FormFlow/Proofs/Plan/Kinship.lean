import FormFlow.Proofs.Plan.Subtree

/-!
# Parents and children

A node is a child of another exactly if it has that as its parent (`mem_children_iff`), and it is a
section exactly if it has none (`mem_sections_iff`). Children, like sections, are listed in the order
of their positions (`pairwise_children`). The path of a child is that of its parent and its own part
behind it (`path_of_parent_eq_some`).

Every node stands in front of its own tree (`exists_tree`), whose topmost nodes but for itself are
its children. So both sides come from what is so of any tree: its topmost nodes have the parent that
its place gives them (`exists_parent_of_mem_rootsAll`), and all its other nodes are children of one
of them (`mem_rootsAll_or_child`).
-/

namespace FormFlow.Plan

variable {nodes : List Node} {node : Node} {sections : List Form.Node} {place : Place}
  {first position above below : Nat}

/-- What a node adds to the path of its parent. -/
def tokens (id : String) (repeatable : Bool) : Pattern :=
  if repeatable then [.key id, .each] else [.key id]

theorem Place.pathOf_eq (place : Place) (id : String) (repeatable : Bool) :
    place.pathOf id repeatable = place.path ++ tokens id repeatable := by
  cases repeatable <;> simp [pathOf, tokens, Pattern.withEach]

/-! ### Trees and their topmost nodes -/

mutual

theorem exists_standsAt_flatten (declared : Form.Node) {place : Place} {first : Nat}
    (hpart : StandsAt nodes first (flatten place first declared))
    (hlow : first ≤ position) (hhigh : position < first + count declared) :
    ∃ (place : Place) (attributes : Form.Attributes) (children : List Form.Node) (id : String),
      attributes.id = some id ∧
        StandsAt nodes position (flatten place position ⟨attributes, children⟩) := by
  obtain ⟨attributes, children⟩ := declared
  cases hid : attributes.id with
  | none =>
    rw [flatten_of_none hid] at hpart
    rw [count_of_none hid] at hhigh
    exact exists_standsAt_flattenAll children hpart hlow hhigh
  | some id =>
    rcases hlow.eq_or_lt with rfl | hlow
    · exact ⟨place, attributes, children, id, hid, hpart⟩
    · rw [flatten_of_some hid] at hpart
      rw [count_of_some hid] at hhigh
      exact exists_standsAt_flattenAll children hpart.tail hlow (by omega)

theorem exists_standsAt_flattenAll (declared : List Form.Node) {place : Place} {first : Nat}
    (hpart : StandsAt nodes first (flattenAll place first declared))
    (hlow : first ≤ position) (hhigh : position < first + countAll declared) :
    ∃ (place : Place) (attributes : Form.Attributes) (children : List Form.Node) (id : String),
      attributes.id = some id ∧
        StandsAt nodes position (flatten place position ⟨attributes, children⟩) := by
  cases declared with
  | nil => simp [countAll] at hhigh; omega
  | cons head rest =>
    rw [countAll] at hhigh
    by_cases hhead : position < first + count head
    · exact exists_standsAt_flatten head hpart.ofHead hlow hhead
    · exact exists_standsAt_flattenAll rest hpart.ofRest (by omega) (by omega)

end

mutual

theorem mem_roots_or_child (declared : Form.Node) {place : Place} {first : Nat}
    (hpart : StandsAt nodes first (flatten place first declared))
    (hlow : first ≤ position) (hhigh : position < first + count declared) :
    position ∈ roots first declared ∨
      ∃ (above : Nat) (parent : Node), nodes[above]? = some parent ∧
        position ∈ parent.children := by
  obtain ⟨attributes, children⟩ := declared
  cases hid : attributes.id with
  | none =>
    rw [flatten_of_none hid] at hpart
    rw [count_of_none hid] at hhigh
    rw [roots_of_none hid]
    exact mem_rootsAll_or_child children hpart hlow hhigh
  | some id =>
    rw [roots_of_some hid]
    rcases hlow.eq_or_lt with rfl | hlow
    · exact Or.inl (List.mem_singleton_self _)
    · rw [flatten_of_some hid] at hpart
      rw [count_of_some hid] at hhigh
      refine Or.inr ?_
      rcases mem_rootsAll_or_child children hpart.tail hlow (by omega) with hroot | hchild
      · exact ⟨first, _, hpart.head, hroot⟩
      · exact hchild

theorem mem_rootsAll_or_child (declared : List Form.Node) {place : Place} {first : Nat}
    (hpart : StandsAt nodes first (flattenAll place first declared))
    (hlow : first ≤ position) (hhigh : position < first + countAll declared) :
    position ∈ rootsAll first declared ∨
      ∃ (above : Nat) (parent : Node), nodes[above]? = some parent ∧
        position ∈ parent.children := by
  cases declared with
  | nil => simp [countAll] at hhigh; omega
  | cons head rest =>
    rw [countAll] at hhigh
    rw [rootsAll, List.mem_append]
    by_cases hhead : position < first + count head
    · exact (mem_roots_or_child head hpart.ofHead hlow hhead).imp_left Or.inl
    · exact (mem_rootsAll_or_child rest hpart.ofRest (by omega) (by omega)).imp_left Or.inr

end

mutual

theorem roots_sublist (declared : Form.Node) (first : Nat) :
    (roots first declared).Sublist (List.range' first (count declared)) := by
  obtain ⟨attributes, children⟩ := declared
  cases hid : attributes.id with
  | none =>
    rw [roots_of_none hid, count_of_none hid]
    exact rootsAll_sublist children first
  | some id =>
    rw [roots_of_some hid, count_of_some hid, List.range'_succ]
    exact (List.nil_sublist _).cons_cons first

theorem rootsAll_sublist (declared : List Form.Node) (first : Nat) :
    (rootsAll first declared).Sublist (List.range' first (countAll declared)) := by
  cases declared with
  | nil => exact List.nil_sublist _
  | cons head rest =>
    rw [rootsAll, countAll, ← List.range'_append_1]
    exact (roots_sublist head first).append (rootsAll_sublist rest _)

end

theorem pairwise_rootsAll (declared : List Form.Node) (first : Nat) :
    (rootsAll first declared).Pairwise (· < ·) :=
  (List.pairwise_lt_range' 1).sublist (rootsAll_sublist declared first)

theorem exists_parent_of_mem_rootsAll {declared : List Form.Node}
    (hpart : StandsAt nodes first (flattenAll place first declared))
    (hroot : position ∈ rootsAll first declared) :
    ∃ node, nodes[position]? = some node ∧ node.parent = place.above.map Prod.fst := by
  obtain ⟨attributes, children, id, hid, hown⟩ :=
    exists_standsAt_of_mem_rootsAll declared hpart hroot
  rw [flatten_of_some hid] at hown
  exact ⟨_, hown.head, rfl⟩

/-! ### Above and below -/

section

variable (h : nodesOf sections = .ok nodes)

include h

theorem exists_tree (hlt : position < nodes.length) :
    ∃ (place : Place) (attributes : Form.Attributes) (children : List Form.Node) (id : String),
      attributes.id = some id ∧
        StandsAt nodes position (flatten place position ⟨attributes, children⟩) :=
  exists_standsAt_flattenAll sections (standsAt_sections h) (Nat.zero_le position)
    (by rwa [countAll_sections h, Nat.zero_add])

/-- The children of a node are the topmost of those declared below it, which stand behind it. -/
theorem exists_run (hnode : nodes[position]? = some node) :
    ∃ (place : Place) (children : List Form.Node),
      StandsAt nodes (position + 1) (flattenAll place (position + 1) children) ∧
        place.above = some (position, node.sectionNode) ∧
          node.children = rootsAll (position + 1) children := by
  obtain ⟨place, attributes, children, id, hid, htree⟩ :=
    exists_tree h (List.getElem?_eq_some_iff.mp hnode).1
  rw [flatten_of_some hid] at htree
  obtain rfl := Option.some.inj (htree.head.symm.trans hnode)
  exact ⟨_, children, htree.tail, rfl, rfl⟩

theorem parent_of_mem_children {parent : Node} (hparent : nodes[above]? = some parent)
    (hchild : below ∈ parent.children) :
    ∃ child, nodes[below]? = some child ∧ child.parent = some above := by
  obtain ⟨place, children, hpart, habove, hchildren⟩ := exists_run h hparent
  obtain ⟨child, hnode, hup⟩ := exists_parent_of_mem_rootsAll hpart (hchildren ▸ hchild)
  exact ⟨child, hnode, by rw [hup, habove]; rfl⟩

theorem parent_of_mem_sections (hmem : position ∈ rootsAll 0 sections) :
    ∃ node, nodes[position]? = some node ∧ node.parent = none :=
  exists_parent_of_mem_rootsAll (standsAt_sections h) hmem

theorem mem_of_parent (hnode : nodes[position]? = some node) :
    (node.parent = none → position ∈ rootsAll 0 sections) ∧
      ∀ above, node.parent = some above →
        ∃ parent, nodes[above]? = some parent ∧ position ∈ parent.children := by
  have hlt := (List.getElem?_eq_some_iff.mp hnode).1
  rw [← countAll_sections h] at hlt
  rcases mem_rootsAll_or_child sections (standsAt_sections h) (Nat.zero_le position)
    (by rwa [Nat.zero_add]) with hroot | ⟨other, parent, hparent, hchild⟩
  · obtain ⟨found, hfound, hnone⟩ := parent_of_mem_sections h hroot
    obtain rfl := Option.some.inj (hfound.symm.trans hnode)
    exact ⟨fun _ => hroot, fun above habove => by simp [hnone] at habove⟩
  · obtain ⟨found, hfound, hsome⟩ := parent_of_mem_children h hparent hchild
    obtain rfl := Option.some.inj (hfound.symm.trans hnode)
    refine ⟨fun hnone => by simp [hnone] at hsome, fun above habove => ?_⟩
    obtain rfl := Option.some.inj (hsome.symm.trans habove)
    exact ⟨parent, hparent, hchild⟩

theorem mem_sections_iff : position ∈ rootsAll 0 sections ↔
    ∃ node, nodes[position]? = some node ∧ node.parent = none :=
  ⟨parent_of_mem_sections h, fun ⟨_, hnode, hnone⟩ => (mem_of_parent h hnode).1 hnone⟩

theorem mem_children_iff :
    (∃ parent, nodes[above]? = some parent ∧ below ∈ parent.children) ↔
      ∃ child, nodes[below]? = some child ∧ child.parent = some above :=
  ⟨fun ⟨_, hparent, hchild⟩ => parent_of_mem_children h hparent hchild,
    fun ⟨_, hnode, habove⟩ => (mem_of_parent h hnode).2 above habove⟩

theorem pairwise_children (hmem : node ∈ nodes) : node.children.Pairwise (· < ·) := by
  obtain ⟨position, hnode⟩ := List.getElem?_of_mem hmem
  obtain ⟨_, children, _, _, hchildren⟩ := exists_run h hnode
  exact hchildren ▸ pairwise_rootsAll children (position + 1)

theorem path_of_parent_eq_none (hmem : node ∈ nodes) (hnone : node.parent = none) :
    node.path = tokens node.id node.repeatable := by
  obtain ⟨position, hnode⟩ := List.getElem?_of_mem hmem
  obtain ⟨place, rfl | ⟨above, parent, _, rfl⟩, hholds⟩ := exists_place h hnode
  · exact hholds.path.trans (Place.pathOf_eq _ _ _)
  · simp [hholds.parent, Node.placeBelow] at hnone

theorem path_of_parent_eq_some {parent : Node} (hmem : node ∈ nodes)
    (hsome : node.parent = some above) (hparent : nodes[above]? = some parent) :
    node.path = parent.path ++ tokens node.id node.repeatable := by
  obtain ⟨position, hnode⟩ := List.getElem?_of_mem hmem
  obtain ⟨place, rfl | ⟨other, found, hfound, rfl⟩, hholds⟩ := exists_place h hnode
  · simp [hholds.parent, Place.top] at hsome
  · obtain rfl : other = above := by
      rw [hholds.parent] at hsome
      exact Option.some.inj hsome
    obtain rfl := Option.some.inj (hfound.symm.trans hparent)
    exact hholds.path.trans (Place.pathOf_eq _ _ _)

end

end FormFlow.Plan
