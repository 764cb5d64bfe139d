import FormFlow.Proofs.Plan.Declarations

/-!
# The nodes as an image of the form

A form is accepted exactly if no two of its declarations with an id have the same path, and its nodes
are then these declarations in their order, with the parents, children and sections that they have in
the form (`nodesOf_isImage`). What `subtreeOf` lists is all that a walk with a stack of positions
finds from a node on (`visits_iff`); from the sections on it finds every node once, in order.
-/

namespace FormFlow.Plan

variable {nodes : List Node} {sections : List Form.Node} {position : Nat}

/-! ### Going down -/

/-- Nodes are found one after another: the first on the stack is taken off, and its children are
put in its place, until the stack is empty. -/
inductive Visits (nodes : List Node) : List Nat → List Nat → Prop
  | done : Visits nodes [] []
  | next {node : Node} {position : Nat} {stack found : List Nat}
      (hnode : nodes[position]? = some node)
      (hrest : Visits nodes (node.children ++ stack) found) :
      Visits nodes (position :: stack) (position :: found)

theorem Visits.unique {stack found other : List Nat} (h : Visits nodes stack found)
    (hother : Visits nodes stack other) : found = other := by
  induction h generalizing other with
  | done => cases hother with | done => rfl
  | next hnode _ ih =>
    cases hother with
    | next hnode' hrest' =>
      obtain rfl := Option.some.inj (hnode.symm.trans hnode')
      exact congrArg (_ :: ·) (ih hrest')

mutual

/-- From the topmost nodes of a tree, all its nodes are found in order before those that the rest of
the stack leads to. -/
theorem visits_roots (declared : Form.Node) {place : Place} {first : Nat}
    (hpart : StandsAt nodes first (flatten place first declared)) {stack found : List Nat}
    (hstack : Visits nodes stack found) :
    Visits nodes (roots first declared ++ stack)
      (List.range' first (count declared) ++ found) := by
  obtain ⟨attributes, children⟩ := declared
  cases hid : attributes.id with
  | none =>
    rw [flatten_of_none hid] at hpart
    rw [roots_of_none hid, count_of_none hid]
    exact visits_rootsAll children hpart hstack
  | some id =>
    rw [flatten_of_some hid] at hpart
    rw [roots_of_some hid, count_of_some hid, List.range'_succ]
    exact .next hpart.head (visits_rootsAll children hpart.tail hstack)

theorem visits_rootsAll (declared : List Form.Node) {place : Place} {first : Nat}
    (hpart : StandsAt nodes first (flattenAll place first declared)) {stack found : List Nat}
    (hstack : Visits nodes stack found) :
    Visits nodes (rootsAll first declared ++ stack)
      (List.range' first (countAll declared) ++ found) := by
  cases declared with
  | nil => exact hstack
  | cons head rest =>
    rw [rootsAll, countAll, ← List.range'_append_1, List.append_assoc, List.append_assoc]
    exact visits_roots head hpart.ofHead (visits_rootsAll rest hpart.ofRest hstack)

end

theorem visits_iff (h : nodesOf sections = .ok nodes) (hlt : position < nodes.length)
    {found : List Nat} : Visits nodes [position] found ↔ found = subtreeOf nodes position := by
  obtain ⟨place, attributes, children, id, hid, htree⟩ := exists_tree h hlt
  have hvisits := visits_roots ⟨attributes, children⟩ htree .done
  rw [roots_of_some hid, ← subtreeOf_eq_range' hid htree, List.append_nil, List.append_nil]
    at hvisits
  exact ⟨fun hfound => hfound.unique hvisits, fun heq => heq ▸ hvisits⟩

/-! ### The image -/

/-- The nodes are the declarations of a form that have an id, and stand to one another as these
do. -/
structure IsImage (sections : List Form.Node) (nodes : List Node) : Prop where
  declared : List.Forall₂ Declaration.Declares (Declaration.named sections) nodes
  position : ∀ (path : Pattern) (position : Nat), positionOf? nodes path = some position ↔
    ∃ node, nodes[position]? = some node ∧ node.path = path
  topmost : ∀ position : Nat, position ∈ rootsAll 0 sections ↔
    ∃ node, nodes[position]? = some node ∧ node.parent = none
  children : ∀ above below : Nat,
    (∃ parent, nodes[above]? = some parent ∧ below ∈ parent.children) ↔
      ∃ child, nodes[below]? = some child ∧ child.parent = some above
  /-- Sections and children are listed in the order of the document. -/
  ordered : (rootsAll 0 sections).Pairwise (· < ·) ∧
    ∀ node ∈ nodes, node.children.Pairwise (· < ·)
  sectionPath : ∀ node ∈ nodes, node.parent = none → node.path = tokens node.id node.repeatable
  childPath : ∀ node ∈ nodes, ∀ (above : Nat) (parent : Node), node.parent = some above →
    nodes[above]? = some parent → node.path = parent.path ++ tokens node.id node.repeatable
  /-- From parent to parent, every node leads up to its section. -/
  sectionNode : ∀ node ∈ nodes, ∃ line top, IsLine nodes node line ∧ line.getLast? = some top ∧
    nodes[node.sectionNode]? = some top
  descendants : ∀ position < nodes.length, ∀ found : List Nat,
    Visits nodes [position] found ↔ found = subtreeOf nodes position
  covered : (rootsAll 0 sections).flatMap (subtreeOf nodes) = List.range nodes.length

theorem isImage_of_nodesOf (h : nodesOf sections = .ok nodes) : IsImage sections nodes where
  declared := (nodesOf_eq_ok h).1 ▸ Declaration.declares_named sections
  position path position :=
    ⟨exists_of_positionOf?, fun ⟨_, hnode, hpath⟩ => hpath ▸ positionOf?_path (nodup_paths h) hnode⟩
  topmost _ := mem_sections_iff h
  children _ _ := mem_children_iff h
  ordered := ⟨pairwise_rootsAll sections 0, fun _ => pairwise_children h⟩
  sectionPath _ := path_of_parent_eq_none h
  childPath _ hmem _ _ := path_of_parent_eq_some h hmem
  sectionNode node hmem := by
    obtain ⟨line, hline, hlast, _⟩ := exists_line h hmem
    have hne : line ≠ [] := by cases hline <;> simp
    have htop := List.getLast?_eq_some_getLast hne
    exact ⟨line, _, hline, htop, hlast ▸ htop⟩
  descendants _ hlt _ := visits_iff h hlt
  covered := flatMap_subtreeOf_sections h

/-- Putting in the nodes one by one comes to the same as `nodesOf`. It succeeds exactly if no two
declarations with an id have the same path, and then gives an image of the form. -/
theorem nodesOf_isImage (sections : List Form.Node) :
    (Arena.build sections = (nodesOf sections).map fun nodes =>
      ⟨nodes, (nodes.map Node.path).zipIdx, rootsAll 0 sections⟩) ∧
    ((∃ nodes, nodesOf sections = .ok nodes) ↔
      ((Declaration.named sections).map Declaration.path).Nodup) ∧
    ∀ nodes, nodesOf sections = .ok nodes → IsImage sections nodes :=
  ⟨Arena.build_eq sections, exists_nodesOf_iff, fun _ => isImage_of_nodesOf⟩

/-- A section with two arrays of the same name, one of them in a group without an id. -/
def repeatingSections : List Form.Node :=
  let array : Form.Node :=
    ⟨{ Form.Attributes.blank with id := some "g", kind := some .arrayGroup }, []⟩
  let group : Form.Node := ⟨Form.Attributes.blank, [array]⟩
  [⟨{ Form.Attributes.blank with id := some "a" }, [array, group]⟩]

theorem nodesOf_isImage_twins :
    nodesOf twinsRead.sections = .ok twinsPlan.nodes ∧ IsImage twinsRead.sections twinsPlan.nodes ∧
      twinsPlan.nodes.length = 6 ∧ ¬ ∃ nodes, nodesOf repeatingSections = .ok nodes := by
  have hnodes : nodesOf twinsRead.sections = .ok twinsPlan.nodes := rfl
  refine ⟨hnodes, (nodesOf_isImage twinsRead.sections).2.2 _ hnodes, rfl, ?_⟩
  rw [(nodesOf_isImage repeatingSections).2.1]
  decide

end FormFlow.Plan
