import FormFlow.Plan.Node

/-!
# From the tree of a form to the nodes of a plan

`flatten` lists the nodes of a tree, each before those below it, with positions from a given one
on. `roots` gives the positions of the topmost ones. `Plan.nodesOf` refuses a form in which two
nodes have the same path. `subtreeOf` goes the other way, from the position of a node to the
positions of all nodes below it.
-/

namespace FormFlow.Plan

mutual

def count : Form.Node → Nat
  | ⟨attributes, children⟩ => (if attributes.id.isSome then 1 else 0) + countAll children

def countAll : List Form.Node → Nat
  | [] => 0
  | node :: rest => count node + countAll rest

end

mutual

/-- The positions of the topmost nodes of a tree whose first node has the given position. -/
def roots (first : Nat) : Form.Node → List Nat
  | ⟨attributes, children⟩ =>
    if attributes.id.isSome then [first] else rootsAll first children

def rootsAll (first : Nat) : List Form.Node → List Nat
  | [] => []
  | node :: rest => roots first node ++ rootsAll (first + count node) rest

end

mutual

/-- The nodes of a tree that stands at a place, the first of them at the given position. -/
def flatten (place : Place) (first : Nat) : Form.Node → List Node
  | ⟨attributes, children⟩ =>
    match attributes.id with
    | none => flattenAll place first children
    | some id =>
      let below : Place :=
        ⟨place.pathOf id attributes.isRepeatable, some (first, place.sectionOf first)⟩
      nodeAt place first id attributes (rootsAll (first + 1) children) ::
        flattenAll below (first + 1) children

def flattenAll (place : Place) (first : Nat) : List Form.Node → List Node
  | [] => []
  | node :: rest => flatten place first node ++ flattenAll place (first + count node) rest

end

/-- The first path that an earlier node has as well. -/
def repeatedPath? (earlier : List Pattern) : List Node → Option Pattern
  | [] => none
  | node :: rest =>
    if node.path ∈ earlier then some node.path
    else repeatedPath? (node.path :: earlier) rest

/-- The nodes of all sections. No two have the same path. -/
def nodesOf (sections : List Form.Node) : Except FormError (List Node) :=
  let nodes := flattenAll .top 0 sections
  match repeatedPath? [] nodes with
  | some path => .error (.duplicatePath path)
  | none => .ok nodes

def positionOf? (nodes : List Node) (path : Pattern) : Option Nat :=
  nodes.findIdx? (·.path = path)

theorem exists_of_positionOf? {nodes : List Node} {path : Pattern} {position : Nat}
    (h : positionOf? nodes path = some position) :
    ∃ node, nodes[position]? = some node ∧ node.path = path := by
  rw [positionOf?, List.findIdx?_eq_some_iff_getElem] at h
  obtain ⟨hlt, hpath, _⟩ := h
  exact ⟨nodes[position], List.getElem?_eq_getElem hlt, by simpa using hpath⟩

theorem path_of_positionOf? {nodes : List Node} {path : Pattern} {position : Nat} {node : Node}
    (h : positionOf? nodes path = some position) (hnode : nodes[position]? = some node) :
    node.path = path := by
  obtain ⟨found, hfound, hpath⟩ := exists_of_positionOf? h
  obtain rfl : found = node := Option.some.inj (hfound.symm.trans hnode)
  exact hpath

/-- Goes through the nodes of a stack and those below them, at most `fuel` nodes in all. -/
def walkDown (nodes : List Node) : Nat → List Nat → List Nat
  | 0, _ | _, [] => []
  | fuel + 1, position :: stack =>
    match nodes[position]? with
    | some node => position :: walkDown nodes fuel (node.children ++ stack)
    | none => walkDown nodes fuel stack

/-- The positions of a node and of all nodes below it, each before those below it. -/
def subtreeOf (nodes : List Node) (position : Nat) : List Nat :=
  walkDown nodes nodes.length [position]

mutual

@[simp] theorem length_flatten (place : Place) (first : Nat) (node : Form.Node) :
    (flatten place first node).length = count node := by
  obtain ⟨attributes, children⟩ := node
  unfold flatten count
  cases attributes.id with
  | none => simpa using length_flattenAll place first children
  | some id =>
    simpa [Nat.add_comm] using length_flattenAll _ (first + 1) children

@[simp] theorem length_flattenAll (place : Place) (first : Nat) (nodes : List Form.Node) :
    (flattenAll place first nodes).length = countAll nodes := by
  cases nodes with
  | nil => rfl
  | cons node rest =>
    simp [flattenAll, countAll, length_flatten place first node,
      length_flattenAll place (first + count node) rest]

end

end FormFlow.Plan
