import Mathlib.Data.List.Infix
import Mathlib.Logic.Relation
import FormFlow.Proofs.Path.Shapes
import FormFlow.Proofs.Plan.Basic

/-!
# The lines of nodes

Every node of a form stands above all sections or below another node of the list, its parent, which
fixes its path but for its id (`exists_place`). So what the places of nodes pass on from above to
below holds of them all (`exists_place_of_passed`), and what a parent passes on to its children
holds of every node (`node_induction`). From parent to parent, every node has a line up to its
section (`exists_line`).

The path of every node starts with an id (`isRooted_of_nodesOf`) and passes by other nodes: wherever
it goes on by an id, what comes before is the path of a node, and so is what ends in `*`
(`passes_path`).
-/

namespace FormFlow.Plan

variable {nodes part front back : List Node} {node : Node} {position : Nat}
  {sections : List Form.Node}

theorem nodesOf_eq_ok (h : nodesOf sections = .ok nodes) :
    nodes = flattenAll .top 0 sections ∧ repeatedPath? [] nodes = none := by
  unfold nodesOf at h
  simp only at h
  split at h
  · simp at h
  · next hrepeated =>
    obtain rfl := Except.ok.inj h
    exact ⟨rfl, hrepeated⟩

variable {place : Place} {first : Nat} {attributes : Form.Attributes} {children : List Form.Node}

theorem flatten_of_none (hid : attributes.id = none) :
    flatten place first ⟨attributes, children⟩ = flattenAll place first children := by
  unfold flatten
  rw [hid]

theorem flatten_of_some {id : String} (hid : attributes.id = some id) :
    flatten place first ⟨attributes, children⟩ =
      nodeAt place first id attributes (rootsAll (first + 1) children) ::
        flattenAll ⟨place.pathOf id attributes.isRepeatable, some (first, place.sectionOf first)⟩
          (first + 1) children := by
  conv_lhs => unfold flatten
  rw [hid]

/-! ### Runs of nodes -/

/-- Nodes stand in a list one after another, from a position on. -/
def StandsAt (nodes : List Node) (first : Nat) (part : List Node) : Prop :=
  ∃ front back, nodes = front ++ part ++ back ∧ front.length = first

namespace StandsAt

theorem self (nodes : List Node) : StandsAt nodes 0 nodes := ⟨[], [], by simp, rfl⟩

theorem head (h : StandsAt nodes first (node :: part)) : nodes[first]? = some node := by
  obtain ⟨front, back, rfl, rfl⟩ := h
  simp

theorem tail (h : StandsAt nodes first (node :: part)) : StandsAt nodes (first + 1) part := by
  obtain ⟨front, back, rfl, rfl⟩ := h
  exact ⟨front ++ [node], back, by simp, by simp⟩

theorem left (h : StandsAt nodes first (front ++ back)) : StandsAt nodes first front := by
  obtain ⟨before, behind, rfl, rfl⟩ := h
  exact ⟨before, back ++ behind, by simp, rfl⟩

theorem right (h : StandsAt nodes first (front ++ back)) :
    StandsAt nodes (first + front.length) back := by
  obtain ⟨before, behind, rfl, rfl⟩ := h
  exact ⟨before ++ front, behind, by simp, by simp⟩

theorem ofHead {head : Form.Node} {rest : List Form.Node}
    (h : StandsAt nodes first (flattenAll place first (head :: rest))) :
    StandsAt nodes first (flatten place first head) := by
  rw [flattenAll] at h
  exact h.left

theorem ofRest {head : Form.Node} {rest : List Form.Node}
    (h : StandsAt nodes first (flattenAll place first (head :: rest))) :
    StandsAt nodes (first + count head) (flattenAll place (first + count head) rest) := by
  rw [flattenAll] at h
  simpa using h.right

end StandsAt

/-! ### The places of the nodes -/

/-- A node stands at a place, at a position of the list. -/
structure Place.Holds (place : Place) (position : Nat) (node : Node) : Prop where
  path : node.path = place.pathOf node.id node.repeatable
  parent : node.parent = place.above.map Prod.fst
  sectionNode : node.sectionNode = place.sectionOf position

/-- The place below a node at a position of the list. -/
def Node.placeBelow (node : Node) (position : Nat) : Place :=
  ⟨node.path, some (position, node.sectionNode)⟩

section

variable {motive : Place → Prop}

mutual

/-- Whatever is so of the place of a tree, and is passed on from the place of each node to the place
below it, is so of the places of all nodes of the tree. -/
theorem exists_place_flatten
    (hbelow : ∀ (place : Place) (position : Nat) (node : Node), nodes[position]? = some node →
      place.Holds position node → motive place → motive (node.placeBelow position))
    {place : Place} (hplace : motive place) {first : Nat} (declared : Form.Node)
    (hpart : StandsAt nodes first (flatten place first declared)) {offset : Nat}
    (hnode : (flatten place first declared)[offset]? = some node) :
    ∃ place, motive place ∧ place.Holds (first + offset) node := by
  obtain ⟨attributes, children⟩ := declared
  cases hid : attributes.id with
  | none =>
    rw [flatten_of_none hid] at hpart hnode
    exact exists_place_flattenAll hbelow hplace children hpart hnode
  | some id =>
    rw [flatten_of_some hid] at hpart hnode
    cases offset with
    | zero =>
      obtain rfl := Option.some.inj hnode
      exact ⟨place, hplace, rfl, rfl, rfl⟩
    | succ offset =>
      rw [Nat.add_comm offset, ← Nat.add_assoc]
      exact exists_place_flattenAll hbelow
        (hbelow place first _ hpart.head ⟨rfl, rfl, rfl⟩ hplace) children hpart.tail hnode

theorem exists_place_flattenAll
    (hbelow : ∀ (place : Place) (position : Nat) (node : Node), nodes[position]? = some node →
      place.Holds position node → motive place → motive (node.placeBelow position))
    {place : Place} (hplace : motive place) {first : Nat} (declared : List Form.Node)
    (hpart : StandsAt nodes first (flattenAll place first declared)) {offset : Nat}
    (hnode : (flattenAll place first declared)[offset]? = some node) :
    ∃ place, motive place ∧ place.Holds (first + offset) node := by
  cases declared with
  | nil => simp [flattenAll] at hnode
  | cons head rest =>
    rw [flattenAll] at hnode
    by_cases hoffset : offset < (flatten place first head).length
    · rw [List.getElem?_append_left hoffset] at hnode
      exact exists_place_flatten hbelow hplace head hpart.ofHead hnode
    · rw [Nat.not_lt] at hoffset
      rw [List.getElem?_append_right hoffset] at hnode
      rw [length_flatten] at hnode hoffset
      obtain ⟨above, habove, hholds⟩ :=
        exists_place_flattenAll hbelow hplace rest hpart.ofRest hnode
      rw [Nat.add_assoc, Nat.add_sub_cancel' hoffset] at hholds
      exact ⟨above, habove, hholds⟩

end

theorem exists_place_of_passed (h : nodesOf sections = .ok nodes) (htop : motive .top)
    (hbelow : ∀ (place : Place) (position : Nat) (node : Node), nodes[position]? = some node →
      place.Holds position node → motive place → motive (node.placeBelow position))
    (hnode : nodes[position]? = some node) :
    ∃ place, motive place ∧ place.Holds position node := by
  obtain ⟨rfl, _⟩ := nodesOf_eq_ok h
  obtain ⟨place, hplace, hholds⟩ :=
    exists_place_flattenAll hbelow htop sections (.self _) hnode
  exact ⟨place, hplace, by rwa [Nat.zero_add] at hholds⟩

end

/-- The topmost place, or the place below a node of the list. -/
def Place.IsIn (nodes : List Node) (place : Place) : Prop :=
  place = .top ∨ ∃ (position : Nat) (parent : Node), nodes[position]? = some parent ∧
    place = parent.placeBelow position

theorem exists_place (h : nodesOf sections = .ok nodes) (hnode : nodes[position]? = some node) :
    ∃ place : Place, place.IsIn nodes ∧ place.Holds position node :=
  exists_place_of_passed (motive := Place.IsIn nodes) h (Or.inl rfl)
    (fun _ position node hnode _ _ => Or.inr ⟨position, node, hnode, rfl⟩) hnode

/-- What every section has, and every child of a node that has it, is so of all nodes. -/
theorem node_induction (h : nodesOf sections = .ok nodes) {motive : Node → Prop}
    (hsection : ∀ position node, nodes[position]? = some node → Place.top.Holds position node →
      motive node)
    (hchild : ∀ position node above parent, nodes[position]? = some node →
      nodes[above]? = some parent → (parent.placeBelow above).Holds position node → motive parent →
      motive node) (hmem : node ∈ nodes) : motive node := by
  obtain ⟨position, hnode⟩ := List.getElem?_of_mem hmem
  have hstep : ∀ (place : Place) position node, nodes[position]? = some node →
      place.Holds position node → (place = .top ∨ ∃ (above : Nat) (parent : Node),
        nodes[above]? = some parent ∧ place = parent.placeBelow above ∧ motive parent) →
      motive node := by
    rintro place position node hnode hholds (rfl | ⟨above, parent, hparent, rfl, hmotive⟩)
    · exact hsection position node hnode hholds
    · exact hchild position node above parent hnode hparent hholds hmotive
  obtain ⟨place, hplace, hholds⟩ := exists_place_of_passed
    (motive := fun place => place = .top ∨ ∃ (above : Nat) (parent : Node),
      nodes[above]? = some parent ∧ place = parent.placeBelow above ∧ motive parent)
    h (Or.inl rfl) (fun place position node hnode hholds hplace =>
      Or.inr ⟨position, node, hnode, rfl, hstep place position node hnode hholds hplace⟩) hnode
  exact hstep place position node hnode hholds hplace

/-! ### From a node up to its section -/

/-- A node, its parent, and so on up to a section. -/
inductive IsLine (nodes : List Node) : Node → List Node → Prop
  | ofSection {node : Node} (hparent : node.parent = none) : IsLine nodes node [node]
  | upward {node parent : Node} {line : List Node} {above : Nat}
      (hparent : node.parent = some above) (hnode : nodes[above]? = some parent)
      (hline : IsLine nodes parent line) : IsLine nodes node (node :: line)

theorem IsLine.unique {line other : List Node} (h : IsLine nodes node line)
    (hother : IsLine nodes node other) : line = other := by
  induction h generalizing other with
  | ofSection hparent =>
    cases hother with
    | ofSection => rfl
    | upward habove => simp [hparent] at habove
  | upward hparent hnode _ ih =>
    cases hother with
    | ofSection hnone => simp [hparent] at hnone
    | upward habove hfound hrest =>
      obtain rfl := Option.some.inj (hparent.symm.trans habove)
      obtain rfl := Option.some.inj (hnode.symm.trans hfound)
      exact congrArg (_ :: ·) (ih hrest)

theorem Place.part_pathOf (place : Place) (id : String) (repeatable : Bool) :
    place.path <+: place.pathOf id repeatable := by
  unfold pathOf
  cases repeatable <;> simp [Pattern.withEach]

theorem Place.length_lt_pathOf (place : Place) (id : String) (repeatable : Bool) :
    place.path.length < (place.pathOf id repeatable).length := by
  unfold pathOf
  cases repeatable <;> simp [Pattern.withEach]

theorem exists_line (h : nodesOf sections = .ok nodes) (hmem : node ∈ nodes) :
    ∃ line, IsLine nodes node line ∧ line.getLast? = nodes[node.sectionNode]? ∧
      ∀ above ∈ line, above.path <+: node.path := by
  refine node_induction (motive := fun node => ∃ line, IsLine nodes node line ∧
    line.getLast? = nodes[node.sectionNode]? ∧ ∀ above ∈ line, above.path <+: node.path)
    h ?_ ?_ hmem
  · intro position node hnode hholds
    refine ⟨[node], .ofSection hholds.parent, ?_, by simp⟩
    rw [hholds.sectionNode, Place.sectionOf, Place.top, hnode, List.getLast?_singleton]
  · rintro position node above parent hnode hparent hholds ⟨line, hline, hlast, hparts⟩
    refine ⟨node :: line, .upward hholds.parent hparent hline, ?_, fun other hother => ?_⟩
    · rw [hholds.sectionNode, Place.sectionOf, Node.placeBelow, ← hlast]
      cases hline <;> simp
    · rcases List.mem_cons.mp hother with rfl | hother
      · exact List.prefix_refl _
      · have hpart := (parent.placeBelow above).part_pathOf node.id node.repeatable
        rw [← hholds.path] at hpart
        exact (hparts other hother).trans hpart

/-! ### Paths -/

/-- A path that starts with an id. -/
def IsRooted (path : Pattern) : Prop := ∃ name rest, path = .key name :: rest

theorem isRooted_pathOf {place : Place} (h : place.path = [] ∨ IsRooted place.path) (id : String)
    (repeatable : Bool) : IsRooted (place.pathOf id repeatable) := by
  unfold Place.pathOf
  rcases h with hnil | ⟨name, rest, hpath⟩
  · cases repeatable <;> simp [hnil, IsRooted, Pattern.withEach]
  · cases repeatable <;> simp [hpath, IsRooted, Pattern.withEach]

theorem isRooted_of_nodesOf (h : nodesOf sections = .ok nodes) (hmem : node ∈ nodes) :
    IsRooted node.path := by
  refine node_induction (motive := fun node => IsRooted node.path) h ?_ ?_ hmem
  · intro position node _ hholds
    exact hholds.path ▸ isRooted_pathOf (Or.inl rfl) _ _
  · intro position node above parent _ _ hholds hparent
    exact hholds.path ▸ isRooted_pathOf (Or.inr hparent) _ _

theorem exists_id_of_mem_path (h : nodesOf sections = .ok nodes) (hmem : node ∈ nodes)
    {name : String} (hname : .key name ∈ node.path) : ∃ other ∈ nodes, other.id = name := by
  have hstep : ∀ (place : Place) (position : Nat) (node : Node), nodes[position]? = some node →
      place.Holds position node →
      (∀ name, .key name ∈ place.path → ∃ other ∈ nodes, other.id = name) →
        ∀ name, .key name ∈ node.path → ∃ other ∈ nodes, other.id = name := by
    intro place position node hnode hholds hplace name hname
    have hkeys : Token.key name ∈ place.path ++ [.key node.id] := by
      rw [hholds.path, Place.pathOf] at hname
      split at hname
      · simpa [Pattern.withEach] using hname
      · exact hname
    rcases List.mem_append.mp hkeys with hkey | hkey
    · exact hplace name hkey
    · obtain rfl := Token.key.inj (List.mem_singleton.mp hkey)
      exact ⟨node, List.mem_of_getElem? hnode, rfl⟩
  obtain ⟨position, hnode⟩ := List.getElem?_of_mem hmem
  obtain ⟨place, hplace, hholds⟩ := exists_place_of_passed
    (motive := fun place => ∀ name, .key name ∈ place.path → ∃ other ∈ nodes, other.id = name)
    h (by simp [Place.top]) hstep hnode
  exact hstep place position node hnode hholds hplace name hname

/-- A path goes on by an id only behind the path of a node, and by `*` only to one. -/
structure Passes (nodes : List Node) (path : Pattern) : Prop where
  key : ∀ (part : Pattern) (name : String), part ++ [.key name] <+: path →
    part = [] ∨ ∃ other ∈ nodes, other.path = part
  each : ∀ part : Pattern, part ++ [.each] <+: path → ∃ other ∈ nodes, other.path = part.withEach

theorem Passes.concat_key {path : Pattern} (h : Passes nodes path)
    (hstart : path = [] ∨ ∃ other ∈ nodes, other.path = path) (id : String) :
    Passes nodes (path ++ [.key id]) := by
  refine ⟨fun part name hpart => ?_, fun part hpart => ?_⟩
  · rcases List.prefix_concat_iff.mp hpart with heq | hpart
    · rwa [(List.append_inj' heq rfl).1]
    · exact h.key part name hpart
  · rcases List.prefix_concat_iff.mp hpart with heq | hpart
    · exact absurd (List.append_inj' heq rfl).2 (by simp)
    · exact h.each part hpart

theorem Passes.withEach {path : Pattern} (h : Passes nodes path)
    (hend : ∃ other ∈ nodes, other.path = path.withEach) : Passes nodes path.withEach := by
  refine ⟨fun part name hpart => ?_, fun part hpart => ?_⟩
  · rcases List.prefix_concat_iff.mp hpart with heq | hpart
    · exact absurd (List.append_inj' heq rfl).2 (by simp)
    · exact h.key part name hpart
  · rcases List.prefix_concat_iff.mp hpart with heq | hpart
    · rwa [(List.append_inj' heq rfl).1]
    · exact h.each part hpart

theorem Passes.of_place {place : Place} (hplace : Passes nodes place.path)
    (hstart : place.path = [] ∨ ∃ other ∈ nodes, other.path = place.path) (hmem : node ∈ nodes)
    (hpath : node.path = place.pathOf node.id node.repeatable) : Passes nodes node.path := by
  have hstem := hplace.concat_key hstart node.id
  cases hrepeatable : node.repeatable with
  | false =>
    rw [hrepeatable] at hpath
    exact hpath ▸ hstem
  | true =>
    rw [hrepeatable] at hpath
    exact hpath ▸ hstem.withEach ⟨node, hmem, hpath⟩

theorem passes_path (h : nodesOf sections = .ok nodes) (hmem : node ∈ nodes) :
    Passes nodes node.path := by
  refine node_induction (motive := fun node => Passes nodes node.path) h ?_ ?_ hmem
  · intro position node hnode hholds
    have htop : Passes nodes Place.top.path := ⟨by simp [Place.top], by simp [Place.top]⟩
    exact htop.of_place (Or.inl rfl) (List.mem_of_getElem? hnode) hholds.path
  · intro position node above parent hnode hparent hholds hpasses
    have hplace : Passes nodes (parent.placeBelow above).path := hpasses
    exact hplace.of_place (Or.inr ⟨parent, List.mem_of_getElem? hparent, rfl⟩)
      (List.mem_of_getElem? hnode) hholds.path

end FormFlow.Plan
