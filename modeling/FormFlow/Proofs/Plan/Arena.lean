import FormFlow.Proofs.Plan.Subtree

/-!
# Nodes put in one by one

`build` puts the nodes of a form one by one into an arena, which keeps beside them the position of
every path and the positions of the sections. A declaration with an id becomes the next node: its
path is noted, it is noted as a child of its parent or as a section, and it is the parent of what
is declared below it. A declaration without an id hands on the parent that it was given. A path
that is noted already is refused.

This comes to the same as `nodesOf` and `rootsAll`, which compute all positions beforehand and look
for repeated paths at the end: the nodes are the same, and so is the path that is refused
(`build_eq`).
-/

namespace FormFlow.Plan

/-! ### Repeated paths -/

section

variable {earlier other : List Pattern} {nodes front back : List Node} {node : Node}

theorem repeatedPath?_cons_of_mem (h : node.path ∈ earlier) :
    repeatedPath? earlier (node :: nodes) = some node.path :=
  if_pos h

theorem repeatedPath?_cons_of_notMem (h : node.path ∉ earlier) :
    repeatedPath? earlier (node :: nodes) = repeatedPath? (node.path :: earlier) nodes :=
  if_neg h

theorem repeatedPath?_congr (h : ∀ path, path ∈ earlier ↔ path ∈ other) :
    repeatedPath? earlier nodes = repeatedPath? other nodes := by
  induction nodes generalizing earlier other with
  | nil => rfl
  | cons node rest ih =>
    by_cases hmem : node.path ∈ earlier
    · rw [repeatedPath?_cons_of_mem hmem, repeatedPath?_cons_of_mem ((h _).mp hmem)]
    · rw [repeatedPath?_cons_of_notMem hmem, repeatedPath?_cons_of_notMem (mt (h _).mpr hmem)]
      exact ih fun path => by rw [List.mem_cons, List.mem_cons, h path]

theorem repeatedPath?_append :
    repeatedPath? earlier (front ++ back) =
      (repeatedPath? earlier front).or (repeatedPath? (earlier ++ front.map Node.path) back) := by
  induction front generalizing earlier with
  | nil => simp [repeatedPath?]
  | cons node rest ih =>
    by_cases hmem : node.path ∈ earlier
    · rw [List.cons_append, repeatedPath?_cons_of_mem hmem, repeatedPath?_cons_of_mem hmem,
        Option.some_or]
    · rw [List.cons_append, repeatedPath?_cons_of_notMem hmem, repeatedPath?_cons_of_notMem hmem,
        ih]
      congr 1
      exact repeatedPath?_congr fun path => by simp [or_left_comm]

end

/-! ### Arenas -/

/-- Further positions are noted as children. -/
def Node.adopt (node : Node) (positions : List Nat) : Node :=
  { node with children := node.children ++ positions }

@[simp] theorem Node.path_adopt (node : Node) (positions : List Nat) :
    (node.adopt positions).path = node.path := rfl

@[simp] theorem Node.sectionNode_adopt (node : Node) (positions : List Nat) :
    (node.adopt positions).sectionNode = node.sectionNode := rfl

@[simp] theorem Node.adopt_nil (node : Node) : node.adopt [] = node := by
  simp [adopt]

@[simp] theorem Node.adopt_adopt (node : Node) (positions others : List Nat) :
    (node.adopt positions).adopt others = node.adopt (positions ++ others) := by
  simp [adopt]

theorem Node.adopt_nodeAt (place : Place) (position : Nat) (id : String)
    (attributes : Form.Attributes) (positions : List Nat) :
    (nodeAt place position id attributes []).adopt positions =
      nodeAt place position id attributes positions := rfl

/-- Nodes, the position of the node of each path, and the positions of the sections. -/
@[ext]
structure Arena where
  nodes : List Node
  index : List (Pattern × Nat)
  sections : List Nat

namespace Arena

/-- The place below a node of the arena, or above all sections. -/
def placeAt (arena : Arena) (parent : Option Nat) (base : Pattern) : Place where
  path := base
  above := parent.bind fun above => arena.nodes[above]?.map fun node => (above, node.sectionNode)

/-- Puts nodes behind the others and notes their paths. -/
def append (arena : Arena) (part : List Node) : Arena where
  nodes := arena.nodes ++ part
  index := arena.index ++ (part.map Node.path).zipIdx arena.nodes.length
  sections := arena.sections

/-- Notes positions as children of a parent, or else as sections. -/
def attach (arena : Arena) (positions : List Nat) : Option Nat → Arena
  | some above => { arena with nodes := arena.nodes.modify above (·.adopt positions) }
  | none => { arena with sections := arena.sections ++ positions }

mutual

/-- Puts the nodes of a tree into an arena, given its parent there and the path of that. -/
def insert (arena : Arena) (parent : Option Nat) (base : Pattern) :
    Form.Node → Except FormError Arena
  | ⟨attributes, children⟩ =>
    match attributes.id with
    | none => insertAll arena parent base children
    | some id =>
      let place := arena.placeAt parent base
      let path := place.pathOf id attributes.isRepeatable
      if path ∈ arena.index.map Prod.fst then .error (.duplicatePath path)
      else
        let position := arena.nodes.length
        let node := nodeAt place position id attributes []
        insertAll ((arena.append [node]).attach [position] parent) (some position) path children

def insertAll (arena : Arena) (parent : Option Nat) (base : Pattern) :
    List Form.Node → Except FormError Arena
  | [] => .ok arena
  | node :: rest => do insertAll (← insert arena parent base node) parent base rest

end

/-- Puts the nodes of all sections into an arena. -/
def build (sections : List Form.Node) : Except FormError Arena :=
  insertAll ⟨[], [], []⟩ none [] sections

/-- The index holds the position of every node under its path. -/
def IsIndexed (arena : Arena) : Prop := arena.index = (arena.nodes.map Node.path).zipIdx

/-- The parent, if there is one, is a node of the arena. -/
def Knows (arena : Arena) (parent : Option Nat) : Prop :=
  ∀ above ∈ parent, above < arena.nodes.length

variable {arena : Arena} {parent : Option Nat} {base : Pattern} {part front back : List Node}
  {positions others : List Nat} {node : Node}

/-! What is appended and attached leaves the rest as it is. -/

@[simp] theorem nodes_append : (arena.append part).nodes = arena.nodes ++ part := rfl

@[simp] theorem map_path_attach :
    (arena.attach positions parent).nodes.map Node.path = arena.nodes.map Node.path := by
  cases parent with
  | none => rfl
  | some above =>
    refine List.ext_getElem? fun position => ?_
    simp only [attach, List.getElem?_map, List.getElem?_modify]
    cases arena.nodes[position]? with
    | none => rfl
    | some node =>
      simp only [Option.map_eq_map, Option.map_some]
      split <;> simp

@[simp] theorem length_attach :
    (arena.attach positions parent).nodes.length = arena.nodes.length := by
  cases parent <;> simp [attach]

theorem IsIndexed.map_fst (h : arena.IsIndexed) :
    arena.index.map Prod.fst = arena.nodes.map Node.path := by
  rw [h, List.zipIdx_map_fst]

theorem IsIndexed.append (h : arena.IsIndexed) (part : List Node) :
    (arena.append part).IsIndexed := by
  have hindex : arena.index = (arena.nodes.map Node.path).zipIdx := h
  simp [IsIndexed, Arena.append, hindex, List.zipIdx_append]

theorem IsIndexed.attach (h : arena.IsIndexed) (positions : List Nat) (parent : Option Nat) :
    (arena.attach positions parent).IsIndexed := by
  have hindex : (arena.attach positions parent).index = arena.index := by cases parent <;> rfl
  rw [IsIndexed, hindex, map_path_attach]
  exact h

theorem Knows.append (h : arena.Knows parent) (part : List Node) :
    (arena.append part).Knows parent := fun above habove =>
  (h above habove).trans_le (by simp)

theorem Knows.attach (h : arena.Knows parent) (positions : List Nat) (other : Option Nat) :
    (arena.attach positions other).Knows parent := fun above habove => by
  simpa using h above habove

theorem knows_last (node : Node) :
    (arena.append [node]).Knows (some arena.nodes.length) := fun above habove => by
  obtain rfl := Option.some.inj habove
  simp

theorem placeAt_last (node : Node) :
    (arena.append [node]).placeAt (some arena.nodes.length) base =
      ⟨base, some (arena.nodes.length, node.sectionNode)⟩ := by
  simp [placeAt]

theorem placeAt_append (h : arena.Knows parent) :
    (arena.append part).placeAt parent base = arena.placeAt parent base := by
  cases parent with
  | none => rfl
  | some above =>
    simp [placeAt, List.getElem?_append_left (h above rfl)]

@[simp] theorem placeAt_attach {other : Option Nat} :
    (arena.attach positions other).placeAt parent base = arena.placeAt parent base := by
  cases other with
  | none => rfl
  | some above =>
    cases parent with
    | none => rfl
    | some position =>
      simp only [placeAt, attach, Option.bind_some, List.getElem?_modify]
      cases arena.nodes[position]? with
      | none => rfl
      | some node =>
      simp only [Option.map_eq_map, Option.map_some]
      split <;> simp

/-! In which order nodes are appended and positions attached makes no difference. -/

theorem append_append : (arena.append front).append back = arena.append (front ++ back) := by
  ext1
  · simp
  · simp [append, List.zipIdx_append]
  · rfl

@[simp] theorem attach_nil : arena.attach [] parent = arena := by
  cases parent with
  | none => simp [attach]
  | some above =>
    have hkeep : (fun node : Node => node.adopt []) = id := funext Node.adopt_nil
    simp only [attach, hkeep, List.modify_id]

theorem attach_comm {other : Option Nat} (h : parent ≠ other) :
    (arena.attach positions parent).attach others other =
      (arena.attach others other).attach positions parent := by
  cases parent with
  | none =>
    cases other with
    | none => exact absurd rfl h
    | some position => rfl
  | some above =>
    cases other with
    | none => rfl
    | some position =>
      have hne : above ≠ position := fun heq => h (congrArg some heq)
      simp [attach, List.modify_modify_ne _ _ _ hne]

theorem attach_attach :
    (arena.attach positions parent).attach others parent =
      arena.attach (positions ++ others) parent := by
  cases parent with
  | none => simp [attach]
  | some above => simp [attach, List.modify_modify_eq, Function.comp_def]

theorem modify_append_of_lt {above : Nat} (h : above < front.length) (change : Node → Node) :
    (front ++ back).modify above change = front.modify above change ++ back := by
  induction front generalizing above with
  | nil => simp at h
  | cons node rest ih =>
    cases above with
    | zero => rfl
    | succ above =>
      rw [List.cons_append, List.modify_succ_cons, List.modify_succ_cons, List.cons_append,
        ih (Nat.lt_of_succ_lt_succ h)]

theorem append_attach (h : arena.Knows parent) :
    (arena.attach positions parent).append part = (arena.append part).attach positions parent := by
  cases parent with
  | none => rfl
  | some above =>
    ext1
    · exact (modify_append_of_lt (h above rfl) _).symm
    · simp [append, attach]
    · rfl

theorem attach_append_singleton :
    (arena.append [node]).attach positions (some arena.nodes.length) =
      arena.append [node.adopt positions] := by
  ext1
  · exact List.modifyTailIdx_add _ 0 arena.nodes [node]
  · rfl
  · rfl

/-! ### What is built -/

/-- Appends nodes and attaches the topmost of them to a parent, unless a path is repeated. -/
def extend (arena : Arena) (parent : Option Nat) (part : List Node) (positions : List Nat) :
    Except FormError Arena :=
  match repeatedPath? (arena.nodes.map Node.path) part with
  | some path => .error (.duplicatePath path)
  | none => .ok ((arena.append part).attach positions parent)

theorem extend_eq_error {path : Pattern}
    (h : repeatedPath? (arena.nodes.map Node.path) part = some path) :
    arena.extend parent part positions = .error (.duplicatePath path) := by
  rw [extend, h]

theorem extend_eq_ok (h : repeatedPath? (arena.nodes.map Node.path) part = none) :
    arena.extend parent part positions =
      .ok ((arena.append part).attach positions parent) := by
  rw [extend, h]

theorem of_extend_eq_ok {after : Arena} (h : arena.extend parent part positions = .ok after) :
    after = (arena.append part).attach positions parent := by
  unfold extend at h
  split at h
  · simp at h
  · exact (Except.ok.inj h).symm

theorem extend_nil : arena.extend parent [] [] = .ok arena := by
  rw [extend_eq_ok rfl, attach_nil]
  simp [append]

theorem extend_append (hparent : arena.Knows parent) :
    (do (← arena.extend parent front positions).extend parent back others) =
      arena.extend parent (front ++ back) (positions ++ others) := by
  have happend := @repeatedPath?_append (arena.nodes.map Node.path) front back
  cases hfront : repeatedPath? (arena.nodes.map Node.path) front with
  | some path =>
    rw [hfront, Option.some_or] at happend
    rw [extend_eq_error hfront, extend_eq_error happend]
    rfl
  | none =>
    have hpaths : ((arena.append front).attach positions parent).nodes.map Node.path =
        arena.nodes.map Node.path ++ front.map Node.path := by simp
    rw [hfront, Option.none_or, ← hpaths] at happend
    rw [extend_eq_ok hfront]
    change extend _ parent back others = _
    cases hback : repeatedPath?
        (((arena.append front).attach positions parent).nodes.map Node.path) back with
    | some path => rw [extend_eq_error hback, extend_eq_error (happend.trans hback)]
    | none =>
      rw [extend_eq_ok hback, extend_eq_ok (happend.trans hback),
        append_attach (hparent.append front), append_append, attach_attach]

/-- A node is put in before its children are known. -/
theorem extend_cons (hparent : arena.Knows parent)
    (hpath : node.path ∉ arena.nodes.map Node.path) :
    ((arena.append [node]).attach [arena.nodes.length] parent).extend (some arena.nodes.length)
        part positions =
      arena.extend parent (node.adopt positions :: part) [arena.nodes.length] := by
  have hrest : repeatedPath?
        (((arena.append [node]).attach [arena.nodes.length] parent).nodes.map Node.path) part =
      repeatedPath? (arena.nodes.map Node.path) (node.adopt positions :: part) := by
    have hkeep : (node.adopt positions).path ∉ arena.nodes.map Node.path := hpath
    rw [repeatedPath?_cons_of_notMem hkeep]
    exact repeatedPath?_congr fun path => by simp [or_comm]
  rw [extend, extend, hrest]
  cases repeatedPath? (arena.nodes.map Node.path) (node.adopt positions :: part) with
  | some path => rfl
  | none =>
    -- the new node is not its own parent, so it does not matter which of both is noted first
    have hne : parent ≠ some arena.nodes.length := fun heq => (hparent _ heq).false
    refine congrArg Except.ok ?_
    rw [append_attach (hparent.append [node]), attach_comm hne, ← append_attach (knows_last node),
      attach_append_singleton, append_append, List.singleton_append]

mutual

theorem insert_eq (declared : Form.Node) {arena : Arena} {parent : Option Nat} {base : Pattern}
    (hindex : arena.IsIndexed) (hparent : arena.Knows parent) :
    arena.insert parent base declared =
      arena.extend parent (flatten (arena.placeAt parent base) arena.nodes.length declared)
        (roots arena.nodes.length declared) := by
  obtain ⟨attributes, children⟩ := declared
  unfold insert
  cases hid : attributes.id with
  | none =>
    rw [flatten_of_none hid, roots_of_none hid]
    exact insertAll_eq children hindex hparent
  | some id =>
    rw [flatten_of_some hid, roots_of_some hid, hindex.map_fst]
    set place := arena.placeAt parent base
    by_cases hmem : place.pathOf id attributes.isRepeatable ∈ arena.nodes.map Node.path
    · exact (if_pos hmem).trans <| Eq.symm <| extend_eq_error <| repeatedPath?_cons_of_mem hmem
    · refine (if_neg hmem).trans ?_
      rw [insertAll_eq children ((hindex.append _).attach _ parent) ((knows_last _).attach _ parent)]
      simp only [length_attach, nodes_append, List.length_append, List.length_singleton]
      rw [extend_cons hparent hmem, Node.adopt_nodeAt, placeAt_attach, placeAt_last]
      rfl

theorem insertAll_eq (declared : List Form.Node) {arena : Arena} {parent : Option Nat}
    {base : Pattern} (hindex : arena.IsIndexed) (hparent : arena.Knows parent) :
    arena.insertAll parent base declared =
      arena.extend parent (flattenAll (arena.placeAt parent base) arena.nodes.length declared)
        (rootsAll arena.nodes.length declared) := by
  cases declared with
  | nil => exact extend_nil.symm
  | cons head rest =>
    rw [flattenAll, rootsAll, ← extend_append hparent, ← insert_eq head hindex hparent]
    unfold insertAll
    cases hhead : arena.insert parent base head with
    | error => rfl
    | ok after =>
      rw [insert_eq head hindex hparent] at hhead
      obtain rfl := of_extend_eq_ok hhead
      change insertAll _ parent base rest = extend _ parent _ _
      rw [insertAll_eq rest ((hindex.append _).attach _ parent)
        ((hparent.append _).attach _ parent), placeAt_attach, placeAt_append hparent,
        length_attach, nodes_append, List.length_append, length_flatten]

end

/-- Put in one by one, the nodes of a form are those that `nodesOf` computes, at the same positions,
and the same path is refused. -/
theorem build_eq (sections : List Form.Node) :
    build sections = (nodesOf sections).map fun nodes =>
      ⟨nodes, (nodes.map Node.path).zipIdx, rootsAll 0 sections⟩ := by
  have hnone : (⟨[], [], []⟩ : Arena).Knows none := fun _ hmem => by simp at hmem
  have hbuild := @insertAll_eq sections ⟨[], [], []⟩ none [] rfl hnone
  have hall : build sections =
      extend ⟨[], [], []⟩ none (flattenAll .top 0 sections) (rootsAll 0 sections) := hbuild
  rw [hall, extend, nodesOf, List.map_nil]
  cases repeatedPath? [] (flattenAll .top 0 sections) with
  | some path => rfl
  | none => simp [Except.map, append, attach]

end Arena

end FormFlow.Plan
