import FormFlow.Form.Error

/-!
# Reading a form

A form is read from a document. Collections are read in the order sections, decisions, edges,
derived, and the members of a node, an edge or a decision in the order in which they are written,
so that the first thing wrong is the one reported. Null stands for a member that is left out.

Nodes and edges may also be written as arrays of their members in a fixed order.
-/

namespace FormFlow.Form

/-! ## Members -/

def textOf : Document → Except Fault String
  | .text value => .ok value
  | other => .error (.wrongType other .text)

def truthOf : Document → Except Fault Bool
  | .bool value => .ok value
  | other => .error (.wrongType other .truthValue)

/-- Reads a member that may be null. -/
def optionOf {α : Type} (read : Document → Except Fault α) : Document → Except Fault (Option α)
  | .null => .ok none
  | document => (read document).map some

def presentOf (document : Document) : Option Document :=
  if document.isNull then none else some document

def listOf : Document → Except Fault (List Document)
  | .null => .ok []
  | .array items => .ok items
  | other => .error (.wrongType other .list)

def kindOfName (name : String) : Except Fault NodeKind :=
  match NodeKind.ofName? name with
  | some kind => .ok kind
  | none => .error (.unknownKind name)

/-- Reads a kind: its name, or an object with the name and null as its only member. -/
def kindOf : Document → Except Fault NodeKind
  | .text name => kindOfName name
  | .object [(name, value)] => do
    let kind ← kindOfName name
    if value.isNull then .ok kind else .error (.wrongType value .nothing)
  | .object _ => .error .notOneMember
  | other => .error (.wrongType other .kind)

/-! ## Nodes -/

inductive Property where
  | id
  | kind
  | isArray
  | preconditions
  | required
  | validations
  | itemValidations
  | outerName
  | initial
  deriving Repr, DecidableEq

/-- The members of a node in the order in which an array gives them; `none` stands for the
children. -/
def nodeMembers : List (String × Option Property) :=
  [("id", some .id), ("type", some .kind), ("is_array", some .isArray), ("children", none),
    ("preconditions", some .preconditions), ("required", some .required),
    ("validations", some .validations), ("item_validations", some .itemValidations),
    ("data_mapping", some .outerName), ("default_value", some .initial)]

def Attributes.withProperty (attributes : Attributes) (property : Property)
    (document : Document) : Except Fault Attributes :=
  match property with
  | .id => do .ok { attributes with id := ← optionOf textOf document }
  | .kind => do .ok { attributes with kind := ← optionOf kindOf document }
  | .isArray => do .ok { attributes with isArray := ← truthOf document }
  | .preconditions => .ok { attributes with preconditions := presentOf document }
  | .required => .ok { attributes with required := presentOf document }
  | .validations => do .ok { attributes with validations := ← listOf document }
  | .itemValidations => do .ok { attributes with itemValidations := ← listOf document }
  | .outerName => do .ok { attributes with outerName := ← optionOf textOf document }
  | .initial => .ok { attributes with initial := presentOf document }

namespace Node

mutual

def read : Document → Except Fault Node
  | .object members => readMembers ⟨.blank, []⟩ members
  | .array items => do
    let node ← readArray ⟨.blank, []⟩ nodeMembers items
    if nodeMembers.length < items.length then .error (.tooLong items.length) else .ok node
  | other => .error (.wrongType other .node)

/-- Reads members by name; unknown names are skipped. -/
def readMembers (node : Node) : List (String × Document) → Except Fault Node
  | [] => .ok node
  | (name, value) :: rest =>
    match Members.get? name nodeMembers with
    | some (some property) => do
      readMembers { node with toAttributes := ← node.withProperty property value } rest
    | some none => do readMembers { node with children := ← readChildren value } rest
    | none => readMembers node rest

/-- Reads members by position; those at the end may be left out. -/
def readArray (node : Node) (members : List (String × Option Property)) :
    List Document → Except Fault Node
  | [] => .ok node
  | value :: rest =>
    match members with
    | (_, some property) :: members => do
      readArray { node with toAttributes := ← node.withProperty property value } members rest
    | (_, none) :: members => do
      readArray { node with children := ← readChildren value } members rest
    | [] => .ok node

def readChildren : Document → Except Fault (List Node)
  | .null => .ok []
  | .array items => readAll items
  | other => .error (.wrongType other .list)

def readAll : List Document → Except Fault (List Node)
  | [] => .ok []
  | item :: rest => do .ok ((← read item) :: (← readAll rest))

end

end Node

/-! ## Edges -/

namespace Edge

/-- An edge of which not all is read. -/
structure Draft where
  source : Option String
  target : Option String
  condition : Option Bool

/-- Reads members by name; unknown names are skipped. -/
def readMembers (draft : Draft) : List (String × Document) → Except Fault Draft
  | [] => .ok draft
  | (name, value) :: rest =>
    if name = "from" then do readMembers { draft with source := some (← textOf value) } rest
    else if name = "to" then do readMembers { draft with target := some (← textOf value) } rest
    else if name = "when_input_is" then do
      readMembers { draft with condition := ← optionOf truthOf value } rest
    else readMembers draft rest

def ofDraft : Draft → Except Fault Edge
  | ⟨some source, some target, condition⟩ => .ok ⟨source, target, condition⟩
  | ⟨none, _, _⟩ => .error (.missing "from")
  | ⟨_, none, _⟩ => .error (.missing "to")

def read : Document → Except Fault Edge
  | .object members => do ofDraft (← readMembers ⟨none, none, none⟩ members)
  | .array [] => .error (.tooShort 0)
  | .array [source] => do
    let _ ← textOf source
    .error (.tooShort 1)
  | .array [source, target] => do .ok ⟨← textOf source, ← textOf target, none⟩
  | .array (source :: target :: condition :: rest) => do
    let edge : Edge := ⟨← textOf source, ← textOf target, ← optionOf truthOf condition⟩
    if rest.isEmpty then .ok edge else .error (.tooLong (rest.length + 3))
  | other => .error (.wrongType other .edge)

end Edge

/-! ## Decisions and derived values -/

namespace Decision

/-- A decision of which not all is read. -/
structure Draft where
  id : Option String
  output : Option Document
  attributes : Members Document

/-- Reads the id and the output; all other members are attributes. -/
def readMembers (draft : Draft) : List (String × Document) → Except Fault Draft
  | [] => .ok draft
  | (name, value) :: rest =>
    if name = "id" then do readMembers { draft with id := some (← textOf value) } rest
    else if name = "output" then readMembers { draft with output := some value } rest
    else readMembers { draft with attributes := draft.attributes ++ [(name, value)] } rest

def ofDraft : Draft → Except Fault Decision
  | ⟨some id, some output, attributes⟩ => .ok ⟨id, output, attributes⟩
  | ⟨none, _, _⟩ => .error (.missing "id")
  | ⟨_, none, _⟩ => .error (.missing "output")

def read : Document → Except Fault Decision
  | .object members => do ofDraft (← readMembers ⟨none, none, []⟩ members)
  | other => .error (.wrongType other .decision)

end Decision

/-- Reads a derived value. Without `resolvable` the whole document is the expression. -/
def Derived.read (document : Document) : Except Fault Derived :=
  match (document.member? "id").bind Document.text? with
  | some id => .ok ⟨id, (document.member? "resolvable").getD document⟩
  | none => .error .derivedWithoutId

/-! ## Forms -/

def readPart {α : Type} (part : Part) (read : Document → Except Fault α) :
    List Document → Except FormError (List α)
  | [] => .ok []
  | item :: rest =>
    match read item with
    | .ok value => (readPart part read rest).map (value :: ·)
    | .error fault => .error (.malformed part fault)

/-- Reads a collection that may be left out. -/
def readOptionalPart {α : Type} (part : Part) (read : Document → Except Fault α) :
    Option Document → Except FormError (List α)
  | none | some .null => .ok []
  | some (.array items) => readPart part read items
  | some _ => .error (.malformed part .noArray)

def readSections : Option Document → Except FormError (List Node)
  | none | some .null => .error .noSections
  | some (.array []) => .error .sectionsEmpty
  | some (.array items) => readPart .sections Node.read items
  | some _ => .error .sectionsNotArray

/-- Reads the edges. They may be left out or empty only where there is no decision, and the route
is then linear. -/
def readEdges (sections : List Node) (hasDecisions : Bool) :
    Option Document → Except FormError (List Edge)
  | some (.array []) => if hasDecisions then .error .edgesEmpty else .ok (Edge.linear sections)
  | some (.array items) => readPart .edges Edge.read items
  | none | some .null =>
    if hasDecisions then .error .edgesNotArray else .ok (Edge.linear sections)
  | some _ =>
    if hasDecisions then .error .edgesNotArray else .error (.malformed .edges .noArray)

def read : Document → Except FormError Form
  | .null => .error .noForm
  | .object members => do
    let sections ← readSections (Members.get? "sections" members)
    let decisions ← readOptionalPart .decisions Decision.read (Members.get? "decisions" members)
    let edges ← readEdges sections (!decisions.isEmpty) (Members.get? "edges" members)
    let derived ← readOptionalPart .derived Derived.read (Members.get? "derived" members)
    .ok ⟨sections, decisions, edges, derived⟩
  | _ => .error .formNotObject

end FormFlow.Form
