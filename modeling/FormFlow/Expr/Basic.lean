import FormFlow.Value.Basic
import FormFlow.Path.Pattern

/-!
# Expressions

Every dynamic attribute of a form is an expression, written as a document: a text beginning with
`$.` is a reference, `$value` is the value under evaluation, an object with `fn` is a call, one
with `fnRef` names a function, arrays and objects are taken apart, and all else is a literal.
-/

namespace FormFlow

inductive Expr where
  | literal (value : Value)
  /-- The value at the place under evaluation. -/
  | self
  | reference (pattern : Pattern)
  | array (items : List Expr)
  | object (fields : List (String × Expr))
  /-- A call. Where the table has no function of that name, `fallback` is taken instead. -/
  | call (name : String) (arguments : List Expr) (fallback : Expr)
  /-- A function as a value. Without a function of that name, `target` may still yield one. -/
  | function (name : Option String) (target : Expr)
  deriving Repr, Inhabited

namespace Expr

def selfText : String := "$value"

def ofText (text : String) : Expr :=
  if text = selfText then .self
  else
    match text.toList with
    | '$' :: '.' :: _ => .reference (Pattern.read text)
    | _ => .literal (.text text)

/-- An object expression from its members as they stand and as they are read. -/
def ofParts (members : Members Document) (fields : Members Expr) : Expr :=
  let plain := match Members.get? "fnRef" members, Members.get? "fnRef" fields with
    | some raw, some target => .function raw.text? target
    | _, _ => .object fields
  match Members.get? "fn" members with
  | some (.text name) =>
    let arguments := match Members.get? "args" members, Members.get? "args" fields with
      | some (.array _), some (.array items) => items
      | _, _ => []
    .call name arguments plain
  | _ => plain

mutual

def ofDocument : Document → Expr
  | .text text => ofText text
  | .array items => .array (ofItems items)
  | .object members => ofParts members (ofMembers members)
  | .null => .literal .null
  | .bool value => .literal (.bool value)
  | .number n => .literal (.number n.toFloat)

def ofItems : List Document → List Expr
  | [] => []
  | item :: rest => ofDocument item :: ofItems rest

def ofMembers : List (String × Document) → List (String × Expr)
  | [] => []
  | (name, value) :: rest => (name, ofDocument value) :: ofMembers rest

end

theorem ofItems_eq_map (items : List Document) : ofItems items = items.map ofDocument := by
  induction items with
  | nil => rfl
  | cons item rest ih => rw [ofItems, ih, List.map_cons]

theorem ofMembers_eq_map (members : Members Document) :
    ofMembers members = members.map fun member => (member.1, ofDocument member.2) := by
  induction members with
  | nil => rfl
  | cons member rest ih => rw [ofMembers, ih, List.map_cons]

mutual

/-- The references of an expression. Those of a call are the references of its fallback alone: the
fallback of an object with a `fnRef` is this function, which leaves the arguments out. -/
def references : Expr → List Pattern
  | .reference pattern => [pattern]
  | .array items => itemReferences items
  | .object fields => fieldReferences fields
  | .call _ _ fallback => fallback.references
  | .function _ target => target.references
  | .literal _ | .self => []

def itemReferences : List Expr → List Pattern
  | [] => []
  | item :: rest => item.references ++ itemReferences rest

def fieldReferences : List (String × Expr) → List Pattern
  | [] => []
  | (_, value) :: rest => value.references ++ fieldReferences rest

end

end Expr

/-- A check and the message for when it fails. -/
structure Rule where
  check : Expr
  message : String
  deriving Repr, Inhabited

namespace Rule

/-- Reads a rule. Without `resolvable` the whole document is the check, so that a call may carry
its own message. -/
def ofDocument (document : Document) : Rule where
  check := Expr.ofDocument ((document.member? "resolvable").getD document)
  message := ((document.member? "message").bind Document.text?).getD ""

end Rule

/-- What makes a value required. -/
inductive Requirement where
  /-- The message itself, or anything truthy for the default message. -/
  | message (text : Expr)
  /-- The first rule whose check holds gives the message. -/
  | oneOf (rules : List Rule)
  deriving Repr, Inhabited

namespace Requirement

def ofDocument : Document → Requirement
  | .array items => .oneOf (items.map Rule.ofDocument)
  | document => .message (Expr.ofDocument document)

end Requirement

end FormFlow
