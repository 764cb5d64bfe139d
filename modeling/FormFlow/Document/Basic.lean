import FormFlow.Members

/-!
# Documents

A document is a tree of objects and arrays over texts, numbers, truth values and null. Members of
an object keep their order, and whole numbers are kept apart from other numbers.
-/

namespace FormFlow

inductive Number where
  | whole (value : Int)
  | real (value : Float)
  deriving Repr

inductive Document where
  | null
  | bool (value : Bool)
  | number (value : Number)
  | text (value : String)
  | array (items : List Document)
  | object (members : List (String × Document))
  deriving Repr, Inhabited

namespace Number

def toFloat : Number → Float
  | .whole value => Float.ofInt value
  | .real value => value

end Number

namespace Document

/-- The member of an object; other documents have none. -/
def member? (name : String) : Document → Option Document
  | .object members => Members.get? name members
  | _ => none

def text? : Document → Option String
  | .text value => some value
  | _ => none

def isNull : Document → Bool
  | .null => true
  | _ => false

def empty : Document := .object []

mutual

/-- Every object in the tree has each of its names once. -/
def WellFormed : Document → Prop
  | .array items => ItemsWellFormed items
  | .object members => (Members.keys members).Nodup ∧ MembersWellFormed members
  | _ => True

def ItemsWellFormed : List Document → Prop
  | [] => True
  | item :: rest => item.WellFormed ∧ ItemsWellFormed rest

def MembersWellFormed : List (String × Document) → Prop
  | [] => True
  | (_, value) :: rest => value.WellFormed ∧ MembersWellFormed rest

end

theorem itemsWellFormed_iff {items : List Document} :
    ItemsWellFormed items ↔ ∀ item ∈ items, item.WellFormed := by
  induction items with
  | nil => simp [ItemsWellFormed]
  | cons item rest ih => simp [ItemsWellFormed, ih]

theorem membersWellFormed_iff {members : List (String × Document)} :
    MembersWellFormed members ↔ ∀ member ∈ members, member.2.WellFormed := by
  induction members with
  | nil => simp [MembersWellFormed]
  | cons member rest ih => simp [MembersWellFormed, ih]

/-- Induction over a document with one hypothesis for all elements of an array and one for all
members of an object. -/
@[elab_as_elim]
theorem inductionOn {motive : Document → Prop} (document : Document) (null : motive .null)
    (bool : ∀ value, motive (.bool value)) (number : ∀ n, motive (.number n))
    (text : ∀ content, motive (.text content))
    (array : ∀ items, (∀ item ∈ items, motive item) → motive (.array items))
    (object : ∀ members, (∀ member ∈ members, motive member.2) → motive (.object members)) :
    motive document :=
  @Document.rec motive (fun items => ∀ item ∈ items, motive item)
    (fun members => ∀ member ∈ members, motive member.2) (fun member => motive member.2)
    null bool number text array object
    (fun _ hmem => absurd hmem List.not_mem_nil)
    (fun _ _ hitem hrest => List.forall_mem_cons.mpr ⟨hitem, hrest⟩)
    (fun _ hmem => absurd hmem List.not_mem_nil)
    (fun _ _ hmember hrest => List.forall_mem_cons.mpr ⟨hmember, hrest⟩)
    (fun _ _ hvalue => hvalue) document

end Document

end FormFlow
