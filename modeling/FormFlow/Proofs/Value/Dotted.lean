import FormFlow.Path.Access
import FormFlow.Value.Basic

/-!
# Dotted texts in values and in documents

A dotted text leads into a value segment by segment: each object is asked for the segment as it is
written, and each array for the index that it denotes. So it finds what the document has at the
location whose steps are the segments as names (`atPath_ofDocument`).

A location that is read from the text has numerals as indexes, and asks an object for the digits of
the number. Both look-ups agree wherever no object is asked for a numeral that is not written as its
number is (`agrees_of_isSpelledAlong`), and they agree for all documents only if the text has no such
numeral (`agrees_iff`): `+1` and `01` both ask an object for its member `1`.
-/

namespace FormFlow

namespace Text

/-- The segments of a dotted text that are not empty. -/
def segments (text : String) : List (List Char) :=
  (cut text.toList).filter fun segment => segment ≠ []

/-- No numeral, or one that is written as its number is. -/
def IsSpelled (segment : List Char) : Prop :=
  ∀ position, readIndex segment = some position → segment = Natural.digits position

theorem isSpelled_of_readIndex {segment : List Char} (h : readIndex segment = none) :
    IsSpelled segment := by
  intro position hposition
  rw [h] at hposition
  cases hposition

theorem isSpelled_zero : IsSpelled ['0'] := by
  intro position hposition
  obtain rfl : 0 = position := Option.some.inj hposition
  rw [Natural.digits]
  rfl

end Text

open Text

variable {document : Document} {segment : List Char} {segments : List (List Char)}

namespace Step

/-- The segment as a name, whatever it denotes. -/
def named (segment : List Char) : Step := .field (String.ofList segment)

@[simp] theorem position?_read (segment : List Char) :
    (read segment).position? = readIndex segment := by
  unfold read
  split
  · next position hread => rw [position?, hread]
  · rw [position?, String.toList_ofList]

theorem name_read_eq_iff : (read segment).name = String.ofList segment ↔ IsSpelled segment := by
  unfold read IsSpelled
  split
  · next position hread =>
    rw [name, Natural.print, String.ofList_inj, hread]
    exact ⟨fun heq _ hposition => Option.some.inj hposition ▸ heq.symm,
      fun h => (h position rfl).symm⟩
  · next hread => simp [name, hread]

end Step

namespace Document

/-- The value at a location; undefined where there is none. -/
def valueAt (document : Document) (location : Location) : Value :=
  ((document.at? location).map Value.ofDocument).getD .undefined

/-- On the way along the segments no object is asked for a numeral that is spelled otherwise. -/
def IsSpelledAlong : Document → List (List Char) → Prop
  | _, [] => True
  | document, segment :: rest =>
    ((∃ members, document = .object members) → IsSpelled segment) ∧
      ∀ child, document.child? (Step.read segment) = some child → child.IsSpelledAlong rest

theorem child?_named (h : (∃ members, document = .object members) → IsSpelled segment) :
    document.child? (Step.named segment) = document.child? (Step.read segment) := by
  cases document with
  | object members =>
    rw [child?, child?, Step.name_read_eq_iff.mpr (h ⟨members, rfl⟩)]
    rfl
  | array items =>
    rw [child?, child?, Step.position?_read, Step.named, Step.position?, String.toList_ofList]
  | _ => rfl

theorem at?_named (h : document.IsSpelledAlong segments) :
    document.at? (segments.map Step.named) = document.at? (segments.map Step.read) := by
  induction segments generalizing document with
  | nil => rfl
  | cons segment rest ih =>
    obtain ⟨hsegment, hrest⟩ := h
    rw [List.map_cons, List.map_cons, at?_cons, at?_cons, child?_named hsegment]
    exact Option.bind_congr fun child hchild => ih (hrest child hchild)

end Document

namespace Value

theorem child?_ofDocument (document : Document) (segment : List Char) :
    (ofDocument document).child? segment =
      (document.child? (Step.named segment)).map ofDocument := by
  cases document with
  | object members =>
    rw [ofDocument, ofFields, child?, Members.get?_sorted, ofMembers_eq_map]
    exact Members.get?_map (fun _ => ofDocument) _ _
  | array items =>
    rw [ofDocument, child?, ofItems_eq_map, Document.child?, Step.named, Step.position?,
      String.toList_ofList, Option.map_bind]
    simp only [List.getElem?_map]
    rfl
  | _ => rfl

theorem follow_ofDocument (document : Document) (segments : List (List Char)) :
    (ofDocument document).follow segments = document.valueAt (segments.map Step.named) := by
  induction segments generalizing document with
  | nil => rfl
  | cons segment rest ih =>
    rw [follow, child?_ofDocument, List.map_cons, Document.valueAt, Document.at?_cons]
    cases document.child? (Step.named segment) with
    | none => rfl
    | some child => exact ih child

theorem atPath_ofDocument (document : Document) (path : String) :
    (ofDocument document).atPath path =
      document.valueAt ((Text.segments path).map Step.named) :=
  follow_ofDocument document (Text.segments path)

theorem ofDocument_ne_undefined (document : Document) : ofDocument document ≠ .undefined := by
  cases document <;> simp [ofDocument, ofFields]

end Value

namespace Document

theorem valueAt_eq_undefined_iff {location : Location} :
    document.valueAt location = .undefined ↔ document.at? location = none := by
  rw [valueAt]
  cases document.at? location with
  | none => simp
  | some found => simp [Value.ofDocument_ne_undefined]

/-- A dotted text leads to the same value in a document and in the value of the document, and to
nothing in the one if it does so in the other. -/
structure Agrees (document : Document) (path : String) : Prop where
  value : (Value.ofDocument document).atPath path = document.valueAt (Location.read path)
  undefined_iff : (Value.ofDocument document).atPath path = .undefined ↔
    document.at? (Location.read path) = none

theorem agrees_iff_value {path : String} : document.Agrees path ↔
    (Value.ofDocument document).atPath path = document.valueAt (Location.read path) :=
  ⟨Agrees.value, fun h => ⟨h, by rw [h, valueAt_eq_undefined_iff]⟩⟩

theorem agrees_of_isSpelledAlong {path : String}
    (h : document.IsSpelledAlong (Text.segments path)) : document.Agrees path := by
  rw [agrees_iff_value, Value.atPath_ofDocument, valueAt, at?_named h]
  rfl

/-! ### Where both differ -/

/-- Objects of one member, nested along the segments. -/
def nest : List (List Char) → Document
  | [] => .bool true
  | segment :: rest => .object [(String.ofList segment, nest rest)]

theorem at?_nest_named (segments : List (List Char)) :
    (nest segments).at? (segments.map Step.named) = some (.bool true) := by
  induction segments with
  | nil => rfl
  | cons segment rest ih =>
    rw [nest, List.map_cons, at?_cons, child?, Step.named, Step.name, Members.get?, if_pos rfl]
    exact ih

theorem at?_nest_read (h : ∃ segment ∈ segments, ¬ IsSpelled segment) :
    (nest segments).at? (segments.map Step.read) = none := by
  induction segments with
  | nil => simp at h
  | cons segment rest ih =>
    rw [nest, List.map_cons, at?_cons, child?, Members.get?]
    by_cases hspelled : IsSpelled segment
    · rw [if_pos (Step.name_read_eq_iff.mpr hspelled).symm]
      simp only [List.mem_cons, exists_eq_or_imp, hspelled, not_true, false_or] at h
      exact ih h
    · rw [if_neg fun heq => hspelled (Step.name_read_eq_iff.mp heq.symm)]
      rfl

theorem isSpelledAlong_of_forall (h : ∀ segment ∈ segments, IsSpelled segment) :
    document.IsSpelledAlong segments := by
  induction segments generalizing document with
  | nil => trivial
  | cons segment rest ih =>
    obtain ⟨hsegment, hrest⟩ := List.forall_mem_cons.mp h
    exact ⟨fun _ => hsegment, fun child _ => ih hrest⟩

/-- A dotted text leads to the same value in a document and in the value of the document if no
object on the way is asked for a numeral that is spelled otherwise than its number. It does so for
all documents exactly if it has no such numeral. -/
theorem agrees_iff (path : String) :
    (∀ document : Document, document.IsSpelledAlong (Text.segments path) →
      document.Agrees path) ∧
    ((∀ document : Document, document.Agrees path) ↔
      ∀ segment ∈ Text.segments path, IsSpelled segment) := by
  refine ⟨fun document => agrees_of_isSpelledAlong, fun hagrees => ?_, fun hspelled document =>
    agrees_of_isSpelledAlong (isSpelledAlong_of_forall hspelled)⟩
  intro segment hmem
  refine Classical.byContradiction fun hsegment => ?_
  have hread : (nest (Text.segments path)).at? (Location.read path) = none :=
    at?_nest_read ⟨segment, hmem, hsegment⟩
  have hvalue := (hagrees (nest (Text.segments path))).value
  rw [Value.atPath_ofDocument, valueAt, at?_nest_named, valueAt, hread] at hvalue
  simp [Value.ofDocument] at hvalue

/-! A document whose members are named by numerals, and an array in it. -/

def numbered : Document := .object [("+1", .bool true), ("01", .array [.text "x", .text "y"]),
  ("list", .array [.object [("0", .text "z")]])]

theorem agrees_numbered :
    numbered.IsSpelledAlong (Text.segments "list.00.0") ∧ numbered.Agrees "list.00.0" := by
  have hspelled : numbered.IsSpelledAlong (Text.segments "list.00.0") := by
    have hsegments : Text.segments "list.00.0" = [['l', 'i', 's', 't'], ['0', '0'], ['0']] := by
      decide
    rw [hsegments]
    refine ⟨fun _ => isSpelled_of_readIndex rfl, fun list hlist => ?_⟩
    obtain rfl := Option.some.inj hlist
    refine ⟨nofun, fun child hchild => ?_⟩
    obtain rfl := Option.some.inj hchild
    exact ⟨fun _ => isSpelled_zero, fun _ _ => trivial⟩
  exact ⟨hspelled, (agrees_iff "list.00.0").1 numbered hspelled⟩

/-- `+1` asks the value for the member `+1`, but the document for the member `1`. -/
theorem not_agrees_numbered : ¬ numbered.Agrees "+1" := by
  intro h
  have hvalue : (Value.ofDocument numbered).atPath "+1" = .bool true := by
    rw [Value.atPath_ofDocument]
    rfl
  have hread : numbered.at? (Location.read "+1") = none := by
    have hlocation : Location.read "+1" = [.index 1] := by decide
    have hname : (Step.index 1).name = "1" := by rw [Step.name, Natural.print, Natural.digits]; rfl
    rw [hlocation, at?_cons, numbered, child?, hname]
    rfl
  have hundefined := h.undefined_iff.mpr hread
  rw [hvalue] at hundefined
  cases hundefined

end Document

end FormFlow
