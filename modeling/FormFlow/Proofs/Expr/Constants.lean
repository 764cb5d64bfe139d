import FormFlow.Proofs.Expr.References

/-!
# Documents that are their own values

A document is constant if at no depth a text in it refers, an object names a function, or an object
calls a function that the table has (`IsConstant`). As an expression it then has the value that it
has as a document, whatever the data and the place under evaluation are (`resolve_constant`).

A call of an unknown function is resolved through its fallback, the object as it is written. So its
arguments, which are read twice, count only as what stands under `args`.
-/

namespace FormFlow

namespace Document

/-- A document stands in itself and in every array and object that it stands in a part of. -/
inductive StandsIn : Document → Document → Prop
  | self (document : Document) : StandsIn document document
  | item {inner item : Document} {items : List Document} :
      item ∈ items → StandsIn inner item → StandsIn inner (.array items)
  | member {inner : Document} {member : String × Document} {members : Members Document} :
      member ∈ members → StandsIn inner member.2 → StandsIn inner (.object members)

/-- Whether a document stands for itself, whatever stands in it: a text is neither `$value` nor a
reference, and an object has no `fnRef` and calls no function of the table. -/
def StandsForItself (table : FunctionTable) : Document → Prop
  | .text content => content ≠ "$value" ∧ ¬ ['$', '.'] <+: content.toList
  | .object members => Members.get? "fnRef" members = none ∧
      ∀ name, Members.get? "fn" members = some (.text name) → table.find? name = none
  | .null | .bool _ | .number _ | .array _ => True

/-- All that stands in a document stands for itself. -/
def IsConstant (table : FunctionTable) (document : Document) : Prop :=
  ∀ inner : Document, inner.StandsIn document → inner.StandsForItself table

variable {table : FunctionTable}

theorem isConstant_array_iff {items : List Document} :
    (Document.array items).IsConstant table ↔ ∀ item ∈ items, item.IsConstant table := by
  refine ⟨fun h item hmem inner hinner => h inner (.item hmem hinner), fun h inner hinner => ?_⟩
  cases hinner with
  | self => trivial
  | item hmem hinner => exact h _ hmem inner hinner

theorem isConstant_object_iff {members : Members Document} :
    (Document.object members).IsConstant table ↔
      (Document.object members).StandsForItself table ∧
        ∀ member ∈ members, member.2.IsConstant table := by
  refine ⟨fun h => ⟨h _ (.self _), fun member hmem inner hinner => h inner (.member hmem hinner)⟩,
    fun ⟨hself, hmembers⟩ inner hinner => ?_⟩
  cases hinner with
  | self => exact hself
  | member hmem hinner => exact hmembers _ hmem inner hinner

theorem isConstant_text_iff {content : String} :
    (Document.text content).IsConstant table ↔
      content ≠ "$value" ∧ ¬ ['$', '.'] <+: content.toList := by
  refine ⟨fun h => h _ (.self _), fun h inner hinner => ?_⟩
  cases hinner
  exact h

theorem isConstant_null : Document.null.IsConstant table := by
  rintro inner ⟨⟩
  trivial

theorem isConstant_bool (value : Bool) : (Document.bool value).IsConstant table := by
  rintro inner ⟨⟩
  trivial

end Document

namespace Expr

variable {scope : Scope}

theorem ofText_of_not_reference {text : String} (hself : text ≠ "$value")
    (hreference : ¬ ['$', '.'] <+: text.toList) : ofText text = .literal (.text text) := by
  rw [ofText, selfText, if_neg hself]
  split
  · next rest hstart =>
    rw [hstart] at hreference
    exact absurd (List.prefix_append ['$', '.'] rest) hreference
  · rfl

theorem resolve_object {members : Members Document}
    (h : (Document.object members).StandsForItself scope.table) :
    (ofDocument (.object members)).resolve scope =
      Value.ofFields (members.map fun member =>
        (member.1, (ofDocument member.2).resolve scope)) := by
  obtain ⟨hfunction, hcall⟩ := h
  have hplain : (plain members).resolve scope = Value.ofFields (members.map fun member =>
      (member.1, (ofDocument member.2).resolve scope)) := by
    rw [plain, hfunction, resolve, resolveFields_eq_map, ofMembers_eq_map, List.map_map]
    rfl
  rw [ofDocument_object]
  split
  · next name hname =>
    -- the arguments of an unknown call play no part
    rw [resolve, hcall name hname]
    exact hplain
  · exact hplain

/-- A constant document has the same value as an expression and as a document, whatever the data and
the place under evaluation are. -/
theorem resolve_constant (table : FunctionTable) (document : Document) (target : Option Location)
    (raw : Document) (h : raw.IsConstant table) :
    (ofDocument raw).resolve ⟨table, document, target⟩ = Value.ofDocument raw := by
  induction raw using Document.inductionOn with
  | null => rfl
  | bool value => rfl
  | number n => rfl
  | text content =>
    obtain ⟨hself, hreference⟩ := Document.isConstant_text_iff.mp h
    rw [ofDocument, ofText_of_not_reference hself hreference]
    rfl
  | array items ih =>
    have hitems := Document.isConstant_array_iff.mp h
    rw [ofDocument, resolve, resolveItems_eq_map, ofItems_eq_map, List.map_map, Value.ofDocument,
      Value.ofItems_eq_map]
    exact congrArg Value.array (List.map_congr_left fun item hmem => ih item hmem (hitems item hmem))
  | object members ih =>
    obtain ⟨hself, hmembers⟩ := Document.isConstant_object_iff.mp h
    rw [resolve_object hself, Value.ofDocument, Value.ofMembers_eq_map]
    refine congrArg Value.ofFields (List.map_congr_left fun member hmem => ?_)
    rw [ih member hmem (hmembers member hmem)]

/-! A call of an unknown function, with another one among its arguments, and texts with a dollar. -/

def unknownCall : Document := .object [("fn", .text "nope"), ("args", .array [
  .text "$5", .object [("fn", .null), ("value", .array [.text "a$.b", .bool true])],
  .object [("fn", .text "never"), ("args", .text "value")]])]

theorem resolve_constant_unknownCall :
    unknownCall.IsConstant Standard.table ∧
    (ofDocument unknownCall).resolve ⟨Standard.table, .object [("b", .null)], some []⟩ =
      Value.ofDocument unknownCall := by
  have hconstant : unknownCall.IsConstant Standard.table := by
    have hnope : Standard.table.find? "nope" = none := rfl
    have hnever : Standard.table.find? "never" = none := rfl
    simp [unknownCall, Document.isConstant_object_iff, Document.isConstant_array_iff,
      Document.isConstant_text_iff, Document.isConstant_null, Document.isConstant_bool,
      Document.StandsForItself, Members.get?, hnope, hnever]
  exact ⟨hconstant, resolve_constant _ _ _ _ hconstant⟩

end Expr

end FormFlow
