import FormFlow.Function.Standard
import FormFlow.Proofs.Expr.Reads

/-!
# What the collected references miss

The references of an expression are collected from its fallbacks, not from the arguments of its
calls. The fallback of a call is the object as it is written and has its arguments, unless the
object also names a function: then the fallback has the name alone, and the references in the
arguments are overlooked (`overlooked`). An expression depends on its references and on what it
overlooks, and it overlooks nothing if no such object calls a known function
(`dependsOn_references`).
-/

namespace FormFlow

namespace Document

/-- Whether the members of an object call a known function with arguments and name a function
besides. -/
def isMixedCall (table : FunctionTable) (members : Members Document) : Bool :=
  match Members.get? "fn" members, Members.get? "args" members with
  | some (.text name), some (.array _) =>
    (table.find? name).isSome && (Members.get? "fnRef" members).isSome
  | _, _ => false

mutual

/-- Whether there is such an object in a document. -/
def mixesCall (table : FunctionTable) : Document → Bool
  | .array items => itemsMixCall table items
  | .object members => isMixedCall table members || membersMixCall table members
  | .null | .bool _ | .number _ | .text _ => false

def itemsMixCall (table : FunctionTable) : List Document → Bool
  | [] => false
  | item :: rest => item.mixesCall table || itemsMixCall table rest

def membersMixCall (table : FunctionTable) : List (String × Document) → Bool
  | [] => false
  | (_, value) :: rest => value.mixesCall table || membersMixCall table rest

end

end Document

namespace Read

/-- The pattern of a reference. -/
def pattern? : Read → Option Pattern
  | .self => none
  | .reference pattern => some pattern

end Read

namespace Expr

/-- The references that are looked up but not collected. -/
def overlooked (table : FunctionTable) (expr : Expr) : List Pattern :=
  ((expr.lookups table).filterMap Read.pattern?).filter fun pattern =>
    !expr.references.contains pattern

variable {table : FunctionTable} {pattern : Pattern}

theorem mem_overlooked_iff {expr : Expr} : pattern ∈ expr.overlooked table ↔
    .reference pattern ∈ expr.lookups table ∧ pattern ∉ expr.references := by
  rw [overlooked, List.mem_filter, Bool.not_eq_true', List.contains_eq_mem,
    decide_eq_false_iff_not, List.mem_filterMap]
  refine and_congr_left fun _ => ⟨?_, fun hread => ⟨_, hread, rfl⟩⟩
  rintro ⟨read, hread, hpattern⟩
  cases read with
  | self => simp [Read.pattern?] at hpattern
  | reference other => exact Option.some.inj hpattern ▸ hread

/-! ### An object as it is written -/

/-- What an object is apart from a call. -/
def plain (members : Members Document) : Expr :=
  match Members.get? "fnRef" members with
  | some raw => .function raw.text? (ofDocument raw)
  | none => .object (ofMembers members)

def argumentsOf (members : Members Document) : List Expr :=
  match Members.get? "args" members with
  | some (.array items) => ofItems items
  | _ => []

theorem get?_ofMembers (name : String) (members : Members Document) :
    Members.get? name (ofMembers members) = (Members.get? name members).map ofDocument := by
  rw [ofMembers_eq_map]
  exact Members.get?_map (fun _ => ofDocument) name members

theorem ofDocument_object (members : Members Document) :
    ofDocument (.object members) =
      match Members.get? "fn" members with
      | some (.text name) => .call name (argumentsOf members) (plain members)
      | _ => plain members := by
  simp only [ofDocument, ofParts, get?_ofMembers, plain, argumentsOf]
  cases Members.get? "args" members with
  | none => cases Members.get? "fnRef" members <;> rfl
  | some raw => cases raw <;> cases Members.get? "fnRef" members <;> rfl

/-! ### What is collected -/

theorem mem_itemLookups_iff {read : Read} {items : List Expr} :
    read ∈ itemLookups table items ↔ ∃ item ∈ items, read ∈ item.lookups table := by
  induction items with
  | nil => simp [itemLookups]
  | cons item rest ih => simp [itemLookups, ih]

theorem mem_fieldLookups_iff {read : Read} {fields : List (String × Expr)} :
    read ∈ fieldLookups table fields ↔ ∃ field ∈ fields, read ∈ field.2.lookups table := by
  induction fields with
  | nil => simp [fieldLookups]
  | cons field rest ih => simp [fieldLookups, ih]

theorem mem_itemReferences_iff {items : List Expr} :
    pattern ∈ itemReferences items ↔ ∃ item ∈ items, pattern ∈ item.references := by
  induction items with
  | nil => simp [itemReferences]
  | cons item rest ih => simp [itemReferences, ih]

theorem mem_fieldReferences_iff {fields : List (String × Expr)} :
    pattern ∈ fieldReferences fields ↔ ∃ field ∈ fields, pattern ∈ field.2.references := by
  induction fields with
  | nil => simp [fieldReferences]
  | cons field rest ih => simp [fieldReferences, ih]

/-- All that an expression looks up is collected. -/
def IsCollected (table : FunctionTable) (expr : Expr) : Prop :=
  ∀ pattern, .reference pattern ∈ expr.lookups table → pattern ∈ expr.references

theorem isCollected_plain {members : Members Document}
    (hmembers : ∀ field ∈ ofMembers members, field.2.IsCollected table) :
    (plain members).IsCollected table := by
  intro pattern hread
  unfold plain at hread ⊢
  split at hread
  · next raw hraw =>
    have hfield : (("fnRef", ofDocument raw) : String × Expr) ∈ ofMembers members :=
      Members.mem_of_get? (by rw [get?_ofMembers, hraw]; rfl)
    rw [lookups] at hread
    split at hread
    · simp at hread
    · exact hmembers _ hfield pattern hread
  · rw [lookups, mem_fieldLookups_iff] at hread
    rw [references, mem_fieldReferences_iff]
    obtain ⟨field, hfield, hread⟩ := hread
    exact ⟨field, hfield, hmembers field hfield pattern hread⟩

/-- The references in the arguments of a call are collected from the object as it is written, if the
call is not mixed. -/
theorem mem_references_plain {members : Members Document} {name : String}
    (hmixed : Document.isMixedCall table members = false)
    (hmembers : ∀ field ∈ ofMembers members, field.2.IsCollected table)
    (hname : Members.get? "fn" members = some (.text name))
    (hfound : (table.find? name).isSome = true)
    (hread : .reference pattern ∈ itemLookups table (argumentsOf members)) :
    pattern ∈ (plain members).references := by
  unfold argumentsOf at hread
  split at hread
  · next items hitems =>
    have hplain : Members.get? "fnRef" members = none := by
      simpa [Document.isMixedCall, hname, hitems, hfound] using hmixed
    have hfield : (("args", .array (ofItems items)) : String × Expr) ∈ ofMembers members :=
      Members.mem_of_get? (by rw [get?_ofMembers, hitems]; rfl)
    rw [plain, hplain]
    exact mem_fieldReferences_iff.mpr ⟨_, hfield, hmembers _ hfield pattern hread⟩
  · simp [itemLookups] at hread

theorem isCollected_object {members : Members Document}
    (hmixed : Document.isMixedCall table members = false)
    (hmembers : ∀ field ∈ ofMembers members, field.2.IsCollected table) :
    (ofDocument (.object members)).IsCollected table := by
  rw [ofDocument_object]
  split
  · next name hname =>
    intro pattern hread
    rw [lookups] at hread
    split at hread
    · next hfound => exact mem_references_plain hmixed hmembers hname hfound hread
    · exact isCollected_plain hmembers pattern hread
  · exact isCollected_plain hmembers

theorem isCollected_ofText (text : String) : (ofText text).IsCollected table := by
  unfold ofText
  split
  · simp [IsCollected, lookups]
  · split <;> simp [IsCollected, lookups, references]

mutual

theorem isCollected_ofDocument (raw : Document) (h : raw.mixesCall table = false) :
    (ofDocument raw).IsCollected table := by
  match raw with
  | .null | .bool _ | .number _ => simp [IsCollected, ofDocument, lookups]
  | .text text => exact isCollected_ofText text
  | .array items =>
    rw [Document.mixesCall] at h
    intro pattern hread
    rw [ofDocument, lookups, mem_itemLookups_iff] at hread
    rw [ofDocument, references, mem_itemReferences_iff]
    obtain ⟨item, hitem, hread⟩ := hread
    exact ⟨item, hitem, isCollected_ofItems items h item hitem pattern hread⟩
  | .object members =>
    rw [Document.mixesCall, Bool.or_eq_false_iff] at h
    exact isCollected_object h.1 (isCollected_ofMembers members h.2)

theorem isCollected_ofItems (items : List Document)
    (h : Document.itemsMixCall table items = false) :
    ∀ item ∈ ofItems items, item.IsCollected table := by
  match items with
  | [] => simp [ofItems]
  | raw :: rest =>
    rw [Document.itemsMixCall, Bool.or_eq_false_iff] at h
    rw [ofItems, List.forall_mem_cons]
    exact ⟨isCollected_ofDocument raw h.1, isCollected_ofItems rest h.2⟩

theorem isCollected_ofMembers (members : List (String × Document))
    (h : Document.membersMixCall table members = false) :
    ∀ field ∈ ofMembers members, field.2.IsCollected table := by
  match members with
  | [] => simp [ofMembers]
  | (name, raw) :: rest =>
    rw [Document.membersMixCall, Bool.or_eq_false_iff] at h
    rw [ofMembers, List.forall_mem_cons]
    exact ⟨isCollected_ofDocument raw h.1, isCollected_ofMembers rest h.2⟩

end

theorem overlooked_ofDocument {raw : Document} (h : raw.mixesCall table = false) :
    (ofDocument raw).overlooked table = [] := by
  refine List.eq_nil_iff_forall_not_mem.mpr fun pattern hpattern => ?_
  obtain ⟨hread, hnot⟩ := mem_overlooked_iff.mp hpattern
  exact hnot (isCollected_ofDocument raw h pattern hread)

/-! ### Two documents -/

/-- At every place, an expression resolves alike in any two documents in which the given references
and the value under evaluation are the same. -/
def DependsOn (table : FunctionTable) (patterns : List Pattern) (expr : Expr) : Prop :=
  ∀ (target : Option Location) (document document' : Document),
    (∀ pattern ∈ patterns, (Scope.mk table document target).valueOf pattern =
      (Scope.mk table document' target).valueOf pattern) →
    (Scope.mk table document target).self = (Scope.mk table document' target).self →
    expr.resolve ⟨table, document, target⟩ = expr.resolve ⟨table, document', target⟩

theorem dependsOn_append_overlooked (table : FunctionTable) (expr : Expr) :
    expr.DependsOn table (expr.references ++ expr.overlooked table) := by
  intro target document document' hpatterns hself
  apply resolve_eq_of_lookups
  · rfl
  · intro read hread
    cases read with
    | self => exact hself
    | reference pattern =>
      refine hpatterns pattern (List.mem_append.mpr ?_)
      by_cases hcollected : pattern ∈ expr.references
      · exact Or.inl hcollected
      · exact Or.inr (mem_overlooked_iff.mpr ⟨hread, hcollected⟩)

/-- An expression depends on its references and on those it overlooks. As it is read from a document
without mixed calls, it depends on its references alone. -/
theorem dependsOn_references (raw : Document) (table : FunctionTable) :
    (ofDocument raw).DependsOn table
        ((ofDocument raw).references ++ (ofDocument raw).overlooked table) ∧
      (raw.mixesCall table = false →
        (ofDocument raw).DependsOn table (ofDocument raw).references) := by
  refine ⟨dependsOn_append_overlooked table _, fun hmixed => ?_⟩
  have hdepends := dependsOn_append_overlooked table (ofDocument raw)
  rwa [overlooked_ofDocument hmixed, List.append_nil] at hdepends

def plainCall : Document := .object [
  ("fn", .text "equals"), ("args", .array [.text "$.a", .text "1"])]

/-- The same call in an object that also names a function. -/
def mixedCall : Document := .object [
  ("fn", .text "equals"), ("fnRef", .text "x"), ("args", .array [.text "$.a", .text "1"])]

theorem dependsOn_references_equals :
    (ofDocument mixedCall).DependsOn Standard.table [[.key "a"]] ∧
      (ofDocument plainCall).DependsOn Standard.table [[.key "a"]] :=
  ⟨(dependsOn_references mixedCall Standard.table).1,
    (dependsOn_references plainCall Standard.table).2 rfl⟩

/-- The reference of the mixed call is in its arguments alone, and its value decides that of the
call. -/
theorem not_dependsOn_references :
    ¬ (ofDocument mixedCall).DependsOn Standard.table (ofDocument mixedCall).references := by
  intro hdepends
  have hnone : (ofDocument mixedCall).references = [] := rfl
  have hsame := hdepends none (.object [("a", .text "1")]) (.object [("a", .text "2")])
    (by simp [hnone]) rfl
  have hequal : (ofDocument mixedCall).resolve
      ⟨Standard.table, .object [("a", .text "1")], none⟩ = .bool true := rfl
  have hother : (ofDocument mixedCall).resolve
      ⟨Standard.table, .object [("a", .text "2")], none⟩ = .bool false := rfl
  simp [hequal, hother] at hsame

end Expr

end FormFlow
