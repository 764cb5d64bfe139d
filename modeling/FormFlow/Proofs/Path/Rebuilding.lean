import FormFlow.Proofs.Path.Insertion

/-!
# A document from its leaves

Written one after another into nothing, the leaves of a document make it again: its members in their
order, its elements, its nulls and its empty containers (`insertAll_leaves`).

The leaves below one step are written as one value below it (`insertAll_map_cons`). So the induction
follows the tree: while the leaves of a container are written, what is there is the container up to
the member or the element whose leaves come next (`insertAll_memberLeaves`, `insertAll_itemLeaves`).
-/

namespace FormFlow.Document

def insertAll (entries : List (Location × Document)) (document : Document) : Document :=
  entries.foldl (fun written entry => written.insertAt entry.1 entry.2) document

@[simp] theorem insertAll_nil (document : Document) : insertAll [] document = document := rfl

theorem insertAll_cons (entry : Location × Document) (entries : List (Location × Document))
    (document : Document) :
    insertAll (entry :: entries) document = insertAll entries (document.insertAt entry.1 entry.2) :=
  rfl

theorem insertAll_append (front back : List (Location × Document)) (document : Document) :
    insertAll (front ++ back) document = insertAll back (insertAll front document) :=
  List.foldl_append

/-! ### The leaves below a location -/

mutual

theorem leaves_eq_map (document : Document) (base : Location) :
    document.leaves base = (document.leaves []).map fun leaf => (base ++ leaf.1, leaf.2) := by
  match document with
  | .object (member :: members) => exact memberLeaves_eq_map (member :: members) base
  | .array (item :: items) => exact itemLeaves_eq_map (item :: items) base 0
  | .object [] | .array [] | .null | .bool _ | .number _ | .text _ =>
    simp [leaves]

theorem memberLeaves_eq_map (members : List (String × Document)) (base : Location) :
    memberLeaves base members =
      (memberLeaves [] members).map fun leaf => (base ++ leaf.1, leaf.2) := by
  match members with
  | [] => rfl
  | (name, value) :: rest =>
    rw [memberLeaves, memberLeaves, List.map_append, ← memberLeaves_eq_map rest base,
      leaves_eq_map value (base ++ [Step.field name]), leaves_eq_map value ([] ++ [Step.field name])]
    simp

theorem itemLeaves_eq_map (items : List Document) (base : Location) (first : Nat) :
    itemLeaves base first items =
      (itemLeaves [] first items).map fun leaf => (base ++ leaf.1, leaf.2) := by
  match items with
  | [] => rfl
  | item :: rest =>
    rw [itemLeaves, itemLeaves, List.map_append, ← itemLeaves_eq_map rest base (first + 1),
      leaves_eq_map item (base ++ [Step.index first]), leaves_eq_map item ([] ++ [Step.index first])]
    simp

end

theorem leaves_singleton (document : Document) (step : Step) :
    document.leaves [step] = (document.leaves []).map fun leaf => (step :: leaf.1, leaf.2) :=
  leaves_eq_map document [step]

theorem leaves_ne_nil (document : Document) (base : Location) : document.leaves base ≠ [] := by
  match document with
  | .object ((name, value) :: members) =>
    have h := leaves_ne_nil value (base ++ [.field name])
    simp [leaves, memberLeaves, h]
  | .array (item :: items) =>
    have h := leaves_ne_nil item (base ++ [.index 0])
    simp [leaves, itemLeaves, h]
  | .object [] | .array [] | .null | .bool _ | .number _ | .text _ => simp [leaves]

/-! ### Writing below one step -/

theorem changeItem_changeItem (change next : Document → Document) (position : Nat)
    (items : List Document) : changeItem next position (changeItem change position items) =
      changeItem (fun child => next (change child)) position items := by
  induction position generalizing items with
  | zero => cases items <;> rfl
  | succ position ih =>
    cases items with
    | nil => exact congrArg (Document.null :: ·) (ih [])
    | cons item rest => exact congrArg (item :: ·) (ih rest)

theorem changeChild_changeChild (step : Step) (change next : Document → Document)
    (document : Document) : (document.changeChild step change).changeChild step next =
      document.changeChild step fun child => next (change child) := by
  rw [← changeChild_opened step change, ← changeChild_opened step _ document]
  rcases opened_cases document step with ⟨members, hopened⟩ | ⟨items, position, rfl, hopened⟩
  · simp [hopened, changeChild, Members.put_put]
  · simp [hopened, changeChild, changeItem_changeItem]

theorem insertAll_map_cons {entries : List (Location × Document)} (hne : entries ≠ [])
    (step : Step) (document : Document) :
    insertAll (entries.map fun entry => (step :: entry.1, entry.2)) document =
      document.changeChild step (insertAll entries) := by
  induction entries generalizing document with
  | nil => exact absurd rfl hne
  | cons entry rest ih =>
    rw [List.map_cons, insertAll_cons]
    by_cases hrest : rest = []
    · rw [hrest]
      rfl
    · rw [ih hrest, insertAt, changeChild_changeChild]
      rfl

theorem insertAll_leaves_singleton (value : Document) (step : Step) (document : Document) :
    insertAll (value.leaves [step]) document =
      document.changeChild step (insertAll (value.leaves [])) := by
  rw [leaves_singleton, insertAll_map_cons (leaves_ne_nil value [])]

theorem insertAll_memberLeaves_cons (name : String) (value : Document)
    (rest : List (String × Document)) (document : Document) :
    insertAll (memberLeaves [] ((name, value) :: rest)) document =
      insertAll (memberLeaves [] rest)
        (document.changeChild (.field name) (insertAll (value.leaves []))) := by
  rw [memberLeaves, insertAll_append, List.nil_append, insertAll_leaves_singleton]

theorem insertAll_itemLeaves_cons (item : Document) (rest : List Document) (first : Nat)
    (document : Document) :
    insertAll (itemLeaves [] first (item :: rest)) document =
      insertAll (itemLeaves [] (first + 1) rest)
        (document.changeChild (.index first) (insertAll (item.leaves []))) := by
  rw [itemLeaves, insertAll_append, List.nil_append, insertAll_leaves_singleton]

theorem changeItem_length (change : Document → Document) (items : List Document) :
    changeItem change items.length items = items ++ [change .null] := by
  induction items with
  | nil => rfl
  | cons item rest ih => exact congrArg (item :: ·) ih

/-! ### All leaves -/

mutual

/-- The leaves of a document make it again. -/
theorem insertAll_leaves (document : Document) (hformed : document.WellFormed) :
    insertAll (document.leaves []) .null = document := by
  match document with
  | .object ((name, value) :: members) =>
    -- null gives way to an object when the first member is written
    have hstart : insertAll (memberLeaves [] ((name, value) :: members)) .null =
        insertAll (memberLeaves [] ((name, value) :: members)) (.object []) := by
      rw [insertAll_memberLeaves_cons, insertAll_memberLeaves_cons]
      rfl
    exact hstart.trans
      (insertAll_memberLeaves ((name, value) :: members) [] hformed.1 hformed.2)
  | .array (item :: items) =>
    have hstart : insertAll (itemLeaves [] 0 (item :: items)) .null =
        insertAll (itemLeaves [] 0 (item :: items)) (.array []) := by
      rw [insertAll_itemLeaves_cons, insertAll_itemLeaves_cons]
      rfl
    exact hstart.trans (insertAll_itemLeaves (item :: items) [] hformed)
  | .object [] | .array [] | .null | .bool _ | .number _ | .text _ => rfl

theorem insertAll_memberLeaves (members front : Members Document)
    (hnodup : (Members.keys (front ++ members)).Nodup) (hformed : MembersWellFormed members) :
    insertAll (memberLeaves [] members) (.object front) = .object (front ++ members) := by
  match members with
  | [] => simp [memberLeaves]
  | (name, value) :: rest =>
    have hname : name ∉ Members.keys front := by
      rw [Members.keys, List.map_append, List.nodup_append] at hnodup
      exact fun hmem => hnodup.2.2 name hmem name (List.mem_cons_self ..) rfl
    have hvalue : ((Members.get? name front).getD .null) = .null := by
      rw [Members.get?_eq_none_iff.mpr hname, Option.getD_none]
    have hrest := insertAll_memberLeaves rest (front ++ [(name, value)])
    rw [List.append_assoc, List.singleton_append] at hrest
    rw [insertAll_memberLeaves_cons, changeChild, Step.name, hvalue,
      insertAll_leaves value hformed.1, Members.put_of_not_mem value hname,
      hrest hnodup hformed.2]

theorem insertAll_itemLeaves (items front : List Document) (hformed : ItemsWellFormed items) :
    insertAll (itemLeaves [] front.length items) (.array front) = .array (front ++ items) := by
  match items with
  | [] => simp [itemLeaves]
  | item :: rest =>
    have hrest := insertAll_itemLeaves rest (front ++ [item]) hformed.2
    rw [List.length_append, List.length_singleton, List.append_assoc] at hrest
    rw [insertAll_itemLeaves_cons, changeChild, changeItem_length,
      insertAll_leaves item hformed.1, hrest, List.singleton_append]

end

end FormFlow.Document
