import FormFlow.Proofs.Path.Removal

/-!
# What remains of a document

A document remains of another if members of objects are gone and elements of arrays are null, at
whatever depth, and nothing else is changed (`Remains`). Whatever is taken out of a document, what
is left remains of it (`remains_without`), and so does what is left after many removals
(`Remains.trans`).
-/

namespace FormFlow.Document

mutual

/-- What may be left of a document when values are taken out of it. -/
inductive Remains : Document → Document → Prop
  | same (document : Document) : Remains document document
  | array {items left : List Document} : ItemsRemain items left → Remains (.array items) (.array left)
  | object {members left : Members Document} :
      MembersRemain members left → Remains (.object members) (.object left)

/-- Elements keep their number and their order, and each remains or is null. -/
inductive ItemsRemain : List Document → List Document → Prop
  | nil : ItemsRemain [] []
  | null (item : Document) {items left : List Document} :
      ItemsRemain items left → ItemsRemain (item :: items) (.null :: left)
  | item {item other : Document} {items left : List Document} :
      Remains item other → ItemsRemain items left → ItemsRemain (item :: items) (other :: left)

/-- Members keep their names and their order, and each remains or is gone. -/
inductive MembersRemain : Members Document → Members Document → Prop
  | nil : MembersRemain [] []
  | gone (member : String × Document) {members left : Members Document} :
      MembersRemain members left → MembersRemain (member :: members) left
  | member (name : String) {value other : Document} {members left : Members Document} :
      Remains value other → MembersRemain members left →
        MembersRemain ((name, value) :: members) ((name, other) :: left)

end

/-! ### One removal after another -/

theorem ItemsRemain.refl (items : List Document) : ItemsRemain items items := by
  induction items with
  | nil => exact .nil
  | cons item rest ih => exact .item (.same item) ih

theorem MembersRemain.refl (members : Members Document) : MembersRemain members members := by
  induction members with
  | nil => exact .nil
  | cons member rest ih => exact .member member.1 (.same member.2) ih

mutual

theorem Remains.trans {document seen left : Document} (hfirst : Remains document seen)
    (hnext : Remains seen left) : Remains document left := by
  cases hfirst with
  | same => exact hnext
  | array hitems =>
    cases hnext with
    | same => exact .array hitems
    | array hnext => exact .array (hitems.trans hnext)
  | object hmembers =>
    cases hnext with
    | same => exact .object hmembers
    | object hnext => exact .object (hmembers.trans hnext)

theorem ItemsRemain.trans {items seen left : List Document} (hfirst : ItemsRemain items seen)
    (hnext : ItemsRemain seen left) : ItemsRemain items left := by
  cases hfirst with
  | nil => exact hnext
  | null item hrest =>
    cases hnext with
    | null _ hnext => exact .null item (hrest.trans hnext)
    | item hother hnext =>
      -- null remains null
      cases hother with
      | same => exact .null item (hrest.trans hnext)
  | item hitem hrest =>
    cases hnext with
    | null _ hnext => exact .null _ (hrest.trans hnext)
    | item hother hnext => exact .item (hitem.trans hother) (hrest.trans hnext)

theorem MembersRemain.trans {members seen left : Members Document}
    (hfirst : MembersRemain members seen) (hnext : MembersRemain seen left) :
    MembersRemain members left := by
  cases hfirst with
  | nil => exact hnext
  | gone member hrest => exact .gone member (hrest.trans hnext)
  | member name hvalue hrest =>
    cases hnext with
    | gone _ hnext => exact .gone _ (hrest.trans hnext)
    | member _ hother hnext => exact .member name (hvalue.trans hother) (hrest.trans hnext)

end

theorem Remains.exists_members {members : Members Document} {left : Document}
    (h : Remains (.object members) left) :
    ∃ kept, left = .object kept ∧ MembersRemain members kept := by
  cases h with
  | same => exact ⟨members, rfl, .refl members⟩
  | object hmembers => exact ⟨_, rfl, hmembers⟩

/-! ### One removal -/

theorem itemsRemain_set {items : List Document} {position : Nat} {item other : Document}
    (hitem : items[position]? = some item) (hother : other = .null ∨ item.Remains other) :
    ItemsRemain items (items.set position other) := by
  induction items generalizing position with
  | nil => simp at hitem
  | cons first rest ih =>
    cases position with
    | zero =>
      obtain rfl : first = item := by simpa using hitem
      rcases hother with rfl | hother
      · exact .null first (.refl rest)
      · exact .item hother (.refl rest)
    | succ position => exact .item (.same first) (ih (by simpa using hitem))

theorem membersRemain_erase (name : String) (members : Members Document) :
    MembersRemain members (Members.erase name members) := by
  induction members with
  | nil => exact .nil
  | cons member rest ih =>
    obtain ⟨key, value⟩ := member
    by_cases hkey : key = name
    · rw [Members.erase, if_pos hkey]
      exact .gone _ ih
    · rw [Members.erase, if_neg hkey]
      exact .member key (.same value) ih

theorem membersRemain_put {name : String} {value other : Document} {members : Members Document}
    (hvalue : Members.get? name members = some value) (hother : value.Remains other) :
    MembersRemain members (Members.put name other members) := by
  induction members with
  | nil => simp [Members.get?] at hvalue
  | cons member rest ih =>
    obtain ⟨key, old⟩ := member
    by_cases hkey : key = name
    · rw [Members.get?, if_pos hkey] at hvalue
      obtain rfl := Option.some.inj hvalue
      rw [Members.put, if_pos hkey]
      exact .member key hother (.refl rest)
    · rw [Members.get?, if_neg hkey] at hvalue
      rw [Members.put, if_neg hkey]
      exact .member key (.same old) (ih hvalue)

variable {document child left : Document} {step : Step}

theorem remains_replaceChild (hchild : document.child? step = some child)
    (hleft : child.Remains left) : document.Remains (document.replaceChild step left) := by
  cases document with
  | object members => exact .object (membersRemain_put hchild hleft)
  | array items =>
    obtain ⟨position, hposition, hitem⟩ := Option.bind_eq_some_iff.mp hchild
    rw [replaceChild, hposition]
    exact .array (itemsRemain_set hitem (Or.inr hleft))
  | _ => simp [child?] at hchild

theorem remains_dropChild (hchild : document.child? step = some child) :
    document.Remains (document.dropChild step) := by
  cases document with
  | object members => exact .object (membersRemain_erase step.name members)
  | array items =>
    obtain ⟨position, hposition, hitem⟩ := Option.bind_eq_some_iff.mp hchild
    rw [dropChild, replaceChild, hposition]
    · exact .array (itemsRemain_set hitem (Or.inl rfl))
    · simp
  | _ => simp [child?] at hchild

theorem remains_without (document : Document) (location : Location) :
    document.Remains (document.without location) := by
  induction location generalizing document with
  | nil => exact .same document
  | cons step rest ih =>
    cases hchild : document.child? step with
    | none =>
      rw [without_of_child?_eq_none hchild]
      exact .same document
    | some child =>
      cases rest with
      | nil =>
        rw [without_singleton hchild]
        exact remains_dropChild hchild
      | cons next rest =>
        rw [without_cons_cons hchild]
        exact remains_replaceChild hchild (ih child)

end FormFlow.Document
