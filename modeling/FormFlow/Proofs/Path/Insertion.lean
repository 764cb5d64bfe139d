import FormFlow.Proofs.Path.Leaves

/-!
# Writing values into a document

What is written at a location is read there (`at?_insertAt`). On the way to it a document that a step
cannot enter gives way to an empty container, and an array may grow by nulls; all other values stay
what they are (`child?_changeChild_of_alike`, `child?_changeChild_of_not_alike`).

Where nothing but null gives way (`Admits`), a leaf stays a leaf unless the value is written above or
below it (`IsLeafAt.insertAt`), and no value is new but the written one and the containers above it
(`prefix_or_present_of_insertAt`).
-/

namespace FormFlow

theorem Document.IsOwnStep.of_isIndex_eq {document : Document} {step other : Step}
    (h : document.IsOwnStep step) (hkind : other.isIndex = step.isIndex) :
    document.IsOwnStep other := by
  match document, step, other, h, hkind with
  | .object _, .field _, .field _, _, _ => trivial
  | .array _, .index _, .index _, _, _ => trivial

namespace Document

variable {document child value : Document} {step other : Step} {location place rest : Location}
  {change : Document → Document}

/-! ### One step -/

/-- The container that a step is taken in to write below it: the document itself, or an empty one if
the document gives way. -/
def opened : Document → Step → Document
  | .object members, _ => .object members
  | .array items, .index _ => .array items
  | _, .index _ => .array []
  | _, .field _ => .object []

theorem changeChild_opened (step : Step) (change : Document → Document) (document : Document) :
    (document.opened step).changeChild step change = document.changeChild step change := by
  cases document <;> cases step <;> rfl

theorem opened_cases (document : Document) (step : Step) :
    (∃ members, document.opened step = .object members) ∨
      ∃ items position, step = .index position ∧ document.opened step = .array items := by
  match document, step with
  | .object members, _ => exact Or.inl ⟨members, rfl⟩
  | .array items, .index position => exact Or.inr ⟨items, position, rfl, rfl⟩
  | .array _, .field _ | .null, .field _ | .bool _, .field _ | .number _, .field _
  | .text _, .field _ => exact Or.inl ⟨[], rfl⟩
  | .null, .index position | .bool _, .index position | .number _, .index position
  | .text _, .index position => exact Or.inr ⟨[], position, rfl, rfl⟩

theorem alike_opened (document : Document) (step : Step) :
    (document.opened step).alike step step = true := by
  rcases opened_cases document step with ⟨members, hopened⟩ | ⟨items, position, rfl, hopened⟩
  · simp [hopened, alike]
  · simp [hopened, alike]

theorem getElem?_changeItem_self (change : Document → Document) (position : Nat)
    (items : List Document) :
    (changeItem change position items)[position]? = some (change (items[position]?.getD .null)) := by
  induction position generalizing items with
  | zero => cases items <;> rfl
  | succ position ih =>
    cases items with
    | nil => exact ih []
    | cons item rest => exact ih rest

/-- Another element stays, or is one of the nulls by which the array grows. -/
theorem getElem?_changeItem_of_ne {position index : Nat} (h : index ≠ position)
    (items : List Document) :
    (changeItem change position items)[index]? = items[index]? ∨
      items[index]? = none ∧ (changeItem change position items)[index]? = some .null := by
  induction position generalizing items index with
  | zero =>
    obtain ⟨index, rfl⟩ := Nat.exists_eq_succ_of_ne_zero h
    cases items <;> exact Or.inl rfl
  | succ position ih =>
    cases index with
    | zero =>
      cases items with
      | nil => exact Or.inr ⟨rfl, rfl⟩
      | cons item rest => exact Or.inl rfl
    | succ index =>
      have hne : index ≠ position := fun heq => h (congrArg Nat.succ heq)
      cases items with
      | nil => exact ih hne []
      | cons item rest => exact ih hne rest

theorem child?_changeChild_of_alike (h : (document.opened step).alike step other = true) :
    (document.changeChild step change).child? other =
      some (change (((document.opened step).child? step).getD .null)) := by
  rw [← changeChild_opened]
  rcases opened_cases document step with ⟨members, hopened⟩ | ⟨items, position, rfl, hopened⟩
  · rw [hopened] at h ⊢
    have hname : step.name = other.name := of_decide_eq_true h
    simp [changeChild, child?, ← hname]
  · rw [hopened] at h ⊢
    have hposition : some position = other.position? := of_decide_eq_true h
    rw [changeChild, child?, ← hposition, Option.bind_some, getElem?_changeItem_self]
    rfl

/-- The values below other steps stay. An array may have grown by nulls. -/
theorem child?_changeChild_of_not_alike (h : ¬ (document.opened step).alike step other = true) :
    (document.changeChild step change).child? other = (document.opened step).child? other ∨
      (document.opened step).child? other = none ∧
        (document.changeChild step change).child? other = some .null := by
  rw [← changeChild_opened]
  rcases opened_cases document step with ⟨members, hopened⟩ | ⟨items, position, rfl, hopened⟩
  · rw [hopened] at h ⊢
    have hname : other.name ≠ step.name := fun heq => h (decide_eq_true heq.symm)
    exact Or.inl (Members.get?_put_of_ne hname _ members)
  · rw [hopened] at h ⊢
    simp only [changeChild, child?]
    cases hplace : other.position? with
    | none => exact Or.inl rfl
    | some index =>
      refine getElem?_changeItem_of_ne (fun heq => h (decide_eq_true ?_)) items
      rw [hplace, heq]
      rfl

/-! ### A whole location -/

theorem at?_insertAt (document : Document) (location : Location) (value : Document) :
    (document.insertAt location value).at? location = some value := by
  induction location generalizing document with
  | nil => simp [insertAt]
  | cons step rest ih =>
    rw [insertAt, at?_cons, child?_changeChild_of_alike (alike_opened document step),
      Option.bind_some]
    exact ih _

/-! ### Names stay unique -/

theorem wellFormed_opened (h : document.WellFormed) (step : Step) :
    (document.opened step).WellFormed := by
  match document, step, h with
  | .object _, _, h | .array _, .index _, h => exact h
  | .array _, .field _, _ | .null, .field _, _ | .bool _, .field _, _ | .number _, .field _, _
  | .text _, .field _, _ => exact ⟨List.nodup_nil, trivial⟩
  | .null, .index _, _ | .bool _, .index _, _ | .number _, .index _, _ | .text _, .index _, _ =>
    trivial

theorem WellFormed.getD_child? (h : document.WellFormed) (step : Step) :
    ((document.child? step).getD .null).WellFormed := by
  cases hchild : document.child? step with
  | none => trivial
  | some child => exact h.child? hchild

theorem itemsWellFormed_changeItem (hchange : ∀ before, before.WellFormed → (change before).WellFormed)
    {items : List Document} (h : ItemsWellFormed items) (position : Nat) :
    ItemsWellFormed (changeItem change position items) := by
  induction position generalizing items with
  | zero =>
    cases items with
    | nil => exact ⟨hchange .null trivial, trivial⟩
    | cons item rest => exact ⟨hchange item h.1, h.2⟩
  | succ position ih =>
    cases items with
    | nil => exact ⟨trivial, ih trivial⟩
    | cons item rest => exact ⟨h.1, ih h.2⟩

theorem WellFormed.changeChild (h : document.WellFormed) (step : Step)
    (hchange : ∀ before, before.WellFormed → (change before).WellFormed) :
    (document.changeChild step change).WellFormed := by
  rw [← changeChild_opened]
  have hformed := wellFormed_opened h step
  rcases opened_cases document step with ⟨members, hopened⟩ | ⟨items, position, rfl, hopened⟩
  · rw [hopened] at hformed ⊢
    refine ⟨Members.nodup_keys_put _ _ hformed.1, membersWellFormed_iff.mpr fun member hmem => ?_⟩
    rcases Members.eq_or_mem_of_mem_put hmem with rfl | hmem
    · exact hchange _ (hformed.getD_child? step)
    · exact membersWellFormed_iff.mp hformed.2 _ hmem
  · rw [hopened] at hformed ⊢
    exact itemsWellFormed_changeItem hchange hformed position

theorem WellFormed.insertAt (h : document.WellFormed) (hvalue : value.WellFormed)
    (location : Location) : (document.insertAt location value).WellFormed := by
  induction location generalizing document with
  | nil => exact hvalue
  | cons step rest ih => exact h.changeChild step fun before hbefore => ih hbefore

/-! ### Writing where nothing but null gives way -/

/-- Whether a document is null or can be entered by a step. -/
inductive Takes : Document → Step → Prop
  | null (step : Step) : Takes .null step
  | member (members : Members Document) (name : String) : Takes (.object members) (.field name)
  | element (items : List Document) (position : Nat) : Takes (.array items) (.index position)

/-- Whether a value can be written at a location without that anything but null gives way to the
containers above it. -/
def Admits : Document → Location → Prop
  | _, [] => True
  | document, step :: rest =>
    document.Takes step ∧ ∀ child, document.child? step = some child → child.Admits rest

theorem Takes.of_isOwnStep (h : document.IsOwnStep step) : document.Takes step := by
  match document, step, h with
  | .object members, .field name, _ => exact .member members name
  | .array items, .index position, _ => exact .element items position

theorem Takes.child?_opened (h : document.Takes step) (other : Step) :
    (document.opened step).child? other = document.child? other := by
  cases h with
  | null =>
    cases step with
    | field name => rfl
    | index position => cases hplace : other.position? <;> simp [opened, child?, hplace]
  | member => rfl
  | element => rfl

theorem Takes.isOwnStep_opened (h : document.Takes step) :
    (document.opened step).IsOwnStep step := by
  cases h with
  | null => cases step <;> trivial
  | member => trivial
  | element => trivial

theorem Takes.isIndex_eq (h : document.Takes step) (hother : document.IsOwnStep other) :
    other.isIndex = step.isIndex := by
  cases h with
  | null => exact hother.elim
  | member => cases other with
    | field _ => rfl
    | index _ => exact hother.elim
  | element => cases other with
    | field _ => exact hother.elim
    | index _ => rfl

theorem admits_null (location : Location) : Document.null.Admits location := by
  cases location with
  | nil => trivial
  | cons step rest => exact ⟨.null step, fun child hchild => by simp [Document.child?] at hchild⟩

theorem Takes.isOwnStep_changeChild (h : document.Takes step) (change : Document → Document) :
    (document.changeChild step change).IsOwnStep other ↔ other.isIndex = step.isIndex := by
  cases h with
  | null => cases step <;> cases other <;> simp [changeChild, IsOwnStep, Step.isIndex]
  | member => cases other <;> simp [changeChild, IsOwnStep, Step.isIndex]
  | element => cases other <;> simp [changeChild, IsOwnStep, Step.isIndex]

theorem Takes.isOwnStep (h : document.Takes step) (hchild : document.child? other = some child) :
    document.IsOwnStep step := by
  cases h with
  | null => simp [child?] at hchild
  | member => trivial
  | element => trivial

theorem Takes.child?_changeChild_self (h : document.Takes step) (change : Document → Document) :
    (document.changeChild step change).child? step =
      some (change ((document.child? step).getD .null)) := by
  rw [child?_changeChild_of_alike (alike_opened document step), h.child?_opened]

theorem Takes.child?_changeChild_of_ne (h : document.Takes step) (change : Document → Document)
    (hkind : other.isIndex = step.isIndex) (hne : other ≠ step) :
    (document.changeChild step change).child? other = document.child? other ∨
      document.child? other = none ∧
        (document.changeChild step change).child? other = some .null := by
  rw [← h.child?_opened other]
  refine child?_changeChild_of_not_alike fun halike => hne ?_
  exact (eq_of_alike h.isOwnStep_opened (h.isOwnStep_opened.of_isIndex_eq hkind) halike).symm

theorem Admits.fits_insertAt (h : document.Admits location) (value : Document) :
    (document.insertAt location value).Fits location := by
  induction location generalizing document with
  | nil => trivial
  | cons step rest ih =>
    obtain ⟨htakes, hrest⟩ := h
    refine ⟨(htakes.isOwnStep_changeChild _).mpr rfl, _, htakes.child?_changeChild_self _, ih ?_⟩
    cases hchild : document.child? step with
    | none => exact admits_null rest
    | some child => exact hrest child hchild

theorem IsLeafAt.insertAt (hadmits : document.Admits location) (hleaf : document.IsLeafAt place value)
    (habove : ¬ location <+: place) (hbelow : ¬ place <+: location) (written : Document) :
    (document.insertAt location written).IsLeafAt place value := by
  induction location generalizing document place with
  | nil => exact absurd List.nil_prefix habove
  | cons step rest ih =>
    cases place with
    | nil => exact absurd List.nil_prefix hbelow
    | cons other below =>
      obtain ⟨htakes, hrest⟩ := hadmits
      obtain ⟨⟨hother, found, hfound, hfits⟩, hvalue, hbare⟩ := hleaf
      rw [at?_cons, hfound, Option.bind_some] at hvalue
      have hkind := htakes.isIndex_eq hother
      have hleaf : found.IsLeafAt below value := ⟨hfits, hvalue, hbare⟩
      have hown := (htakes.isOwnStep_changeChild (·.insertAt rest written)).mpr hkind
      by_cases hsame : other = step
      · obtain rfl := hsame
        have hself := htakes.child?_changeChild_self (·.insertAt rest written)
        rw [hfound] at hself
        refine (ih (hrest found hfound) hleaf ?_ ?_).cons hown hself
        · exact fun hprefix => habove (List.cons_prefix_cons.mpr ⟨rfl, hprefix⟩)
        · exact fun hprefix => hbelow (List.cons_prefix_cons.mpr ⟨rfl, hprefix⟩)
      · rcases htakes.child?_changeChild_of_ne _ hkind hsame with hkept | ⟨hnone, -⟩
        · exact hleaf.cons hown (hkept.trans hfound)
        · simp [hnone] at hfound

theorem not_isPresent_null (place : Location) : ¬ Document.null.IsPresent place :=
  have hgap : (Document.array []).gap? = some .null := rfl
  not_isPresent_gap hgap place

/-- Where there is a value after a bare one was written, it is a container above that one or it was
there before. -/
theorem prefix_or_present_of_insertAt (hadmits : document.Admits location) (hbare : value.IsBare)
    (hfits : (document.insertAt location value).Fits place)
    (hpresent : (document.insertAt location value).IsPresent place) :
    place <+: location ∨ document.Fits place ∧ document.IsPresent place := by
  induction location generalizing document place with
  | nil =>
    cases place with
    | nil => exact Or.inl List.nil_prefix
    | cons other below =>
      obtain ⟨-, found, hfound, -⟩ := hfits
      rw [Document.insertAt, hbare other] at hfound
      simp at hfound
  | cons step rest ih =>
    cases place with
    | nil => exact Or.inl List.nil_prefix
    | cons other below =>
      obtain ⟨htakes, hrest⟩ := hadmits
      obtain ⟨hother, found, hfound, hfits⟩ := hfits
      obtain ⟨_, hsame, hpresent⟩ := isPresent_cons.mp hpresent
      obtain rfl := Option.some.inj (hfound.symm.trans hsame)
      have hkind := (htakes.isOwnStep_changeChild _).mp hother
      rw [Document.insertAt] at hfound
      by_cases hstep : other = step
      · obtain rfl := hstep
        rw [htakes.child?_changeChild_self] at hfound
        obtain rfl := Option.some.inj hfound
        cases hchild : document.child? other with
        | none =>
          rw [hchild] at hfits hpresent
          rcases ih (admits_null rest) hfits hpresent with hprefix | ⟨-, hnull⟩
          · exact Or.inl (List.cons_prefix_cons.mpr ⟨rfl, hprefix⟩)
          · exact absurd hnull (not_isPresent_null below)
        | some child =>
          rw [hchild] at hfits hpresent
          rcases ih (hrest child hchild) hfits hpresent with hprefix | ⟨hbelow, hbefore⟩
          · exact Or.inl (List.cons_prefix_cons.mpr ⟨rfl, hprefix⟩)
          · exact Or.inr ⟨⟨htakes.isOwnStep hchild, child, hchild, hbelow⟩,
              isPresent_cons.mpr ⟨child, hchild, hbefore⟩⟩
      -- what stands beside is kept, or it is a null that fills up an array
      · rcases htakes.child?_changeChild_of_ne _ hkind hstep with hkept | ⟨-, hnull⟩
        · rw [hkept] at hfound
          have hown := (htakes.isOwnStep hfound).of_isIndex_eq hkind
          exact Or.inr ⟨⟨hown, found, hfound, hfits⟩, isPresent_cons.mpr ⟨found, hfound, hpresent⟩⟩
        · obtain rfl := Option.some.inj (hnull.symm.trans hfound)
          exact absurd hpresent (not_isPresent_null below)

end Document

end FormFlow
