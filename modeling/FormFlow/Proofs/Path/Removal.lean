import FormFlow.Path.Access

/-!
# Taking values out of a document

What is left of a document without the value at a location, read step by step
(`child?_without_cons`), and what follows for values that are there and not null: taking one out
brings none back (`isPresent_of_without`) and takes along all that lie below it and no others
(`not_isPresent_without`, `prefix_of_lost`).

The last needs locations to be written as the document is built, members by name and elements by
index (`Fits`). Otherwise two locations may lead to the same place.
-/

namespace FormFlow.Document

/-- Whether a value is there and not null. -/
def IsPresent (document : Document) (location : Location) : Prop :=
  ∃ value, document.at? location = some value ∧ value.isNull = false

/-- Whether a step is written as the document is built. -/
def IsOwnStep : Document → Step → Prop
  | .object _, .field _ => True
  | .array _, .index _ => True
  | _, _ => False

/-- Whether a location leads to a value by steps that are all written as the document is built. -/
def Fits : Document → Location → Prop
  | _, [] => True
  | document, step :: rest =>
    document.IsOwnStep step ∧ ∃ child, document.child? step = some child ∧ child.Fits rest

/-- Whether two steps lead to the same place below a document. -/
def alike (document : Document) (step other : Step) : Bool :=
  match document with
  | .object _ => step.name = other.name
  | .array _ => step.position? = other.position?
  | _ => false

/-- What a step still leads to after the value below it is taken out. -/
def gap? : Document → Option Document
  | .array _ => some .null
  | _ => none

variable {document child : Document} {step other : Step} {location rest : Location}

/-! ### One step -/

theorem child?_replaceChild (h : document.child? step = some child) (value : Document) :
    (document.replaceChild step value).child? other =
      if document.alike step other then some value else document.child? other := by
  cases document with
  | object members =>
    by_cases hname : step.name = other.name
    · simp [replaceChild, child?, alike, hname]
    · simp [replaceChild, child?, alike, hname, Members.get?_put_of_ne (Ne.symm hname)]
  | array items =>
    simp only [child?, Option.bind_eq_some_iff] at h
    obtain ⟨position, hposition, hitem⟩ := h
    have hlt : position < items.length := (List.getElem?_eq_some_iff.mp hitem).1
    simp only [replaceChild, hposition, child?, alike]
    cases hother : other.position? with
    | none => simp
    | some place =>
      by_cases hsame : position = place
      · subst hsame
        simp [hlt]
      · simp [hsame]
  | _ => simp [child?] at h

theorem child?_dropChild (h : document.child? step = some child) :
    (document.dropChild step).child? other =
      if document.alike step other then document.gap? else document.child? other := by
  cases document with
  | object members =>
    by_cases hname : step.name = other.name
    · simp [dropChild, child?, alike, gap?, hname]
    · simp [dropChild, child?, alike, hname, Members.get?_erase_of_ne (Ne.symm hname)]
  | array items => exact child?_replaceChild h .null
  | _ => simp [child?] at h

theorem replaceChild_self (h : document.child? step = some child) :
    document.replaceChild step child = document := by
  cases document with
  | object members => simp [replaceChild, Members.put_of_get? h]
  | array items =>
    simp only [child?, Option.bind_eq_some_iff] at h
    obtain ⟨position, hposition, hitem⟩ := h
    obtain ⟨hlt, rfl⟩ := List.getElem?_eq_some_iff.mp hitem
    simp [replaceChild, hposition]
  | _ => simp [child?] at h

/-! ### A whole location -/

theorem without_of_child?_eq_none (h : document.child? step = none) :
    document.without (step :: rest) = document := by
  cases rest <;> simp [without, removeAt?, h]

theorem without_singleton (h : document.child? step = some child) :
    document.without [step] = document.dropChild step := by
  simp [without, removeAt?, h]

theorem without_cons_cons (h : document.child? step = some child) {next : Step} :
    document.without (step :: next :: rest) =
      document.replaceChild step (child.without (next :: rest)) := by
  simp only [without, removeAt?, h, Option.bind_eq_bind, Option.bind_some]
  cases removeAt? (next :: rest) child with
  | none => simp [replaceChild_self h]
  | some result => rfl

theorem child?_without_cons (h : document.child? step = some child) :
    (document.without (step :: rest)).child? other =
      if document.alike step other then
        if rest = [] then document.gap? else some (child.without rest)
      else document.child? other := by
  cases rest with
  | nil => simpa [without_singleton h] using child?_dropChild h
  | cons next rest => simpa [without_cons_cons h] using child?_replaceChild h _

/-- Taking a value out of an object keeps the order of the members, and all of them but the one that
is taken out itself. -/
theorem without_object (members : Members Document) (location : Location) :
    ∃ left, (Document.object members).without location = .object left ∧
      Members.keys left = (Members.keys members).filter fun name =>
        location.map Step.name ≠ [name] := by
  match location with
  | [] => exact ⟨members, rfl, (List.filter_eq_self.mpr fun name _ => by simp).symm⟩
  | step :: rest =>
    cases hchild : (Document.object members).child? step with
    | none =>
      refine ⟨members, without_of_child?_eq_none hchild,
        (List.filter_eq_self.mpr fun name hname => ?_).symm⟩
      have hstep : step.name ∉ Members.keys members := Members.get?_eq_none_iff.mp hchild
      have hne : step.name ≠ name := fun heq => hstep (heq ▸ hname)
      simp [hne]
    | some child =>
      cases rest with
      | nil =>
        refine ⟨_, without_singleton hchild, ?_⟩
        rw [Members.keys_erase]
        simp [eq_comm]
      | cons next rest =>
        refine ⟨_, without_cons_cons hchild, ?_⟩
        have hstep : step.name ∈ Members.keys members :=
          List.mem_map_of_mem (Members.mem_of_get? hchild)
        rw [Members.keys_put_of_mem _ hstep]
        exact (List.filter_eq_self.mpr fun name _ => by simp).symm

theorem without_field (members : Members Document) (name : String) :
    (Document.object members).without [.field name] =
      .object (members.filter fun member => !(member.1 = name)) := by
  rw [← Members.erase_eq_filter]
  cases hchild : (Document.object members).child? (.field name) with
  | some value => exact without_singleton hchild
  | none =>
    have hget : Members.get? name members = none := hchild
    rw [without_of_child?_eq_none hchild, Members.erase_of_get?_eq_none hget]

theorem foldl_without_field (names : List String) (members : Members Document) :
    names.foldl (fun (document : Document) name => document.without [.field name]) (Document.object members) =
      .object (members.filter fun member => !names.contains member.1) := by
  induction names generalizing members with
  | nil => simp [List.filter_eq_self.mpr]
  | cons name rest ih =>
    rw [List.foldl_cons, without_field, ih, List.filter_filter]
    congr 1
    refine List.filter_congr fun member _ => ?_
    rw [List.contains_cons, Bool.not_or, Bool.and_comm]
    rfl

theorem without_array (items : List Document) (location : Location) :
    ∃ left, (Document.array items).without location = .array left ∧
      left.length = items.length := by
  have hreplace : ∀ step value, ∃ left,
      (Document.array items).replaceChild step value = .array left ∧
        left.length = items.length := by
    intro step value
    simp only [replaceChild]
    cases step.position? with
    | none => exact ⟨items, rfl, rfl⟩
    | some position => exact ⟨_, rfl, List.length_set⟩
  match location with
  | [] => exact ⟨items, rfl, rfl⟩
  | step :: rest =>
    cases hchild : (Document.array items).child? step with
    | none => exact ⟨items, without_of_child?_eq_none hchild, rfl⟩
    | some child =>
      cases rest with
      | nil => exact without_singleton hchild ▸ hreplace step .null
      | cons next rest => exact without_cons_cons hchild ▸ hreplace step _

@[simp] theorem isNull_without (document : Document) (location : Location) :
    (document.without location).isNull = document.isNull := by
  cases document with
  | object members =>
    obtain ⟨left, hleft, -⟩ := without_object members location
    rw [hleft]
    rfl
  | array items =>
    obtain ⟨left, hleft, -⟩ := without_array items location
    rw [hleft]
    rfl
  | _ =>
    cases location with
    | nil => rfl
    | cons step rest => rw [without_of_child?_eq_none rfl]

@[simp] theorem isOwnStep_without (document : Document) (location : Location) (step : Step) :
    (document.without location).IsOwnStep step ↔ document.IsOwnStep step := by
  cases document with
  | object members =>
    obtain ⟨left, hleft, -⟩ := without_object members location
    rw [hleft]
    cases step <;> rfl
  | array items =>
    obtain ⟨left, hleft, -⟩ := without_array items location
    rw [hleft]
    cases step <;> rfl
  | _ =>
    cases location with
    | nil => rfl
    | cons next rest => rw [without_of_child?_eq_none rfl]

/-- Two of a document's own steps lead to the same place only if they are equal. -/
theorem eq_of_alike (hstep : document.IsOwnStep step) (hother : document.IsOwnStep other)
    (h : document.alike step other = true) : step = other := by
  cases document with
  | object members =>
    match step, other, hstep, hother with
    | .field _, .field _, _, _ => exact congrArg Step.field (of_decide_eq_true h)
  | array items =>
    match step, other, hstep, hother with
    | .index _, .index _, _, _ =>
      exact congrArg Step.index (Option.some.inj (of_decide_eq_true h))
  | _ => simp [alike] at h

theorem alike_comm (document : Document) (step other : Step) :
    document.alike step other = document.alike other step := by
  cases document with
  | object members => exact decide_eq_decide.mpr eq_comm
  | array items => exact decide_eq_decide.mpr eq_comm
  | _ => rfl

theorem child?_of_alike (h : document.alike step other = true) :
    document.child? step = document.child? other := by
  cases document with
  | object members =>
    simp only [alike, decide_eq_true_eq] at h
    simp [child?, h]
  | array items =>
    simp only [alike, decide_eq_true_eq] at h
    simp [child?, h]
  | _ => rfl

theorem alike_self (h : document.child? step = some child) : document.alike step step = true := by
  cases document <;> simp [alike, child?] at h ⊢

theorem isNull_of_gap (h : document.gap? = some child) : child.isNull = true := by
  cases document with
  | array _ =>
    obtain rfl : Document.null = child := Option.some.inj h
    rfl
  | _ => simp [gap?] at h

theorem child?_eq_none_of_gap (h : document.gap? = some child) (step : Step) :
    child.child? step = none := by
  cases document with
  | array _ =>
    obtain rfl : Document.null = child := Option.some.inj h
    rfl
  | _ => simp [gap?] at h

/-! ### Values that are there -/

theorem isPresent_nil : document.IsPresent [] ↔ document.isNull = false := by
  simp [IsPresent]

theorem isPresent_cons : document.IsPresent (step :: rest) ↔
    ∃ child, document.child? step = some child ∧ child.IsPresent rest := by
  simp [IsPresent, at?_cons, Option.bind_eq_some_iff]
  constructor
  · rintro ⟨value, ⟨child, hchild, hvalue⟩, hnull⟩
    exact ⟨child, hchild, value, hvalue, hnull⟩
  · rintro ⟨child, hchild, value, hvalue, hnull⟩
    exact ⟨value, ⟨child, hchild, hvalue⟩, hnull⟩

theorem not_isPresent_gap (h : document.gap? = some child) (location : Location) :
    ¬ child.IsPresent location := by
  cases location with
  | nil => simp [isPresent_nil, isNull_of_gap h]
  | cons step rest => simp [isPresent_cons, child?_eq_none_of_gap h]

/-- Where a value is left there was one before, and null only leaves null. -/
theorem at?_of_without {removed : Location} {value : Document}
    (h : (document.without removed).at? location = some value) :
    ∃ before, document.at? location = some before ∧
      (before.isNull = true → value.isNull = true) := by
  induction removed generalizing document location with
  | nil => exact ⟨value, h, id⟩
  | cons step rest ih =>
    cases hchild : document.child? step with
    | none =>
      rw [without_of_child?_eq_none hchild] at h
      exact ⟨value, h, id⟩
    | some child =>
      cases location with
      | nil =>
        obtain rfl := Option.some.inj h
        exact ⟨document, rfl, fun hnull => by rw [isNull_without, hnull]⟩
      | cons other below =>
        rw [at?_cons, child?_without_cons hchild] at h
        rw [at?_cons]
        by_cases halike : document.alike step other = true
        · rw [if_pos halike] at h
          rw [← child?_of_alike halike, hchild, Option.bind_some]
          -- at the last step an element leaves null behind and a member nothing
          by_cases hrest : rest = []
          · rw [if_pos hrest] at h
            obtain ⟨left, hgap, hvalue⟩ := Option.bind_eq_some_iff.mp h
            cases below with
            | nil =>
              obtain rfl := Option.some.inj hvalue
              exact ⟨child, rfl, fun _ => isNull_of_gap hgap⟩
            | cons next below => simp [at?_cons, child?_eq_none_of_gap hgap] at hvalue
          · rw [if_neg hrest, Option.bind_some] at h
            exact ih h
        · rw [if_neg halike] at h
          exact ⟨value, h, id⟩

theorem isPresent_of_without {removed : Location}
    (h : (document.without removed).IsPresent location) : document.IsPresent location := by
  obtain ⟨value, hvalue, hnull⟩ := h
  obtain ⟨before, hbefore, himp⟩ := at?_of_without hvalue
  refine ⟨before, hbefore, ?_⟩
  rw [← Bool.not_eq_true] at hnull ⊢
  exact fun hbeforeNull => hnull (himp hbeforeNull)

theorem not_isPresent_without {removed below : Location} (hremoved : removed ≠ []) :
    ¬ (document.without removed).IsPresent (removed ++ below) := by
  induction removed generalizing document with
  | nil => exact absurd rfl hremoved
  | cons step rest ih =>
    intro h
    cases hchild : document.child? step with
    | none =>
      rw [without_of_child?_eq_none hchild, List.cons_append, isPresent_cons, hchild] at h
      simp at h
    | some child =>
      obtain ⟨left, hleft, hpresent⟩ := isPresent_cons.mp h
      rw [child?_without_cons hchild, if_pos (alike_self hchild)] at hleft
      by_cases hrest : rest = []
      · rw [if_pos hrest] at hleft
        exact not_isPresent_gap hleft _ hpresent
      · rw [if_neg hrest] at hleft
        obtain rfl := Option.some.inj hleft
        exact ih hrest hpresent

theorem prefix_of_lost {removed : Location} (hremoved : document.Fits removed)
    (hfits : document.Fits location) (hpresent : document.IsPresent location)
    (hlost : ¬ (document.without removed).IsPresent location) : removed <+: location := by
  induction removed generalizing document location with
  | nil => exact List.nil_prefix
  | cons step rest ih =>
    obtain ⟨hstep, child, hchild, hrest⟩ := hremoved
    cases location with
    | nil =>
      rw [isPresent_nil, isNull_without, ← isPresent_nil] at hlost
      exact absurd hpresent hlost
    | cons other below =>
      obtain ⟨hother, found, hfound, hbelow⟩ := hfits
      rw [isPresent_cons] at hpresent
      obtain ⟨_, hfound', hpresent⟩ := hpresent
      obtain rfl := Option.some.inj (hfound.symm.trans hfound')
      by_cases halike : document.alike step other = true
      · obtain rfl := eq_of_alike hstep hother halike
        obtain rfl := Option.some.inj (hchild.symm.trans hfound)
        rw [List.cons_prefix_cons]
        refine ⟨rfl, ?_⟩
        by_cases hnil : rest = []
        · rw [hnil]
          exact List.nil_prefix
        · refine ih hrest hbelow hpresent fun hkept => hlost (isPresent_cons.mpr ⟨_, ?_, hkept⟩)
          rw [child?_without_cons hchild, if_pos halike, if_neg hnil]
      · refine absurd (isPresent_cons.mpr ⟨found, ?_, hpresent⟩) hlost
        rw [child?_without_cons hchild, if_neg halike]
        exact hfound

/-! ### Locations that fit -/

theorem fits_append_iff {front back : Location} : document.Fits (front ++ back) ↔
    ∃ below, document.Fits front ∧ document.at? front = some below ∧ below.Fits back := by
  induction front generalizing document with
  | nil => simp [Fits]
  | cons step front ih =>
    simp only [List.cons_append, Fits, at?_cons]
    constructor
    · rintro ⟨hstep, child, hchild, hfits⟩
      obtain ⟨below, hfront, hbelow, hback⟩ := ih.mp hfits
      exact ⟨below, ⟨hstep, child, hchild, hfront⟩, by rw [hchild, Option.bind_some, hbelow], hback⟩
    · rintro ⟨below, ⟨hstep, child, hchild, hfront⟩, hbelow, hback⟩
      rw [hchild, Option.bind_some] at hbelow
      exact ⟨hstep, child, hchild, ih.mpr ⟨below, hfront, hbelow, hback⟩⟩

theorem fits_without {removed : Location} (hfits : document.Fits location)
    (hvalue : (document.without removed).at? location ≠ none) :
    (document.without removed).Fits location := by
  induction removed generalizing document location with
  | nil => exact hfits
  | cons step rest ih =>
    cases hchild : document.child? step with
    | none => rwa [without_of_child?_eq_none hchild]
    | some child =>
      cases location with
      | nil => trivial
      | cons other below =>
        obtain ⟨hother, found, hfound, hbelow⟩ := hfits
        refine ⟨(isOwnStep_without ..).mpr hother, ?_⟩
        rw [at?_cons] at hvalue
        rw [child?_without_cons hchild] at hvalue ⊢
        by_cases halike : document.alike step other = true
        · rw [if_pos halike] at hvalue ⊢
          obtain rfl := Option.some.inj ((child?_of_alike halike ▸ hchild).symm.trans hfound)
          by_cases hrest : rest = []
          · rw [if_pos hrest] at hvalue ⊢
            cases hgap : document.gap? with
            | none => simp [hgap] at hvalue
            | some left =>
              refine ⟨left, rfl, ?_⟩
              cases below with
              | nil => trivial
              | cons next below =>
                simp [hgap, at?_cons, child?_eq_none_of_gap hgap] at hvalue
          · rw [if_neg hrest] at hvalue ⊢
            exact ⟨_, rfl, ih hbelow hvalue⟩
        · rw [if_neg halike] at hvalue ⊢
          exact ⟨found, hfound, hbelow⟩

theorem fits_of_without {removed : Location} (h : (document.without removed).Fits location) :
    document.Fits location := by
  induction removed generalizing document location with
  | nil => exact h
  | cons step rest ih =>
    cases hchild : document.child? step with
    | none => rwa [without_of_child?_eq_none hchild] at h
    | some child =>
      cases location with
      | nil => trivial
      | cons other below =>
        obtain ⟨hother, left, hleft, hbelow⟩ := h
        rw [isOwnStep_without] at hother
        rw [child?_without_cons hchild] at hleft
        by_cases halike : document.alike step other = true
        · rw [if_pos halike] at hleft
          rw [child?_of_alike halike] at hchild
          refine ⟨hother, child, hchild, ?_⟩
          by_cases hrest : rest = []
          · rw [if_pos hrest] at hleft
            cases below with
            | nil => trivial
            | cons next below =>
              obtain ⟨_, _, hnone, _⟩ := hbelow
              simp [child?_eq_none_of_gap hleft] at hnone
          · rw [if_neg hrest] at hleft
            obtain rfl := Option.some.inj hleft
            exact ih hbelow
        · rw [if_neg halike] at hleft
          exact ⟨hother, left, hleft, hbelow⟩

theorem without_of_at?_eq_none (h : document.at? location = none) :
    document.without location = document := by
  induction location generalizing document with
  | nil => rfl
  | cons step rest ih =>
    cases hchild : document.child? step with
    | none => exact without_of_child?_eq_none hchild
    | some child =>
      rw [at?_cons, hchild, Option.bind_some] at h
      cases rest with
      | nil => simp at h
      | cons next rest => rw [without_cons_cons hchild, ih h, replaceChild_self hchild]

end FormFlow.Document
