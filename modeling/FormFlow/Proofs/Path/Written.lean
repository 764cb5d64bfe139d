import FormFlow.Proofs.Path.Rebuilding

/-!
# Documents written at locations that part

Values written one after another at locations that part do not get into each other's way: each of
them is a leaf afterwards, and there is nothing else but the containers above them and the nulls by
which arrays grew (`Holds`, `Holds.insertAll`). So every leaf that is not null is one of them
(`Holds.mem_of_leaf`).

A write makes nothing give way, since a value on the way to it is above an earlier location
(`Holds.covered`) and so is a container of the kind that both locations go on in (`Holds.admits`).
-/

namespace FormFlow

/-- Neither of two locations leads to or through the other, and where they part, both go on by a
member or both by an element. -/
def Location.Parts (place other : Location) : Prop :=
  ¬ place <+: other ∧ ¬ other <+: place ∧
    ∀ front step step', front ++ [step] <+: place → front ++ [step'] <+: other →
      step.isIndex = step'.isIndex

namespace Location

theorem not_parts_nil (place : Location) : ¬ Parts [] place := fun h => h.1 List.nil_prefix

theorem not_parts_nil_right (place : Location) : ¬ Parts place [] := fun h => h.2.1 List.nil_prefix

theorem parts_cons_iff {step step' : Step} {place other : Location} :
    Parts (step :: place) (step' :: other) ↔
      if step = step' then Parts place other else step.isIndex = step'.isIndex := by
  by_cases hstep : step = step'
  · subst hstep
    simp only [Parts, List.cons_prefix_cons, true_and, if_true]
    refine and_congr_right fun _ => and_congr_right fun _ => ⟨fun h front next next' => ?_, ?_⟩
    · intro hplace hother
      exact h (step :: front) next next' (List.cons_prefix_cons.mpr ⟨rfl, hplace⟩)
        (List.cons_prefix_cons.mpr ⟨rfl, hother⟩)
    · intro h front next next' hplace hother
      cases front with
      | nil =>
        rw [(List.cons_prefix_cons.mp hplace).1, (List.cons_prefix_cons.mp hother).1]
      | cons first front =>
        exact h front next next' (List.cons_prefix_cons.mp hplace).2
          (List.cons_prefix_cons.mp hother).2
  · simp only [Parts, List.cons_prefix_cons, hstep, Ne.symm hstep, false_and, not_false_eq_true,
      true_and, if_false]
    refine ⟨fun h => h [] step step' (List.prefix_append [step] place)
      (List.prefix_append [step'] other), fun h front next next' hplace hother => ?_⟩
    cases front with
    | nil =>
      rw [(List.cons_prefix_cons.mp hplace).1, (List.cons_prefix_cons.mp hother).1, h]
    | cons first front =>
      have hfirst := (List.cons_prefix_cons.mp hplace).1
      have hfirst' := (List.cons_prefix_cons.mp hother).1
      exact absurd (hfirst.symm.trans hfirst') hstep

instance decidableParts : ∀ place other : Location, Decidable (Parts place other)
  | [], place => .isFalse (not_parts_nil place)
  | step :: place, [] => .isFalse (not_parts_nil_right (step :: place))
  | _ :: place, _ :: other =>
    have := decidableParts place other
    decidable_of_iff _ parts_cons_iff.symm

end Location

namespace Document

variable {document value : Document} {location place rest : Location} {step : Step}
  {entries more : List (Location × Document)}

theorem eq_null_of_isNull (h : document.isNull = true) : document = .null := by
  cases document <;> simp [isNull] at h ⊢

theorem IsBare.wellFormed (h : value.IsBare) : value.WellFormed := by
  match value, h with
  | .object [], _ => exact ⟨List.nodup_nil, trivial⟩
  | .object ((name, _) :: _), h => simpa [child?, Members.get?, Step.name] using h (.field name)
  | .array [], _ => trivial
  | .array (_ :: _), h => simpa [child?, Step.position?] using h (.index 0)
  | .null, _ | .bool _, _ | .number _, _ | .text _, _ => trivial

theorem IsBare.eq_nil_of_at? {found : Document} (h : value.IsBare)
    (hfound : value.at? place = some found) : place = [] ∧ value = found := by
  cases place with
  | nil => exact ⟨rfl, Option.some.inj ((at?_nil value).symm.trans hfound)⟩
  | cons step rest => simp [at?_cons, h step] at hfound

theorem admits_of_takes (h : ∀ front step, front ++ [step] <+: location → document.Fits front →
    ∀ below, document.at? front = some below → below.Takes step) : document.Admits location := by
  induction location generalizing document with
  | nil => trivial
  | cons step rest ih =>
    have htakes : document.Takes step :=
      h [] step (List.prefix_append [step] rest) trivial document (at?_nil document)
    refine ⟨htakes, fun child hchild => ih fun front next hprefix hfits below hbelow => ?_⟩
    refine h (step :: front) next (List.cons_prefix_cons.mpr ⟨rfl, hprefix⟩)
      ⟨htakes.isOwnStep hchild, child, hchild, hfits⟩ below ?_
    rw [at?_cons, hchild, Option.bind_some, hbelow]

/-- What a document holds: each entry as a leaf, and nothing else but what is above the entries and
null. -/
structure Holds (document : Document) (entries : List (Location × Document)) : Prop where
  formed : document.WellFormed
  leaf : ∀ entry ∈ entries, document.IsLeafAt entry.1 entry.2
  covered : ∀ place, place ≠ [] → document.Fits place → document.IsPresent place →
    ∃ entry ∈ entries, place <+: entry.1

namespace Holds

theorem empty : Document.empty.Holds [] where
  formed := ⟨List.nodup_nil, trivial⟩
  leaf := by simp
  covered := by
    intro place hne hfits
    cases place with
    | nil => exact absurd rfl hne
    | cons step rest =>
      obtain ⟨-, child, hchild, -⟩ := hfits
      simp [Document.empty, child?, Members.get?] at hchild

/-- Nothing gives way to a value at a location that parts from those of the entries. -/
theorem admits (h : document.Holds entries) (hparts : ∀ entry ∈ entries, entry.1.Parts location)
    (htakes : ∀ step, [step] <+: location → document.Takes step) : document.Admits location := by
  refine admits_of_takes fun front step hprefix hfits below hbelow => ?_
  by_cases hfront : front = []
  · subst hfront
    obtain rfl := Option.some.inj ((at?_nil document).symm.trans hbelow)
    exact htakes step hprefix
  · cases hnull : below.isNull with
    | true =>
      rw [eq_null_of_isNull hnull]
      exact .null step
    | false =>
      -- a container on the way is above an entry, which parts from the location there or further on
      obtain ⟨entry, hentry, back, hback⟩ := h.covered front hfront hfits ⟨below, hbelow, hnull⟩
      obtain ⟨habove, -, hkind⟩ := hparts entry hentry
      cases back with
      | nil =>
        rw [List.append_nil] at hback
        exact absurd (hback ▸ (List.prefix_append front [step]).trans hprefix) habove
      | cons other back =>
        have hown : below.IsOwnStep other := by
          have hfitsEntry := (h.leaf entry hentry).1
          rw [← hback] at hfitsEntry
          obtain ⟨found, -, hfound, hback⟩ := fits_append_iff.mp hfitsEntry
          obtain rfl := Option.some.inj (hbelow.symm.trans hfound)
          exact hback.1
        have hother : front ++ [other] <+: entry.1 := ⟨back, by rw [← hback]; simp⟩
        exact .of_isOwnStep (hown.of_isIndex_eq (hkind front other step hother hprefix).symm)

theorem insertAt (h : document.Holds entries) (hparts : ∀ entry ∈ entries, entry.1.Parts location)
    (htakes : ∀ step, [step] <+: location → document.Takes step) (hbare : value.IsBare) :
    (document.insertAt location value).Holds (entries ++ [(location, value)]) := by
  have hadmits := h.admits hparts htakes
  refine ⟨h.formed.insertAt hbare.wellFormed location, fun entry hentry => ?_,
    fun place hne hfits hpresent => ?_⟩
  · rcases List.mem_append.mp hentry with hold | hnew
    · obtain ⟨habove, hbelow, -⟩ := hparts entry hold
      exact (h.leaf entry hold).insertAt hadmits hbelow habove value
    · obtain rfl := List.mem_singleton.mp hnew
      exact ⟨hadmits.fits_insertAt value, at?_insertAt document location value, hbare⟩
  · rcases prefix_or_present_of_insertAt hadmits hbare hfits hpresent with hprefix | ⟨hold, hbefore⟩
    · exact ⟨_, List.mem_append_right _ (List.mem_singleton_self _), hprefix⟩
    · obtain ⟨entry, hentry, hprefix⟩ := h.covered place hne hold hbefore
      exact ⟨entry, List.mem_append_left _ hentry, hprefix⟩

theorem insertAll {members : Members Document} (h : (Document.object members).Holds entries)
    (hparts : (entries ++ more).Pairwise fun entry other => entry.1.Parts other.1)
    (hmore : ∀ entry ∈ more, (∃ name below, entry.1 = .field name :: below) ∧ entry.2.IsBare) :
    (Document.insertAll more (.object members)).Holds (entries ++ more) := by
  induction more generalizing entries members with
  | nil => simpa using h
  | cons entry rest ih =>
    obtain ⟨location, value⟩ := entry
    obtain ⟨⟨name, below, hlocation⟩, hbare⟩ := hmore _ List.mem_cons_self
    obtain rfl : location = .field name :: below := hlocation
    have hentry : ∀ other ∈ entries, other.1.Parts (.field name :: below) := fun other hother =>
      (List.pairwise_append.mp hparts).2.2 other hother _ List.mem_cons_self
    have htakes : ∀ step, [step] <+: .field name :: below → (Document.object members).Takes step := by
      intro step hprefix
      obtain ⟨rfl, -⟩ := List.cons_prefix_cons.mp hprefix
      exact .member members name
    have hwritten := h.insertAt hentry htakes hbare
    -- an object stays one
    obtain ⟨members', hobject⟩ : ∃ members',
        (Document.object members).insertAt (.field name :: below) value = .object members' :=
      ⟨_, rfl⟩
    rw [hobject] at hwritten
    rw [List.append_cons] at hparts ⊢
    rw [insertAll_cons, hobject]
    exact ih hwritten hparts fun entry hentry => hmore entry (List.mem_cons_of_mem _ hentry)

theorem mem_of_leaf (h : document.Holds entries) (hne : entries ≠ [])
    (hmem : (place, value) ∈ document.leaves []) (hnull : value.isNull = false) :
    (place, value) ∈ entries := by
  obtain ⟨below, hbelow, hfits, hvalue, hbare⟩ :=
    isLeafAt_of_mem_leaves document h.formed hmem
  rw [List.nil_append] at hbelow
  subst hbelow
  have habove : ∃ entry ∈ entries, place <+: entry.1 := by
    by_cases hplace : place = []
    · obtain ⟨entry, hentry⟩ := List.exists_mem_of_ne_nil entries hne
      exact ⟨entry, hentry, hplace ▸ List.nil_prefix⟩
    · exact h.covered place hplace hfits ⟨value, hvalue, hnull⟩
  obtain ⟨⟨location, found⟩, hentry, back, hback⟩ := habove
  obtain ⟨-, hfound, -⟩ := h.leaf _ hentry
  rw [← hback, at?_append, hvalue, Option.bind_some] at hfound
  obtain ⟨rfl, rfl⟩ := hbare.eq_nil_of_at? hfound
  rw [List.append_nil] at hback
  rwa [hback]

end Holds

end Document

end FormFlow
