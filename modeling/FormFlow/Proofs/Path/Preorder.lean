import FormFlow.Proofs.Path.Distinct
import FormFlow.Proofs.Path.Leaves

/-!
# All places of a document

`Document.places` lists the places of a document, containers included, each before those below it.
If no member is named by digits alone and the numerals of a pattern are written as indexes are, then
the places that the pattern names are the places that it accepts, in the order in which the document
lists them (`locations_eq_filter_places`).

Naming goes down by the branches of each token, accepting tells step by step whether a given place
fits. They come to the same because of the steps that lead on (`Document.branches`), a token accepts
those that are its branches (`Token.branches_eq_filter`).
-/

namespace FormFlow

namespace Document

/-! ### Places -/

mutual

/-- The places of a document, each before those below it. -/
def places : Document → List Location
  | .object members => [] :: memberPlaces members
  | .array items => [] :: itemPlaces 0 items
  | _ => [[]]

def memberPlaces : List (String × Document) → List Location
  | [] => []
  | (name, value) :: rest => value.places.map (.field name :: ·) ++ memberPlaces rest

def itemPlaces (position : Nat) : List Document → List Location
  | [] => []
  | item :: rest => item.places.map (.index position :: ·) ++ itemPlaces (position + 1) rest

end

/-- The steps that lead on in a document, in its order and each with the value that it leads to. -/
def branches : Document → List (Step × Document)
  | .object members => members.map fun (name, value) => (.field name, value)
  | .array items => items.zipIdx.map fun (item, position) => (.index position, item)
  | _ => []

theorem memberPlaces_eq (members : List (String × Document)) :
    memberPlaces members = members.flatMap fun member =>
      member.2.places.map (.field member.1 :: ·) := by
  induction members with
  | nil => rfl
  | cons member rest ih => rw [memberPlaces, ih, List.flatMap_cons]

theorem itemPlaces_eq (items : List Document) (first : Nat) :
    itemPlaces first items = (items.zipIdx first).flatMap fun entry =>
      entry.1.places.map (.index entry.2 :: ·) := by
  induction items generalizing first with
  | nil => rfl
  | cons item rest ih => rw [itemPlaces, ih, List.zipIdx_cons, List.flatMap_cons]

theorem places_eq (document : Document) : document.places =
    [] :: document.branches.flatMap fun branch => branch.2.places.map (branch.1 :: ·) := by
  cases document with
  | object members => rw [places, memberPlaces_eq, branches, List.flatMap_map]
  | array items => rw [places, itemPlaces_eq, branches, List.flatMap_map]
  | _ => rfl

theorem mem_branches_iff {document child : Document} {step : Step} (hformed : document.WellFormed) :
    (step, child) ∈ document.branches ↔
      document.IsOwnStep step ∧ document.child? step = some child := by
  cases document with
  | object members =>
    cases step with
    | field name =>
      have hmember : (name, child) ∈ members ↔ Members.get? name members = some child :=
        ⟨Members.get?_of_mem hformed.1, Members.mem_of_get?⟩
      simpa [branches, IsOwnStep, child?, Step.name] using hmember
    | index position => simp [branches, IsOwnStep]
  | array items =>
    cases step with
    | field name => simp [branches, IsOwnStep]
    | index position =>
      simp only [branches, List.mem_map, Prod.exists, List.mk_mem_zipIdx_iff_getElem?]
      simp [IsOwnStep, child?, Step.position?]
  | _ => simp [branches, child?]

theorem nodup_branches {document : Document} (hformed : document.WellFormed) :
    (document.branches.map Prod.fst).Nodup := by
  cases document with
  | object members =>
    have hnames := hformed.1.map fun _ _ heq => Step.field.inj heq
    rw [Members.keys, List.map_map] at hnames
    rwa [branches, List.map_map]
  | array items => exact Token.nodup_branches .each (.array items)
  | _ => simp [branches]

theorem filter_branches {document child : Document} {step : Step} (hformed : document.WellFormed)
    (hbranch : (step, child) ∈ document.branches) :
    document.branches.filter (fun branch => branch.1 = step) = [(step, child)] := by
  have hnone : ∀ part : List (Step × Document), step ∉ part.map Prod.fst →
      part.filter (fun branch => branch.1 = step) = [] := by
    intro part hpart
    refine List.filter_eq_nil_iff.mpr fun branch hmem heq => hpart ?_
    exact List.mem_map.mpr ⟨branch, hmem, of_decide_eq_true heq⟩
  have hnodup := nodup_branches hformed
  obtain ⟨front, back, hsplit⟩ := List.append_of_mem hbranch
  rw [hsplit, List.map_append, List.map_cons, List.nodup_middle, List.nodup_cons, List.mem_append,
    not_or] at hnodup
  have hself : decide ((step, child).1 = step) = true := decide_eq_true rfl
  rw [hsplit, List.filter_append, List.filter_cons, if_pos hself, hnone front hnodup.1.1,
    hnone back hnodup.1.2, List.nil_append]

theorem mem_places_iff {document : Document} {location : Location} (hformed : document.WellFormed) :
    location ∈ document.places ↔ document.Fits location := by
  induction location generalizing document with
  | nil =>
    rw [places_eq]
    exact iff_of_true List.mem_cons_self trivial
  | cons step rest ih =>
    have hbelow : step :: rest ∈ document.places ↔
        ∃ child, (step, child) ∈ document.branches ∧ rest ∈ child.places := by
      rw [places_eq]
      simp
    rw [hbelow]
    constructor
    · rintro ⟨child, hbranch, hrest⟩
      obtain ⟨hown, hchild⟩ := (mem_branches_iff hformed).mp hbranch
      exact ⟨hown, child, hchild, (ih (hformed.child? hchild)).mp hrest⟩
    · rintro ⟨hown, child, hchild, hrest⟩
      exact ⟨child, (mem_branches_iff hformed).mpr ⟨hown, hchild⟩,
        (ih (hformed.child? hchild)).mpr hrest⟩

/-! ### The steps of a document -/

/-- Whether all steps that lead on in a document, at whatever depth, are of some kind. -/
def EveryStep (document : Document) (kind : Step → Prop) : Prop :=
  ∀ location, document.Fits location → ∀ step ∈ location, kind step

theorem EveryStep.of_child? {document child : Document} {step : Step} {kind : Step → Prop}
    (h : document.EveryStep kind) (hown : document.IsOwnStep step)
    (hchild : document.child? step = some child) : kind step ∧ child.EveryStep kind := by
  refine ⟨h [step] ⟨hown, child, hchild, trivial⟩ step List.mem_cons_self, ?_⟩
  intro location hfits other hother
  exact h (step :: location) ⟨hown, child, hchild, hfits⟩ other (List.mem_cons_of_mem _ hother)

theorem everyStep_iff_places {document : Document} {kind : Step → Prop}
    (hformed : document.WellFormed) :
    document.EveryStep kind ↔ ∀ location ∈ document.places, ∀ step ∈ location, kind step :=
  forall_congr' fun _ => imp_congr_left (mem_places_iff hformed).symm

end Document

/-- An index that a numeral can denote, as all indexes of arrays in memory are. -/
def Step.IsDenoted : Step → Prop
  | .field _ => True
  | .index position => position ≤ Text.maxIndex

/-- A name that does not consist of digits alone. -/
def Step.IsWorded : Step → Prop
  | .field name => name ≠ "" → name.toList.all Text.isDigit = false
  | .index _ => True

instance : DecidablePred Step.IsDenoted
  | .field _ => inferInstanceAs (Decidable True)
  | .index position => inferInstanceAs (Decidable (position ≤ Text.maxIndex))

instance : DecidablePred Step.IsWorded
  | .field name => inferInstanceAs (Decidable (name ≠ "" → name.toList.all Text.isDigit = false))
  | .index _ => inferInstanceAs (Decidable True)

/-- Each numeral of a pattern is written as the index that it denotes. -/
def Pattern.IsCanonical (pattern : Pattern) : Prop :=
  ∀ name, .key name ∈ pattern → ∀ position, Text.readIndex name.toList = some position →
    name = Text.Natural.print position

/-! ### One token -/

namespace Token

variable {token : Token} {step : Step} {document : Document}

theorem accepts_key_iff (name : String) (step : Step) :
    (Token.key name).accepts step = true ↔ name = step.name := by
  cases step <;> exact decide_eq_true_iff

theorem accepts_iff_denotes (hcanonical : Pattern.IsCanonical [token]) (hdenoted : step.IsDenoted)
    (hworded : step.IsWorded) : token.accepts step = true ↔ token.Denotes step := by
  match token, step with
  | .key name, .field other => exact accepts_key_iff name (.field other)
  | .key name, .index position =>
    rw [accepts_key_iff]
    refine ⟨fun hname => ?_, hcanonical name List.mem_cons_self position⟩
    rw [Denotes, hname, Step.name, Text.Natural.print, String.toList_ofList]
    exact Text.readIndex_digits hdenoted
  | .each, .index _ => exact iff_of_true rfl trivial
  | .each, .field name =>
    refine iff_of_false (fun haccepts => ?_) id
    rw [accepts, Bool.and_eq_true, decide_eq_true_eq] at haccepts
    rw [hworded haccepts.1] at haccepts
    exact absurd haccepts.2 Bool.false_ne_true
  | .same, _ => exact iff_of_false Bool.false_ne_true id

theorem branches_eq_filter (hformed : document.WellFormed)
    (haccepts : ∀ branch ∈ document.branches,
      token.accepts branch.1 = true ↔ token.Denotes branch.1) :
    token.branches document = document.branches.filter fun branch => token.accepts branch.1 := by
  cases token with
  | key name =>
    -- the step for the name is the only one that is accepted
    have hown : ∀ branch ∈ document.branches,
        (Token.key name).accepts branch.1 = true ↔ document.ownStep? name = some branch.1 := by
      intro branch hbranch
      have hstep := ((Document.mem_branches_iff hformed).mp hbranch).1
      rw [haccepts branch hbranch, Document.ownStep?_eq_some_iff, and_iff_left hstep]
    rw [branches]
    cases hstep : document.ownStep? name with
    | none =>
      refine (List.filter_eq_nil_iff.mpr fun branch hbranch => ?_).symm
      rw [hown branch hbranch, hstep]
      exact Option.some_ne_none _ ∘ Eq.symm
    | some step =>
      have hsame : document.branches.filter (fun branch => (Token.key name).accepts branch.1) =
          document.branches.filter fun branch => branch.1 = step := by
        refine List.filter_congr fun branch hbranch => Bool.eq_iff_iff.mpr ?_
        rw [hown branch hbranch, hstep, Option.some.injEq, decide_eq_true_eq, eq_comm]
      rw [hsame, Option.bind_some]
      cases hchild : document.child? step with
      | none =>
        refine (List.filter_eq_nil_iff.mpr fun branch hbranch hbranchStep => ?_).symm
        obtain ⟨-, hbelow⟩ := (Document.mem_branches_iff hformed).mp hbranch
        rw [of_decide_eq_true hbranchStep, hchild] at hbelow
        exact absurd hbelow.symm (Option.some_ne_none _)
      | some child =>
        have hmem : (step, child) ∈ document.branches :=
          (Document.mem_branches_iff hformed).mpr
            ⟨(Document.ownStep?_eq_some_iff.mp hstep).2, hchild⟩
        rw [Document.filter_branches hformed hmem]
        rfl
  | each =>
    cases document with
    | array items =>
      refine (List.filter_eq_self.mpr fun branch hbranch => ?_).symm
      obtain ⟨entry, -, rfl⟩ := List.mem_map.mp hbranch
      rfl
    | object members =>
      refine (List.filter_eq_nil_iff.mpr fun branch hbranch => ?_).symm
      obtain ⟨member, -, rfl⟩ := List.mem_map.mp hbranch
      exact (haccepts _ hbranch).not.mpr id
    | _ => rfl
  | same => exact (List.filter_eq_nil_iff.mpr fun branch _ => Bool.false_ne_true).symm

end Token

namespace Pattern

variable {token : Token} {pattern : Pattern} {document : Document}

theorem IsCanonical.head (h : IsCanonical (token :: pattern)) : IsCanonical [token] :=
  fun name hmem => h name (List.mem_singleton.mp hmem ▸ List.mem_cons_self)

theorem IsCanonical.tail (h : IsCanonical (token :: pattern)) : pattern.IsCanonical :=
  fun name hmem => h name (List.mem_cons_of_mem _ hmem)

theorem filter_places_nil (document : Document) : document.places.filter (accepts []) = [[]] := by
  rw [Document.places_eq, List.filter_cons_of_pos rfl]
  refine congrArg (List.cons []) (List.filter_eq_nil_iff.mpr fun location hmem => ?_)
  obtain ⟨branch, -, hbelow⟩ := List.mem_flatMap.mp hmem
  obtain ⟨rest, -, rfl⟩ := List.mem_map.mp hbelow
  exact Bool.false_ne_true

theorem filter_places_cons (token : Token) (pattern : Pattern) (document : Document) :
    document.places.filter (accepts (token :: pattern)) =
      (document.branches.filter fun branch => token.accepts branch.1).flatMap fun branch =>
        (branch.2.places.filter (accepts pattern)).map (branch.1 :: ·) := by
  rw [Document.places_eq, List.filter_cons_of_neg (by simp [accepts])]
  induction document.branches with
  | nil => rfl
  | cons branch rest ih =>
    rw [List.flatMap_cons, List.filter_append, ih, List.filter_map]
    have hbelow : accepts (token :: pattern) ∘ (branch.1 :: ·) =
        fun location => token.accepts branch.1 && accepts pattern location := rfl
    rw [hbelow]
    cases haccepts : token.accepts branch.1 with
    | true => simp [haccepts]
    | false => simp [haccepts]

/-- A pattern names the places that it accepts, each once and in the order of the document. -/
theorem locations_eq_filter_places (hformed : document.WellFormed)
    (hdenoted : document.EveryStep Step.IsDenoted) (hworded : document.EveryStep Step.IsWorded)
    (hcanonical : pattern.IsCanonical) :
    pattern.locations document = document.places.filter pattern.accepts ∧
      (pattern.locations document).Nodup ∧
      ∀ location, location ∈ document.places ↔ document.Fits location := by
  refine ⟨?_, nodup_locations pattern document, fun location => Document.mem_places_iff hformed⟩
  induction pattern generalizing document with
  | nil => rw [filter_places_nil, locations]
  | cons token pattern ih =>
    have haccepts : ∀ branch ∈ document.branches,
        token.accepts branch.1 = true ↔ token.Denotes branch.1 := by
      intro branch hbranch
      obtain ⟨hown, hchild⟩ := (Document.mem_branches_iff hformed).mp hbranch
      exact Token.accepts_iff_denotes hcanonical.head (hdenoted.of_child? hown hchild).1
        (hworded.of_child? hown hchild).1
    rw [locations_cons, filter_places_cons, ← Token.branches_eq_filter hformed haccepts]
    refine List.flatMap_congr fun branch hbranch => ?_
    obtain ⟨-, hown, hchild⟩ := Token.mem_branches_iff.mp hbranch
    rw [ih (hformed.child? hchild) (hdenoted.of_child? hown hchild).2
      (hworded.of_child? hown hchild).2 hcanonical.tail]

/-! Three shelves, of which the second has no list of books, and the second book of each. -/

def shelves : Document := .object [("shelf", .array [
  .object [("", .null), ("books", .array [.text "x", .object [("t", .bool true)]])],
  .object [("books", .object [("one", .array [])])],
  .object [("books", .array [.array [.null], .array [.null, .null], .null])]])]

def secondBooks : Pattern := [.key "shelf", .each, .key "books", .key "1"]

theorem locations_eq_filter_places_shelves :
    shelves.WellFormed ∧ shelves.EveryStep Step.IsDenoted ∧ shelves.EveryStep Step.IsWorded ∧
    secondBooks.IsCanonical ∧
    shelves.places.filter secondBooks.accepts =
      [[.field "shelf", .index 0, .field "books", .index 1],
       [.field "shelf", .index 2, .field "books", .index 1]] ∧
    secondBooks.locations shelves = shelves.places.filter secondBooks.accepts := by
  have hformed : shelves.WellFormed := by
    simp [shelves, Document.WellFormed, Document.ItemsWellFormed, Document.MembersWellFormed,
      Members.keys]
  have hdenoted : shelves.EveryStep Step.IsDenoted :=
    (Document.everyStep_iff_places hformed).mpr (by decide +kernel)
  have hworded : shelves.EveryStep Step.IsWorded :=
    (Document.everyStep_iff_places hformed).mpr (by decide +kernel)
  have hcanonical : secondBooks.IsCanonical := by
    intro name hmem position hposition
    simp only [secondBooks, List.mem_cons, Token.key.injEq, reduceCtorEq, List.not_mem_nil,
      or_false, false_or] at hmem
    have hshelf : Text.readIndex "shelf".toList = none := by decide
    have hbooks : Text.readIndex "books".toList = none := by decide
    have hone : Text.readIndex "1".toList = some 1 := by decide
    rcases hmem with rfl | rfl | rfl
    · exact absurd (hshelf.symm.trans hposition) (Option.some_ne_none position).symm
    · exact absurd (hbooks.symm.trans hposition) (Option.some_ne_none position).symm
    · obtain rfl : 1 = position := Option.some.inj (hone.symm.trans hposition)
      decide +kernel
  exact ⟨hformed, hdenoted, hworded, hcanonical, by decide +kernel,
    (locations_eq_filter_places hformed hdenoted hworded hcanonical).1⟩

end Pattern

end FormFlow
