import FormFlow.Path.Matching
import FormFlow.Proofs.Path.Removal

/-!
# The places of a pattern

The places of a document that a pattern names are the locations that fit the document and that the
pattern names token by token (`mem_locations_iff`).

A token leads into a document by some of its steps (`Token.branches`), and the places of a pattern
are those of its rest below each of them (`Pattern.locations_cons`). What is said of the places of a
pattern is said of the branches of a token first.
-/

namespace FormFlow

/-- Whether a token leads by a step. -/
def Token.Denotes : Token → Step → Prop
  | .key name, .field other => name = other
  | .key name, .index position => Text.readIndex name.toList = some position
  | .each, .index _ => True
  | _, _ => False

/-- The step of a document for a name: the member of that name, or the element whose index the name
denotes. -/
def Document.ownStep? (name : String) : Document → Option Step
  | .object _ => some (.field name)
  | .array _ => (Text.readIndex name.toList).map .index
  | _ => none

/-- The steps by which a token leads into a document, in document order and each with the value that
it leads to. -/
def Token.branches : Token → Document → List (Step × Document)
  | .key name, document =>
    ((document.ownStep? name).bind fun step =>
      (document.child? step).map fun child => (step, child)).toList
  | .each, .array items => items.zipIdx.map fun (child, position) => (.index position, child)
  | _, _ => []

theorem Document.ownStep?_eq_some_iff {document : Document} {name : String} {step : Step} :
    document.ownStep? name = some step ↔ (Token.key name).Denotes step ∧ document.IsOwnStep step := by
  cases document <;> cases step <;> simp [ownStep?, Token.Denotes, IsOwnStep]

theorem Document.child?_field (document : Document) (name : String) :
    document.child? (.field name) = (document.ownStep? name).bind document.child? := by
  cases document with
  | array items =>
    simp only [ownStep?, child?, Step.position?]
    cases Text.readIndex name.toList <;> rfl
  | object members => rfl
  | _ => rfl

theorem Token.mem_branches_iff {token : Token} {document child : Document} {step : Step} :
    (step, child) ∈ token.branches document ↔
      token.Denotes step ∧ document.IsOwnStep step ∧ document.child? step = some child := by
  cases token with
  | key name =>
    rw [branches, Option.mem_toList, Option.bind_eq_some_iff, ← and_assoc,
      ← Document.ownStep?_eq_some_iff]
    constructor
    · rintro ⟨other, hother, hchild⟩
      obtain ⟨found, hfound, heq⟩ := Option.map_eq_some_iff.mp hchild
      obtain ⟨rfl, rfl⟩ := Prod.mk.inj heq
      exact ⟨hother, hfound⟩
    · rintro ⟨hstep, hchild⟩
      exact ⟨step, hstep, by rw [hchild, Option.map_some]⟩
  | each =>
    cases document with
    | array items =>
      rw [branches, List.mem_map, Prod.exists]
      constructor
      · rintro ⟨child, position, hchild, heq⟩
        obtain ⟨rfl, rfl⟩ := Prod.mk.inj heq
        exact ⟨trivial, trivial, List.mk_mem_zipIdx_iff_getElem?.mp hchild⟩
      · rintro ⟨-, hown, hchild⟩
        cases step with
        | field name => exact hown.elim
        | index position => exact ⟨child, position, List.mk_mem_zipIdx_iff_getElem?.mpr hchild, rfl⟩
    | _ => cases step <;> simp [branches, Denotes, Document.IsOwnStep]
  | same => simp [branches, Denotes]

namespace Pattern

/-- Whether a pattern names a location of some document. -/
def Names : Pattern → Location → Prop
  | [], [] => True
  | token :: pattern, step :: location => token.Denotes step ∧ Names pattern location
  | _, _ => False

theorem length_eq_of_names {pattern : Pattern} {location : Location}
    (h : pattern.Names location) : pattern.length = location.length := by
  induction pattern generalizing location with
  | nil =>
    cases location with
    | nil => rfl
    | cons step rest => exact h.elim
  | cons token pattern ih =>
    cases location with
    | nil => exact h.elim
    | cons step rest => simp [ih h.2]

theorem exists_key_of_location? {token : Token} {pattern : Pattern} {location : Location}
    (h : location? (token :: pattern) = some location) : ∃ name rest,
      token = .key name ∧ location = .field name :: rest ∧ pattern.location? = some rest := by
  simp only [location?, List.mapM_cons, Option.bind_eq_bind, Option.bind_eq_some_iff,
    Option.pure_def, Option.some.injEq] at h
  obtain ⟨step, hstep, rest, hrest, rfl⟩ := h
  cases token with
  | key name => exact ⟨name, rest, rfl, by rw [Option.some.inj hstep], hrest⟩
  | each => simp at hstep
  | same => simp at hstep

theorem names_of_location? {pattern : Pattern} {location : Location}
    (h : pattern.location? = some location) :
    pattern.Names location ∧ ∀ step ∈ location, step.isIndex = false := by
  induction pattern generalizing location with
  | nil =>
    obtain rfl : [] = location := by simpa [location?] using h
    exact ⟨trivial, by simp⟩
  | cons token pattern ih =>
    obtain ⟨name, rest, rfl, rfl, hrest⟩ := exists_key_of_location? h
    obtain ⟨hnames, hfields⟩ := ih hrest
    refine ⟨⟨rfl, hnames⟩, fun step hmem => ?_⟩
    rcases List.mem_cons.mp hmem with rfl | hmem
    · rfl
    · exact hfields step hmem

theorem locations_cons (token : Token) (pattern : Pattern) (document : Document) :
    locations (token :: pattern) document =
      (token.branches document).flatMap fun branch =>
        (locations pattern branch.2).map (branch.1 :: ·) := by
  match token, document with
  | .key name, .object members =>
    simp only [locations, Token.branches, Document.ownStep?, Document.child?, Step.name,
      Option.bind_some]
    cases Members.get? name members <;> simp
  | .key name, .array items =>
    simp only [locations, Token.branches, Document.ownStep?]
    cases Text.readIndex name.toList with
    | none => rfl
    | some position =>
      simp only [Option.map_some, Option.bind_some, Document.child?, Step.position?]
      cases items[position]? <;> simp
  | .each, .array items => simp [locations, Token.branches, List.flatMap_map]
  | .key _, .null | .key _, .bool _ | .key _, .number _ | .key _, .text _ => rfl
  | .each, .null | .each, .bool _ | .each, .number _ | .each, .text _ | .each, .object _ => rfl
  | .same, _ => simp [locations, Token.branches]

theorem mem_locations_cons {token : Token} {pattern : Pattern} {document : Document}
    {location : Location} : location ∈ locations (token :: pattern) document ↔
      ∃ step rest, location = step :: rest ∧ token.Denotes step ∧ document.IsOwnStep step ∧
        ∃ child, document.child? step = some child ∧ rest ∈ locations pattern child := by
  rw [locations_cons, List.mem_flatMap]
  constructor
  · rintro ⟨⟨step, child⟩, hbranch, hmem⟩
    obtain ⟨rest, hrest, rfl⟩ := List.mem_map.mp hmem
    obtain ⟨hdenotes, hown, hchild⟩ := Token.mem_branches_iff.mp hbranch
    exact ⟨step, rest, rfl, hdenotes, hown, child, hchild, hrest⟩
  · rintro ⟨step, rest, rfl, hdenotes, hown, child, hchild, hrest⟩
    exact ⟨(step, child), Token.mem_branches_iff.mpr ⟨hdenotes, hown, hchild⟩,
      List.mem_map_of_mem hrest⟩

/-- The places that a pattern names are those that fit the document. -/
theorem mem_locations_iff {pattern : Pattern} {document : Document} {location : Location} :
    location ∈ pattern.locations document ↔ pattern.Names location ∧ document.Fits location := by
  induction pattern generalizing document location with
  | nil =>
    rw [locations, List.mem_singleton]
    cases location with
    | nil => simp [Names, Document.Fits]
    | cons step rest => simp [Names]
  | cons token pattern ih =>
    rw [mem_locations_cons]
    constructor
    · rintro ⟨step, rest, rfl, hdenotes, hstep, child, hchild, hrest⟩
      obtain ⟨hnames, hfits⟩ := ih.mp hrest
      exact ⟨⟨hdenotes, hnames⟩, hstep, child, hchild, hfits⟩
    · rintro ⟨hnames, hfits⟩
      cases location with
      | nil => exact hnames.elim
      | cons step rest =>
        obtain ⟨hstep, child, hchild, hrest⟩ := hfits
        exact ⟨step, rest, rfl, hnames.1, hstep, child, hchild, ih.mpr ⟨hnames.2, hrest⟩⟩

end Pattern

end FormFlow
