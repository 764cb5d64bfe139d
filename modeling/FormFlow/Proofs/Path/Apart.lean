import FormFlow.Proofs.Path.Places

/-!
# Patterns that have no place in common

Two patterns are apart if at some position no step fits the tokens of both, whatever a `^` stands
for. Then a value at a place of the one can be taken out and the places of the other remain, with
the values they have (`locations_without`, `at?_without_of_misses`).
-/

namespace FormFlow

namespace Token

/-- Whether no step fits both tokens. A `^` may stand for any step. -/
def apart : Token → Token → Bool
  | .key name, .key other =>
    name ≠ other && (Text.readIndex name.toList = none ||
      Text.readIndex name.toList ≠ Text.readIndex other.toList)
  | .key name, .each | .each, .key name => Text.readIndex name.toList = none
  | _, _ => false

/-- Whether a token does not lead by a step, in a document that the step fits. -/
def misses : Token → Step → Bool
  | .key name, .field other => name ≠ other
  | .key name, .index position => Text.readIndex name.toList ≠ some position
  | .each, .index _ => false
  | .each, .field _ | .same, _ => true

theorem misses_of_apart {token other : Token} {step : Step} (h : token.apart other = true)
    (hdenotes : other.Denotes step) : token.misses step = true := by
  match token, other, step, hdenotes with
  | .key name, .key other, .field _, rfl =>
    simp only [apart, Bool.and_eq_true, decide_eq_true_eq] at h
    simpa [misses] using h.1
  | .key name, .key other, .index position, hposition =>
    simp only [Denotes] at hposition
    simp only [apart, hposition, Bool.and_eq_true, Bool.or_eq_true, decide_eq_true_eq] at h
    rcases h.2 with hnone | hne
    · simp [misses, hnone]
    · simpa [misses] using hne
  | .key name, .each, .index _, _ =>
    simp only [apart, decide_eq_true_eq] at h
    simp [misses, h]
  | .each, .key other, .field _, _ => rfl
  | .each, .key other, .index position, hposition =>
    simp only [Denotes] at hposition
    simp [apart, hposition] at h
  | .each, .each, _, _ | .each, .same, _, _ | .same, _, _, _ | .key _, .same, _, _ =>
    simp [apart] at h

/-- A token taken from a location: `^` is the step at the same position. -/
def relativeTo (here : Location) (position : Nat) : Token → Token
  | .same => (here[position]?).elim .same fun step => .key step.name
  | token => token

theorem misses_relativeTo_of_apart {token other : Token} {step : Step} {here : Location}
    {position : Nat} (h : token.apart other = true) (hdenotes : other.Denotes step) :
    (token.relativeTo here position).misses step = true := by
  cases token with
  | same => simp [apart] at h
  | key name => exact misses_of_apart h hdenotes
  | each => exact misses_of_apart h hdenotes

end Token

namespace Pattern

/-- Whether two patterns have no place in common, nor one of them a place below the other. -/
def apart : Pattern → Pattern → Bool
  | token :: pattern, other :: rest => token.apart other || apart pattern rest
  | _, _ => false

/-- Whether a pattern leads away from a location, in a document that the location fits. -/
def misses : Pattern → Location → Bool
  | token :: pattern, step :: rest => token.misses step || misses pattern rest
  | _, _ => false

theorem relativeTo_eq_map (pattern : Pattern) (here : Location) :
    pattern.relativeTo here =
      pattern.zipIdx.map fun entry => entry.1.relativeTo here entry.2 := by
  apply List.map_congr_left
  rintro ⟨token, position⟩ _
  cases token with
  | key name => rfl
  | each => rfl
  | same => cases hstep : here[position]? <;> simp [Token.relativeTo, hstep]

theorem misses_of_apart {pattern other : Pattern} {place : Location} (here : Location)
    (h : pattern.apart other = true) (hnames : other.Names place) :
    (pattern.relativeTo here).misses place = true := by
  have hfrom : ∀ start, misses
      ((pattern.zipIdx start).map fun entry => entry.1.relativeTo here entry.2) place = true := by
    induction pattern generalizing other place with
    | nil => simp [apart] at h
    | cons token rest ih =>
      intro start
      cases other with
      | nil => simp [apart] at h
      | cons first other =>
        cases place with
        | nil => exact absurd hnames id
        | cons step place =>
          rw [apart, Bool.or_eq_true] at h
          rw [List.zipIdx_cons, List.map_cons, misses, Bool.or_eq_true]
          exact h.imp (Token.misses_relativeTo_of_apart · hnames.1) (ih · hnames.2 _)
  rw [relativeTo_eq_map]
  exact hfrom 0

/-! ### A removal that a pattern misses -/

theorem misses_cons {token : Token} {pattern : Pattern} {step : Step} {rest : Location}
    (h : misses (token :: pattern) (step :: rest) = true) (hhit : token.misses step = false) :
    pattern.misses rest = true ∧ rest ≠ [] := by
  rw [misses, hhit, Bool.false_or] at h
  refine ⟨h, ?_⟩
  rintro rfl
  cases pattern <;> simp [misses] at h

theorem Token.misses_eq_false_of_denotes {token : Token} {step : Step}
    (hdenotes : token.Denotes step) : token.misses step = false := by
  match token, step, hdenotes with
  | .key _, .field _, rfl => simp [Token.misses]
  | .key name, .index position, hposition =>
    have hread : Text.readIndex name.toList = some position := hposition
    simp [Token.misses, hread]
  | .each, .index _, _ => rfl

theorem misses_eq_false_of_alike_field {document : Document} {token : Token} {step : Step}
    {name : String} (hstep : document.IsOwnStep step) (hdenotes : token.Denotes (.field name))
    (halike : document.alike step (.field name) = true) : token.misses step = false := by
  match document, token, step, hstep, hdenotes with
  | .object _, .key _, .field own, _, rfl =>
    obtain rfl : own = _ := of_decide_eq_true halike
    simp [Token.misses]
  | .array _, .key _, .index position, _, rfl =>
    have hposition : some position = Text.readIndex _ := of_decide_eq_true halike
    simp [Token.misses, hposition]

theorem misses_eq_false_of_alike {document : Document} {token : Token} {step other : Step}
    (hstep : document.IsOwnStep step) (hdenotes : token.Denotes other)
    (hother : document.IsOwnStep other ∨ other.isIndex = false)
    (halike : document.alike step other = true) : token.misses step = false := by
  rcases hother with hother | hother
  · obtain rfl := Document.eq_of_alike hstep hother halike
    exact Token.misses_eq_false_of_denotes hdenotes
  · cases other with
    | field name => exact misses_eq_false_of_alike_field hstep hdenotes halike
    | index position => simp [Step.isIndex] at hother

theorem at?_without_of_misses {document : Document} {pattern : Pattern}
    {removed location : Location} (hremoved : document.Fits removed)
    (hmisses : pattern.misses removed = true) (hnames : pattern.Names location)
    (hown : document.Fits location ∨ ∀ step ∈ location, step.isIndex = false) :
    (document.without removed).at? location = document.at? location := by
  induction removed generalizing document pattern location with
  | nil => cases pattern <;> simp [misses] at hmisses
  | cons step rest ih =>
    match pattern, location, hnames with
    | token :: pattern, other :: below, ⟨hdenotes, hnames⟩ =>
      obtain ⟨hstep, child, hchild, hrest⟩ := hremoved
      rw [Document.at?_cons, Document.at?_cons, Document.child?_without_cons hchild]
      by_cases halike : document.alike step other = true
      · have hother : document.IsOwnStep other ∨ other.isIndex = false :=
          hown.imp And.left fun hfields => hfields other List.mem_cons_self
        obtain ⟨hmisses, hne⟩ := misses_cons hmisses
          (misses_eq_false_of_alike hstep hdenotes hother halike)
        rw [if_pos halike, if_neg hne, ← Document.child?_of_alike halike, hchild,
          Option.bind_some, Option.bind_some]
        refine ih hrest hmisses hnames (hown.imp ?_ fun hfields next hnext =>
          hfields next (List.mem_cons_of_mem _ hnext))
        rintro ⟨_, found, hfound, hbelow⟩
        rw [← Document.child?_of_alike halike, hchild] at hfound
        exact Option.some.inj hfound ▸ hbelow
      · rw [if_neg halike]

theorem flatMap_zipIdx_congr {α β : Type} {items others : List α} {f : α × Nat → List β}
    (h : ∀ position : Nat, items[position]?.map (fun item => f (item, position)) =
      others[position]?.map fun item => f (item, position)) :
    items.zipIdx.flatMap f = others.zipIdx.flatMap f := by
  rw [List.flatMap_def, List.flatMap_def]
  congr 1
  apply List.ext_getElem?
  intro position
  simpa [List.getElem?_zipIdx, Function.comp_def] using h position

theorem flatMap_branches_congr {token : Token} {document other : Document}
    {listed : Document → List Location}
    (hown : ∀ step, other.IsOwnStep step ↔ document.IsOwnStep step)
    (h : ∀ step, document.IsOwnStep step → token.Denotes step →
      (other.child? step).map listed = (document.child? step).map listed) :
    (token.branches other).flatMap (fun branch => (listed branch.2).map (branch.1 :: ·)) =
      (token.branches document).flatMap fun branch => (listed branch.2).map (branch.1 :: ·) := by
  cases token with
  | key name =>
    have hsame : other.ownStep? name = document.ownStep? name := by
      apply Option.ext
      intro step
      rw [Document.ownStep?_eq_some_iff, Document.ownStep?_eq_some_iff, hown]
    rw [Token.branches, Token.branches, hsame]
    cases hstep : document.ownStep? name with
    | none => rfl
    | some step =>
      obtain ⟨hdenotes, hmember⟩ := Document.ownStep?_eq_some_iff.mp hstep
      have hbelow : ∀ found : Option Document,
          (found.map fun child => (step, child)).toList.flatMap
              (fun branch => (listed branch.2).map (branch.1 :: ·)) =
            (found.map listed).toList.flatMap (List.map (step :: ·)) := by
        intro found
        cases found <;> rfl
      rw [Option.bind_some, Option.bind_some, hbelow, hbelow, h step hmember hdenotes]
  | each =>
    cases document with
    | array items =>
      obtain ⟨others, rfl⟩ : ∃ others, other = .array others := by
        have hindex := (hown (.index 0)).mpr trivial
        cases other <;> simp [Document.IsOwnStep] at hindex ⊢
      rw [Token.branches, Token.branches, List.flatMap_map, List.flatMap_map]
      apply flatMap_zipIdx_congr
      intro position
      have hlisted := congrArg (Option.map (List.map (Step.index position :: ·)))
        (h (.index position) trivial trivial)
      rw [Option.map_map, Option.map_map] at hlisted
      exact hlisted
    | _ =>
      have hindex : ¬ other.IsOwnStep (.index 0) := (hown (.index 0)).mp
      cases other <;> first | rfl | exact absurd trivial hindex
  | same => rfl

theorem locations_without {document : Document} {pattern : Pattern} {removed : Location}
    (hremoved : document.Fits removed) (hmisses : pattern.misses removed = true) :
    pattern.locations (document.without removed) = pattern.locations document := by
  induction removed generalizing document pattern with
  | nil => cases pattern <;> simp [misses] at hmisses
  | cons step rest ih =>
    obtain ⟨hstep, child, hchild, hrest⟩ := hremoved
    cases pattern with
    | nil => rfl
    | cons token pattern =>
      -- below a step that the token leads by, the rest of the pattern misses the rest
      have hbelow : ∀ other, document.IsOwnStep other → token.Denotes other →
          ((document.without (step :: rest)).child? other).map (locations pattern) =
            (document.child? other).map (locations pattern) := by
        intro other hother hdenotes
        rw [Document.child?_without_cons hchild]
        by_cases halike : document.alike step other = true
        · obtain ⟨hmisses, hne⟩ := misses_cons hmisses
            (misses_eq_false_of_alike hstep hdenotes (Or.inl hother) halike)
          rw [if_pos halike, if_neg hne, ← Document.child?_of_alike halike, hchild,
            Option.map_some, Option.map_some, ih hrest hmisses]
        · rw [if_neg halike]
      rw [locations_cons, locations_cons]
      exact flatMap_branches_congr (Document.isOwnStep_without document (step :: rest)) hbelow

end Pattern

end FormFlow
