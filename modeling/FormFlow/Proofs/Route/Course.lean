import FormFlow.Proofs.Route.Reach

/-!
# The course of a walk

Where a walk along active edges goes if nothing but the edges ends it: at each vertex it takes the
first active edge, until there is none or the edge leads to a stop (`Way.Course`). A walk has one
course at most (`Way.Course.unique`), and what it passes is a path of active edges
(`Way.Passes.isPath`).

A walk that is bounded as well (`Way.IsWalk`) answers only with a stop that it has come to
(`IsWalk.exists_passes`), and with the stop at the end of its course if the bound is above the number
of edges on it (`IsWalk.eq_of_course`).
-/

namespace FormFlow.Route

variable {judged : List JudgedEdge} {id last : String} {found : JudgedEdge} {edge : Edge}
  {path : List Edge}

/-! ### The first active edge at a vertex -/

/-- The first active edge with an id at one of its ends. -/
def firstActive? (side : Edge → String) (judged : List JudgedEdge) (id : String) :
    Option JudgedEdge :=
  judged.find? fun edge => side edge.toEdge = id && edge.active

theorem activeFrom?_eq : activeFrom? = firstActive? Edge.source := rfl

theorem activeInto?_eq : activeInto? = firstActive? Edge.target := rfl

section FirstActive

variable {side : Edge → String}

theorem mem_of_firstActive? (h : firstActive? side judged id = some found) :
    found.toEdge ∈ activeEdges judged ∧ side found.toEdge = id := by
  have hfound := List.find?_some h
  rw [Bool.and_eq_true, decide_eq_true_eq] at hfound
  refine ⟨mem_activeEdges.mpr ?_, hfound.1⟩
  rw [← hfound.2]
  exact List.mem_of_find?_eq_some h

theorem firstActive?_eq_none_iff :
    firstActive? side judged id = none ↔ ∀ edge ∈ activeEdges judged, side edge ≠ id := by
  rw [firstActive?, List.find?_eq_none]
  constructor
  · intro hnone edge hedge hside
    exact hnone _ (mem_activeEdges.mp hedge) (by simp [hside])
  · rintro hnone ⟨edge, active⟩ hmem hboth
    rw [Bool.and_eq_true, decide_eq_true_eq] at hboth
    obtain ⟨hside, rfl⟩ := hboth
    exact hnone edge (mem_activeEdges.mpr hmem) hside

theorem exists_firstActive? (hsingle : ∀ edge ∈ activeEdges judged,
      ∀ other ∈ activeEdges judged, side edge = side other → edge = other)
    (hedge : edge ∈ activeEdges judged) :
    ∃ found, firstActive? side judged (side edge) = some found ∧ found.toEdge = edge := by
  cases hfound : firstActive? side judged (side edge) with
  | none => exact absurd rfl (firstActive?_eq_none_iff.mp hfound edge hedge)
  | some found =>
    obtain ⟨hmem, hside⟩ := mem_of_firstActive? hfound
    exact ⟨found, rfl, hsingle _ hmem edge hedge hside⟩

end FirstActive

/-! ### Ways and courses -/

/-- The ways to walk along active edges. -/
inductive Way where
  /-- To the next section or `END`. -/
  | ahead
  /-- To the section before or `START`. -/
  | behind
  /-- As far as active edges lead. -/
  | onward

namespace Way

/-- The end at which a walk takes an edge. -/
def near : Way → Edge → String
  | ahead | onward => Edge.source
  | behind => Edge.target

/-- The end to which an edge leads. -/
def far : Way → Edge → String
  | ahead | onward => Edge.target
  | behind => Edge.source

/-- Whether a walk stops where an edge leads. -/
def stops : Way → Edge → Bool
  | ahead, edge => edge.targetKind = .sectionVertex || edge.targetKind = .finish
  | behind, edge => edge.sourceKind = .sectionVertex || edge.sourceKind = .start
  | onward, _ => false

/-- The edge that a walk takes at a vertex. -/
def next? (way : Way) (judged : List JudgedEdge) (id : String) : Option JudgedEdge :=
  firstActive? way.near judged id

/-- A walk passes a path of edges from one vertex to another, and stops nowhere on it. -/
inductive Passes (way : Way) (judged : List JudgedEdge) : String → List Edge → String → Prop
  | here (id : String) : Passes way judged id [] id
  | step {id last : String} {found : JudgedEdge} {path : List Edge}
      (hfound : way.next? judged id = some found) (hgoes : way.stops found.toEdge = false)
      (hrest : Passes way judged (way.far found.toEdge) path last) :
      Passes way judged id (found.toEdge :: path) last

/-- A walk passes a path of edges and goes no further: at the last vertex no active edge leads on, or
the first one leads to a stop. -/
structure Course (way : Way) (judged : List JudgedEdge) (id : String) (path : List Edge)
    (last : String) : Prop where
  passes : way.Passes judged id path last
  ended : ∀ found, way.next? judged last = some found → way.stops found.toEdge = true

variable {way : Way}

theorem Course.unique {path' : List Edge} {last' : String} (h : way.Course judged id path last)
    (h' : way.Course judged id path' last') : path = path' ∧ last = last' := by
  obtain ⟨hpasses, hended⟩ := h
  induction hpasses generalizing path' with
  | here id =>
    cases h'.passes with
    | here => exact ⟨rfl, rfl⟩
    | step hfound hgoes => exact absurd (hended _ hfound) (by simp [hgoes])
  | step hfound hgoes _ ih =>
    cases h'.passes with
    | here => exact absurd (h'.ended _ hfound) (by simp [hgoes])
    | step hfound' _ hrest' =>
      obtain rfl := Option.some.inj (hfound.symm.trans hfound')
      obtain ⟨rfl, rfl⟩ := ih ⟨hrest', h'.ended⟩ hended
      exact ⟨rfl, rfl⟩

theorem exists_course_or_passes (way : Way) (judged : List JudgedEdge) (id : String)
    (count : Nat) :
    (∃ path last, way.Course judged id path last) ∨
      ∃ path last, way.Passes judged id path last ∧ path.length = count := by
  induction count generalizing id with
  | zero => exact Or.inr ⟨[], id, .here id, rfl⟩
  | succ count ih =>
    cases hfound : way.next? judged id with
    | none => exact Or.inl ⟨[], id, .here id, by simp [hfound]⟩
    | some found =>
      cases hstops : way.stops found.toEdge with
      | true =>
        refine Or.inl ⟨[], id, .here id, fun other hother => ?_⟩
        obtain rfl := Option.some.inj (hfound.symm.trans hother)
        exact hstops
      | false =>
        refine (ih (way.far found.toEdge)).imp ?_ ?_
        · rintro ⟨path, last, hpasses, hended⟩
          exact ⟨_, last, .step hfound hstops hpasses, hended⟩
        · rintro ⟨path, last, hpasses, rfl⟩
          exact ⟨_, last, .step hfound hstops hpasses, rfl⟩

theorem Course.next?_eq_none (h : Way.onward.Course judged id path last) :
    Way.onward.next? judged last = none := by
  cases hfound : Way.onward.next? judged last with
  | none => rfl
  | some found => exact absurd (h.ended found hfound) Bool.false_ne_true

/-! ### What is passed is a path -/

theorem Passes.isPath (hnear : way.near = Edge.source) (hfar : way.far = Edge.target)
    (h : way.Passes judged id path last) : IsPath (activeEdges judged) id last path := by
  induction h with
  | here id => rfl
  | step hfound _ _ ih =>
    obtain ⟨hmem, hsource⟩ := mem_of_firstActive? hfound
    rw [hnear] at hsource
    rw [hfar] at ih
    exact ⟨hmem, hsource, ih⟩

theorem Passes.isPath_reverse (hnear : way.near = Edge.target) (hfar : way.far = Edge.source)
    (h : way.Passes judged id path last) : IsPath (activeEdges judged) last id path.reverse := by
  induction h with
  | here id => rfl
  | step hfound _ _ ih =>
    obtain ⟨hmem, htarget⟩ := mem_of_firstActive? hfound
    rw [hnear] at htarget
    rw [hfar] at ih
    rw [List.reverse_cons, ← htarget]
    exact ih.concat hmem

theorem passes_of_isPath (hsingle : ∀ edge ∈ activeEdges judged,
      ∀ other ∈ activeEdges judged, edge.source = other.source → edge = other)
    (hpath : IsPath (activeEdges judged) id last path) : Way.onward.Passes judged id path last := by
  induction path generalizing id with
  | nil =>
    obtain rfl : id = last := hpath
    exact .here id
  | cons edge rest ih =>
    obtain ⟨hedge, rfl, hrest⟩ := hpath
    obtain ⟨found, hfound, rfl⟩ := exists_firstActive? hsingle hedge
    exact .step hfound rfl (ih hrest)

/-! ### Bounded walks -/

/-- A bounded walk goes by the steps of a way, and answers with the first stop. -/
structure IsWalk (way : Way) (judged : List JudgedEdge) (walk : Nat → String → Option String) :
    Prop where
  zero : ∀ id, walk 0 id = none
  succ : ∀ fuel id, walk (fuel + 1) id = (way.next? judged id).bind fun found =>
    if way.stops found.toEdge then some (way.far found.toEdge)
    else walk fuel (way.far found.toEdge)

namespace IsWalk

variable {walk : Nat → String → Option String} {fuel : Nat}

/-- A bounded walk answers with the stop at the end of its course, if its bound is above the number
of edges passed. -/
theorem eq_of_course (hwalk : way.IsWalk judged walk) (h : way.Course judged id path last)
    (hfuel : path.length < fuel) :
    walk fuel id = (way.next? judged last).map fun found => way.far found.toEdge := by
  obtain ⟨hpasses, hended⟩ := h
  induction hpasses generalizing fuel with
  | here id =>
    obtain ⟨fuel, rfl⟩ := Nat.exists_eq_add_of_lt hfuel
    rw [hwalk.succ]
    cases hfound : way.next? judged id with
    | none => rfl
    | some found => simp [hended found hfound]
  | step hfound hgoes _ ih =>
    obtain ⟨fuel, rfl⟩ := Nat.exists_eq_add_of_lt hfuel
    rw [hwalk.succ, hfound, Option.bind_some, hgoes]
    exact ih (by rw [List.length_cons]; omega) hended

theorem exists_passes (hwalk : way.IsWalk judged walk) {stop : String}
    (h : walk fuel id = some stop) :
    ∃ (path : List Edge) (found : JudgedEdge), way.Passes judged id path (way.near found.toEdge) ∧
      found.toEdge ∈ activeEdges judged ∧ way.stops found.toEdge = true ∧
        way.far found.toEdge = stop := by
  induction fuel generalizing id with
  | zero => simp [hwalk.zero] at h
  | succ fuel ih =>
    rw [hwalk.succ, Option.bind_eq_some_iff] at h
    obtain ⟨found, hfound, hrest⟩ := h
    cases hstops : way.stops found.toEdge with
    | true =>
      obtain ⟨hmem, rfl⟩ := mem_of_firstActive? hfound
      exact ⟨[], found, .here _, hmem, hstops, Option.some.inj (by simpa [hstops] using hrest)⟩
    | false =>
      rw [hstops] at hrest
      obtain ⟨path, stopping, hpasses, hstopping⟩ := ih hrest
      exact ⟨_, stopping, .step hfound hstops hpasses, hstopping⟩

end IsWalk

end Way

/-! ### The last stop on a path -/

/-- The last section or `END` to which an edge of a path leads, or the one given if there is none. -/
def lastStop (path : List Edge) (furthest : String) : String :=
  ((path.filter Way.ahead.stops).map Edge.target).getLastD furthest

theorem lastStop_cons (edge : Edge) (path : List Edge) (furthest : String) :
    lastStop (edge :: path) furthest = lastStop path (lastStop [edge] furthest) := by
  unfold lastStop
  cases hstops : Way.ahead.stops edge with
  | true =>
    rw [List.filter_cons_of_pos hstops, List.filter_cons_of_pos hstops, List.map_cons,
      List.getLastD_cons]
    rfl
  | false => simp [hstops]

theorem lastStop_concat (hstops : Way.ahead.stops edge = true) (path : List Edge)
    (furthest : String) : lastStop (path ++ [edge]) furthest = edge.target := by
  simp [lastStop, List.filter_append, hstops]

theorem lastStop_eq_or (path : List Edge) (furthest : String) :
    lastStop path furthest = furthest ∨
      ∃ edge ∈ path, Way.ahead.stops edge = true ∧ edge.target = lastStop path furthest := by
  rcases List.eq_nil_or_concat (path.filter Way.ahead.stops) with hnone | ⟨front, edge, hstops⟩
  · left
    simp [lastStop, hnone]
  · right
    have hedge : edge ∈ path.filter Way.ahead.stops := by simp [hstops]
    obtain ⟨hmem, hstop⟩ := List.mem_filter.mp hedge
    exact ⟨edge, hmem, hstop, by simp [lastStop, hstops]⟩

end FormFlow.Route
