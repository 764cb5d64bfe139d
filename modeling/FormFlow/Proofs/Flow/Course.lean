import FormFlow.Flow.Navigation
import FormFlow.Proofs.Flow.Route
import FormFlow.Proofs.Route.Course
import FormFlow.Proofs.Route.Line

/-!
# The course of a walk through an outcome

The walks of an outcome are bounded by the number of its edges and one more. Main statement
(`walks_take_course`): none of them is ever cut off by this bound, nor would be by any bound above
the number of edges that it passes. The reason is the order of evaluation, in which a walk forward
goes up and a walk back goes down, so that it passes no edge twice (`length_lt_walkBound`).
-/

namespace FormFlow

open Route

namespace Outcome

variable (outcome : Outcome)

theorem isWalk_ahead : Way.ahead.IsWalk outcome.edges outcome.ahead where
  zero _ := rfl
  succ fuel id := by
    rw [ahead, activeFrom?_eq]
    unfold Way.next? Way.near
    cases firstActive? Edge.source outcome.edges id with
    | none => rfl
    | some found => cases hkind : found.targetKind <;> simp [Way.stops, Way.far, hkind]

theorem isWalk_behind : Way.behind.IsWalk outcome.edges outcome.behind where
  zero _ := rfl
  succ fuel id := by
    rw [behind, activeInto?_eq]
    unfold Way.next? Way.near
    cases firstActive? Edge.target outcome.edges id with
    | none => rfl
    | some found => cases hkind : found.sourceKind <;> simp [Way.stops, Way.far, hkind]

theorem furthestFrom_succ (fuel : Nat) (id furthest : String) :
    outcome.furthestFrom (fuel + 1) id furthest =
      match Way.onward.next? outcome.edges id with
      | none => furthest
      | some found =>
        outcome.furthestFrom fuel found.target (lastStop [found.toEdge] furthest) := by
  rw [furthestFrom, activeFrom?_eq]
  unfold Way.next? Way.near
  cases firstActive? Edge.source outcome.edges id with
  | none => rfl
  | some found => cases hkind : found.targetKind <;> simp [lastStop, Way.stops, hkind]

theorem furthestFrom_eq_lastStop {id last furthest : String} {path : List Edge}
    (h : Way.onward.Course outcome.edges id path last) {fuel : Nat} (hfuel : path.length < fuel) :
    outcome.furthestFrom fuel id furthest = lastStop path furthest := by
  obtain ⟨hpasses, hended⟩ := h
  induction hpasses generalizing fuel furthest with
  | here id =>
    obtain ⟨fuel, rfl⟩ := Nat.exists_eq_add_of_lt hfuel
    rw [furthestFrom_succ]
    rw [Way.Course.next?_eq_none ⟨.here id, hended⟩]
    rfl
  | step hfound _ _ ih =>
    obtain ⟨fuel, rfl⟩ := Nat.exists_eq_add_of_lt hfuel
    rw [furthestFrom_succ, hfound, lastStop_cons]
    exact ih (by rw [List.length_cons]; omega) hended

end Outcome

namespace Flow

variable {flow : Flow} {config document : Document} {way : Way} {id source target last : String}
  {path : List Edge}

/-! ### The bound -/

theorem length_edges_run : (flow.run document).edges.length = flow.plan.edges.length := by
  rw [← map_toEdge_run flow document, List.length_map]

theorem length_lt_walkBound (hsound : Sound flow.plan.kinds flow.plan.edges)
    (hpath : IsPath (activeEdges (flow.run document).edges) source target path) :
    path.length < (flow.run document).walkBound := by
  have hsub := hsound.sublist_of_isPath (hpath.mono fun _ => mem_edges_of_active)
  rw [Outcome.walkBound, length_edges_run]
  exact Nat.lt_succ_of_le hsub.length_le

/-- A walk goes through the edges in their order or backwards, so it passes fewer than its bound. -/
theorem length_lt_of_passes (hsound : Sound flow.plan.kinds flow.plan.edges)
    (h : way.Passes (flow.run document).edges id path last) :
    path.length < (flow.run document).walkBound := by
  cases way with
  | ahead => exact length_lt_walkBound hsound (h.isPath rfl rfl)
  | onward => exact length_lt_walkBound hsound (h.isPath rfl rfl)
  | behind =>
    rw [← List.length_reverse]
    exact length_lt_walkBound hsound (h.isPath_reverse rfl rfl)

theorem exists_course (hsound : Sound flow.plan.kinds flow.plan.edges) (way : Way)
    (document : Document) (id : String) :
    ∃ path last, way.Course (flow.run document).edges id path last ∧
      path.length < (flow.run document).walkBound := by
  rcases way.exists_course_or_passes (flow.run document).edges id (flow.run document).walkBound with
    ⟨path, last, hcourse⟩ | ⟨path, last, hpasses, hlength⟩
  · exact ⟨path, last, hcourse, length_lt_of_passes hsound hcourse.passes⟩
  · exact absurd hlength (Nat.ne_of_lt (length_lt_of_passes hsound hpasses))

/-- The walks forward and back from a vertex and the walk on from `START` pass fewer edges than their
bound, and take their course under every bound above the number of these edges. So there is no answer
exactly if no active edge leads on from the vertex where the walk has come to, and the walk from
`START` ends only at a vertex that no active edge leaves. -/
theorem walks_take_course (h : Plan.ofDocument config = .ok flow.plan) (document : Document)
    (id : String) :
    (∃ path last, Way.ahead.Course (flow.run document).edges id path last ∧
      path.length < (flow.run document).walkBound ∧
      ∀ bound, path.length < bound → (flow.run document).ahead bound id =
        (activeFrom? (flow.run document).edges last).map fun found => found.target) ∧
    (∃ path last, Way.behind.Course (flow.run document).edges id path last ∧
      path.length < (flow.run document).walkBound ∧
      ∀ bound, path.length < bound → (flow.run document).behind bound id =
        (activeInto? (flow.run document).edges last).map fun found => found.source) ∧
    ∃ path last, Way.onward.Course (flow.run document).edges startId path last ∧
      path.length < (flow.run document).walkBound ∧
      activeFrom? (flow.run document).edges last = none ∧
      ∀ bound, path.length < bound →
        (flow.run document).furthestFrom bound startId startId = lastStop path startId := by
  have hsound := sound_of_ofDocument h
  refine ⟨?_, ?_, ?_⟩
  · obtain ⟨path, last, hcourse, hlength⟩ := exists_course hsound .ahead document id
    exact ⟨path, last, hcourse, hlength, fun bound hbound =>
      (Outcome.isWalk_ahead _).eq_of_course hcourse hbound⟩
  · obtain ⟨path, last, hcourse, hlength⟩ := exists_course hsound .behind document id
    exact ⟨path, last, hcourse, hlength, fun bound hbound =>
      (Outcome.isWalk_behind _).eq_of_course hcourse hbound⟩
  · obtain ⟨path, last, hcourse, hlength⟩ := exists_course hsound .onward document startId
    exact ⟨path, last, hcourse, hlength, hcourse.next?_eq_none, fun bound hbound =>
      Outcome.furthestFrom_eq_lastStop _ hcourse hbound⟩

theorem walks_take_course_branching :
    (∀ bound, 0 < bound → (branching.run branchingDocument).ahead bound "b" = none) ∧
    Way.behind.Course (branching.run branchingDocument).edges "b"
      [⟨"d", "b", some true, .decision, .sectionVertex⟩] "d" ∧
    (∀ bound, 1 < bound → (branching.run branchingDocument).behind bound "b" = some "a") ∧
    ∀ bound, 3 < bound →
      (branching.run branchingDocument).furthestFrom bound startId startId = "b" := by
  have hleft : activeFrom? (branching.run branchingDocument).edges "b" = none := by decide
  have hbefore : activeInto? (branching.run branchingDocument).edges "d" =
      some ⟨⟨"a", "d", none, .sectionVertex, .decision⟩, true⟩ := by decide
  have hahead : Way.ahead.Course (branching.run branchingDocument).edges "b" [] "b" := by
    refine ⟨.here "b", fun found hfound => ?_⟩
    cases hleft.symm.trans hfound
  have hbehind : Way.behind.Course (branching.run branchingDocument).edges "b"
      [⟨"d", "b", some true, .decision, .sectionVertex⟩] "d" := by
    have hentered : Way.behind.next? (branching.run branchingDocument).edges "b" =
        some ⟨⟨"d", "b", some true, .decision, .sectionVertex⟩, true⟩ := by decide
    refine ⟨.step hentered rfl (.here "d"), fun found hfound => ?_⟩
    obtain rfl := Option.some.inj (hbefore.symm.trans hfound)
    rfl
  have honward : Way.onward.Course (branching.run branchingDocument).edges startId
      [⟨"START", "a", none, .start, .sectionVertex⟩, ⟨"a", "d", none, .sectionVertex, .decision⟩,
        ⟨"d", "b", some true, .decision, .sectionVertex⟩] "b" := by
    have hstart : Way.onward.next? (branching.run branchingDocument).edges startId =
        some ⟨⟨"START", "a", none, .start, .sectionVertex⟩, true⟩ := by decide
    have hsection : Way.onward.next? (branching.run branchingDocument).edges "a" =
        some ⟨⟨"a", "d", none, .sectionVertex, .decision⟩, true⟩ := by decide
    have hdecision : Way.onward.next? (branching.run branchingDocument).edges "d" =
        some ⟨⟨"d", "b", some true, .decision, .sectionVertex⟩, true⟩ := by decide
    refine ⟨.step hstart rfl (.step hsection rfl (.step hdecision rfl (.here "b"))), ?_⟩
    intro found hfound
    cases hleft.symm.trans hfound
  obtain ⟨⟨_, _, hcourse, _, hforward⟩, ⟨_, _, hcourse', _, hback⟩, _, _, hcourse'', _, _, hfar⟩ :=
    walks_take_course plan_branching branchingDocument "b"
  obtain ⟨rfl, rfl⟩ := hahead.unique hcourse
  obtain ⟨rfl, rfl⟩ := hbehind.unique hcourse'
  obtain ⟨rfl, rfl⟩ := honward.unique hcourse''
  refine ⟨fun bound hbound => ?_, hbehind, fun bound hbound => ?_, hfar⟩
  · rw [hforward bound hbound, hleft]
    rfl
  · rw [hback bound hbound, hbefore]
    rfl

end Flow

end FormFlow
