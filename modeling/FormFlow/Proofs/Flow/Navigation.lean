import FormFlow.Proofs.Flow.Legs

/-!
# Going forward and back

Wherever navigation leads, it leads to `START`, `END` or a section that is reached, and shows the
messages of that section if it shows any (`leads_to_place`).

A vertex may be left forward if it is `START`, or is reached and has no messages (`IsOpen`). Only
from such a vertex the way forward is a walk (`next_of_isOpen`); all other vertices have an answer
of their own.
-/

namespace FormFlow.Flow

open Route

variable {flow : Flow} {config document : Document} {id : String}

/-! ### What a section shows -/

theorem isVertex_of_active {edge : Edge}
    (hedge : edge ∈ activeEdges (flow.run document).edges) :
    (flow.run document).isVertex edge.source = true ∧
      (flow.run document).isVertex edge.target = true := by
  have hmem := mem_activeEdges.mp hedge
  simp only [Outcome.isVertex, Route.isVertex, List.any_eq_true]
  exact ⟨⟨_, hmem, by simp⟩, ⟨_, hmem, by simp⟩⟩

theorem isVertex_of_isReached (hreached : (flow.run document).isReached id = true)
    (hstart : id ≠ startId) : (flow.run document).isVertex id = true := by
  rcases isReached_iff.mp hreached with hid | ⟨edge, hedge, rfl⟩ | ⟨edge, hedge, rfl, _⟩
  · exact absurd hid hstart
  · exact (isVertex_of_active hedge).2
  · obtain ⟨judged, hjudged, rfl⟩ := List.mem_map.mp hedge
    simp only [Outcome.isVertex, Route.isVertex, List.any_eq_true]
    exact ⟨judged, hjudged, by simp⟩

theorem isValid_of_isReached {result : SectionResult}
    (hresult : (flow.run document).section? id = some result)
    (hreached : (flow.run document).isReached id = true) :
    result.isValid = result.messages.isEmpty := by
  rw [section?_run, Option.map_eq_some_iff] at hresult
  obtain ⟨found, hfound, rfl⟩ := hresult
  have hsame : finalResult (flow.run document).edges id found = found := if_pos hreached
  rw [hsame, isValid_validate hfound]

/-! ### Places to be -/

/-- `START`, `END` or a section, reached, with no messages but those of the section. -/
structure IsPlace (flow : Flow) (document : Document) (destination : Destination) : Prop where
  stop : destination.id = startId ∨ destination.id = endId ∨
    flow.plan.kind? destination.id = some .sectionVertex
  isReached : (flow.run document).isReached destination.id = true
  messages : ∀ messages, destination.messages = some messages → messages ≠ [] ∧
    ∃ result, (flow.run document).section? destination.id = some result ∧
      result.messages = messages

theorem isPlace_plain (hstop : id = startId ∨ id = endId ∨ flow.plan.kind? id = some .sectionVertex)
    (hreached : (flow.run document).isReached id = true) :
    flow.IsPlace document (.plain id) :=
  ⟨hstop, hreached, by simp [Destination.plain]⟩

theorem isPlace_start : flow.IsPlace document (.plain startId) :=
  isPlace_plain (Or.inl rfl) isReached_start

theorem isPlace_withMessages
    (hstop : id = startId ∨ id = endId ∨ flow.plan.kind? id = some .sectionVertex)
    (hreached : (flow.run document).isReached id = true) :
    flow.IsPlace document ((flow.run document).withMessages id) := by
  unfold Outcome.withMessages
  split
  · next hresult =>
    refine ⟨hstop, hreached, fun messages hmessages => ?_⟩
    obtain rfl := Option.some.inj hmessages
    exact ⟨by simp, _, hresult, rfl⟩
  · exact isPlace_plain hstop hreached

theorem isPlace_ahead (hsound : Sound flow.plan.kinds flow.plan.edges) {fuel : Nat}
    {destination : Destination}
    (h : ((flow.run document).ahead fuel id).map .plain = some destination) :
    flow.IsPlace document destination := by
  obtain ⟨target, hahead, rfl⟩ := Option.map_eq_some_iff.mp h
  obtain ⟨⟨_, hleg⟩, hstop⟩ := exists_leg_of_ahead hsound hahead
  exact isPlace_plain (Or.inr hstop.symm) hleg.isReached.2

theorem isPlace_behind (hsound : Sound flow.plan.kinds flow.plan.edges) {fuel : Nat}
    {destination : Destination}
    (h : ((flow.run document).behind fuel id).map .plain = some destination) :
    flow.IsPlace document destination := by
  obtain ⟨source, hbehind, rfl⟩ := Option.map_eq_some_iff.mp h
  obtain ⟨⟨_, hleg⟩, hstop⟩ := exists_leg_of_behind hsound hbehind
  refine isPlace_plain ?_ hleg.isReached.1
  rcases hstop with hsection | hstart
  · exact Or.inr (Or.inr hsection)
  · exact Or.inl hstart

theorem isPlace_furthest (hsound : Sound flow.plan.kinds flow.plan.edges) :
    flow.IsPlace document (.plain (flow.run document).furthest) := by
  obtain ⟨path, last, hcourse, hlength⟩ := exists_course hsound .onward document startId
  have hfurthest : (flow.run document).furthest = lastStop path startId :=
    Outcome.furthestFrom_eq_lastStop _ hcourse hlength
  rw [hfurthest]
  rcases lastStop_eq_or path startId with hnone | ⟨edge, hedge, hstops, htarget⟩
  · rw [hnone]
    exact isPlace_start
  · have hmem := (hcourse.passes.isPath rfl rfl).mem edge hedge
    rw [← htarget]
    exact isPlace_plain (Or.inr ((stops_ahead_iff hsound hmem).mp hstops).symm)
      (isReached_target hmem)

/-! ### The way forward -/

/-- Whether a vertex may be left forward. -/
def IsOpen (flow : Flow) (document : Document) (id : String) : Prop :=
  id = startId ∨ (flow.run document).isReached id = true ∧ ¬ flow.HasMessages document id

theorem next_of_isOpen (hopen : flow.IsOpen document id) (hend : id ≠ endId) :
    (flow.run document).next id =
      ((flow.run document).ahead (flow.run document).walkBound id).map .plain := by
  rw [Outcome.next, if_neg hend]
  by_cases hstart : id = startId
  · rw [if_pos hstart, hstart]
  · obtain ⟨hreached, hnone⟩ := hopen.resolve_left hstart
    rw [if_neg hstart, isVertex_of_isReached hreached hstart, hreached]
    cases hresult : (flow.run document).section? id with
    | none => rfl
    | some result =>
      have hvalid : result.isValid = true := by
        rw [isValid_of_isReached hresult hreached, List.isEmpty_iff]
        by_contra hmessages
        exact hnone ⟨result, hresult, hmessages⟩
      simp [hvalid]

theorem exists_next_of_not_isOpen (h : Plan.ofDocument config = .ok flow.plan)
    (hopen : ¬ flow.IsOpen document id) (hend : id ≠ endId)
    (hvertex : (flow.run document).isVertex id = true) :
    ∃ destination, (flow.run document).next id = some destination ∧
      flow.IsPlace document destination := by
  obtain ⟨hstart, hclosed⟩ := not_or.mp hopen
  rw [Outcome.next, if_neg hend, if_neg hstart, hvertex]
  by_cases hreached : (flow.run document).isReached id = true
  · obtain ⟨result, hresult, hmessages⟩ := not_not.mp fun hnone => hclosed ⟨hreached, hnone⟩
    have hinvalid : result.isValid = false := by
      rw [isValid_of_isReached hresult hreached, List.isEmpty_eq_false_iff]
      exact hmessages
    obtain ⟨form, hform⟩ := Plan.exists_makes h
    refine ⟨⟨id, some result.messages⟩, by simp [hreached, hresult, hinvalid],
      Or.inr (Or.inr (kind?_of_section? hform hresult)), hreached, fun messages hsame => ?_⟩
    obtain rfl := Option.some.inj hsame
    exact ⟨hmessages, result, hresult, rfl⟩
  · have hfurthest : flow.IsPlace document (.plain (flow.run document).furthest) :=
      isPlace_furthest (sound_of_ofDocument h)
    exact ⟨(flow.run document).withMessages (flow.run document).furthest, by simp [hreached],
      isPlace_withMessages hfurthest.stop hfurthest.isReached⟩

theorem next_eq_none_of_outside
    (h : id = endId ∨ id ≠ startId ∧ (flow.run document).isVertex id = false) :
    (flow.run document).next id = none := by
  rw [Outcome.next]
  rcases h with hend | ⟨hstart, hvertex⟩
  · rw [if_pos hend]
  · by_cases hend : id = endId
    · rw [if_pos hend]
    · simp [hend, hstart, hvertex]

theorem isPlace_next (h : Plan.ofDocument config = .ok flow.plan) {destination : Destination}
    (hnext : (flow.run document).next id = some destination) :
    flow.IsPlace document destination := by
  by_cases houtside : id = endId ∨ id ≠ startId ∧ (flow.run document).isVertex id = false
  · simp [next_eq_none_of_outside houtside] at hnext
  · obtain ⟨hend, hinside⟩ := not_or.mp houtside
    by_cases hopen : flow.IsOpen document id
    · rw [next_of_isOpen hopen hend] at hnext
      exact isPlace_ahead (sound_of_ofDocument h) hnext
    · have hstart : id ≠ startId := fun hstart => hopen (Or.inl hstart)
      have hvertex : (flow.run document).isVertex id = true := by
        by_contra hnone
        exact hinside ⟨hstart, by simpa using hnone⟩
      obtain ⟨found, hfound, hplace⟩ := exists_next_of_not_isOpen h hopen hend hvertex
      obtain rfl := Option.some.inj (hfound.symm.trans hnext)
      exact hplace

/-! ### The way back -/

theorem isPlace_backTo (hsound : Sound flow.plan.kinds flow.plan.edges) {edge : JudgedEdge}
    {destination : Destination} (hedge : edge ∈ (flow.run document).edges)
    (hends : (flow.run document).endsBack edge = true)
    (hback : (flow.run document).backTo edge = some destination) :
    flow.IsPlace document destination := by
  have hmem : edge.toEdge ∈ flow.plan.edges := toEdge_mem_edges hedge
  unfold Outcome.backTo at hback
  split_ifs at hback with hstart hkind
  · obtain rfl := Option.some.inj hback
    exact isPlace_start
  · obtain rfl := Option.some.inj hback
    have hreached : (flow.run document).isReached edge.source = true := by
      simp only [Outcome.endsBack, Bool.or_eq_true, Bool.and_eq_true, decide_eq_true_eq] at hends
      exact (hends.resolve_left hstart).1
    have hsection := hsound.sourceKind edge.toEdge hmem
    rw [hkind] at hsection
    exact isPlace_withMessages (Or.inr (Or.inr hsection)) hreached
  · exact isPlace_behind hsound hback

theorem isPlace_searchBack (hsound : Sound flow.plan.kinds flow.plan.edges) {fuel : Nat}
    {visited queue : List String} {destination : Destination}
    (h : (flow.run document).searchBack fuel visited queue = some destination) :
    flow.IsPlace document destination := by
  induction fuel generalizing visited queue with
  | zero => simp [Outcome.searchBack] at h
  | succ fuel ih =>
    cases queue with
    | nil => simp [Outcome.searchBack] at h
    | cons vertex queue =>
      rw [Outcome.searchBack] at h
      split at h
      · next edge hfound =>
        have hedge := List.mem_of_mem_filter (List.mem_of_find?_eq_some hfound)
        exact isPlace_backTo hsound hedge (List.find?_some hfound) h
      · exact ih h

theorem isPlace_previous (hsound : Sound flow.plan.kinds flow.plan.edges)
    {destination : Destination} (h : (flow.run document).previous id = some destination) :
    flow.IsPlace document destination := by
  unfold Outcome.previous at h
  split_ifs at h with houtside hentered hreached
  · obtain rfl := Option.some.inj h
    exact isPlace_start
  · exact isPlace_behind hsound h
  · exact isPlace_searchBack hsound h

/-- Forward and back lead to `START`, `END` or a section, never to a decision. It is reached, and
its messages are shown if any are. -/
theorem leads_to_place (h : Plan.ofDocument config = .ok flow.plan) (document : Document)
    (id : String) {destination : Destination}
    (hleads : (flow.run document).next id = some destination ∨
      (flow.run document).previous id = some destination) :
    flow.IsPlace document destination := by
  rcases hleads with hnext | hprevious
  · exact isPlace_next h hnext
  · exact isPlace_previous (sound_of_ofDocument h) hprevious

theorem leads_to_place_branching :
    (branching.run branchingDocument).next "c" =
        some ⟨"b", some [⟨"b.name", "name is required"⟩]⟩ ∧
      (branching.run branchingDocument).previous "c" =
        some ⟨"b", some [⟨"b.name", "name is required"⟩]⟩ ∧
      branching.IsPlace branchingDocument ⟨"b", some [⟨"b.name", "name is required"⟩]⟩ := by
  have hprevious : (branching.run branchingDocument).previous "c" =
      some ⟨"b", some [⟨"b.name", "name is required"⟩]⟩ := by decide
  exact ⟨by decide, hprevious, leads_to_place plan_branching branchingDocument "c" (Or.inr hprevious)⟩

end FormFlow.Flow
