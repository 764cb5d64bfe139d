import Mathlib.Data.List.Nodup
import Mathlib.Data.List.Perm.Subperm
import FormFlow.Proofs.Flow.Navigation
import FormFlow.Proofs.Route.Through

/-!
# The nearest vertex that is reached

From a vertex that is not reached, the way back leads to the nearest vertex that is
(`previous_of_unreached`). The search looks at a vertex when it is found, not when its turn comes,
and keeps what it has found in a queue.

Two distances meet in that queue, `near` in front of `far` (`Searched`). A vertex whose turn comes
adds to `far` alone, and when `near` is used up all vertices at the next distance are found, because
all that lead to those before are. So no vertex that is nearer than one just found is left out. As
each vertex is found once, the search is over before its bound (`Searched.search`). It is not over in
vain, as every way back comes to `START` or to the vertex before it (`exists_reached_of_closed`).
-/

namespace FormFlow

namespace Flow

open Route

variable {flow : Flow} {config document : Document} {id origin vertex : String} {distance : Nat}
  {passed near far sources : List String}

/-! ### Nearest vertices -/

/-- A path from a vertex that is reached, such that no vertex with a shorter path is. -/
structure IsNearest (flow : Flow) (document : Document) (id origin : String) (path : List Edge) :
    Prop where
  isReached : (flow.run document).isReached id = true
  isPath : IsPath flow.plan.edges id origin path
  least : ∀ other shorter, IsPath flow.plan.edges other origin shorter →
    shorter.length < path.length → (flow.run document).isReached other = false

/-- What the way back from a vertex answers if this is the nearest vertex that is reached: `START`
or a section itself, with its messages if it has any, and for a decision the section or `START` that
active edges come from. -/
inductive AnswersFor (flow : Flow) (document : Document) : String → Destination → Prop
  | start : AnswersFor flow document startId (.plain startId)
  | atSection {id : String} {result : SectionResult}
      (hkind : flow.plan.kind? id = some .sectionVertex)
      (hresult : (flow.run document).section? id = some result) :
      AnswersFor flow document id
        ⟨id, if result.messages = [] then none else some result.messages⟩
  | atDecision {id source : String} {path : List Edge}
      (hkind : flow.plan.kind? id = some .decision) (hleg : flow.Leg document source id path)
      (hstop : flow.plan.kind? source = some .sectionVertex ∨ source = startId) :
      AnswersFor flow document id (.plain source)

/-! ### The state of a search -/

/-- How far a search back has come. The turn of the vertices in `passed` has been; of those that
wait, paths of the given length lead from `near` to the origin, and longer ones by an edge from
`far`. -/
structure Searched (flow : Flow) (document : Document) (origin : String) (distance : Nat)
    (passed near far : List String) : Prop where
  nodup : (passed ++ (near ++ far)).Nodup
  found : ∀ id ∈ passed ++ (near ++ far), id = origin ∨ ∃ edge ∈ flow.plan.edges, edge.source = id
  unreached : ∀ id ∈ passed ++ (near ++ far), (flow.run document).isReached id = false
  /-- All that leads to a passed vertex is found. -/
  closed : ∀ edge ∈ flow.plan.edges, edge.target ∈ passed → edge.source ∈ passed ++ (near ++ far)
  pathNear : ∀ id ∈ near, ∃ path, IsPath flow.plan.edges id origin path ∧ path.length = distance
  pathFar : ∀ id ∈ far, ∃ path, IsPath flow.plan.edges id origin path ∧ path.length = distance + 1
  /-- No vertex with a path that is not longer than those from `near` is still to be found. -/
  covered : ∀ id path, IsPath flow.plan.edges id origin path → path.length ≤ distance →
    id ∈ passed ++ near

namespace Searched

theorem start (hunreached : (flow.run document).isReached origin = false) :
    flow.Searched document origin 0 [] [origin] [] where
  nodup := by simp
  found := by simp
  unreached := by simpa using hunreached
  closed := by simp
  pathNear := by
    intro id hid
    rw [List.mem_singleton] at hid
    exact ⟨[], hid, rfl⟩
  pathFar := by simp
  covered := by
    intro id path hpath hlength
    obtain rfl := List.length_eq_zero_iff.mp (Nat.le_zero.mp hlength)
    obtain rfl : id = origin := hpath
    simp

/-- When the turn of all near vertices has been, those at the next distance are all found. -/
theorem deepen (h : flow.Searched document origin distance passed [] far) :
    flow.Searched document origin (distance + 1) passed far [] where
  nodup := by simpa using h.nodup
  found := by simpa using h.found
  unreached := by simpa using h.unreached
  closed := by simpa using h.closed
  pathNear := h.pathFar
  pathFar := by simp
  covered := by
    intro id path hpath hlength
    cases path with
    | nil =>
      have hpassed := h.covered id [] hpath (Nat.zero_le _)
      rw [List.append_nil] at hpassed
      exact List.mem_append_left _ hpassed
    | cons edge rest =>
      obtain ⟨hedge, rfl, hrest⟩ := hpath
      have hpassed := h.covered edge.target rest hrest (Nat.le_of_succ_le_succ hlength)
      rw [List.append_nil] at hpassed
      exact h.closed edge hedge hpassed

theorem exists_next (h : flow.Searched document origin distance passed near far)
    (hwaiting : near ++ far ≠ []) : ∃ distance' vertex near' far',
      near ++ far = vertex :: (near' ++ far') ∧
        flow.Searched document origin distance' passed (vertex :: near') far' := by
  cases near with
  | cons vertex near => exact ⟨distance, vertex, near, far, rfl, h⟩
  | nil =>
    obtain ⟨vertex, rest, rfl⟩ := List.exists_cons_of_ne_nil hwaiting
    exact ⟨distance + 1, vertex, rest, [], by simp, h.deepen⟩

/-- The turn of a vertex adds its sources that are not found yet to the far ones. -/
theorem pass (h : flow.Searched document origin distance passed (vertex :: near) far)
    (hnodup : sources.Nodup)
    (hsources : ∀ id, id ∈ sources ↔ id ∉ passed ++ vertex :: (near ++ far) ∧
      ∃ edge ∈ flow.plan.edges, edge.target = vertex ∧ edge.source = id)
    (hunreached : ∀ id ∈ sources, (flow.run document).isReached id = false) :
    flow.Searched document origin distance (passed ++ [vertex]) near (far ++ sources) := by
  have hall : passed ++ [vertex] ++ (near ++ (far ++ sources)) =
      passed ++ vertex :: (near ++ far) ++ sources := by simp
  refine {
    nodup := ?_
    found := ?_
    unreached := ?_
    closed := ?_
    pathNear := fun id hid => h.pathNear id (List.mem_cons_of_mem _ hid)
    pathFar := ?_
    covered := ?_ }
  · rw [hall]
    exact h.nodup.append hnodup fun id hfound hfresh => ((hsources id).mp hfresh).1 hfound
  · rw [hall]
    intro id hid
    rcases List.mem_append.mp hid with hfound | hfresh
    · exact h.found id hfound
    · obtain ⟨_, edge, hedge, _, hsource⟩ := (hsources id).mp hfresh
      exact Or.inr ⟨edge, hedge, hsource⟩
  · rw [hall]
    intro id hid
    rcases List.mem_append.mp hid with hfound | hfresh
    · exact h.unreached id hfound
    · exact hunreached id hfresh
  · rw [hall]
    intro edge hedge htarget
    rw [List.mem_append]
    by_cases hfound : edge.source ∈ passed ++ vertex :: (near ++ far)
    · exact Or.inl hfound
    · rcases List.mem_append.mp htarget with hpassed | hvertex
      · exact absurd (h.closed edge hedge hpassed) hfound
      · rw [List.mem_singleton] at hvertex
        exact Or.inr ((hsources edge.source).mpr ⟨hfound, edge, hedge, hvertex, rfl⟩)
  · intro id hid
    rcases List.mem_append.mp hid with hfar | hfresh
    · exact h.pathFar id hfar
    · obtain ⟨_, edge, hedge, rfl, rfl⟩ := (hsources id).mp hfresh
      obtain ⟨path, hpath, hlength⟩ := h.pathNear edge.target List.mem_cons_self
      exact ⟨edge :: path, ⟨hedge, rfl, hpath⟩, by rw [List.length_cons, hlength]⟩
  · intro id path hpath hlength
    simpa using h.covered id path hpath hlength

theorem isNearest (h : flow.Searched document origin distance passed (vertex :: near) far)
    {edge : Edge} (hedge : edge ∈ flow.plan.edges) (htarget : edge.target = vertex)
    (hreached : (flow.run document).isReached edge.source = true) :
    ∃ path, flow.IsNearest document edge.source origin path := by
  subst htarget
  obtain ⟨path, hpath, hlength⟩ := h.pathNear edge.target List.mem_cons_self
  refine ⟨edge :: path, hreached, ⟨hedge, rfl, hpath⟩, fun other shorter hshorter hless => ?_⟩
  rw [List.length_cons, hlength] at hless
  have hfound := h.covered other shorter hshorter (Nat.le_of_lt_succ hless)
  refine h.unreached other ?_
  rw [← List.append_assoc]
  exact List.mem_append_left _ hfound

theorem length_le (h : flow.Searched document origin distance passed near far) :
    (passed ++ (near ++ far)).length ≤ (flow.run document).walkBound := by
  have hsub : passed ++ (near ++ far) ⊆ origin :: flow.plan.edges.map Edge.source := by
    intro id hid
    rcases h.found id hid with rfl | ⟨edge, hedge, rfl⟩
    · exact List.mem_cons_self
    · exact List.mem_cons_of_mem _ (List.mem_map.mpr ⟨edge, hedge, rfl⟩)
  have hlength := h.nodup.length_le_of_subset hsub
  rw [List.length_cons, List.length_map] at hlength
  rwa [Outcome.walkBound, length_edges_run]

end Searched

/-! ### The search -/

/-- The edges into a vertex from vertices that are not found yet. -/
def freshInto (flow : Flow) (document : Document) (visited : List String) (vertex : String) :
    List JudgedEdge :=
  (flow.run document).edges.filter fun edge => edge.target = vertex && edge.source ∉ visited

theorem mem_edges_of_freshInto {visited : List String} {edge : JudgedEdge}
    (h : edge ∈ flow.freshInto document visited vertex) :
    edge.toEdge ∈ flow.plan.edges ∧ edge.target = vertex := by
  rw [freshInto, List.mem_filter, Bool.and_eq_true, decide_eq_true_eq] at h
  exact ⟨toEdge_mem_edges h.1, h.2.1⟩

theorem mem_sources_freshInto {visited : List String} :
    id ∈ ((flow.freshInto document visited vertex).map (·.source)).eraseDups ↔
      id ∉ visited ∧ ∃ edge ∈ flow.plan.edges, edge.target = vertex ∧ edge.source = id := by
  rw [List.mem_eraseDups, List.mem_map, ← map_toEdge_run flow document]
  simp only [freshInto, List.mem_filter, Bool.and_eq_true, decide_eq_true_eq, List.mem_map]
  constructor
  · rintro ⟨edge, ⟨hedge, htarget, hfresh⟩, rfl⟩
    exact ⟨hfresh, _, ⟨edge, hedge, rfl⟩, htarget, rfl⟩
  · rintro ⟨hfresh, _, ⟨edge, hedge, rfl⟩, htarget, rfl⟩
    exact ⟨edge, ⟨hedge, htarget, hfresh⟩, rfl⟩

theorem searchBack_cons (fuel : Nat) (visited queue : List String) (vertex : String) :
    (flow.run document).searchBack (fuel + 1) visited (vertex :: queue) =
      match (flow.freshInto document visited vertex).find? (flow.run document).endsBack with
      | some edge => (flow.run document).backTo edge
      | none =>
        let sources := ((flow.freshInto document visited vertex).map (·.source)).eraseDups
        (flow.run document).searchBack fuel (visited ++ sources) (queue ++ sources) := rfl

theorem nodup_eraseDups (ids : List String) : ids.eraseDups.Nodup := by
  induction hn : ids.length using Nat.strong_induction_on generalizing ids with
  | _ n ih =>
    subst hn
    cases ids with
    | nil => simp
    | cons id rest =>
      rw [List.eraseDups_cons, List.nodup_cons]
      refine ⟨by simp [List.mem_eraseDups], ih _ ?_ _ rfl⟩
      exact Nat.lt_succ_of_le (List.length_filter_le _ _)

theorem endsBack_eq (hsound : Sound flow.plan.kinds flow.plan.edges) {edge : JudgedEdge}
    (hedge : edge.toEdge ∈ flow.plan.edges) :
    (flow.run document).endsBack edge = (flow.run document).isReached edge.source := by
  have hkind := hsound.sourceKind edge.toEdge hedge
  unfold Outcome.endsBack
  by_cases hstart : edge.source = startId
  · simp [hstart, isReached_start]
  · cases hsourceKind : edge.sourceKind with
    | start =>
      rw [hsourceKind] at hkind
      exact absurd ((hsound.startKind _).mp hkind) hstart
    | finish =>
      rw [hsourceKind] at hkind
      exact absurd ((hsound.finishKind _).mp hkind) (hsound.source_ne_end _ hedge)
    | sectionVertex => simp [hstart]
    | decision => simp [hstart]

theorem Searched.exists_closed (h : flow.Searched document origin distance passed [] []) :
    ∃ all : List String, origin ∈ all ∧ (∀ id ∈ all, (flow.run document).isReached id = false) ∧
      ∀ edge ∈ flow.plan.edges, edge.target ∈ all → edge.source ∈ all := by
  have horigin := h.covered origin [] rfl (Nat.zero_le _)
  have hunreached := h.unreached
  have hclosed := h.closed
  simp only [List.append_nil] at horigin hunreached hclosed
  exact ⟨passed, horigin, hunreached, hclosed⟩

/-- A search ends at a nearest vertex that is reached, unless no way back comes to one. -/
theorem Searched.search (hsound : Sound flow.plan.kinds flow.plan.edges) {fuel : Nat}
    (h : flow.Searched document origin distance passed near far)
    (hfuel : fuel + passed.length = (flow.run document).walkBound) :
    (∃ edge : JudgedEdge, edge.toEdge ∈ flow.plan.edges ∧
      (∃ path, flow.IsNearest document edge.source origin path) ∧
      (flow.run document).searchBack fuel (passed ++ (near ++ far)) (near ++ far) =
        (flow.run document).backTo edge) ∨
    ∃ all : List String, origin ∈ all ∧ (∀ id ∈ all, (flow.run document).isReached id = false) ∧
      ∀ edge ∈ flow.plan.edges, edge.target ∈ all → edge.source ∈ all := by
  induction fuel generalizing distance passed near far with
  | zero =>
    -- as many turns have been as there may be vertices
    have hlength := h.length_le
    rw [← hfuel, List.length_append, Nat.zero_add] at hlength
    have hwaiting : near ++ far = [] := List.length_eq_zero_iff.mp (by omega)
    obtain ⟨rfl, rfl⟩ := List.append_eq_nil_iff.mp hwaiting
    exact Or.inr h.exists_closed
  | succ fuel ih =>
    by_cases hwaiting : near ++ far = []
    · obtain ⟨rfl, rfl⟩ := List.append_eq_nil_iff.mp hwaiting
      exact Or.inr h.exists_closed
    · obtain ⟨distance, vertex, near, far, hqueue, h⟩ := h.exists_next hwaiting
      rw [hqueue, searchBack_cons]
      split
      · next edge hfound =>
        obtain ⟨hedge, htarget⟩ := mem_edges_of_freshInto (List.mem_of_find?_eq_some hfound)
        have hreached := List.find?_some hfound
        rw [endsBack_eq hsound hedge] at hreached
        exact Or.inl ⟨edge, hedge, h.isNearest hedge htarget hreached, rfl⟩
      · next hnone =>
        have hunreached : ∀ id ∈ ((flow.freshInto document (passed ++ vertex :: (near ++ far))
            vertex).map (·.source)).eraseDups, (flow.run document).isReached id = false := by
          intro id hid
          rw [List.mem_eraseDups, List.mem_map] at hid
          obtain ⟨edge, hfresh, rfl⟩ := hid
          rw [← endsBack_eq hsound (mem_edges_of_freshInto hfresh).1, ← Bool.not_eq_true]
          exact List.find?_eq_none.mp hnone edge hfresh
        have hnext := h.pass (nodup_eraseDups _) (fun _ => mem_sources_freshInto) hunreached
        have hturns : fuel + (passed ++ [vertex]).length = (flow.run document).walkBound := by
          rw [← hfuel, List.length_append, List.length_singleton]
          omega
        simpa using ih hnext hturns

/-! ### Every way back comes to a vertex that is reached -/

theorem isReached_of_isBeforeStart (hbefore : IsBeforeStart flow.plan.edges id) :
    (flow.run document).isReached id = true := by
  rw [← map_toEdge_run flow document] at hbefore
  exact isReached_iff.mpr (Or.inr (Or.inr hbefore))

theorem leads_iff {form : Form} (h : Plan.Makes form flow.plan) {source target : String} :
    Leads form.edges source target ↔
      ∃ edge ∈ flow.plan.edges, edge.source = source ∧ edge.target = target := by
  constructor
  · rintro ⟨edge, hedge, rfl, rfl⟩
    exact ⟨_, (mem_orderEdges h.edges).mpr ⟨edge, hedge, rfl⟩, by simp, by simp⟩
  · rintro ⟨edge, hedge, rfl, rfl⟩
    obtain ⟨original, horiginal, rfl⟩ := (mem_orderEdges h.edges).mp hedge
    exact ⟨original, horiginal, by simp, by simp⟩

theorem exists_way_of_isOnRoute {form : Form} (h : Plan.Makes form flow.plan)
    (hid : form.IsOnRoute id) : ∃ first,
      (first = startId ∨ IsBeforeStart flow.plan.edges first) ∧
        Relation.ReflTransGen (Leads form.edges) first id := by
  rcases hid with rfl | hid
  · exact ⟨startId, Or.inl rfl, .refl⟩
  · have hform := (Form.checkRoute_eq_ok_iff.mp h.kinds).1
    obtain ⟨place, _, _, hplace⟩ := exists_place h.edges
    rcases exists_way_to hform hplace hid with hway | ⟨first, _, hstart, hway⟩
    · exact ⟨startId, Or.inl rfl, hway⟩
    · exact ⟨first, Or.inr ((leads_iff h).mp hstart), hway⟩

theorem exists_way_of_isVertex {form : Form} (h : Plan.Makes form flow.plan)
    (hvertex : (flow.run document).isVertex id = true) : ∃ first,
      (first = startId ∨ IsBeforeStart flow.plan.edges first) ∧
        Relation.ReflTransGen (Leads form.edges) first id := by
  have hform := (Form.checkRoute_eq_ok_iff.mp h.kinds).1
  simp only [Outcome.isVertex, Route.isVertex, List.any_eq_true, Bool.or_eq_true,
    decide_eq_true_eq] at hvertex
  obtain ⟨judged, hjudged, hend⟩ := hvertex
  have hleads : Leads form.edges judged.source judged.target :=
    (leads_iff h).mpr ⟨_, toEdge_mem_edges hjudged, rfl, rfl⟩
  have hsource : form.IsOnRoute judged.source := by
    obtain ⟨edge, hmem, hsource, _⟩ := hleads
    exact hsource ▸ (hform.source edge hmem).symm
  obtain ⟨first, hfirst, hway⟩ := exists_way_of_isOnRoute h hsource
  rcases hend with rfl | rfl
  · exact ⟨first, hfirst, hway⟩
  · exact ⟨first, hfirst, hway.tail hleads⟩

theorem mem_of_way {form : Form} (h : Plan.Makes form flow.plan) {all : List String}
    (hclosed : ∀ edge ∈ flow.plan.edges, edge.target ∈ all → edge.source ∈ all) {first : String}
    (hway : Relation.ReflTransGen (Leads form.edges) first id) (hid : id ∈ all) : first ∈ all := by
  induction hway using Relation.ReflTransGen.head_induction_on with
  | refl => exact hid
  | head hleads _ ih =>
    obtain ⟨edge, hedge, rfl, rfl⟩ := (leads_iff h).mp hleads
    exact hclosed edge hedge ih

theorem exists_reached_of_closed (h : Plan.ofDocument config = .ok flow.plan)
    (hvertex : (flow.run document).isVertex origin = true) {all : List String}
    (horigin : origin ∈ all)
    (hclosed : ∀ edge ∈ flow.plan.edges, edge.target ∈ all → edge.source ∈ all) :
    ∃ id ∈ all, (flow.run document).isReached id = true := by
  obtain ⟨form, hmakes⟩ := Plan.exists_makes h
  obtain ⟨first, hfirst, hway⟩ := exists_way_of_isVertex hmakes hvertex
  refine ⟨first, mem_of_way hmakes hclosed hway horigin, ?_⟩
  rcases hfirst with rfl | hbefore
  · exact isReached_start
  · exact isReached_of_isBeforeStart hbefore

/-! ### The way back from what is not reached -/

theorem exists_nearest (h : Plan.ofDocument config = .ok flow.plan)
    (hvertex : (flow.run document).isVertex id = true)
    (hunreached : (flow.run document).isReached id = false) :
    ∃ edge : JudgedEdge, edge.toEdge ∈ flow.plan.edges ∧
      (∃ path, flow.IsNearest document edge.source id path) ∧
      (flow.run document).previous id = (flow.run document).backTo edge := by
  have hsound := sound_of_ofDocument h
  have hstart : id ≠ startId := by
    rintro rfl
    simp [isReached_start] at hunreached
  have hentered : ((flow.run document).edges.any fun edge =>
      edge.source = startId && edge.target = id && edge.active) = false := by
    rw [Bool.eq_false_iff]
    intro hentered
    simp only [List.any_eq_true, Bool.and_eq_true, decide_eq_true_eq] at hentered
    obtain ⟨⟨edge, active⟩, hmem, ⟨_, rfl⟩, rfl⟩ := hentered
    have hreached : (flow.run document).isReached edge.target = true :=
      isReached_target (mem_activeEdges.mpr hmem)
    simp [hreached] at hunreached
  have hprevious : (flow.run document).previous id =
      (flow.run document).searchBack (flow.run document).walkBound [id] [id] := by
    simp [Outcome.previous, hstart, hvertex, hentered, hunreached]
  rw [hprevious]
  rcases (Searched.start hunreached).search hsound rfl with hfound | ⟨all, hid, hnone, hclosed⟩
  · exact hfound
  · obtain ⟨other, hother, hreached⟩ := exists_reached_of_closed h hvertex hid hclosed
    simp [hnone other hother] at hreached

theorem withMessages_eq {result : SectionResult}
    (hresult : (flow.run document).section? id = some result) :
    (flow.run document).withMessages id =
      ⟨id, if result.messages = [] then none else some result.messages⟩ := by
  rw [Outcome.withMessages, hresult]
  obtain ⟨verdict, messages⟩ := result
  cases messages <;> rfl

/-- From a vertex that is not reached, an answer of the way back is that for a nearest vertex that
is. -/
theorem previous_of_unreached (h : Plan.ofDocument config = .ok flow.plan) (document : Document)
    (hvertex : (flow.run document).isVertex id = true)
    (hunreached : (flow.run document).isReached id = false) {destination : Destination}
    (hprevious : (flow.run document).previous id = some destination) :
    ∃ nearest path, flow.IsNearest document nearest id path ∧
      flow.AnswersFor document nearest destination := by
  have hsound := sound_of_ofDocument h
  obtain ⟨edge, hedge, ⟨path, hnearest⟩, hback⟩ := exists_nearest h hvertex hunreached
  refine ⟨edge.source, path, hnearest, ?_⟩
  rw [hback] at hprevious
  have hkind : flow.plan.kind? edge.source = some edge.sourceKind := hsound.sourceKind _ hedge
  unfold Outcome.backTo at hprevious
  split_ifs at hprevious with hstart hsection
  · obtain rfl := Option.some.inj hprevious
    rw [hstart]
    exact .start
  · obtain rfl := Option.some.inj hprevious
    obtain ⟨form, hform⟩ := Plan.exists_makes h
    rw [hsection] at hkind
    obtain ⟨result, hresult⟩ : ∃ result, (flow.run document).section? edge.source = some result :=
      exists_section? hform hkind
    rw [withMessages_eq hresult]
    exact .atSection hkind hresult
  · obtain ⟨source, hbehind, rfl⟩ := Option.map_eq_some_iff.mp hprevious
    obtain ⟨⟨_, hleg⟩, hstop⟩ := exists_leg_of_behind hsound hbehind
    refine .atDecision ?_ hleg hstop
    cases hsourceKind : edge.sourceKind with
    | start => exact absurd ((hsound.startKind _).mp (hsourceKind ▸ hkind)) hstart
    | finish =>
      exact absurd ((hsound.finishKind _).mp (hsourceKind ▸ hkind)) (hsound.source_ne_end _ hedge)
    | sectionVertex => exact absurd hsourceKind hsection
    | decision => exact hsourceKind ▸ hkind

/-- From `c` the decision `d` is the nearest vertex that is reached, two edges away, and it is
entered from `a`. -/
theorem previous_of_unreached_branching :
    (branching.run passingDocument).isVertex "c" = true ∧
      (branching.run passingDocument).isReached "c" = false ∧
      (branching.run passingDocument).previous "c" = some (.plain "a") ∧
      ∃ nearest path, branching.IsNearest passingDocument nearest "c" path ∧
        branching.AnswersFor passingDocument nearest (.plain "a") := by
  have hvertex : (branching.run passingDocument).isVertex "c" = true := by decide
  have hunreached : (branching.run passingDocument).isReached "c" = false := by decide
  have hprevious : (branching.run passingDocument).previous "c" = some (.plain "a") := by decide
  exact ⟨hvertex, hunreached, hprevious,
    previous_of_unreached plan_branching passingDocument hvertex hunreached hprevious⟩

end Flow

end FormFlow
