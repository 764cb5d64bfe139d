import FormFlow.Proofs.Flow.Inverse

/-!
# The end of the route

The route from a vertex ends at `END` or at the first section with messages (`EndsAt`), and it ends
at one of them only (`EndsAt.unique`). If a single edge leaves `START`, the active edges lead there
and no further, so from a vertex that is not reached the way forward leads to the end of the route,
with the messages of that section (`next_of_unreached`).
-/

namespace FormFlow

namespace Route.IsPath

variable {edges edges' path : List Edge} {source target other : String}

theorem restrict (h : IsPath edges source target path) (hmem : ∀ edge ∈ path, edge ∈ edges') :
    IsPath edges' source target path := by
  induction path generalizing source with
  | nil => exact h
  | cons first rest ih =>
    exact ⟨hmem first List.mem_cons_self, h.2.1,
      ih h.2.2 fun edge hedge => hmem edge (List.mem_cons_of_mem _ hedge)⟩

theorem target_eq (h : IsPath edges source target path)
    (hother : IsPath edges' source other path) : target = other := by
  induction path generalizing source with
  | nil => exact h.symm.trans hother
  | cons first rest ih => exact ih h.2.2 hother.2.2

end Route.IsPath

namespace Flow

open Route

variable {flow : Flow} {config document : Document} {id source target : String}
  {destination : Destination} {path walked : List Edge} {first : Edge}

/-- Where the route from a vertex ends: at `END`, or at the first section with messages, with these
messages. It leaves a section without messages by its edge, and a decision by the edge of its
output. -/
inductive EndsAt (flow : Flow) (document : Document) : String → Destination → Prop
  | finish : EndsAt flow document endId (.plain endId)
  | halt {id : String} {result : SectionResult}
      (hkind : flow.plan.kind? id = some .sectionVertex)
      (hresult : (flow.run document).section? id = some result) (hmessages : result.messages ≠ []) :
      EndsAt flow document id ⟨id, some result.messages⟩
  | onward {edge : Edge} {destination : Destination} (hedge : edge ∈ flow.plan.edges)
      (hkind : flow.plan.kind? edge.source = some .sectionVertex)
      (hclear : flow.IsClear document edge.source)
      (hrest : EndsAt flow document edge.target destination) :
      EndsAt flow document edge.source destination
  | branch {edge : Edge} {decision : Plan.Decision} {destination : Destination}
      (hedge : edge ∈ flow.plan.edges) (hdecision : decision ∈ flow.plan.decisions)
      (hid : decision.id = edge.source)
      (hchosen : edge.condition =
        some (decision.output.holds (flow.scope (flow.prune document) none)))
      (hrest : EndsAt flow document edge.target destination) :
      EndsAt flow document edge.source destination

/-! ### The route and the walk -/

theorem withMessages_of_messages {result : SectionResult}
    (hresult : (flow.run document).section? id = some result) (hmessages : result.messages ≠ []) :
    (flow.run document).withMessages id = ⟨id, some result.messages⟩ := by
  obtain ⟨verdict, messages⟩ := result
  obtain ⟨message, rest, rfl⟩ := List.exists_cons_of_ne_nil hmessages
  rw [Outcome.withMessages, hresult]

theorem withMessages_end (h : Plan.ofDocument config = .ok flow.plan) :
    (flow.run document).withMessages endId = .plain endId := by
  obtain ⟨form, hform⟩ := Plan.exists_makes h
  have hnone : (flow.run document).section? endId = none := by
    rw [section?_eq_none_iff hform]
    intro hkind
    exact (kind?_ne_of_section (sound_of_makes hform) hkind).2 rfl
  rw [Outcome.withMessages, hnone]

/-- The route from a vertex is the walk from it, and it ends with the messages of its last one. -/
theorem EndsAt.exists_walks (h : Plan.ofDocument config = .ok flow.plan)
    (hends : flow.EndsAt document id destination) :
    destination = (flow.run document).withMessages destination.id ∧
      ∃ walked, Walks flow.plan.kinds flow.plan.edges (flow.shownJudgement document) id walked ∧
        IsPath flow.plan.edges id destination.id walked := by
  obtain ⟨form, hform⟩ := Plan.exists_makes h
  induction hends with
  | finish => exact ⟨(withMessages_end h).symm, [], .finish, rfl⟩
  | halt hkind hresult hmessages =>
    exact ⟨(withMessages_of_messages hresult hmessages).symm, [],
      .halt hkind ((shownJudgement_invalid_iff h hkind).mpr ⟨_, hresult, hmessages⟩), rfl⟩
  | onward hedge hkind hclear _ ih =>
    obtain ⟨hmessages, walked, hwalked, hpath⟩ := ih
    exact ⟨hmessages, _, .onward hedge hkind (shownJudgement_valid_iff.mpr hclear) hwalked,
      hedge, rfl, hpath⟩
  | branch hedge hdecision hid hchosen _ ih =>
    obtain ⟨hmessages, walked, hwalked, hpath⟩ := ih
    have hkind := (Plan.kind?_eq_decision_iff hform).mpr ⟨_, hdecision, hid⟩
    rw [← output_shownJudgement hform hdecision, hid] at hchosen
    exact ⟨hmessages, _, .branch hedge hkind hchosen hwalked, hedge, rfl, hpath⟩

theorem exists_endsAt_of_walks (h : Plan.ofDocument config = .ok flow.plan)
    (hwalked : Walks flow.plan.kinds flow.plan.edges (flow.shownJudgement document) id walked) :
    ∃ destination, flow.EndsAt document id destination := by
  obtain ⟨form, hform⟩ := Plan.exists_makes h
  induction hwalked with
  | finish => exact ⟨_, .finish⟩
  | halt hkind hinvalid =>
    obtain ⟨result, hresult, hmessages⟩ := (shownJudgement_invalid_iff h hkind).mp hinvalid
    exact ⟨_, .halt hkind hresult hmessages⟩
  | onward hedge hkind hvalid _ ih =>
    exact ih.imp fun _ => .onward hedge hkind (shownJudgement_valid_iff.mp hvalid)
  | branch hedge hkind hchosen _ ih =>
    obtain ⟨decision, hdecision, hid⟩ := (Plan.kind?_eq_decision_iff hform).mp hkind
    rw [← hid, output_shownJudgement hform hdecision] at hchosen
    exact ih.imp fun _ => .branch hedge hdecision hid hchosen

theorem EndsAt.unique (h : Plan.ofDocument config = .ok flow.plan) {other : Destination}
    (hends : flow.EndsAt document id destination) (hother : flow.EndsAt document id other) :
    other = destination := by
  obtain ⟨hmessages, walked, hwalked, hpath⟩ := hends.exists_walks h
  obtain ⟨hmessages', walked', hwalked', hpath'⟩ := hother.exists_walks h
  obtain rfl := hwalked.unique (sound_of_ofDocument h) hwalked'
  rw [hmessages, hmessages', hpath.target_eq hpath']

theorem EndsAt.stops (h : Plan.ofDocument config = .ok flow.plan)
    (hends : flow.EndsAt document id destination) :
    (flow.plan.kind? destination.id = some .sectionVertex ∨ destination.id = endId) ∧
      ∀ edge ∈ activeEdges (flow.run document).edges, edge.source ≠ destination.id := by
  induction hends with
  | finish =>
    exact ⟨.inr rfl, fun edge hedge =>
      (sound_of_ofDocument h).source_ne_end edge (mem_edges_of_active hedge)⟩
  | halt hkind hresult hmessages =>
    refine ⟨.inl hkind, fun edge hedge hsource => ?_⟩
    have hclear := (leadsOn_of_active h hedge).1 (hsource ▸ hkind)
    exact (hsource ▸ hclear).not_hasMessages ⟨_, hresult, hmessages⟩
  | onward _ _ _ _ ih => exact ih
  | branch _ _ _ _ _ ih => exact ih

/-! ### As far as active edges lead -/

theorem furthestFrom_eq (hsound : Sound flow.plan.kinds flow.plan.edges)
    (hsingle : ∀ edge ∈ activeEdges (flow.run document).edges,
      ∀ other ∈ activeEdges (flow.run document).edges, edge.source = other.source → edge = other)
    (hstop : flow.plan.kind? target = some .sectionVertex ∨ target = endId)
    (hlast : ∀ edge ∈ activeEdges (flow.run document).edges, edge.source ≠ target)
    (hpath : IsPath (activeEdges (flow.run document).edges) source target path)
    {fuel : Nat} (hfuel : path.length < fuel) {furthest : String}
    (hfurthest : path = [] → furthest = target) :
    (flow.run document).furthestFrom fuel source furthest = target := by
  have hcourse : Way.onward.Course (flow.run document).edges source path target := by
    refine ⟨Way.passes_of_isPath hsingle hpath, fun found hfound => ?_⟩
    cases (firstActive?_eq_none_iff.mpr hlast).symm.trans hfound
  rw [Outcome.furthestFrom_eq_lastStop _ hcourse hfuel]
  rcases List.eq_nil_or_concat path with rfl | ⟨front, edge, rfl⟩
  · exact hfurthest rfl
  · rw [List.concat_eq_append] at hpath ⊢
    obtain ⟨_, _, hedge, rfl, rfl⟩ := IsPath.append_iff.mp hpath
    exact lastStop_concat ((stops_ahead_iff hsound hedge).mpr hstop) front furthest

theorem exists_furthest_eq (h : Plan.ofDocument config = .ok flow.plan)
    (hfirst : flow.plan.edges.filter (·.source = startId) = [first]) (document : Document)
    (hbefore : ∀ edge ∈ flow.plan.edges, edge.target = startId →
      flow.plan.kind? edge.source = some .sectionVertex → flow.IsClear document edge.source) :
    ∃ destination, flow.EndsAt document first.target destination ∧
      (flow.run document).furthest = destination.id := by
  have hsound := sound_of_ofDocument h
  obtain ⟨walked, hwalked, hactive⟩ :=
    activeForward_judge hsound hfirst (valid_before_start hsound hbefore)
  rw [← edges_run] at hactive
  obtain ⟨destination, hends⟩ := exists_endsAt_of_walks h hwalked
  obtain ⟨_, walked', hwalked', hroute⟩ := hends.exists_walks h
  obtain rfl := hwalked.unique hsound hwalked'
  obtain ⟨hstop, hlast⟩ := hends.stops h
  have hmem : ∀ edge ∈ first :: walked, edge ∈ activeEdges (flow.run document).edges := by
    rw [← hactive]
    exact fun edge hedge => List.mem_of_mem_filter hedge
  have hsource : first.source = startId := by
    have hstarts : first ∈ flow.plan.edges.filter (·.source = startId) := by simp [hfirst]
    simpa using (List.mem_filter.mp hstarts).2
  have hpath : IsPath (activeEdges (flow.run document).edges) startId destination.id
      (first :: walked) :=
    ⟨hmem first List.mem_cons_self, hsource,
      hroute.restrict fun edge hedge => hmem edge (List.mem_cons_of_mem _ hedge)⟩
  exact ⟨destination, hends, furthestFrom_eq hsound (eq_of_active_source hsound hfirst document)
    hstop hlast hpath (length_lt_walkBound hsound hpath) (by simp)⟩

/-- With a single edge that leaves `START`, and no section with messages before `START`, the route
from `START` has one end, and from every vertex but `END` that is not reached the way forward leads
to it. -/
theorem next_of_unreached (h : Plan.ofDocument config = .ok flow.plan)
    (hfirst : flow.plan.edges.filter (·.source = startId) = [first]) (document : Document)
    (hbefore : ∀ edge ∈ flow.plan.edges, edge.target = startId →
      flow.plan.kind? edge.source = some .sectionVertex → flow.IsClear document edge.source) :
    ∃ destination, flow.EndsAt document first.target destination ∧
      (∀ other, flow.EndsAt document first.target other → other = destination) ∧
      ∀ id, (flow.run document).isVertex id = true → (flow.run document).isReached id = false →
        id ≠ endId → (flow.run document).next id = some destination := by
  obtain ⟨destination, hends, hfurthest⟩ := exists_furthest_eq h hfirst document hbefore
  refine ⟨destination, hends, fun other hother => hends.unique h hother, ?_⟩
  intro id hvertex hreached hend
  have hstart : id ≠ startId := by
    rintro rfl
    simp [isReached_start] at hreached
  have hmessages := (hends.exists_walks h).1
  rw [Outcome.next, if_neg hend, if_neg hstart, hvertex, hreached, hfurthest, ← hmessages]
  rfl

/-- From `c` behind `b`, the way forward leads back to `b` and its message: the route leaves `a` and
then the decision `d` by its output. With the other output it leads from `c` to `END`. -/
theorem next_of_unreached_branching :
    (branching.EndsAt branchingDocument "a" ⟨"b", some [⟨"b.name", "name is required"⟩]⟩ ∧
      (branching.run branchingDocument).isReached "c" = false ∧
      (branching.run branchingDocument).next "c" =
        some ⟨"b", some [⟨"b.name", "name is required"⟩]⟩) ∧
    branching.EndsAt passingDocument "a" (.plain endId) ∧
      (branching.run passingDocument).isReached "c" = false ∧
      (branching.run passingDocument).next "c" = some (.plain endId) := by
  have honward : (⟨"a", "d", none, .sectionVertex, .decision⟩ : Edge) ∈ branching.plan.edges := by
    decide
  have hyes : (⟨"d", "b", some true, .decision, .sectionVertex⟩ : Edge) ∈
      branching.plan.edges := by decide
  have hno : (⟨"d", "END", some false, .decision, .finish⟩ : Edge) ∈ branching.plan.edges := by
    decide
  have hdecision : (⟨"d", .reference [.key "a", .key "on"], []⟩ : Plan.Decision) ∈
      branching.plan.decisions := List.mem_cons_self
  have hresult : (branching.run branchingDocument).section? "b" =
      some ⟨.invalid, [⟨"b.name", "name is required"⟩]⟩ := rfl
  have hends : branching.EndsAt branchingDocument "a"
      ⟨"b", some [⟨"b.name", "name is required"⟩]⟩ :=
    .onward honward rfl ⟨_, rfl, rfl⟩
      (.branch hyes hdecision rfl rfl (.halt rfl hresult (List.cons_ne_nil _ _)))
  have hends' : branching.EndsAt passingDocument "a" (.plain endId) :=
    .onward honward rfl ⟨_, rfl, rfl⟩ (.branch hno hdecision rfl rfl .finish)
  obtain ⟨destination, -, hunique, hnext⟩ := next_of_unreached plan_branching first_branching
    branchingDocument (isClear_before_branching ⟨⟨.valid, []⟩, rfl, rfl⟩)
  obtain ⟨destination', -, hunique', hnext'⟩ := next_of_unreached plan_branching first_branching
    passingDocument (isClear_before_branching ⟨⟨.valid, []⟩, rfl, rfl⟩)
  obtain rfl := hunique _ hends
  obtain rfl := hunique' _ hends'
  exact ⟨⟨hends, by decide, hnext "c" (by decide) (by decide) (by decide)⟩,
    hends', by decide, hnext' "c" (by decide) (by decide) (by decide)⟩

end Flow

end FormFlow
