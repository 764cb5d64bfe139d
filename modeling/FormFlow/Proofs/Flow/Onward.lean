import FormFlow.Proofs.Flow.Inverse

/-!
# Where the way forward is held up

From a vertex of the route there is a way forward unless it is held up (`next_eq_none_iff`): the
walk comes to a section or decision whose chosen edge stands behind the frontier. With a single edge
that leaves `START`, and no section with messages before `START`, nothing is ever held up. Several
edges at `START` may enter sections beyond the frontier (`not_proceeds`).

No edge enters a decision before `START`, so it is left by its edge into `START` or not at all.
Where its output is the other one it is turned away.
-/

namespace FormFlow

/-- A walk comes to a vertex by the first active edge of each that it passes, `START` or a
decision. -/
inductive Route.ComesTo (judged : List Route.JudgedEdge) : String → String → Prop
  | here (id : String) : ComesTo judged id id
  | onward {id last : String} {edge : Route.JudgedEdge}
      (hedge : Route.activeFrom? judged id = some edge)
      (hpassed : edge.targetKind = .start ∨ edge.targetKind = .decision)
      (hrest : ComesTo judged edge.target last) : ComesTo judged id last

namespace Flow

open Route

variable {flow : Flow} {config document : Document} {id last : String} {edge : Edge}

/-! ### Where a walk comes to an end -/

theorem comesTo_iff {judged : List JudgedEdge} :
    ComesTo judged id last ↔ ∃ path, Way.ahead.Passes judged id path last := by
  have hpassed (edge : Edge) :
      Way.ahead.stops edge = false ↔ edge.targetKind = .start ∨ edge.targetKind = .decision := by
    cases hkind : edge.targetKind <;> simp [Way.stops, hkind]
  constructor
  · intro hcomes
    induction hcomes with
    | here id => exact ⟨[], .here id⟩
    | onward hedge hstart _ ih =>
      obtain ⟨path, hpasses⟩ := ih
      exact ⟨_, .step hedge ((hpassed _).mpr hstart) hpasses⟩
  · rintro ⟨path, hpasses⟩
    induction hpasses with
    | here id => exact .here id
    | step hfound hgoes _ ih => exact .onward hfound ((hpassed _).mp hgoes) ih

theorem ahead_eq_none_iff (hsound : Sound flow.plan.kinds flow.plan.edges) :
    (flow.run document).ahead (flow.run document).walkBound id = none ↔
      ∃ last, ComesTo (flow.run document).edges id last ∧
        activeFrom? (flow.run document).edges last = none := by
  obtain ⟨path, last, hcourse, hlength⟩ := exists_course hsound .ahead document id
  rw [(Outcome.isWalk_ahead _).eq_of_course hcourse hlength, Option.map_eq_none_iff]
  constructor
  · intro hnone
    exact ⟨last, comesTo_iff.mpr ⟨path, hcourse.passes⟩, hnone⟩
  · rintro ⟨last', hcomes, hnone⟩
    obtain ⟨path', hpasses⟩ := comesTo_iff.mp hcomes
    have hcourse' : Way.ahead.Course (flow.run document).edges id path' last' := by
      refine ⟨hpasses, fun found hfound => ?_⟩
      cases hnone.symm.trans hfound
    obtain ⟨rfl, rfl⟩ := hcourse.unique hcourse'
    exact hnone

/-! ### What an open vertex leads on by -/

theorem IsOpen.isClear (hopen : flow.IsOpen document id)
    (h : Plan.ofDocument config = .ok flow.plan)
    (hkind : flow.plan.kind? id = some .sectionVertex) : flow.IsClear document id := by
  have hstart := (kind?_ne_of_section (sound_of_ofDocument h) hkind).1
  rw [← shownJudgement_valid_iff, ← Bool.not_eq_false, shownJudgement_invalid_iff h hkind]
  exact (hopen.resolve_left hstart).2

theorem isVertex_iff (hsound : Sound flow.plan.kinds flow.plan.edges) (hend : id ≠ endId) :
    (flow.run document).isVertex id = true ↔ ∃ kind, flow.plan.kind? id = some kind := by
  have hedges : (flow.run document).isVertex id = true ↔
      ∃ edge ∈ (flow.run document).edges.map JudgedEdge.toEdge,
        edge.source = id ∨ edge.target = id := by
    simp [Outcome.isVertex, Route.isVertex]
  rw [hedges, map_toEdge_run]
  constructor
  · rintro ⟨edge, hedge, rfl | rfl⟩
    · exact ⟨_, hsound.sourceKind edge hedge⟩
    · exact ⟨_, hsound.targetKind edge hedge⟩
  · rintro ⟨kind, hkind⟩
    obtain ⟨edge, hedge, hsource, _⟩ :=
      hsound.exists_onward (flow.shownJudgement document) hkind hend
    exact ⟨edge, hedge, Or.inl hsource⟩

theorem IsOpen.exists_kind (hopen : flow.IsOpen document id)
    (hsound : Sound flow.plan.kinds flow.plan.edges) (hend : id ≠ endId) :
    ∃ kind, flow.plan.kind? id = some kind := by
  rcases hopen with rfl | ⟨hreached, _⟩
  · exact ⟨.start, (hsound.startKind startId).mpr rfl⟩
  · by_cases hstart : id = startId
    · exact ⟨.start, (hsound.startKind id).mpr hstart⟩
    · exact (isVertex_iff hsound hend).mp (isVertex_of_isReached hreached hstart)

theorem exists_leadsOn (h : Plan.ofDocument config = .ok flow.plan)
    (hopen : flow.IsOpen document id) (hend : id ≠ endId) :
    ∃ edge ∈ flow.plan.edges, edge.source = id ∧ flow.LeadsOn document edge := by
  have hsound := sound_of_ofDocument h
  obtain ⟨kind, hkind⟩ := hopen.exists_kind hsound hend
  obtain ⟨edge, hedge, rfl, hchosen⟩ :=
    hsound.exists_onward (flow.shownJudgement document) hkind hend
  refine ⟨edge, hedge, rfl, hopen.isClear h, fun hdecision => ?_⟩
  have hchoice := hchosen (hsound.sourceKind_eq hedge hdecision)
  exact ((leadsOn_iff_chooses h hedge).mpr hchoice).2 hdecision

theorem eq_of_leadsOn (h : Plan.ofDocument config = .ok flow.plan) {other : Edge}
    (hedge : edge ∈ flow.plan.edges) (hother : other ∈ flow.plan.edges)
    (hleads : flow.LeadsOn document edge) (hleads' : flow.LeadsOn document other)
    (hsource : edge.source = other.source) (hstart : edge.source ≠ startId) : edge = other :=
  (sound_of_ofDocument h).eq_of_chosen
    (List.mem_filter.mpr ⟨hedge, (leadsOn_iff_chooses h hedge).mp hleads⟩)
    (List.mem_filter.mpr ⟨hother, (leadsOn_iff_chooses h hother).mp hleads'⟩) hsource hstart

theorem activeFrom?_eq_none_iff (h : Plan.ofDocument config = .ok flow.plan)
    (hedge : edge ∈ flow.plan.edges) (hstart : edge.source ≠ startId)
    (hleads : flow.LeadsOn document edge) :
    activeFrom? (flow.run document).edges edge.source = none ↔
      edge ∉ activeEdges (flow.run document).edges := by
  rw [activeFrom?_eq, firstActive?_eq_none_iff]
  refine ⟨fun hnone hmem => hnone edge hmem rfl, fun hnot other hother hsource => hnot ?_⟩
  have hsame : edge = other := eq_of_leadsOn h hedge (mem_edges_of_active hother) hleads
    (leadsOn_of_active h hother) hsource.symm hstart
  exact hsame ▸ hother

theorem isOpen_of_comesTo (h : Plan.ofDocument config = .ok flow.plan)
    (hcomes : ComesTo (flow.run document).edges id last) (hopen : flow.IsOpen document id) :
    flow.IsOpen document last := by
  induction hcomes with
  | here => exact hopen
  | onward hedge hpassed _ ih =>
    refine ih ?_
    have hsound := sound_of_ofDocument h
    have hactive := (mem_of_firstActive? (activeFrom?_eq ▸ hedge)).1
    have hkind := kind?_target hsound hactive
    rcases hpassed with hstart | hdecision
    · rw [hstart] at hkind
      exact Or.inl ((hsound.startKind _).mp hkind)
    · refine Or.inr ⟨isReached_target hactive, ?_⟩
      rintro ⟨result, hresult, _⟩
      obtain ⟨form, hform⟩ := Plan.exists_makes h
      rw [kind?_of_section? hform hresult, hdecision] at hkind
      simp at hkind

theorem ne_end_of_comesTo (hsound : Sound flow.plan.kinds flow.plan.edges)
    (hcomes : ComesTo (flow.run document).edges id last) (hend : id ≠ endId) : last ≠ endId := by
  induction hcomes with
  | here => exact hend
  | onward hedge hpassed _ ih =>
    refine ih fun htarget => ?_
    have hkind := kind?_target hsound (mem_of_firstActive? (activeFrom?_eq ▸ hedge)).1
    rw [Plan.kind?, (hsound.finishKind _).mpr htarget, Option.some.injEq] at hkind
    rcases hpassed with hstart | hdecision
    · simp [hstart] at hkind
    · simp [hdecision] at hkind

/-! ### Behind the frontier -/

/-- In the order of evaluation an edge stands behind that of a reached section with messages. -/
def IsBehindFrontier (flow : Flow) (document : Document) (edge : Edge) : Prop :=
  ∃ front back, flow.plan.edges = front ++ edge :: back ∧
    ∃ other ∈ front, flow.plan.kind? other.source = some .sectionVertex ∧
      (flow.run document).isReached other.source = true ∧
      flow.HasMessages document other.source

/-- A decision before `START` whose output is not that of its edge into `START`. -/
def IsTurnedAway (flow : Flow) (document : Document) (id : String) : Prop :=
  flow.plan.kind? id = some .decision ∧ ∃ edge ∈ flow.plan.edges, edge.source = id ∧
    edge.target = startId ∧ ¬ flow.LeadsOn document edge

theorem beyondFrontier_iff_of_split (h : Plan.ofDocument config = .ok flow.plan)
    {front back : List Edge} (hsplit : flow.plan.edges = front ++ back) :
    (sweep (flow.shownJudgement document) front).beyondFrontier = true ↔
      ∃ other ∈ front, flow.plan.kind? other.source = some .sectionVertex ∧
        (flow.run document).isReached other.source = true ∧
        flow.HasMessages document other.source := by
  have hsound := sound_of_ofDocument h
  rw [hsound.beyondFrontier_iff hsplit]
  refine exists_congr fun other => and_congr_right fun hother => ?_
  have hkind : flow.plan.kind? other.source = some other.sourceKind :=
    hsound.sourceKind other (by simp [hsplit, hother])
  rw [hkind, Option.some.injEq]
  refine and_congr_right fun hsection => ?_
  rw [Outcome.isReached, edges_run, shownJudgement_invalid_iff h (hsection ▸ hkind)]

/-- A vertex that is left by an edge is entered there, unless it comes before `START` and is turned
away from it. -/
theorem entered_of_isOpen (h : Plan.ofDocument config = .ok flow.plan)
    (hopen : flow.IsOpen document edge.source) (hturned : ¬ flow.IsTurnedAway document edge.source)
    (hedge : edge ∈ flow.plan.edges) (hstart : edge.source ≠ startId)
    (hleads : flow.LeadsOn document edge) :
    edge.target = startId ∨
      ∃ earlier ∈ activeEdges (flow.run document).edges, earlier.target = edge.source := by
  have hsound := sound_of_ofDocument h
  rcases isReached_iff.mp (hopen.resolve_left hstart).1 with
    hid | hearlier | ⟨into, hinto, hsource, htarget⟩
  · exact absurd hid hstart
  · exact Or.inr hearlier
  · -- the edge into `START` is the one by which the vertex leads on
    left
    rw [map_toEdge_run] at hinto
    have hintoLeads : flow.LeadsOn document into := by
      refine ⟨fun hsection => ?_, fun hdecision => ?_⟩
      · rw [hsource] at hsection ⊢
        exact hopen.isClear h hsection
      · by_contra hother
        exact hturned ⟨hsource ▸ hdecision, into, hinto, hsource, htarget,
          fun hturn => hother (hturn.2 hdecision)⟩
    have hsame : edge = into :=
      eq_of_leadsOn h hedge hinto hleads hintoLeads hsource.symm hstart
    exact hsame ▸ htarget

/-- The chosen edge of a vertex that is not turned away is active unless it is behind the
frontier. -/
theorem isBehindFrontier_iff (h : Plan.ofDocument config = .ok flow.plan)
    (hopen : flow.IsOpen document edge.source) (hturned : ¬ flow.IsTurnedAway document edge.source)
    (hedge : edge ∈ flow.plan.edges) (hstart : edge.source ≠ startId)
    (hleads : flow.LeadsOn document edge) :
    flow.IsBehindFrontier document edge ↔
      activeFrom? (flow.run document).edges edge.source = none := by
  have hsound := sound_of_ofDocument h
  have hchosen : (flow.shownJudgement document).chooses edge = true :=
    (leadsOn_iff_chooses h hedge).mp hleads
  have hentered := entered_of_isOpen h hopen hturned hedge hstart hleads
  have hactive (front back : List Edge) (hsplit : flow.plan.edges = front ++ edge :: back) :
      edge ∈ activeEdges (flow.run document).edges ↔
        (sweep (flow.shownJudgement document) front).beyondFrontier = false := by
    rw [edges_run] at hentered ⊢
    rw [hsound.mem_activeEdges_iff hsplit hchosen hstart]
    exact and_iff_right hentered
  rw [activeFrom?_eq_none_iff h hedge hstart hleads]
  constructor
  · rintro ⟨front, back, hsplit, hother⟩
    rw [hactive front back hsplit, (beyondFrontier_iff_of_split h hsplit).mpr hother]
    simp
  · intro hnot
    obtain ⟨front, back, hsplit⟩ := List.append_of_mem hedge
    rw [hactive front back hsplit, Bool.not_eq_false] at hnot
    exact ⟨front, back, hsplit, (beyondFrontier_iff_of_split h hsplit).mp hnot⟩

/-! ### Held up -/

/-- From an open vertex the walk comes to one whose chosen edge stands behind the frontier. -/
structure IsHeldUp (flow : Flow) (document : Document) (id : String) : Prop where
  isOpen : flow.IsOpen document id
  behind : ∃ edge ∈ flow.plan.edges, edge.source ≠ startId ∧
    ComesTo (flow.run document).edges id edge.source ∧ flow.LeadsOn document edge ∧
      flow.IsBehindFrontier document edge

theorem activeFrom?_start_ne_none (hsound : Sound flow.plan.kinds flow.plan.edges) :
    activeFrom? (flow.run document).edges startId ≠ none := by
  obtain ⟨edge, hedge, hsource⟩ := hsound.started
  rw [activeFrom?_eq, edges_run]
  intro hnone
  exact firstActive?_eq_none_iff.mp hnone edge (hsound.mem_activeEdges_of_start hedge hsource)
    hsource

theorem eq_of_comesTo_isBeforeStart (hsound : Sound flow.plan.kinds flow.plan.edges)
    (hcomes : ComesTo (flow.run document).edges id last)
    (hbefore : IsBeforeStart flow.plan.edges last) : last = id := by
  induction hcomes with
  | here => rfl
  | onward hedge _ _ ih =>
    have hactive := (mem_of_firstActive? (activeFrom?_eq ▸ hedge)).1
    obtain rfl := ih hbefore
    exact absurd hbefore (hsound.not_isBeforeStart_target (mem_edges_of_active hactive))

theorem not_isTurnedAway_of_comesTo (hsound : Sound flow.plan.kinds flow.plan.edges)
    (hcomes : ComesTo (flow.run document).edges id last)
    (hturned : ¬ flow.IsTurnedAway document id) : ¬ flow.IsTurnedAway document last := by
  rintro ⟨hkind, edge, hedge, hsource, htarget, hother⟩
  obtain rfl := eq_of_comesTo_isBeforeStart hsound hcomes ⟨edge, hedge, hsource, htarget⟩
  exact hturned ⟨hkind, edge, hedge, hsource, htarget, hother⟩

theorem isHeldUp_iff (h : Plan.ofDocument config = .ok flow.plan)
    (hopen : flow.IsOpen document id) (hend : id ≠ endId)
    (hturned : ¬ flow.IsTurnedAway document id) :
    flow.IsHeldUp document id ↔ (flow.run document).next id = none := by
  have hsound := sound_of_ofDocument h
  rw [next_of_isOpen hopen hend, Option.map_eq_none_iff, ahead_eq_none_iff hsound]
  constructor
  · rintro ⟨_, edge, hedge, hstart, hcomes, hleads, hbehind⟩
    refine ⟨edge.source, hcomes, ?_⟩
    exact (isBehindFrontier_iff h (isOpen_of_comesTo h hcomes hopen)
      (not_isTurnedAway_of_comesTo hsound hcomes hturned) hedge hstart hleads).mp hbehind
  · rintro ⟨last, hcomes, hnone⟩
    have hopenLast := isOpen_of_comesTo h hcomes hopen
    have hstart : last ≠ startId := by
      rintro rfl
      exact activeFrom?_start_ne_none hsound hnone
    obtain ⟨edge, hedge, rfl, hleads⟩ :=
      exists_leadsOn h hopenLast (ne_end_of_comesTo hsound hcomes hend)
    exact ⟨hopen, edge, hedge, hstart, hcomes, hleads, (isBehindFrontier_iff h hopenLast
      (not_isTurnedAway_of_comesTo hsound hcomes hturned) hedge hstart hleads).mpr hnone⟩

/-! ### A single edge that leaves `START` -/

/-- Before `START` is left, the frontier is not passed, if no section with messages comes before
`START`. -/
theorem target_ne_start_of_isBehindFrontier (h : Plan.ofDocument config = .ok flow.plan)
    (hclear : ∀ edge ∈ flow.plan.edges, edge.target = startId →
      flow.plan.kind? edge.source = some .sectionVertex → flow.IsClear document edge.source)
    (hbehind : flow.IsBehindFrontier document edge) : edge.target ≠ startId := by
  have hsound := sound_of_ofDocument h
  intro htarget
  obtain ⟨front, back, hsplit, hother⟩ := hbehind
  have hunstarted : ∀ item ∈ front, item.source ≠ startId := by
    have hforward := hsound.forward
    rw [hsplit, List.pairwise_append] at hforward
    intro item hitem hsource
    exact hforward.2.2 item hitem edge List.mem_cons_self (htarget.trans hsource.symm)
  have hvalid : ∀ item ∈ front, item.target = startId → item.sourceKind = .sectionVertex →
      (flow.shownJudgement document).valid item.source = true := by
    intro item hitem hinto hkind
    have hmem : item ∈ flow.plan.edges := by simp [hsplit, hitem]
    exact shownJudgement_valid_iff.mpr
      (hclear item hmem hinto (hkind ▸ hsound.sourceKind item hmem))
  have hnot : (sweep (flow.shownJudgement document) front).beyondFrontier = false :=
    (activeForward_unstarted hunstarted hvalid rfl rfl).2
  rw [(beyondFrontier_iff_of_split h hsplit).mpr hother] at hnot
  simp at hnot

/-- With a single edge that leaves `START`, and no section with messages before `START`, nothing is
held up: the active edges that lead to a section with messages end there, and so do not lead past
it. -/
theorem not_isHeldUp (h : Plan.ofDocument config = .ok flow.plan) {first : Edge}
    (hfirst : flow.plan.edges.filter (·.source = startId) = [first])
    (hclear : ∀ edge ∈ flow.plan.edges, edge.target = startId →
      flow.plan.kind? edge.source = some .sectionVertex → flow.IsClear document edge.source)
    (hturned : ¬ flow.IsTurnedAway document id) : ¬ flow.IsHeldUp document id := by
  have hsound := sound_of_ofDocument h
  rintro ⟨hopen, edge, hedge, hstart, hcomes, hleads, hbehind⟩
  have hopenSource := isOpen_of_comesTo h hcomes hopen
  have hturnedSource := not_isTurnedAway_of_comesTo hsound hcomes hturned
  have hnone := (isBehindFrontier_iff h hopenSource hturnedSource hedge hstart hleads).mp hbehind
  rw [activeFrom?_eq, firstActive?_eq_none_iff] at hnone
  -- both the vertex held up and the section before the frontier are joined to `START`
  obtain ⟨earlier, hearlier, hlinked⟩ :=
    (entered_of_isOpen h hopenSource hturnedSource hedge hstart hleads).resolve_left
      (target_ne_start_of_isBehindFrontier h hclear hbehind)
  obtain ⟨path, hpath⟩ : ∃ path,
      IsPath (activeEdges (flow.run document).edges) startId edge.source path := by
    rw [edges_run] at hearlier ⊢
    rw [← hlinked]
    exact exists_active_path _ _ earlier hearlier (hlinked ▸ hstart)
  obtain ⟨front, back, hsplit, other, hother, hkind, hreached, hmessages⟩ := hbehind
  have hbefore : ∀ item ∈ flow.plan.edges, item.source = other.source → item.target ≠ startId := by
    intro item hitem hsource htarget
    rw [← hsource] at hkind hmessages
    exact (hclear item hitem htarget hkind).not_hasMessages hmessages
  obtain ⟨path', hpath'⟩ :=
    exists_path_of_isReached hreached (kind?_ne_of_section hsound hkind).1 hbefore
  have hne : edge.source ≠ other.source := by
    intro hsame
    exact (hopenSource.resolve_left hstart).2 (hsame ▸ hmessages)
  rcases hpath.continues (eq_of_active_source hsound hfirst document) hpath' with
    ⟨rest, _, hrest⟩ | ⟨rest, _, hrest⟩
  · obtain ⟨next, hnext, hsource⟩ := hrest.exists_source hne
    exact hnone next hnext hsource
  · obtain ⟨next, hnext, hsource⟩ := hrest.exists_source hne.symm
    rw [← hsource] at hkind hmessages
    exact ((leadsOn_of_active h hnext).1 hkind).not_hasMessages hmessages

/-- A decision that is turned away from `START` left aside, the way forward is missing at `END`, at
what is no vertex, and where it is held up. Nothing is held up with a single edge that leaves
`START` and no section with messages before `START`. -/
theorem next_eq_none_iff (h : Plan.ofDocument config = .ok flow.plan) (document : Document)
    (hturned : ¬ flow.IsTurnedAway document id) :
    ((flow.run document).next id = none ↔
      id = endId ∨ flow.plan.kind? id = none ∨ flow.IsHeldUp document id) ∧
    ∀ first, flow.plan.edges.filter (·.source = startId) = [first] →
      (∀ edge ∈ flow.plan.edges, edge.target = startId →
        flow.plan.kind? edge.source = some .sectionVertex → flow.IsClear document edge.source) →
      ¬ flow.IsHeldUp document id := by
  have hsound := sound_of_ofDocument h
  refine ⟨?_, fun first hfirst hclear => not_isHeldUp h hfirst hclear hturned⟩
  by_cases hend : id = endId
  · exact iff_of_true (next_eq_none_of_outside (Or.inl hend)) (Or.inl hend)
  · rw [or_iff_right hend]
    by_cases hopen : flow.IsOpen document id
    · obtain ⟨kind, hkind⟩ := hopen.exists_kind hsound hend
      rw [← isHeldUp_iff h hopen hend hturned, hkind]
      simp
    · rw [or_iff_left fun hheld => hopen hheld.isOpen]
      have hstart : id ≠ startId := fun hstart => hopen (Or.inl hstart)
      by_cases hvertex : (flow.run document).isVertex id = true
      · obtain ⟨destination, hnext, _⟩ := exists_next_of_not_isOpen h hopen hend hvertex
        obtain ⟨kind, hkind⟩ := (isVertex_iff hsound hend).mp hvertex
        simp [hnext, hkind]
      · have hnext : (flow.run document).next id = none :=
          next_eq_none_of_outside (Or.inr ⟨hstart, by simpa using hvertex⟩)
        have hkind : flow.plan.kind? id = none := by
          rw [isVertex_iff hsound hend] at hvertex
          exact Option.eq_none_iff_forall_ne_some.mpr fun kind hkind => hvertex ⟨kind, hkind⟩
        simp [hnext, hkind]

/-! A form with two edges that leave `START`. -/

def parallelForm : Document := .object [
  ("sections", .array [
    .object [("id", .text "a")],
    .object [("id", .text "b"), ("children", .array [
      .object [("id", .text "name"), ("type", .text "value"), ("required", .bool true)]])]]),
  ("edges", .array [
    .array [.text "START", .text "a"], .array [.text "START", .text "b"],
    .array [.text "a", .text "END"], .array [.text "b", .text "END"]])]

def parallelRead : Form := (Form.read parallelForm).toOption.getD ⟨[], [], [], []⟩

def parallelPlan : Plan where
  nodes := Plan.flattenAll .top 0 parallelRead.sections
  sections := [0, 1]
  decisions := []
  edges := [⟨"START", "a", none, .start, .sectionVertex⟩,
    ⟨"START", "b", none, .start, .sectionVertex⟩,
    ⟨"b", "END", none, .sectionVertex, .finish⟩, ⟨"a", "END", none, .sectionVertex, .finish⟩]
  derived := []
  kinds := [("a", .sectionVertex), ("b", .sectionVertex), ("START", .start), ("END", .finish)]
  guardOrder := []

theorem plan_parallelForm : Plan.ofDocument parallelForm = .ok parallelPlan := by
  have hedges : Route.orderEdges parallelPlan.kinds parallelRead.edges =
      .ok parallelPlan.edges := by cbv
  have horder : Plan.orderGuards parallelPlan.nodes = .ok [] := by cbv
  have hread : Form.read parallelForm = .ok parallelRead := rfl
  exact Plan.ofDocument_eq_ok hread rfl rfl hedges horder

def parallel : Flow := ⟨parallelPlan, []⟩

/-- The edge of `a` is judged after that of `b`, which has a message, so `a` is held up. In a form
with a single edge at `START` there is a way forward from there. -/
theorem next_eq_none_parallel :
    parallel.IsHeldUp (.object []) "a" ∧ ¬ branching.IsHeldUp branchingDocument "START" := by
  have hparallel : Plan.ofDocument parallelForm = .ok parallel.plan := plan_parallelForm
  have hintro : branching.IsClear branchingDocument "intro" := ⟨⟨.valid, []⟩, rfl, rfl⟩
  have hturned : ¬ parallel.IsTurnedAway (.object []) "a" := fun hturned =>
    absurd hturned.1 (by decide)
  have hturned' : ¬ branching.IsTurnedAway branchingDocument "START" := fun hturned =>
    absurd hturned.1 (by decide)
  have hnone : (parallel.run (.object [])).next "a" = none := by decide
  refine ⟨?_, (next_eq_none_iff plan_branching branchingDocument hturned').2 _ first_branching
    (isClear_before_branching hintro)⟩
  exact (((next_eq_none_iff hparallel (.object []) hturned).1.mp hnone).resolve_left
    (by decide)).resolve_left (by decide)

/-! A form with a decision before `START`, whose output is that of its other edge. -/

def turningForm : Document := .object [
  ("sections", .array [.object [("id", .text "b")]]),
  ("decisions", .array [.object [("id", .text "d"), ("output", .bool false)]]),
  ("edges", .array [
    .array [.text "d", .text "START", .bool true], .array [.text "d", .text "b", .bool false],
    .array [.text "START", .text "b"], .array [.text "b", .text "END"]])]

def turningRead : Form := (Form.read turningForm).toOption.getD ⟨[], [], [], []⟩

def turningPlan : Plan where
  nodes := Plan.flattenAll .top 0 turningRead.sections
  sections := [0]
  decisions := [⟨"d", .literal (.bool false), []⟩]
  edges := [⟨"d", "START", some true, .decision, .start⟩,
    ⟨"d", "b", some false, .decision, .sectionVertex⟩,
    ⟨"START", "b", none, .start, .sectionVertex⟩, ⟨"b", "END", none, .sectionVertex, .finish⟩]
  derived := []
  kinds := [("b", .sectionVertex), ("d", .decision), ("START", .start), ("END", .finish)]
  guardOrder := []

theorem plan_turningForm : Plan.ofDocument turningForm = .ok turningPlan := by
  have hedges : Route.orderEdges turningPlan.kinds turningRead.edges = .ok turningPlan.edges := by
    cbv
  have horder : Plan.orderGuards turningPlan.nodes = .ok [] := by cbv
  have hread : Form.read turningForm = .ok turningRead := rfl
  exact Plan.ofDocument_eq_ok hread rfl rfl hedges horder

def turning : Flow := ⟨turningPlan, []⟩

/-- From every vertex but `END` there is a way forward. -/
def Proceeds (flow : Flow) (document : Document) : Prop :=
  ∀ id, flow.plan.kind? id ≠ none → id ≠ endId → ((flow.run document).next id).isSome = true

/-- There is none from a section that the frontier holds up, nor from a decision that is turned
away. -/
theorem not_proceeds :
    (Plan.ofDocument parallelForm = .ok parallel.plan ∧ ¬ parallel.Proceeds (.object [])) ∧
      Plan.ofDocument turningForm = .ok turning.plan ∧ ¬ turning.Proceeds (.object []) := by
  refine ⟨⟨plan_parallelForm, fun hproceeds => ?_⟩, plan_turningForm, fun hproceeds => ?_⟩
  · exact absurd (hproceeds "a" (by decide) (by decide)) (by decide)
  · exact absurd (hproceeds "d" (by decide) (by decide)) (by decide)

end Flow

end FormFlow
