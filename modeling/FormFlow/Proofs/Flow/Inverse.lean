import FormFlow.Proofs.Flow.Navigation

/-!
# Forward and back again

If a single edge leaves `START`, going forward and going back are inverse to each other along the
active edges (`next_previous_inverse`). Both follow the same leg of the route, one from either end:
an answer of one names a leg, and a leg settles the answer of the other (`previous_of_leg`,
`next_of_leg`).
-/

namespace FormFlow.Flow

open Route

variable {flow : Flow} {config document : Document} {source target : String} {path : List Edge}

theorem kind?_ne_of_section (hsound : Sound flow.plan.kinds flow.plan.edges) {id : String}
    (hkind : flow.plan.kind? id = some .sectionVertex) : id ≠ startId ∧ id ≠ endId := by
  constructor
  · intro hstart
    rw [Plan.kind?, (hsound.startKind id).mpr hstart] at hkind
    simp at hkind
  · intro hend
    rw [Plan.kind?, (hsound.finishKind id).mpr hend] at hkind
    simp at hkind

/-! ### The line of active edges -/

variable {first : Edge}

theorem eq_of_active_source (hsound : Sound flow.plan.kinds flow.plan.edges)
    (hfirst : flow.plan.edges.filter (·.source = startId) = [first]) (document : Document) :
    ∀ edge ∈ activeEdges (flow.run document).edges,
      ∀ other ∈ activeEdges (flow.run document).edges,
        edge.source = other.source → edge = other := by
  rw [edges_run]
  exact hsound.eq_of_common_source hfirst

theorem eq_of_active_target (hsound : Sound flow.plan.kinds flow.plan.edges)
    (hfirst : flow.plan.edges.filter (·.source = startId) = [first]) (document : Document) :
    ∀ edge ∈ activeEdges (flow.run document).edges,
      ∀ other ∈ activeEdges (flow.run document).edges,
        edge.target = other.target → edge = other := by
  rw [edges_run]
  exact hsound.eq_of_common_target hfirst

/-! ### From an answer to a leg -/

theorem exists_leg_of_next (hsound : Sound flow.plan.kinds flow.plan.edges)
    (hopen : flow.IsOpen document source) (hend : source ≠ endId) {destination : Destination}
    (hnext : (flow.run document).next source = some destination) :
    (∃ path, flow.Leg document source destination.id path) ∧
      (flow.plan.kind? destination.id = some .sectionVertex ∨ destination.id = endId) := by
  rw [next_of_isOpen hopen hend, Option.map_eq_some_iff] at hnext
  obtain ⟨target, hahead, rfl⟩ := hnext
  exact exists_leg_of_ahead hsound hahead

theorem exists_leg_of_previous (hsound : Sound flow.plan.kinds flow.plan.edges)
    (hreached : (flow.run document).isReached target = true) {back : Destination}
    (hprevious : (flow.run document).previous target = some back) :
    (∃ path, flow.Leg document back.id target path) ∧
      (flow.plan.kind? back.id = some .sectionVertex ∨ back.id = startId) := by
  unfold Outcome.previous at hprevious
  split_ifs at hprevious with houtside hentered
  · obtain rfl := Option.some.inj hprevious
    simp only [List.any_eq_true, Bool.and_eq_true, decide_eq_true_eq] at hentered
    obtain ⟨⟨edge, active⟩, hmem, ⟨hsource, rfl⟩, rfl⟩ := hentered
    have hedge : edge ∈ activeEdges (flow.run document).edges := mem_activeEdges.mpr hmem
    exact ⟨⟨[edge], ⟨hedge, hsource, rfl⟩, by simp, by simp⟩, Or.inr rfl⟩
  · obtain ⟨source, hbehind, rfl⟩ := Option.map_eq_some_iff.mp hprevious
    exact exists_leg_of_behind hsound hbehind

/-! ### From a leg to the answers at its ends -/

theorem next_of_leg (h : Plan.ofDocument config = .ok flow.plan)
    (hfirst : flow.plan.edges.filter (·.source = startId) = [first])
    (hleg : flow.Leg document source target path)
    (hsource : flow.plan.kind? source = some .sectionVertex ∨ source = startId)
    (htarget : flow.plan.kind? target = some .sectionVertex ∨ target = endId) :
    (flow.run document).next source = some (.plain target) := by
  have hsound := sound_of_ofDocument h
  have hopen : flow.IsOpen document source := by
    rcases hsource with hkind | hstart
    · obtain ⟨edge, rest, rfl⟩ := List.exists_cons_of_ne_nil hleg.nonempty
      obtain ⟨hedge, rfl, _⟩ := hleg.isPath
      have hclear := (leadsOn_of_active h hedge).1 hkind
      exact Or.inr ⟨hleg.isReached.1, hclear.not_hasMessages⟩
    · exact Or.inl hstart
  have hend : source ≠ endId := by
    rcases hsource with hkind | rfl
    · exact (kind?_ne_of_section hsound hkind).2
    · decide
  have hahead := hleg.ahead_eq hsound (eq_of_active_source hsound hfirst document) htarget
    (Nat.le_of_lt (length_lt_walkBound hsound hleg.isPath))
  rw [next_of_isOpen hopen hend, hahead]
  rfl

theorem previous_of_leg (hsound : Sound flow.plan.kinds flow.plan.edges)
    (hfirst : flow.plan.edges.filter (·.source = startId) = [first])
    (hleg : flow.Leg document source target path)
    (hsource : flow.plan.kind? source = some .sectionVertex ∨ source = startId)
    (hbefore : ¬ IsBeforeStart flow.plan.edges source) :
    (flow.run document).previous target = some (.plain source) := by
  have hstart := hsound.target_ne_start_of_isPath
    (hleg.isPath.mono fun _ => mem_edges_of_active) hbefore
  have hsingle := eq_of_active_target hsound hfirst document
  obtain ⟨front, last, rfl⟩ := (List.eq_nil_or_concat path).resolve_left hleg.nonempty
  rw [List.concat_eq_append] at hleg hstart
  obtain ⟨_, hfront, hlast, rfl, rfl⟩ := IsPath.append_iff.mp hleg.isPath
  have hvertex := (isVertex_of_active hlast).2
  rw [Outcome.previous, hvertex, if_neg (by simpa using hstart last (by simp))]
  split_ifs with hentered hreached
  · -- the edge from `START` is the last of the leg, and no edge before it leads to `START`
    simp only [List.any_eq_true, Bool.and_eq_true, decide_eq_true_eq] at hentered
    obtain ⟨⟨edge, active⟩, hmem, ⟨hedgeSource, hedgeTarget⟩, rfl⟩ := hentered
    obtain rfl := hsingle edge (mem_activeEdges.mpr hmem) last hlast hedgeTarget
    cases front with
    | nil =>
      obtain rfl : source = edge.source := hfront
      rw [hedgeSource]
    | cons head rest =>
      obtain ⟨item, hitem, htarget⟩ := hfront.exists_last (by simp)
      exact absurd (htarget.trans hedgeSource) (hstart item (List.mem_append_left _ hitem))
  · have hbehind := hleg.behind_eq hsound hsingle hsource hstart
      (Nat.le_of_lt (length_lt_walkBound hsound hleg.isPath))
    rw [hbehind]
    rfl
  · exact absurd hleg.isReached.2 hreached

/-! ### The inverse -/

/-- With a single edge that leaves `START`: where the way forward leads from `START`, or from a
reached section without messages that does not come before `START`, the way back leads from there
to it again; and where the way back leads from a reached section or from `END`, the way forward
leads from there to it again. -/
theorem next_previous_inverse (h : Plan.ofDocument config = .ok flow.plan)
    (hfirst : flow.plan.edges.filter (·.source = startId) = [first]) (document : Document) :
    (∀ id destination, (id = startId ∨
        flow.plan.kind? id = some .sectionVertex ∧ (flow.run document).isReached id = true ∧
          flow.IsClear document id ∧ ¬ IsBeforeStart flow.plan.edges id) →
      (flow.run document).next id = some destination →
        ∃ back, (flow.run document).previous destination.id = some back ∧ back.id = id) ∧
    ∀ id back, (id = endId ∨ flow.plan.kind? id = some .sectionVertex) →
      (flow.run document).isReached id = true →
      (flow.run document).previous id = some back →
        ∃ destination, (flow.run document).next back.id = some destination ∧
          destination.id = id := by
  have hsound := sound_of_ofDocument h
  constructor
  · intro id destination hid hnext
    have hopen : flow.IsOpen document id :=
      hid.imp_right fun hsection => ⟨hsection.2.1, hsection.2.2.1.not_hasMessages⟩
    have hstop : flow.plan.kind? id = some .sectionVertex ∨ id = startId :=
      (hid.imp_right And.left).symm
    have hend : id ≠ endId := by
      rcases hstop with hkind | rfl
      · exact (kind?_ne_of_section hsound hkind).2
      · decide
    have hbefore : ¬ IsBeforeStart flow.plan.edges id := by
      rcases hid with rfl | hsection
      · exact hsound.not_isBeforeStart_start
      · exact hsection.2.2.2
    obtain ⟨⟨_, hleg⟩, _⟩ := exists_leg_of_next hsound hopen hend hnext
    exact ⟨_, previous_of_leg hsound hfirst hleg hstop hbefore, rfl⟩
  · intro id back hid hreached hprevious
    obtain ⟨⟨_, hleg⟩, hstop⟩ := exists_leg_of_previous hsound hreached hprevious
    exact ⟨_, next_of_leg h hfirst hleg hstop hid.symm, rfl⟩

theorem next_previous_branching :
    (∃ back, (branching.run branchingDocument).previous "b" = some back ∧ back.id = "a") ∧
      ∃ destination, (branching.run branchingDocument).next "a" = some destination ∧
        destination.id = "b" := by
  have hbefore : ¬ IsBeforeStart branching.plan.edges "a" := by
    rintro ⟨edge, hedge, hsource, htarget⟩
    exact target_ne_start_branching (by decide) edge hedge hsource htarget
  have hnext : (branching.run branchingDocument).next "a" = some (.plain "b") := by decide
  have hprevious : (branching.run branchingDocument).previous "b" = some (.plain "a") := by decide
  obtain ⟨hback, honward⟩ := next_previous_inverse plan_branching first_branching branchingDocument
  exact ⟨hback "a" _ (Or.inr ⟨rfl, by decide, ⟨_, rfl, rfl⟩, hbefore⟩) hnext,
    honward "b" _ (Or.inr rfl) (by decide) hprevious⟩

end FormFlow.Flow
