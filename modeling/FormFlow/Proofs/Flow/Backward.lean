import FormFlow.Proofs.Flow.Nearest

/-!
# There is always a way back

If no decision comes before `START`, there is a way back from every vertex of the route but `START`
and the section before it (`isSome_previous_iff`). A reached vertex is entered by an active edge, and
so is every decision that the walk back passes, until it comes to a section or to `START`
(`exists_behind`). From all other vertices the search ends at a nearest reached one, and if that is a
decision the walk back goes on from there.
-/

namespace FormFlow.Flow

open Route

variable {flow : Flow} {config document : Document} {id : String}

/-! ### The walk back -/

theorem entered_of_passes_behind (hsound : Sound flow.plan.kinds flow.plan.edges)
    {path : List Edge} {last : String}
    (hpasses : Way.behind.Passes (flow.run document).edges id path last)
    (hentered : ∃ edge ∈ activeEdges (flow.run document).edges, edge.target = id)
    (hstart : id ≠ startId) :
    ∃ edge ∈ activeEdges (flow.run document).edges, edge.target = last := by
  induction hpasses with
  | here => exact hentered
  | step hfound hgoes _ ih =>
    obtain ⟨hmem, rfl⟩ := mem_of_firstActive? hfound
    have hpassed := mt (stops_behind_iff hsound hmem).mpr (by simp [hgoes])
    obtain ⟨-, hsource⟩ := not_or.mp hpassed
    -- what an active edge leaves is joined to `START`, so it is entered by another
    obtain ⟨path, hpath⟩ : ∃ path,
        IsPath (activeEdges (flow.run document).edges) startId _ path := by
      rw [edges_run] at hmem ⊢
      exact exists_path_to_source _ _ _ hmem hstart
    obtain ⟨edge, hedge, htarget⟩ := hpath.exists_target (Ne.symm hsource)
    exact ih ⟨edge, hpath.mem edge hedge, htarget⟩ hsource

theorem exists_behind (hsound : Sound flow.plan.kinds flow.plan.edges)
    (hreached : (flow.run document).isReached id = true) (hstart : id ≠ startId)
    (hbefore : ¬ IsBeforeStart flow.plan.edges id) :
    ∃ source, (flow.run document).behind (flow.run document).walkBound id = some source := by
  have hentered : ∃ edge ∈ activeEdges (flow.run document).edges, edge.target = id := by
    rcases isReached_iff.mp hreached with hid | hentered | hleads
    · exact absurd hid hstart
    · exact hentered
    · rw [map_toEdge_run] at hleads
      exact absurd hleads hbefore
  obtain ⟨path, last, hcourse, hlength⟩ := exists_course hsound .behind document id
  rw [(Outcome.isWalk_behind _).eq_of_course hcourse hlength]
  obtain ⟨edge, hedge, rfl⟩ := entered_of_passes_behind hsound hcourse.passes hentered hstart
  cases hnext : Way.behind.next? (flow.run document).edges edge.target with
  | none => exact absurd rfl (firstActive?_eq_none_iff.mp hnext edge hedge)
  | some found => exact ⟨_, rfl⟩

/-! ### The way back -/

theorem exists_backTo (hsound : Sound flow.plan.kinds flow.plan.edges) {edge : JudgedEdge}
    (hedge : edge.toEdge ∈ flow.plan.edges)
    (hreached : (flow.run document).isReached edge.source = true)
    (hbefore : edge.sourceKind = .decision → ¬ IsBeforeStart flow.plan.edges edge.source) :
    ∃ destination, (flow.run document).backTo edge = some destination := by
  have hkind := hsound.sourceKind _ hedge
  unfold Outcome.backTo
  by_cases hstart : edge.source = startId
  · exact ⟨_, if_pos hstart⟩
  rw [if_neg hstart]
  cases hsourceKind : edge.sourceKind with
  | sectionVertex => exact ⟨_, if_pos rfl⟩
  | start => exact absurd ((hsound.startKind _).mp (hsourceKind ▸ hkind)) hstart
  | finish =>
    exact absurd ((hsound.finishKind _).mp (hsourceKind ▸ hkind)) (hsound.source_ne_end _ hedge)
  | decision =>
    obtain ⟨source, hbehind⟩ := exists_behind hsound hreached hstart (hbefore hsourceKind)
    exact ⟨.plain source, by simp [hbehind]⟩

theorem previous_eq_none_of_isBeforeStart (hsound : Sound flow.plan.kinds flow.plan.edges)
    (hbefore : IsBeforeStart flow.plan.edges id) : (flow.run document).previous id = none := by
  have hnothing : ∀ edge ∈ (flow.run document).edges, edge.target ≠ id := by
    intro edge hedge htarget
    exact hsound.not_isBeforeStart_target (toEdge_mem_edges hedge) (htarget ▸ hbefore)
  have hentered : ((flow.run document).edges.any fun edge =>
      edge.source = startId && edge.target = id && edge.active) = false := by
    rw [List.any_eq_false]
    intro edge hedge
    simp [hnothing edge hedge]
  have hinto : activeInto? (flow.run document).edges id = none := by
    rw [activeInto?, List.find?_eq_none]
    intro edge hedge
    simp [hnothing edge hedge]
  have hbehind : (flow.run document).behind (flow.run document).walkBound id = none := by
    rw [Outcome.walkBound, Outcome.behind, hinto]
  simp [Outcome.previous, hentered, isReached_of_isBeforeStart hbefore, hbehind]

/-- If what comes before `START`, if anything does, is a section, there is a way back from exactly
the vertices that are neither `START` nor before it. -/
theorem isSome_previous_iff (h : Plan.ofDocument config = .ok flow.plan)
    (hsection : ∀ edge ∈ flow.plan.edges, edge.target = startId →
      flow.plan.kind? edge.source = some .sectionVertex) (document : Document) (id : String) :
    ((flow.run document).previous id).isSome = true ↔ (flow.run document).isVertex id = true ∧
      id ≠ startId ∧ ¬ IsBeforeStart flow.plan.edges id := by
  have hsound := sound_of_ofDocument h
  constructor
  · intro hsome
    refine ⟨?_, ?_, fun hbefore => ?_⟩
    · by_contra hvertex
      rw [Bool.not_eq_true] at hvertex
      simp [Outcome.previous, hvertex] at hsome
    · rintro rfl
      simp [Outcome.previous] at hsome
    · simp [previous_eq_none_of_isBeforeStart hsound hbefore] at hsome
  · rintro ⟨hvertex, hstart, hbefore⟩
    rw [Option.isSome_iff_exists]
    by_cases hreached : (flow.run document).isReached id = true
    · obtain ⟨source, hbehind⟩ := exists_behind hsound hreached hstart hbefore
      unfold Outcome.previous
      split_ifs with houtside hentered
      · simp [hstart, hvertex] at houtside
      · exact ⟨_, rfl⟩
      · exact ⟨.plain source, by rw [hbehind]; rfl⟩
    · rw [Bool.not_eq_true] at hreached
      obtain ⟨edge, hedge, ⟨_, hnearest⟩, hprevious⟩ := exists_nearest h hvertex hreached
      rw [hprevious]
      refine exists_backTo hsound hedge hnearest.isReached fun hdecision hleads => ?_
      -- what leads to `START` is a section
      obtain ⟨into, hinto, hsource, htarget⟩ := hleads
      have hkind := hsection into hinto htarget
      rw [hsource, Plan.kind?, hsound.sourceKind _ hedge, hdecision] at hkind
      simp at hkind

theorem isSome_previous_branching :
    (branching.run branchingDocument).isReached "c" = false ∧
      ((branching.run branchingDocument).previous "c").isSome = true ∧
      ((branching.run branchingDocument).previous "END").isSome = true ∧
      ((branching.run branchingDocument).previous "intro").isSome = false := by
  have hsection : ∀ edge ∈ branching.plan.edges, edge.target = startId →
      branching.plan.kind? edge.source = some .sectionVertex := by
    intro edge hedge htarget
    rw [source_eq_intro edge hedge htarget]
    rfl
  have hiff := isSome_previous_iff plan_branching hsection branchingDocument
  have hafter {id : String} (hid : "intro" ≠ id) : ¬ IsBeforeStart branching.plan.edges id := by
    rintro ⟨edge, hedge, hsource, htarget⟩
    exact target_ne_start_branching hid edge hedge hsource htarget
  have hbefore : IsBeforeStart branching.plan.edges "intro" :=
    ⟨⟨"intro", "START", none, .sectionVertex, .start⟩, by decide, rfl, rfl⟩
  refine ⟨by decide, (hiff "c").mpr ⟨by decide, by decide, hafter (by decide)⟩,
    (hiff "END").mpr ⟨by decide, by decide, hafter (by decide)⟩, ?_⟩
  rw [← Bool.not_eq_true]
  exact fun hsome => ((hiff "intro").mp hsome).2.2 hbefore

end FormFlow.Flow
