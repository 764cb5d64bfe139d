import FormFlow.Proofs.Flow.Course

/-!
# The legs of a route

Going forward and going back both follow a leg of the route: active edges that lead from one stop to
another and leave no section on the way (`exists_leg_of_ahead`, `exists_leg_of_behind`). Where the
active edges form a line, a walk from either end of a leg follows it to the other (`Leg.ahead_eq`,
`Leg.behind_eq`).
-/

namespace FormFlow.Flow

open Route

variable {flow : Flow} {document : Document} {source target : String} {path : List Edge}

/-- Active edges that lead from one vertex to another and leave no section on the way. -/
structure Leg (flow : Flow) (document : Document) (source target : String) (path : List Edge) :
    Prop where
  isPath : IsPath (activeEdges (flow.run document).edges) source target path
  nonempty : path ≠ []
  through : ∀ edge ∈ path.tail, flow.plan.kind? edge.source ≠ some .sectionVertex

theorem Leg.single {edge : Edge} (hedge : edge ∈ activeEdges (flow.run document).edges) :
    flow.Leg document edge.source edge.target [edge] :=
  ⟨⟨hedge, rfl, rfl⟩, by simp, by simp⟩

theorem Leg.cons {edge : Edge} (hedge : edge ∈ activeEdges (flow.run document).edges)
    (hkind : flow.plan.kind? edge.target ≠ some .sectionVertex)
    (hleg : flow.Leg document edge.target target path) :
    flow.Leg document edge.source target (edge :: path) := by
  refine ⟨⟨hedge, rfl, hleg.isPath⟩, by simp, ?_⟩
  intro next hnext
  cases path with
  | nil => simp at hnext
  | cons first rest =>
    rcases List.mem_cons.mp hnext with rfl | hrest
    · rw [hleg.isPath.2.1]
      exact hkind
    · exact hleg.through next hrest

theorem Leg.concat {edge : Edge} (hedge : edge ∈ activeEdges (flow.run document).edges)
    (hkind : flow.plan.kind? edge.source ≠ some .sectionVertex)
    (hleg : flow.Leg document source edge.source path) :
    flow.Leg document source edge.target (path ++ [edge]) := by
  refine ⟨hleg.isPath.concat hedge, by simp, ?_⟩
  intro next hnext
  rw [List.tail_append_of_ne_nil hleg.nonempty, List.mem_append, List.mem_singleton] at hnext
  rcases hnext with hfront | rfl
  · exact hleg.through next hfront
  · exact hkind

/-! ### What a walk follows is a leg -/

theorem kind?_target (hsound : Sound flow.plan.kinds flow.plan.edges) {edge : Edge}
    (hedge : edge ∈ activeEdges (flow.run document).edges) :
    flow.plan.kind? edge.target = some edge.targetKind :=
  hsound.targetKind edge (mem_edges_of_active hedge)

theorem kind?_source (hsound : Sound flow.plan.kinds flow.plan.edges) {edge : Edge}
    (hedge : edge ∈ activeEdges (flow.run document).edges) :
    flow.plan.kind? edge.source = some edge.sourceKind :=
  hsound.sourceKind edge (mem_edges_of_active hedge)

theorem stops_ahead_iff (hsound : Sound flow.plan.kinds flow.plan.edges) {edge : Edge}
    (hedge : edge ∈ activeEdges (flow.run document).edges) :
    Way.ahead.stops edge = true ↔
      flow.plan.kind? edge.target = some .sectionVertex ∨ edge.target = endId := by
  have hkind := kind?_target hsound hedge
  rw [← hsound.finishKind edge.target, ← Plan.kind?, hkind]
  simp [Way.stops]

theorem stops_behind_iff (hsound : Sound flow.plan.kinds flow.plan.edges) {edge : Edge}
    (hedge : edge ∈ activeEdges (flow.run document).edges) :
    Way.behind.stops edge = true ↔
      flow.plan.kind? edge.source = some .sectionVertex ∨ edge.source = startId := by
  have hkind := kind?_source hsound hedge
  rw [← hsound.startKind edge.source, ← Plan.kind?, hkind]
  simp [Way.stops]

theorem leg_of_passes_ahead (hsound : Sound flow.plan.kinds flow.plan.edges) {edge : Edge}
    (hpasses : Way.ahead.Passes (flow.run document).edges source path edge.source)
    (hedge : edge ∈ activeEdges (flow.run document).edges) :
    flow.Leg document source edge.target (path ++ [edge]) := by
  generalize hlast : edge.source = last at hpasses
  induction hpasses with
  | here => exact hlast ▸ .single hedge
  | step hfound hgoes _ ih =>
    obtain ⟨hmem, rfl⟩ := mem_of_firstActive? hfound
    refine .cons hmem (fun hsection => ?_) (ih hlast)
    exact absurd ((stops_ahead_iff hsound hmem).mpr (Or.inl hsection)) (by simp [hgoes])

theorem leg_of_passes_behind (hsound : Sound flow.plan.kinds flow.plan.edges) {edge : Edge}
    (hpasses : Way.behind.Passes (flow.run document).edges target path edge.target)
    (hedge : edge ∈ activeEdges (flow.run document).edges) :
    flow.Leg document edge.source target (edge :: path.reverse) := by
  generalize hlast : edge.target = last at hpasses
  induction hpasses with
  | here => exact hlast ▸ .single hedge
  | step hfound hgoes _ ih =>
    obtain ⟨hmem, rfl⟩ := mem_of_firstActive? hfound
    rw [List.reverse_cons, ← List.cons_append]
    refine .concat hmem (fun hsection => ?_) (ih hlast)
    exact absurd ((stops_behind_iff hsound hmem).mpr (Or.inl hsection)) (by simp [hgoes])

theorem exists_leg_of_ahead (hsound : Sound flow.plan.kinds flow.plan.edges) {fuel : Nat}
    (h : (flow.run document).ahead fuel source = some target) :
    (∃ path, flow.Leg document source target path) ∧
      (flow.plan.kind? target = some .sectionVertex ∨ target = endId) := by
  obtain ⟨path, found, hpasses, hmem, hstops, rfl⟩ := (Outcome.isWalk_ahead _).exists_passes h
  exact ⟨⟨_, leg_of_passes_ahead hsound hpasses hmem⟩,
    (stops_ahead_iff hsound hmem).mp hstops⟩

theorem exists_leg_of_behind (hsound : Sound flow.plan.kinds flow.plan.edges) {fuel : Nat}
    (h : (flow.run document).behind fuel target = some source) :
    (∃ path, flow.Leg document source target path) ∧
      (flow.plan.kind? source = some .sectionVertex ∨ source = startId) := by
  obtain ⟨path, found, hpasses, hmem, hstops, rfl⟩ := (Outcome.isWalk_behind _).exists_passes h
  exact ⟨⟨_, leg_of_passes_behind hsound hpasses hmem⟩,
    (stops_behind_iff hsound hmem).mp hstops⟩

/-! ### The ends of a leg -/

theorem Leg.isReached (hleg : flow.Leg document source target path) :
    (flow.run document).isReached source = true ∧ (flow.run document).isReached target = true := by
  constructor
  · obtain ⟨edge, rest, rfl⟩ := List.exists_cons_of_ne_nil hleg.nonempty
    obtain ⟨hedge, rfl, _⟩ := hleg.isPath
    rw [edges_run] at hedge
    rw [Outcome.isReached, edges_run]
    exact isReached_source hedge
  · obtain ⟨edge, hedge, rfl⟩ := hleg.isPath.exists_last hleg.nonempty
    exact isReached_target (hleg.isPath.mem edge hedge)

/-! ### A leg is followed from either end -/

theorem Leg.ahead_eq (hsound : Sound flow.plan.kinds flow.plan.edges)
    (hsingle : ∀ edge ∈ activeEdges (flow.run document).edges,
      ∀ other ∈ activeEdges (flow.run document).edges, edge.source = other.source → edge = other)
    (hstop : flow.plan.kind? target = some .sectionVertex ∨ target = endId)
    (hleg : flow.Leg document source target path) {fuel : Nat} (hfuel : path.length ≤ fuel) :
    (flow.run document).ahead fuel source = some target := by
  have hwalk := (flow.run document).isWalk_ahead
  induction path generalizing source fuel with
  | nil => exact absurd rfl hleg.nonempty
  | cons edge rest ih =>
    obtain ⟨fuel, rfl⟩ := Nat.exists_eq_add_of_le' (Nat.le_trans (by simp) hfuel : 1 ≤ fuel)
    obtain ⟨hedge, rfl, hrest⟩ := hleg.isPath
    obtain ⟨found, hfound, rfl⟩ := exists_firstActive? hsingle hedge
    rw [hwalk.succ, Way.next?, Way.near, hfound, Option.bind_some]
    cases rest with
    | nil =>
      obtain rfl : found.target = target := hrest
      exact if_pos ((stops_ahead_iff hsound hedge).mpr hstop)
    | cons next rest =>
      -- the next edge leaves neither a section nor `END`
      have hgoes : ¬ Way.ahead.stops found.toEdge = true := by
        rw [stops_ahead_iff hsound hedge, ← hrest.2.1]
        exact not_or.mpr ⟨hleg.through next (by simp),
          hsound.source_ne_end next (mem_edges_of_active hrest.1)⟩
      rw [if_neg hgoes]
      have hleg' : flow.Leg document found.target target (next :: rest) :=
        ⟨hrest, by simp, fun item hitem => hleg.through item (List.mem_of_mem_tail hitem)⟩
      exact ih hleg' (Nat.le_of_succ_le_succ hfuel)

/-- Where active edges do not meet, going back from the end of a leg leads to its start, unless the
leg passes through `START`. -/
theorem Leg.behind_eq (hsound : Sound flow.plan.kinds flow.plan.edges)
    (hsingle : ∀ edge ∈ activeEdges (flow.run document).edges,
      ∀ other ∈ activeEdges (flow.run document).edges, edge.target = other.target → edge = other)
    (hstop : flow.plan.kind? source = some .sectionVertex ∨ source = startId)
    (hleg : flow.Leg document source target path) (hstart : ∀ edge ∈ path, edge.target ≠ startId)
    {fuel : Nat} (hfuel : path.length ≤ fuel) :
    (flow.run document).behind fuel target = some source := by
  have hwalk := (flow.run document).isWalk_behind
  induction path using List.reverseRecOn generalizing target fuel with
  | nil => exact absurd rfl hleg.nonempty
  | append_singleton front edge ih =>
    obtain ⟨fuel, rfl⟩ := Nat.exists_eq_add_of_le' (Nat.le_trans (by simp) hfuel : 1 ≤ fuel)
    obtain ⟨middle, hfront, hedge, rfl, rfl⟩ := IsPath.append_iff.mp hleg.isPath
    obtain ⟨found, hfound, rfl⟩ := exists_firstActive? hsingle hedge
    rw [hwalk.succ, Way.next?, Way.near, hfound, Option.bind_some]
    by_cases hnil : front = []
    · subst hnil
      obtain rfl : source = found.source := hfront
      exact if_pos ((stops_behind_iff hsound hedge).mpr hstop)
    · obtain ⟨last, hlast, hlinked⟩ := hfront.exists_last hnil
      have hgoes : ¬ Way.behind.stops found.toEdge = true := by
        rw [stops_behind_iff hsound hedge]
        refine not_or.mpr ⟨hleg.through _ (by simp [List.tail_append_of_ne_nil hnil]), ?_⟩
        exact hlinked ▸ hstart last (by simp [hlast])
      rw [if_neg hgoes]
      have hleg' : flow.Leg document source found.source front :=
        ⟨hfront, hnil, fun item hitem => hleg.through item
          (by simp [List.tail_append_of_ne_nil hnil, hitem])⟩
      exact ih hleg' (fun item hitem => hstart item (by simp [hitem])) (by simpa using hfuel)

end FormFlow.Flow
