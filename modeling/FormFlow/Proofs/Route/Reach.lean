import FormFlow.Proofs.Route.Judged

/-!
# Paths of active edges

Every vertex that an active edge leads to, `START` apart, is joined to `START` by a path of active
edges (`exists_active_path`). The induction is on the edges gone through, last edge first: what an
edge needs to be active stands before it, whatever the order of the edges.

What is entered while the edges are gone through is reached in the end (`isReached_of_enters`), so
both ends of an active edge are reached.
-/

namespace FormFlow.Route

/-- A list of edges that lead on from one vertex to another, each taken from the given ones. -/
def IsPath (edges : List Edge) : String → String → List Edge → Prop
  | source, target, [] => source = target
  | source, target, edge :: rest => edge ∈ edges ∧ edge.source = source ∧
      IsPath edges edge.target target rest

namespace IsPath

variable {edges edges' path : List Edge} {source target : String}

theorem mem (h : IsPath edges source target path) : ∀ edge ∈ path, edge ∈ edges := by
  induction path generalizing source with
  | nil => simp
  | cons first rest ih =>
    intro edge hmem
    rcases List.mem_cons.mp hmem with rfl | hrest
    · exact h.1
    · exact ih h.2.2 edge hrest

theorem mono (hsub : ∀ edge ∈ edges, edge ∈ edges') (h : IsPath edges source target path) :
    IsPath edges' source target path := by
  induction path generalizing source with
  | nil => exact h
  | cons first rest ih => exact ⟨hsub first h.1, h.2.1, ih h.2.2⟩

theorem concat {edge : Edge} (h : IsPath edges source edge.source path) (hedge : edge ∈ edges) :
    IsPath edges source edge.target (path ++ [edge]) := by
  induction path generalizing source with
  | nil => exact ⟨hedge, h.symm, rfl⟩
  | cons first rest ih => exact ⟨h.1, h.2.1, ih h.2.2⟩

theorem exists_last (h : IsPath edges source target path) (hne : path ≠ []) :
    ∃ edge ∈ path, edge.target = target := by
  induction path generalizing source with
  | nil => exact absurd rfl hne
  | cons first rest ih =>
    by_cases hrest : rest = []
    · subst hrest
      exact ⟨first, List.mem_cons_self, h.2.2⟩
    · obtain ⟨edge, hedge, htarget⟩ := ih h.2.2 hrest
      exact ⟨edge, List.mem_cons_of_mem _ hedge, htarget⟩

theorem exists_target (h : IsPath edges source target path) (hne : source ≠ target) :
    ∃ edge ∈ path, edge.target = target := by
  refine h.exists_last ?_
  rintro rfl
  exact hne h

theorem exists_source (h : IsPath edges source target path) (hne : source ≠ target) :
    ∃ edge ∈ edges, edge.source = source := by
  cases path with
  | nil => exact absurd h hne
  | cons first rest => exact ⟨first, h.1, h.2.1⟩

end IsPath

/-- An active edge is left after a path of active edges from `START`, unless it leads there. -/
theorem exists_path_to_source (judgement : Judgement) (edges : List Edge) :
    ∀ edge ∈ activeEdges (judge judgement edges), edge.target ≠ startId →
      ∃ path, IsPath (activeEdges (judge judgement edges)) startId edge.source path := by
  induction edges using List.reverseRecOn with
  | nil => simp [judge, activeEdges, Sweep.start]
  | append_singleton init last ih =>
    have hsub : ∀ edge ∈ activeEdges (judge judgement init),
        edge ∈ activeEdges (judge judgement (init ++ [last])) := fun _ =>
      mem_activeEdges_append [last]
    intro edge hmem htarget
    rw [activeEdges_judge_concat, List.mem_append] at hmem
    rcases hmem with hinit | hlast
    · obtain ⟨path, hpath⟩ := ih edge hinit htarget
      exact ⟨path, hpath.mono hsub⟩
    · split_ifs at hlast with hactive
      · obtain rfl := List.mem_singleton.mp hlast
        rw [Bool.and_eq_true, Sweep.enters_iff] at hactive
        by_cases hsource : edge.source = startId
        · exact ⟨[], hsource.symm⟩
        · -- an earlier edge leads to the source
          obtain ⟨earlier, hearlier, hlinked⟩ :=
            (hactive.1.resolve_left hsource).resolve_left htarget
          obtain ⟨path, hpath⟩ := ih earlier hearlier (hlinked ▸ hsource)
          exact ⟨_, hlinked ▸ (hpath.mono hsub).concat (hsub earlier hearlier)⟩
      · simp at hlast

theorem exists_active_path (judgement : Judgement) (edges : List Edge) :
    ∀ edge ∈ activeEdges (judge judgement edges), edge.target ≠ startId →
      ∃ path, IsPath (activeEdges (judge judgement edges)) startId edge.target path := by
  intro edge hedge htarget
  obtain ⟨path, hpath⟩ := exists_path_to_source judgement edges edge hedge htarget
  exact ⟨_, hpath.concat hedge⟩

theorem isReached_iff {judged : List JudgedEdge} {id : String} :
    isReached judged id = true ↔ id = startId ∨
      (∃ edge ∈ activeEdges judged, edge.target = id) ∨
      ∃ edge ∈ judged.map JudgedEdge.toEdge, edge.source = id ∧ edge.target = startId := by
  simp only [isReached, Bool.or_eq_true, decide_eq_true_eq, List.any_eq_true, Bool.and_eq_true]
  refine or_congr_right ?_
  constructor
  · rintro ⟨⟨edge, active⟩, hmem, ⟨htarget, rfl⟩ | ⟨hsource, htarget⟩⟩
    · exact Or.inl ⟨edge, mem_activeEdges.mpr hmem, htarget⟩
    · exact Or.inr ⟨edge, List.mem_map.mpr ⟨_, hmem, rfl⟩, hsource, htarget⟩
  · rintro (⟨edge, hmem, htarget⟩ | ⟨edge, hmem, hsource, htarget⟩)
    · exact ⟨⟨edge, true⟩, mem_activeEdges.mp hmem, Or.inl ⟨htarget, rfl⟩⟩
    · obtain ⟨judged, hjudged, rfl⟩ := List.mem_map.mp hmem
      exact ⟨judged, hjudged, Or.inr ⟨hsource, htarget⟩⟩

theorem isReached_of_enters {judgement : Judgement} {edges front back : List Edge} {edge : Edge}
    (h : (sweep judgement front).enters edge = true)
    (hsplit : edges = front ++ edge :: back) :
    isReached (judge judgement edges) edge.source = true := by
  subst hsplit
  rw [isReached_iff]
  rcases Sweep.enters_iff.mp h with hstart | htarget | ⟨earlier, hearlier, hlinked⟩
  · exact Or.inl hstart
  · refine Or.inr (Or.inr ⟨edge, ?_, rfl, htarget⟩)
    rw [map_toEdge_judge]
    simp
  · exact Or.inr (Or.inl ⟨earlier, mem_activeEdges_append (edge :: back) hearlier, hlinked⟩)

theorem isReached_source {judgement : Judgement} {edges : List Edge} {edge : Edge}
    (h : edge ∈ activeEdges (judge judgement edges)) :
    isReached (judge judgement edges) edge.source = true := by
  obtain ⟨front, back, hsplit, henters, _⟩ := exists_split_of_active h
  exact isReached_of_enters henters hsplit

theorem isReached_target {judged : List JudgedEdge} {edge : Edge} (h : edge ∈ activeEdges judged) :
    isReached judged edge.target = true :=
  isReached_iff.mpr (Or.inr (Or.inl ⟨edge, h, rfl⟩))

end FormFlow.Route
