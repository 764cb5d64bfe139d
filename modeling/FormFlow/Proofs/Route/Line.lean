import FormFlow.Proofs.Route.Active

/-!
# The line of active edges

A path follows the edges in the order of evaluation (`Sound.sublist_of_isPath`), so it is no longer
than they are and returns to no vertex. If a single edge leaves `START`, the active edges form a
line: they do not part (`Sound.eq_of_common_source`), two paths from `START` are one and its
continuation, and so the edges do not meet either (`Sound.eq_of_common_target`).
-/

namespace FormFlow.Route

variable {kinds : Members VertexKind} {edges : List Edge} {judgement : Judgement}

/-! ### Paths in the order of evaluation -/

theorem IsPath.append_iff {source target : String} {front back : List Edge} :
    IsPath edges source target (front ++ back) ↔
      ∃ middle, IsPath edges source middle front ∧ IsPath edges middle target back := by
  induction front generalizing source with
  | nil => simp [IsPath]
  | cons first rest ih => simp [IsPath, ih, and_assoc]

theorem Sound.sublist_of_split (h : Sound kinds edges) {passed ahead path : List Edge}
    {edge : Edge} {source target : String} (hsplit : edges = passed ++ ahead)
    (hedge : edge ∈ ahead) (hpath : IsPath edges source target (edge :: path)) :
    (edge :: path).Sublist ahead := by
  induction path generalizing passed ahead edge source with
  | nil => exact List.singleton_sublist.mpr hedge
  | cons next rest ih =>
    obtain ⟨before, behind, rfl⟩ := List.append_of_mem hedge
    have hsplit' : edges = (passed ++ before) ++ edge :: behind := by simp [hsplit]
    have hpassed : edges = (passed ++ before ++ [edge]) ++ behind := by simp [hsplit']
    obtain ⟨_, _, hnext⟩ := hpath
    have hbehind : next ∈ behind := h.mem_rest hsplit' hnext.1 hnext.2.1
    have hrest : (next :: rest).Sublist behind := ih hpassed hbehind hnext
    exact (hrest.cons_cons edge).trans (List.sublist_append_right _ _)

theorem Sound.sublist_of_isPath (h : Sound kinds edges) {path : List Edge}
    {source target : String} (hpath : IsPath edges source target path) : path.Sublist edges := by
  cases path with
  | nil => exact List.nil_sublist _
  | cons edge rest => exact h.sublist_of_split (List.nil_append edges).symm hpath.1 hpath

theorem Sound.eq_nil_of_loop (h : Sound kinds edges) {path : List Edge} {id : String}
    (hpath : IsPath edges id id path) : path = [] := by
  cases path with
  | nil => rfl
  | cons first rest =>
    exfalso
    obtain ⟨hfirst, hsource, hrest⟩ := hpath
    by_cases hloop : first.target = id
    · exact h.noLoop first hfirst (hloop.trans hsource.symm)
    · -- the edge that leads back stands behind the first
      obtain ⟨last, hlast, htarget⟩ := hrest.exists_target hloop
      have hsublist : (first :: rest).Sublist edges :=
        h.sublist_of_isPath ⟨hfirst, hsource, hrest⟩
      have hforward := h.forward.sublist hsublist
      exact (List.pairwise_cons.mp hforward).1 last hlast (htarget.trans hsource.symm)

def IsBeforeStart (edges : List Edge) (id : String) : Prop :=
  ∃ edge ∈ edges, edge.source = id ∧ edge.target = startId

theorem Sound.not_isBeforeStart_start (h : Sound kinds edges) :
    ¬ IsBeforeStart edges startId := by
  rintro ⟨edge, hedge, hsource, htarget⟩
  exact h.noLoop edge hedge (htarget.trans hsource.symm)

theorem Sound.not_isBeforeStart_target (h : Sound kinds edges) {edge : Edge}
    (hedge : edge ∈ edges) : ¬ IsBeforeStart edges edge.target := by
  rintro ⟨into, hinto, hsource, htarget⟩
  exact h.beforeStart into hinto htarget edge hedge hsource.symm

theorem Sound.target_ne_start_of_isPath (h : Sound kinds edges) {path : List Edge}
    {source target : String} (hpath : IsPath edges source target path)
    (hbefore : ¬ IsBeforeStart edges source) : ∀ edge ∈ path, edge.target ≠ startId := by
  induction path generalizing source with
  | nil => simp
  | cons first rest ih =>
    obtain ⟨hfirst, hsource, hrest⟩ := hpath
    intro edge hedge
    rcases List.mem_cons.mp hedge with rfl | hedge
    · exact fun htarget => hbefore ⟨edge, hfirst, hsource, htarget⟩
    · exact ih hrest (h.not_isBeforeStart_target hfirst) edge hedge

/-! ### No parting -/

/-- Of two paths from one vertex along edges that do not part, one continues the other. -/
theorem IsPath.continues {source target target' : String} {path path' : List Edge}
    (hsingle : ∀ edge ∈ edges, ∀ other ∈ edges, edge.source = other.source → edge = other)
    (hpath : IsPath edges source target path) (hpath' : IsPath edges source target' path') :
    (∃ rest, path' = path ++ rest ∧ IsPath edges target target' rest) ∨
      ∃ rest, path = path' ++ rest ∧ IsPath edges target' target rest := by
  induction path generalizing source path' with
  | nil =>
    obtain rfl : source = target := hpath
    exact Or.inl ⟨path', rfl, hpath'⟩
  | cons first rest ih =>
    cases path' with
    | nil =>
      obtain rfl : source = target' := hpath'
      exact Or.inr ⟨first :: rest, rfl, hpath⟩
    | cons first' rest' =>
      obtain ⟨hfirst, hsource, hrest⟩ := hpath
      obtain ⟨hfirst', hsource', hrest'⟩ := hpath'
      obtain rfl := hsingle first hfirst first' hfirst' (hsource.trans hsource'.symm)
      refine (ih hrest hrest').imp ?_ ?_
      · rintro ⟨further, rfl, hfurther⟩
        exact ⟨further, rfl, hfurther⟩
      · rintro ⟨further, rfl, hfurther⟩
        exact ⟨further, rfl, hfurther⟩

theorem Sound.eq_of_common_source (h : Sound kinds edges) {first : Edge}
    (hfirst : edges.filter (·.source = startId) = [first]) :
    ∀ edge ∈ activeEdges (judge judgement edges), ∀ other ∈ activeEdges (judge judgement edges),
      edge.source = other.source → edge = other := by
  intro edge hedge other hother hsource
  obtain ⟨hmem, hchosen⟩ := chooses_of_mem_activeEdges hedge
  obtain ⟨hmem', hchosen'⟩ := chooses_of_mem_activeEdges hother
  by_cases hstart : edge.source = startId
  · have honly : ∀ item ∈ edges, item.source = startId → item = first := fun item hitem hleaves =>
      (mem_filter_singleton hfirst).mp ⟨hitem, by simpa using hleaves⟩
    rw [honly edge hmem hstart, honly other hmem' (hsource ▸ hstart)]
  · exact h.eq_of_chosen (List.mem_filter.mpr ⟨hmem, hchosen⟩)
      (List.mem_filter.mpr ⟨hmem', hchosen'⟩) hsource hstart

/-! ### No meeting -/

theorem Sound.eq_of_common_target (h : Sound kinds edges) {first : Edge}
    (hfirst : edges.filter (·.source = startId) = [first]) :
    ∀ edge ∈ activeEdges (judge judgement edges), ∀ other ∈ activeEdges (judge judgement edges),
      edge.target = other.target → edge = other := by
  intro edge hedge other hother htarget
  have hsub : ∀ item ∈ activeEdges (judge judgement edges), item ∈ edges := fun item hitem =>
    (chooses_of_mem_activeEdges hitem).1
  by_cases hstart : edge.target = startId
  · exact h.intoStart edge (hsub edge hedge) other (hsub other hother) hstart
      (htarget ▸ hstart)
  · obtain ⟨path, hpath⟩ := exists_path_to_source _ _ edge hedge hstart
    obtain ⟨path', hpath'⟩ := exists_path_to_source _ _ other hother (htarget ▸ hstart)
    -- whichever of the two paths goes on returns to the target, so neither does
    have hsame : path ++ [edge] = path' ++ [other] := by
      rcases (hpath.concat hedge).continues (h.eq_of_common_source hfirst)
        (hpath'.concat hother) with
        ⟨rest, hpaths, hloop⟩ | ⟨rest, hpaths, hloop⟩
      · rw [← htarget] at hloop
        rw [hpaths, h.eq_nil_of_loop (hloop.mono hsub), List.append_nil]
      · rw [← htarget] at hloop
        rw [hpaths, h.eq_nil_of_loop (hloop.mono hsub), List.append_nil]
    exact List.singleton_inj.mp (List.append_inj' hsame rfl).2

end FormFlow.Route
