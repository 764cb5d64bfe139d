import FormFlow.Proofs.Route.Reach
import FormFlow.Proofs.Route.Walk

/-!
# What makes an edge active

Whatever the edges at `START` are, an edge that its source chooses is active exactly if its source
is entered and it stands before the frontier (`Sound.mem_activeEdges_iff`), and the frontier is
passed by then exactly if the edge of a reached section that is not valid stands before it
(`Sound.beyondFrontier_iff`). Both are told from the edges as they are judged in the end: what the
judge has seen when it comes to an edge is all that there will ever be (`Sound.enters_iff`), as no
edge leads back.
-/

namespace FormFlow.Route

variable {kinds : Members VertexKind} {edges front back : List Edge} {judgement : Judgement}
  {edge : Edge}

/-! ### One edge among all -/

theorem Sound.not_mem_of_split (h : Sound kinds edges) (hsplit : edges = front ++ edge :: back)
    (hchosen : judgement.chooses edge = true) (hstart : edge.source ≠ startId) :
    edge ∉ front ∧ edge ∉ back := by
  constructor
  · intro hmem
    obtain ⟨passed, rest, rfl⟩ := List.append_of_mem hmem
    have hsplit' : edges = passed ++ edge :: (rest ++ edge :: back) := by simp [hsplit]
    have hnot := (h.other_not_chosen hsplit' hchosen hstart (by simp) rfl).2
    simp [hchosen] at hnot
  · intro hmem
    have hnot := (h.other_not_chosen hsplit hchosen hstart hmem rfl).2
    simp [hchosen] at hnot

/-- Whether the source of an edge is entered is settled when the judge comes to the edge. -/
theorem Sound.enters_iff (h : Sound kinds edges) (hsplit : edges = front ++ edge :: back) :
    (sweep judgement front).enters edge = true ↔ edge.source = startId ∨ edge.target = startId ∨
      ∃ earlier ∈ activeEdges (judge judgement edges), earlier.target = edge.source := by
  rw [Sweep.enters_iff, ← judge_eq_judged]
  refine or_congr_right (or_congr_right ⟨?_, ?_⟩)
  · rintro ⟨earlier, hearlier, htarget⟩
    exact ⟨earlier, hsplit ▸ mem_activeEdges_append _ hearlier, htarget⟩
  · rintro ⟨earlier, hearlier, htarget⟩
    obtain ⟨later, hlater, hactive⟩ := exists_activeEdges_append judgement front (edge :: back)
    rw [hsplit, hactive, List.mem_append] at hearlier
    rcases hearlier with hfront | hbehind
    · exact ⟨earlier, hfront, htarget⟩
    · -- an edge that is not before this one does not lead to its source
      exfalso
      rcases List.mem_cons.mp (hlater earlier hbehind) with rfl | hback
      · exact h.noLoop earlier (by simp [hsplit]) htarget
      · have hforward := h.forward
        rw [hsplit, List.pairwise_append, List.pairwise_cons] at hforward
        exact hforward.2.1.1 earlier hback htarget

theorem Sound.mem_activeEdges_of_start (h : Sound kinds edges) (hmem : edge ∈ edges)
    (hsource : edge.source = startId) : edge ∈ activeEdges (judge judgement edges) := by
  obtain ⟨front, back, rfl⟩ := List.append_of_mem hmem
  have hkind : edge.sourceKind = .start := h.sourceKind_eq hmem ((h.startKind _).mpr hsource)
  have hactive : ((sweep judgement front).enters edge &&
      (sweep judgement front).leadsOn judgement edge) = true := by
    simp [Sweep.enters, Sweep.leadsOn, hsource, hkind]
  rw [List.append_cons]
  apply mem_activeEdges_append
  rw [activeEdges_judge_concat, if_pos hactive]
  exact List.mem_append_right _ List.mem_cons_self

theorem Sound.sourceKind_ne_start (h : Sound kinds edges) (hmem : edge ∈ edges)
    (hstart : edge.source ≠ startId) : edge.sourceKind ≠ .start := by
  intro hkind
  have hsource := h.sourceKind edge hmem
  rw [hkind] at hsource
  exact hstart ((h.startKind _).mp hsource)

theorem Sound.mem_activeEdges_iff (h : Sound kinds edges) (hsplit : edges = front ++ edge :: back)
    (hchosen : judgement.chooses edge = true) (hstart : edge.source ≠ startId) :
    edge ∈ activeEdges (judge judgement edges) ↔
      (edge.target = startId ∨
        ∃ earlier ∈ activeEdges (judge judgement edges), earlier.target = edge.source) ∧
      (sweep judgement front).beyondFrontier = false := by
  have hmem : edge ∈ edges := by simp [hsplit]
  have hleads : (sweep judgement front).leadsOn judgement edge = true ↔
      (sweep judgement front).beyondFrontier = false := by
    rw [Sweep.leadsOn_iff (h.sourceKind_ne_start hmem hstart)]
    simp [hchosen]
  have henters : (sweep judgement front).enters edge = true ↔ edge.target = startId ∨
      ∃ earlier ∈ activeEdges (judge judgement edges), earlier.target = edge.source := by
    rw [h.enters_iff hsplit]
    simp [hstart]
  rw [← hleads, ← henters, ← Bool.and_eq_true]
  obtain ⟨hfront, hback⟩ := h.not_mem_of_split hsplit hchosen hstart
  obtain ⟨later, hlater, hactive⟩ := exists_activeEdges_append judgement (front ++ [edge]) back
  rw [hsplit, List.append_cons, hactive, activeEdges_judge_concat, List.mem_append,
    List.mem_append]
  constructor
  · rintro ((hmem | hmem) | hmem)
    · exact absurd (chooses_of_mem_activeEdges hmem).1 hfront
    · split_ifs at hmem with hboth
      · exact hboth
      · simp at hmem
    · exact absurd (hlater edge hmem) hback
  · intro hboth
    rw [if_pos hboth]
    exact Or.inl (Or.inr List.mem_cons_self)

/-! ### The frontier -/

theorem beyondFrontier_sweep_iff : (sweep judgement edges).beyondFrontier = true ↔
    ∃ front other back, edges = front ++ other :: back ∧
      (sweep judgement front).isFrontier judgement other = true := by
  induction edges using List.reverseRecOn with
  | nil => simp [sweep, Sweep.start]
  | append_singleton init last ih =>
    rw [sweep_concat, Sweep.next, Bool.or_eq_true, ih]
    constructor
    · rintro (⟨front, other, back, rfl, hfrontier⟩ | hfrontier)
      · exact ⟨front, other, back ++ [last], by simp, hfrontier⟩
      · exact ⟨init, last, [], rfl, hfrontier⟩
    · rintro ⟨front, other, back, hsplit, hfrontier⟩
      rcases List.eq_nil_or_concat back with rfl | ⟨back, final, rfl⟩
      · obtain ⟨rfl, hlast⟩ := List.append_inj' hsplit rfl
        obtain rfl := List.singleton_inj.mp hlast
        exact Or.inr hfrontier
      · rw [List.concat_eq_append, ← List.cons_append, ← List.append_assoc] at hsplit
        exact Or.inl ⟨front, other, back, (List.append_inj' hsplit rfl).1, hfrontier⟩

theorem Sound.enters_section_iff (h : Sound kinds edges) (hsplit : edges = front ++ edge :: back)
    (hkind : edge.sourceKind = .sectionVertex) :
    (sweep judgement front).enters edge = true ↔
      isReached (judge judgement edges) edge.source = true := by
  have hmem : edge ∈ edges := by simp [hsplit]
  rw [h.enters_iff hsplit, isReached_iff, map_toEdge_judge]
  refine or_congr_right ?_
  rw [or_comm]
  refine or_congr_right ⟨fun htarget => ⟨edge, hmem, rfl, htarget⟩, ?_⟩
  rintro ⟨other, hother, hsource, htarget⟩
  obtain ⟨only, honly⟩ := h.section_edge edge.source (hkind ▸ h.sourceKind edge hmem)
  have hall : ∀ item ∈ edges, item.source = edge.source → item = only := fun item hitem hleaves =>
    (mem_filter_singleton honly).mp ⟨hitem, by simpa using hleaves⟩
  rw [hall edge hmem rfl, ← hall other hother hsource]
  exact htarget

theorem Sound.beyondFrontier_iff (h : Sound kinds edges) (hsplit : edges = front ++ back) :
    (sweep judgement front).beyondFrontier = true ↔
      ∃ other ∈ front, other.sourceKind = .sectionVertex ∧
        isReached (judge judgement edges) other.source = true ∧
        judgement.valid other.source = false := by
  rw [beyondFrontier_sweep_iff]
  constructor
  · rintro ⟨passed, other, rest, rfl, hfrontier⟩
    simp only [Sweep.isFrontier, Bool.and_eq_true, decide_eq_true_eq,
      Bool.not_eq_true'] at hfrontier
    obtain ⟨⟨hkind, henters⟩, hinvalid⟩ := hfrontier
    have hsplit' : edges = passed ++ other :: (rest ++ back) := by simp [hsplit]
    exact ⟨other, by simp, hkind, (h.enters_section_iff hsplit' hkind).mp henters, hinvalid⟩
  · rintro ⟨other, hother, hkind, hreached, hinvalid⟩
    obtain ⟨passed, rest, rfl⟩ := List.append_of_mem hother
    have hsplit' : edges = passed ++ other :: (rest ++ back) := by simp [hsplit]
    refine ⟨passed, other, rest, rfl, ?_⟩
    simp [Sweep.isFrontier, hkind, (h.enters_section_iff hsplit' hkind).mpr hreached, hinvalid]

end FormFlow.Route
