import Mathlib.Data.List.Induction
import FormFlow.Proofs.Route.Sound
import FormFlow.Route.Judged

/-!
# Active edges

Judging goes through the edges from left to right, so the judgement of an edge depends on the edges
before it alone. An active edge is one that its source chooses (`Judgement.chooses`), and a section
or decision of a sound route chooses at most one edge (`length_active_le_one`).
-/

namespace FormFlow.Route

/-- Whether the source of an edge leads on by it, the frontier left out of account. -/
def Judgement.chooses (judgement : Judgement) (edge : Edge) : Bool :=
  match edge.sourceKind with
  | .start => true
  | .finish => false
  | .sectionVertex => judgement.valid edge.source
  | .decision => edge.condition = some (judgement.output edge.source)

def activeEdges (judged : List JudgedEdge) : List Edge :=
  (judged.filter JudgedEdge.active).map JudgedEdge.toEdge

theorem mem_activeEdges {judged : List JudgedEdge} {edge : Edge} :
    edge ∈ activeEdges judged ↔ ⟨edge, true⟩ ∈ judged := by
  simp only [activeEdges, List.mem_map, List.mem_filter]
  constructor
  · rintro ⟨⟨edge, active⟩, ⟨hmem, rfl⟩, rfl⟩
    exact hmem
  · intro hmem
    exact ⟨_, ⟨hmem, rfl⟩, rfl⟩

theorem activeEdges_append (front back : List JudgedEdge) :
    activeEdges (front ++ back) = activeEdges front ++ activeEdges back := by
  simp [activeEdges]

variable {judgement : Judgement}

/-! ### One edge -/

namespace Sweep

theorem enters_iff {sweep : Sweep} {edge : Edge} :
    sweep.enters edge = true ↔ edge.source = startId ∨ edge.target = startId ∨
      ∃ earlier ∈ activeEdges sweep.judged, earlier.target = edge.source := by
  simp only [enters, Bool.or_eq_true, decide_eq_true_eq, List.any_eq_true, Bool.and_eq_true,
    or_assoc]
  refine or_congr_right (or_congr_right ?_)
  constructor
  · rintro ⟨⟨earlier, active⟩, hmem, rfl, htarget⟩
    exact ⟨earlier, mem_activeEdges.mpr hmem, htarget⟩
  · rintro ⟨earlier, hmem, htarget⟩
    exact ⟨⟨earlier, true⟩, mem_activeEdges.mp hmem, rfl, htarget⟩

theorem leadsOn_eq (sweep : Sweep) (judgement : Judgement) (edge : Edge) :
    sweep.leadsOn judgement edge =
      ((edge.sourceKind = .start || !sweep.beyondFrontier) && judgement.chooses edge) := by
  unfold leadsOn Judgement.chooses
  cases edge.sourceKind <;> simp

theorem chooses_of_leadsOn {sweep : Sweep} {edge : Edge}
    (h : sweep.leadsOn judgement edge = true) : judgement.chooses edge = true := by
  rw [leadsOn_eq, Bool.and_eq_true] at h
  exact h.2

theorem leadsOn_eq_chooses {sweep : Sweep} (hclear : sweep.beyondFrontier = false) (edge : Edge) :
    sweep.leadsOn judgement edge = judgement.chooses edge := by
  simp [leadsOn_eq, hclear]

theorem leadsOn_iff {sweep : Sweep} {edge : Edge} (hstart : edge.sourceKind ≠ .start) :
    sweep.leadsOn judgement edge = true ↔
      judgement.chooses edge = true ∧ sweep.beyondFrontier = false := by
  simp [leadsOn_eq, hstart, and_comm]

theorem isFrontier_eq (sweep : Sweep) (judgement : Judgement) (edge : Edge) :
    sweep.isFrontier judgement edge =
      (edge.sourceKind = .sectionVertex && sweep.enters edge && !judgement.chooses edge) := by
  unfold isFrontier Judgement.chooses
  cases edge.sourceKind <;> simp

theorem activeEdges_next (sweep : Sweep) (edge : Edge) :
    activeEdges (sweep.next judgement edge).judged = activeEdges sweep.judged ++
      if sweep.enters edge && sweep.leadsOn judgement edge then [edge] else [] := by
  rw [next, activeEdges_append]
  congr 1
  unfold activeEdges
  split_ifs with h
  · simp [h]
  · simp [h]

end Sweep

/-! ### All edges -/

/-- The state in which the edges leave the judge. -/
def sweep (judgement : Judgement) (edges : List Edge) : Sweep :=
  edges.foldl (Sweep.next judgement) Sweep.start

theorem judge_eq_judged (judgement : Judgement) (edges : List Edge) :
    judge judgement edges = (sweep judgement edges).judged := rfl

theorem sweep_concat (judgement : Judgement) (edges : List Edge) (edge : Edge) :
    sweep judgement (edges ++ [edge]) = (sweep judgement edges).next judgement edge := by
  simp [sweep]

theorem activeEdges_judge_concat (judgement : Judgement) (edges : List Edge) (edge : Edge) :
    activeEdges (judge judgement (edges ++ [edge])) = activeEdges (judge judgement edges) ++
      if (sweep judgement edges).enters edge && (sweep judgement edges).leadsOn judgement edge
      then [edge] else [] := by
  rw [judge_eq_judged, sweep_concat, Sweep.activeEdges_next]
  rfl

theorem exists_activeEdges_append (judgement : Judgement) (front back : List Edge) :
    ∃ later, (∀ edge ∈ later, edge ∈ back) ∧
      activeEdges (judge judgement (front ++ back)) =
        activeEdges (judge judgement front) ++ later := by
  induction back using List.reverseRecOn with
  | nil => exact ⟨[], by simp, by simp⟩
  | append_singleton init last ih =>
    obtain ⟨later, hlater, hactive⟩ := ih
    rw [← List.append_assoc, activeEdges_judge_concat, hactive, List.append_assoc]
    refine ⟨_, fun edge hedge => ?_, rfl⟩
    rcases List.mem_append.mp hedge with hedge | hedge
    · exact List.mem_append_left _ (hlater edge hedge)
    · split_ifs at hedge
      · exact List.mem_append_right _ hedge
      · simp at hedge

theorem mem_activeEdges_append {front : List Edge} {edge : Edge} (back : List Edge)
    (h : edge ∈ activeEdges (judge judgement front)) :
    edge ∈ activeEdges (judge judgement (front ++ back)) := by
  obtain ⟨later, _, hactive⟩ := exists_activeEdges_append judgement front back
  rw [hactive]
  exact List.mem_append_left _ h

/-- When the judge came to an active edge, its source was entered and led on by it. -/
theorem exists_split_of_active {edges : List Edge} {edge : Edge}
    (h : edge ∈ activeEdges (judge judgement edges)) :
    ∃ front back, edges = front ++ edge :: back ∧ (sweep judgement front).enters edge = true ∧
      (sweep judgement front).leadsOn judgement edge = true := by
  induction edges using List.reverseRecOn with
  | nil => simp [judge, activeEdges, Sweep.start] at h
  | append_singleton init last ih =>
    rw [activeEdges_judge_concat, List.mem_append] at h
    rcases h with hinit | hlast
    · obtain ⟨front, back, rfl, hboth⟩ := ih hinit
      exact ⟨front, back ++ [last], by simp, hboth⟩
    · split_ifs at hlast with hactive
      · obtain rfl := List.mem_singleton.mp hlast
        exact ⟨init, [], rfl, Bool.and_eq_true_iff.mp hactive⟩
      · simp at hlast

theorem activeEdges_judge_sublist (judgement : Judgement) (edges : List Edge) :
    (activeEdges (judge judgement edges)).Sublist (edges.filter judgement.chooses) := by
  induction edges using List.reverseRecOn with
  | nil => exact List.Sublist.refl _
  | append_singleton init last ih =>
    rw [activeEdges_judge_concat, List.filter_append]
    refine ih.append ?_
    split_ifs with hactive
    · rw [Bool.and_eq_true] at hactive
      simp [Sweep.chooses_of_leadsOn hactive.2]
    · exact List.nil_sublist _

theorem chooses_of_mem_activeEdges {edges : List Edge} {edge : Edge}
    (h : edge ∈ activeEdges (judge judgement edges)) :
    edge ∈ edges ∧ judgement.chooses edge = true :=
  List.mem_filter.mp ((activeEdges_judge_sublist judgement edges).subset h)

/-! ### What a vertex chooses -/

section

variable {kinds : Members VertexKind} {edges : List Edge}

theorem Sound.sourceKind_eq (h : Sound kinds edges) {edge : Edge} (hmem : edge ∈ edges)
    {kind : VertexKind} (hkind : Members.get? edge.source kinds = some kind) :
    edge.sourceKind = kind := by
  rw [h.sourceKind edge hmem, Option.some.injEq] at hkind
  exact hkind

theorem Sound.length_chosen_le_one (h : Sound kinds edges) (judgement : Judgement) {id : String}
    (hid : id ≠ startId) :
    ((edges.filter judgement.chooses).filter (·.source = id)).length ≤ 1 := by
  rw [List.filter_comm]
  by_cases hnone : edges.filter (·.source = id) = []
  · simp [hnone]
  · obtain ⟨edge, hedge⟩ := List.exists_mem_of_ne_nil _ hnone
    obtain ⟨hmem, hsource⟩ : edge ∈ edges ∧ edge.source = id := by
      simpa [List.mem_filter] using hedge
    have hkind := h.sourceKind edge hmem
    rw [hsource] at hkind
    cases hkindOf : edge.sourceKind with
    | start => exact absurd ((h.startKind id).mp (hkindOf ▸ hkind)) hid
    | finish =>
      exact absurd ((h.finishKind id).mp (hkindOf ▸ hkind)) (hsource ▸ h.source_ne_end _ hmem)
    | sectionVertex =>
      obtain ⟨only, honly⟩ := h.section_edge id (hkindOf ▸ hkind)
      rw [honly]
      exact List.length_filter_le _ _
    | decision =>
      obtain ⟨only, honly⟩ := h.decision_edge id (hkindOf ▸ hkind) (judgement.output id)
      have hsame : (edges.filter (·.source = id)).filter judgement.chooses =
          (edges.filter (·.source = id)).filter (·.condition = some (judgement.output id)) := by
        apply List.filter_congr
        intro other hother
        obtain ⟨hin, rfl⟩ : other ∈ edges ∧ other.source = id := by
          simpa [List.mem_filter] using hother
        rw [Judgement.chooses, h.sourceKind_eq hin (hkindOf ▸ hkind)]
      rw [hsame, honly]
      exact Nat.le_refl _

theorem Sound.length_active_le_one (h : Sound kinds edges) (judgement : Judgement) {id : String}
    (hid : id ≠ startId) :
    ((activeEdges (judge judgement edges)).filter (·.source = id)).length ≤ 1 :=
  Nat.le_trans ((activeEdges_judge_sublist judgement edges).filter _).length_le
    (h.length_chosen_le_one judgement hid)

end

end FormFlow.Route
