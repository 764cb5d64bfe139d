import FormFlow.Proofs.Route.Reach

/-!
# What can influence the judged edges

Two judgements lead to the same judged edges if they agree on every vertex that is reached under the
first of them (`judge_congr`). Reaching is itself told from the judged edges, so this is an
induction on the edges gone through: the judge asks for the choice of a source only when an edge
before it leads there, and then the source is reached in the end as well (`isReached_of_enters`).
-/

namespace FormFlow.Route

variable {judgement other : Judgement} {edges : List Edge} {edge : Edge}

theorem Sweep.next_congr {sweep : Sweep}
    (h : sweep.enters edge = true → judgement.chooses edge = other.chooses edge) :
    sweep.next judgement edge = sweep.next other edge := by
  unfold next
  rw [isFrontier_eq, isFrontier_eq, leadsOn_eq, leadsOn_eq]
  cases henters : sweep.enters edge with
  | false => simp
  | true => rw [h henters]

/-- Judgements that agree on the choices of all reached vertices judge the edges alike. -/
theorem judge_congr (h : ∀ edge ∈ edges, isReached (judge judgement edges) edge.source = true →
    judgement.chooses edge = other.chooses edge) :
    judge judgement edges = judge other edges := by
  have hrun : ∀ front back, edges = front ++ back → sweep judgement front = sweep other front := by
    intro front
    induction front using List.reverseRecOn with
    | nil => exact fun _ _ => rfl
    | append_singleton init last ih =>
      intro back hsplit
      rw [List.append_assoc, List.singleton_append] at hsplit
      rw [sweep_concat, sweep_concat, ← ih _ hsplit]
      refine Sweep.next_congr fun henters => ?_
      exact h last (by simp [hsplit]) (isReached_of_enters henters hsplit)
  rw [judge_eq_judged, judge_eq_judged, hrun edges [] (List.append_nil _).symm]

end FormFlow.Route
