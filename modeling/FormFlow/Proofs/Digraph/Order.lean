import Mathlib.Data.List.Nodup
import FormFlow.Digraph.Order

/-!
# Orders of a directed graph

If `Digraph.order` answers with a list, it holds every vertex once, and every edge leads from an
earlier to a later vertex (`isOrder_of_order`).

A walk finishes what stands on its stack and what it takes from the unseen vertices, and nothing
else (`Walked`). That no edge leads back is the second check of `order` alone; that no edge leads
from a vertex to itself is due to the walk, which takes every vertex from the unseen ones once.
-/

namespace FormFlow.Digraph

variable {α : Type} [DecidableEq α] {graph : Digraph α}

/-- Every vertex once, and no edge from a later to an earlier vertex or to its own source. -/
structure IsOrder (graph : Digraph α) (order : List α) : Prop where
  nodup : order.Nodup
  mem_iff : ∀ vertex, vertex ∈ order ↔ vertex ∈ graph.vertices
  forward : order.Pairwise fun earlier later => (later, earlier) ∉ graph.edges
  noLoop : ∀ vertex ∈ order, (vertex, vertex) ∉ graph.edges

/-! ### One walk -/

/-- What a walk from a stack does to the unseen and the finished vertices. -/
structure Walked (graph : Digraph α) (unseen finished stack unseen' finished' : List α) : Prop where
  sublist : unseen'.Sublist unseen
  nodup : finished.Nodup → finished'.Nodup
  stack_seen : ∀ vertex ∈ stack, vertex ∉ unseen'
  mem_finished : ∀ vertex, vertex ∈ finished' ↔
    vertex ∈ finished ∨ vertex ∈ stack ∨ (vertex ∈ unseen ∧ vertex ∉ unseen')
  noLoop : ∀ vertex ∈ unseen, vertex ∉ unseen' → (vertex, vertex) ∉ graph.edges

omit [DecidableEq α] in
theorem walked_nil (unseen finished : List α) :
    Walked graph unseen finished [] unseen finished where
  sublist := List.Sublist.refl _
  nodup := id
  stack_seen := by simp
  mem_finished := by simp
  noLoop := fun _ hmem hnot => absurd hmem hnot

theorem Walked.take {unseen finished stack pushed unseen' finished' : List α} {top : α}
    (htop : top ∈ unseen) (hloop : (top, top) ∉ graph.edges)
    (hpushed : ∀ vertex ∈ pushed, vertex ∈ unseen.erase top)
    (h : Walked graph (unseen.erase top) finished (pushed ++ top :: stack) unseen' finished') :
    Walked graph unseen finished (top :: stack) unseen' finished' := by
  have hgone : ∀ vertex ∈ pushed ++ top :: stack, vertex ∉ unseen' := h.stack_seen
  refine ⟨h.sublist.trans List.erase_sublist, h.nodup, ?_, ?_, ?_⟩
  · intro vertex hmem
    exact hgone vertex (List.mem_append_right _ hmem)
  · intro vertex
    rw [h.mem_finished, List.mem_append]
    constructor
    · rintro (hfinished | (hpush | hstack) | ⟨hrest, hnot⟩)
      · exact Or.inl hfinished
      · have hnot := hgone vertex (List.mem_append_left _ hpush)
        exact Or.inr (Or.inr ⟨List.mem_of_mem_erase (hpushed vertex hpush), hnot⟩)
      · exact Or.inr (Or.inl hstack)
      · exact Or.inr (Or.inr ⟨List.mem_of_mem_erase hrest, hnot⟩)
    · rintro (hfinished | hstack | ⟨hmem, hnot⟩)
      · exact Or.inl hfinished
      · exact Or.inr (Or.inl (Or.inr hstack))
      · by_cases heq : vertex = top
        · subst heq
          exact Or.inr (Or.inl (Or.inr List.mem_cons_self))
        · exact Or.inr (Or.inr ⟨(List.mem_erase_of_ne heq).mpr hmem, hnot⟩)
  · intro vertex hmem hnot
    by_cases heq : vertex = top
    · subst heq
      exact hloop
    · exact h.noLoop vertex ((List.mem_erase_of_ne heq).mpr hmem) hnot

theorem Walked.finish {unseen finished stack unseen' finished' : List α} {top : α}
    (htop : top ∉ unseen)
    (h : Walked graph unseen (if top ∈ finished then finished else top :: finished) stack
      unseen' finished') :
    Walked graph unseen finished (top :: stack) unseen' finished' := by
  have hsub : ∀ vertex, vertex ∈ (if top ∈ finished then finished else top :: finished) ↔
      vertex ∈ finished ∨ vertex = top := by
    intro vertex
    split_ifs with hin
    · constructor
      · exact Or.inl
      · rintro (hmem | rfl)
        · exact hmem
        · exact hin
    · rw [List.mem_cons, or_comm]
  refine ⟨h.sublist, ?_, ?_, ?_, h.noLoop⟩
  · intro hnodup
    apply h.nodup
    split_ifs with hin
    · exact hnodup
    · exact List.nodup_cons.mpr ⟨hin, hnodup⟩
  · intro vertex hmem
    rcases List.mem_cons.mp hmem with rfl | hstack
    · exact fun hin => htop (h.sublist.subset hin)
    · exact h.stack_seen vertex hstack
  · intro vertex
    rw [h.mem_finished, hsub, List.mem_cons]
    tauto

theorem walked_of_walk {unseen finished stack unseen' finished' : List α} (hunseen : unseen.Nodup)
    (h : graph.walk unseen finished stack = .ok (unseen', finished')) :
    Walked graph unseen finished stack unseen' finished' := by
  fun_induction walk graph unseen finished stack with
  | case1 unseen finished =>
    obtain ⟨rfl, rfl⟩ : unseen = unseen' ∧ finished = finished' := by simpa using h
    exact walked_nil _ _
  | case2 => simp at h
  | case3 unseen finished top stack htop successors hloop rest ih =>
    refine Walked.take htop ?_ ?_ (ih (hunseen.erase top) h)
    · rwa [← mem_successors]
    · intro vertex hmem
      rw [List.mem_reverse, List.mem_filter] at hmem
      simpa using hmem.2
  | case4 unseen finished top stack htop ih => exact Walked.finish htop (ih hunseen h)

/-! ### All walks -/

theorem walkAll_ok {vertices unseen finished order : List α} (hunseen : unseen.Nodup)
    (hfinished : finished.Nodup) (h : graph.walkAll unseen finished vertices = .ok order) :
    order.Nodup ∧ (∀ vertex ∈ finished, vertex ∈ order) ∧
      (∀ vertex ∈ order, vertex ∈ finished ∨ vertex ∈ unseen) ∧
      ∀ vertex ∈ vertices, vertex ∈ unseen → vertex ∈ order ∧ (vertex, vertex) ∉ graph.edges := by
  induction vertices generalizing unseen finished with
  | nil =>
    obtain rfl : finished = order := by simpa [walkAll] using h
    exact ⟨hfinished, fun _ hmem => hmem, fun _ => Or.inl, by simp⟩
  | cons first rest ih =>
    rw [walkAll] at h
    by_cases hfirst : first ∈ unseen
    · rw [if_pos hfirst] at h
      cases hwalk : graph.walk unseen finished [first] with
      | error vertex => simp [hwalk] at h
      | ok result =>
        obtain ⟨unseen', finished'⟩ := result
        rw [hwalk] at h
        have hwalked := walked_of_walk hunseen hwalk
        obtain ⟨hnodup, hkept, hfrom, hall⟩ :=
          ih (hwalked.sublist.nodup hunseen) (hwalked.nodup hfinished) h
        refine ⟨hnodup, ?_, ?_, ?_⟩
        · intro vertex hmem
          exact hkept vertex ((hwalked.mem_finished vertex).mpr (Or.inl hmem))
        · intro vertex hmem
          rcases hfrom vertex hmem with hin | hin
          · rcases (hwalked.mem_finished vertex).mp hin with hin | hin | hin
            · exact Or.inl hin
            · rw [List.mem_singleton] at hin
              subst hin
              exact Or.inr hfirst
            · exact Or.inr hin.1
          · exact Or.inr (hwalked.sublist.subset hin)
        · intro vertex hmem hin
          -- what the first walk has left unseen is up to the walks that follow
          by_cases hleft : vertex ∈ unseen'
          · rcases List.mem_cons.mp hmem with rfl | hrest
            · exact absurd hleft (hwalked.stack_seen vertex (by simp))
            · exact hall vertex hrest hleft
          · have hdone := (hwalked.mem_finished vertex).mpr (Or.inr (Or.inr ⟨hin, hleft⟩))
            exact ⟨hkept vertex hdone, hwalked.noLoop vertex hin hleft⟩
    · rw [if_neg hfirst] at h
      obtain ⟨hnodup, hkept, hfrom, hall⟩ := ih hunseen hfinished h
      refine ⟨hnodup, hkept, hfrom, ?_⟩
      intro vertex hmem hin
      rcases List.mem_cons.mp hmem with rfl | hrest
      · exact absurd hin hfirst
      · exact hall vertex hrest hin

/-! ### The check for edges that lead back -/

/-- If no vertex has an edge from behind it, every edge into a vertex comes from one passed before
it. -/
theorem forward_of_backSource? {passed rest : List α} (h : graph.backSource? passed rest = none)
    (hnodup : (passed ++ rest).Nodup) :
    rest.Pairwise fun earlier later => (later, earlier) ∉ graph.edges := by
  induction rest generalizing passed with
  | nil => exact List.Pairwise.nil
  | cons vertex rest ih =>
    rw [backSource?] at h
    split at h
    · simp at h
    · next hfind =>
      have hperm : (vertex :: passed ++ rest).Perm (passed ++ vertex :: rest) :=
        List.perm_middle.symm
      refine List.pairwise_cons.mpr ⟨?_, ih h (hperm.nodup_iff.mpr hnodup)⟩
      intro later hlater hedge
      have hin := List.find?_eq_none.mp hfind (later, vertex) hedge
      simp only [true_and, decide_not, Bool.not_eq_true', decide_eq_false_iff_not, not_not] at hin
      have hdisjoint := (List.nodup_append.mp (hperm.nodup_iff.mpr hnodup)).2.2
      exact hdisjoint later hin later hlater rfl

theorem isOrder_of_order {order : List α} (hvertices : graph.vertices.Nodup)
    (h : graph.order = .ok order) : graph.IsOrder order := by
  unfold Digraph.order at h
  split at h
  · simp at h
  · next finished hwalk =>
    split at h
    · simp at h
    · next hback =>
      obtain rfl : finished = order := by simpa using h
      obtain ⟨hnodup, _, hfrom, hall⟩ := walkAll_ok hvertices List.nodup_nil hwalk
      have hmem : ∀ vertex, vertex ∈ finished ↔ vertex ∈ graph.vertices := by
        intro vertex
        constructor
        · intro hin
          rcases hfrom vertex hin with hnil | hin
          · simp at hnil
          · exact hin
        · exact fun hin => (hall vertex hin hin).1
      refine ⟨hnodup, hmem, forward_of_backSource? hback (by simpa using hnodup), ?_⟩
      intro vertex hin
      have hvertex := (hmem vertex).mp hin
      exact (hall vertex hvertex hvertex).2

end FormFlow.Digraph
