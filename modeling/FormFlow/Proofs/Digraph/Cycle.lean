import Mathlib.Data.List.TakeWhile
import Mathlib.Logic.Relation
import FormFlow.Proofs.Digraph.Contents
import FormFlow.Proofs.Digraph.Order

/-!
# Cycles of a directed graph

`Digraph.order` fails exactly if the graph has a cycle (`exists_order_iff`), and the vertex with
which it then answers lies on one (`onCycle_of_order`).

That vertex is found by an edge from it to a vertex that was finished later. The walk had not
finished that later vertex when it finished the first one, but it had seen it, so the later vertex
was on the stack below, and from there a path leads to everything above (`Tracked.reaches`).
-/

namespace FormFlow.Digraph

open Relation

variable {α : Type} {graph : Digraph α}

def Leads (graph : Digraph α) (source target : α) : Prop := (source, target) ∈ graph.edges

/-- A path of at least one edge leads from a vertex back to it. -/
def OnCycle (graph : Digraph α) (vertex : α) : Prop := TransGen graph.Leads vertex vertex

variable [DecidableEq α]

/-! ### What a walk knows of its stack -/

/-- What stands on a stack above the topmost occurrence of a vertex. -/
def above (stack : List α) (vertex : α) : List α := stack.takeWhile (· ≠ vertex)

@[simp] theorem above_cons_self (vertex : α) (stack : List α) :
    above (vertex :: stack) vertex = [] := by
  simp [above]

theorem above_cons_of_ne {top vertex : α} (h : vertex ≠ top) (stack : List α) :
    above (top :: stack) vertex = top :: above stack vertex := by
  simp [above, Ne.symm h]

theorem above_append {pushed : List α} {vertex : α} (h : vertex ∉ pushed) (stack : List α) :
    above (pushed ++ stack) vertex = pushed ++ above stack vertex := by
  refine List.takeWhile_append_of_pos ?_
  intro other hother
  rw [decide_eq_true_eq]
  rintro rfl
  exact h hother

/-- Every vertex is unseen, on the stack or finished. A vertex on the stack that is seen and not
finished has a path to all that stands above it, and its unseen successors are there. A successor
of a finished vertex is finished as well, or has a path to that vertex. -/
structure Tracked (graph : Digraph α) (unseen finished stack : List α) : Prop where
  covered : ∀ vertex ∈ graph.vertices, vertex ∈ unseen ∨ vertex ∈ finished ∨ vertex ∈ stack
  reaches : ∀ vertex ∈ stack, vertex ∉ unseen → vertex ∉ finished →
    ∀ other ∈ above stack vertex, ReflTransGen graph.Leads vertex other
  pending : ∀ vertex ∈ stack, vertex ∉ unseen → vertex ∉ finished →
    ∀ target ∈ unseen, graph.Leads vertex target → target ∈ above stack vertex
  closed : ∀ vertex ∈ finished, ∀ target, graph.Leads vertex target →
    target ∈ finished ∨ ReflTransGen graph.Leads target vertex
  backward : finished.Pairwise fun earlier later =>
    graph.Leads later earlier → ReflTransGen graph.Leads earlier later

theorem Tracked.start {unseen finished : List α} (h : Tracked graph unseen finished [])
    {vertex : α} (hvertex : vertex ∈ unseen) : Tracked graph unseen finished [vertex] := by
  refine ⟨fun other hother => ?_, fun other hother hseen => ?_, fun other hother hseen => ?_,
    h.closed, h.backward⟩
  · rcases h.covered other hother with hin | hin | hin
    · exact Or.inl hin
    · exact Or.inr (Or.inl hin)
    · exact absurd hin List.not_mem_nil
  · exact absurd (List.mem_singleton.mp hother ▸ hvertex) hseen
  · exact absurd (List.mem_singleton.mp hother ▸ hvertex) hseen

theorem Tracked.take {unseen finished stack pushed : List α} {top : α}
    (htop : top ∈ unseen)
    (hpushed : ∀ vertex, vertex ∈ pushed ↔ graph.Leads top vertex ∧ vertex ∈ unseen.erase top)
    (h : Tracked graph unseen finished (top :: stack)) :
    Tracked graph (unseen.erase top) finished (pushed ++ top :: stack) := by
  have hnotPushed : ∀ vertex, vertex ∉ unseen.erase top → vertex ∉ pushed :=
    fun vertex hseen hin => hseen ((hpushed vertex).mp hin).2
  have hold : ∀ vertex, vertex ≠ top → vertex ∈ pushed ++ top :: stack →
      vertex ∉ unseen.erase top → vertex ∈ top :: stack ∧ vertex ∉ unseen := by
    intro vertex hne hin hseen
    refine ⟨(List.mem_append.mp hin).resolve_left (hnotPushed vertex hseen), fun hmem => ?_⟩
    exact hseen ((List.mem_erase_of_ne hne).mpr hmem)
  refine ⟨fun vertex hvertex => ?_, fun vertex hin hseen hfinished other hother => ?_,
    fun vertex hin hseen hfinished target htarget hleads => ?_, h.closed, h.backward⟩
  · rcases h.covered vertex hvertex with hmem | hmem | hmem
    · by_cases hne : vertex = top
      · subst hne
        exact Or.inr (Or.inr (List.mem_append_right _ List.mem_cons_self))
      · exact Or.inl ((List.mem_erase_of_ne hne).mpr hmem)
    · exact Or.inr (Or.inl hmem)
    · exact Or.inr (Or.inr (List.mem_append_right _ hmem))
  · rw [above_append (hnotPushed vertex hseen), List.mem_append] at hother
    by_cases hne : vertex = top
    · subst hne
      rw [above_cons_self] at hother
      exact .single ((hpushed other).mp (hother.resolve_right List.not_mem_nil)).1
    · obtain ⟨hstack, hseen⟩ := hold vertex hne hin hseen
      rcases hother with hother | hother
      · have htopReached : ReflTransGen graph.Leads vertex top :=
          h.reaches vertex hstack hseen hfinished top (by simp [above_cons_of_ne hne])
        exact htopReached.tail ((hpushed other).mp hother).1
      · exact h.reaches vertex hstack hseen hfinished other hother
  · rw [above_append (hnotPushed vertex hseen), List.mem_append]
    by_cases hne : vertex = top
    · subst hne
      exact Or.inl ((hpushed target).mpr ⟨hleads, htarget⟩)
    · obtain ⟨hstack, hseen⟩ := hold vertex hne hin hseen
      exact Or.inr (h.pending vertex hstack hseen hfinished target (List.mem_of_mem_erase htarget)
        hleads)

/-- The top of the stack is finished. None of its successors is unseen, and one that is not
finished stands below it. -/
theorem Tracked.finish {unseen finished stack : List α} {top : α} (hgraph : graph.IsClosed)
    (htop : top ∉ unseen) (h : Tracked graph unseen finished (top :: stack)) :
    Tracked graph unseen (if top ∈ finished then finished else top :: finished) stack := by
  have hmem : ∀ vertex, vertex ∈ (if top ∈ finished then finished else top :: finished) ↔
      vertex = top ∨ vertex ∈ finished := by
    intro vertex
    split_ifs with hin
    · exact ⟨Or.inr, fun hor => hor.elim (fun heq => heq ▸ hin) id⟩
    · exact List.mem_cons
  have hlater : ∀ vertex, vertex ∉ (if top ∈ finished then finished else top :: finished) →
      vertex ∉ finished ∧ above (top :: stack) vertex = top :: above stack vertex := by
    intro vertex hnot
    rw [hmem, not_or] at hnot
    exact ⟨hnot.2, above_cons_of_ne hnot.1 stack⟩
  have hdone : top ∉ finished → ∀ target, graph.Leads top target →
      target ∈ finished ∨ ReflTransGen graph.Leads target top := by
    intro hfinished target hleads
    rcases h.covered target (hgraph _ hleads).2 with hunseen | hin | hstack
    · -- an unseen successor would have been pushed above the top
      have habove := h.pending top List.mem_cons_self htop hfinished target hunseen hleads
      simp at habove
    · exact Or.inl hin
    · by_cases hne : target = top
      · exact Or.inr (hne ▸ .refl)
      by_cases hunseen : target ∈ unseen
      · have habove := h.pending top List.mem_cons_self htop hfinished target hunseen hleads
        simp at habove
      by_cases hin : target ∈ finished
      · exact Or.inl hin
      · -- it waits on the stack to be finished, so it reaches the top above it
        exact Or.inr (h.reaches target hstack hunseen hin top (by simp [above_cons_of_ne hne]))
  refine ⟨fun vertex hvertex => ?_, fun vertex hin hseen hnot other hother => ?_,
    fun vertex hin hseen hnot target htarget hleads => ?_, fun vertex hin target hleads => ?_, ?_⟩
  · rw [hmem]
    rcases h.covered vertex hvertex with hin | hin | hin
    · exact Or.inl hin
    · exact Or.inr (Or.inl (Or.inr hin))
    · rcases List.mem_cons.mp hin with rfl | hin
      · exact Or.inr (Or.inl (Or.inl rfl))
      · exact Or.inr (Or.inr hin)
  · obtain ⟨hfinished, habove⟩ := hlater vertex hnot
    exact h.reaches vertex (List.mem_cons_of_mem _ hin) hseen hfinished other
      (habove ▸ List.mem_cons_of_mem _ hother)
  · obtain ⟨hfinished, habove⟩ := hlater vertex hnot
    have hstands := h.pending vertex (List.mem_cons_of_mem _ hin) hseen hfinished target htarget
      hleads
    rw [habove, List.mem_cons] at hstands
    rcases hstands with rfl | hstands
    · exact absurd htarget htop
    · exact hstands
  · have hkept : target ∈ finished ∨ ReflTransGen graph.Leads target vertex := by
      by_cases hfinished : vertex ∈ finished
      · exact h.closed vertex hfinished target hleads
      · obtain rfl := ((hmem vertex).mp hin).resolve_right hfinished
        exact hdone hfinished target hleads
    exact hkept.imp_left fun htarget => (hmem target).mpr (Or.inr htarget)
  · split_ifs with hin
    · exact h.backward
    · -- an edge from a finished vertex to the new one was there when that vertex was finished
      refine List.pairwise_cons.mpr ⟨fun later hlaterIn hleads => ?_, h.backward⟩
      exact (h.closed later hlaterIn top hleads).resolve_left hin

theorem tracked_of_walk {unseen finished stack unseen' finished' : List α}
    (hgraph : graph.IsClosed) (h : Tracked graph unseen finished stack)
    (hwalk : graph.walk unseen finished stack = .ok (unseen', finished')) :
    Tracked graph unseen' finished' [] := by
  fun_induction walk graph unseen finished stack with
  | case1 unseen finished =>
    obtain ⟨rfl, rfl⟩ : unseen = unseen' ∧ finished = finished' := by simpa using hwalk
    exact h
  | case2 => simp at hwalk
  | case3 unseen finished top stack htop successors hloop rest ih =>
    refine ih (h.take htop fun vertex => ?_) hwalk
    rw [List.mem_reverse, List.mem_filter, mem_successors, decide_eq_true_eq]
    rfl
  | case4 unseen finished top stack htop ih => exact ih (h.finish hgraph htop) hwalk

theorem onCycle_of_walk {unseen finished stack : List α} {vertex : α}
    (h : graph.walk unseen finished stack = .error vertex) : graph.OnCycle vertex := by
  fun_induction walk graph unseen finished stack with
  | case1 => simp at h
  | case2 unseen finished top stack htop successors hloop =>
    obtain rfl : top = vertex := by simpa using h
    exact .single (mem_successors.mp hloop)
  | case3 unseen finished top stack htop successors hloop rest ih => exact ih h
  | case4 unseen finished top stack htop ih => exact ih h

/-! ### All walks -/

theorem tracked_of_walkAll {vertices unseen finished order : List α} (hgraph : graph.IsClosed)
    (h : Tracked graph unseen finished [])
    (hwalk : graph.walkAll unseen finished vertices = .ok order) :
    ∃ left, Tracked graph left order [] := by
  induction vertices generalizing unseen finished with
  | nil =>
    obtain rfl : finished = order := by simpa [walkAll] using hwalk
    exact ⟨unseen, h⟩
  | cons first rest ih =>
    rw [walkAll] at hwalk
    split at hwalk
    · next hfirst =>
      split at hwalk
      · next hstep => exact ih (tracked_of_walk hgraph (h.start hfirst) hstep) hwalk
      · simp at hwalk
    · exact ih h hwalk

theorem onCycle_of_walkAll {vertices unseen finished : List α} {vertex : α}
    (h : graph.walkAll unseen finished vertices = .error vertex) : graph.OnCycle vertex := by
  induction vertices generalizing unseen finished with
  | nil => simp [walkAll] at h
  | cons first rest ih =>
    rw [walkAll] at h
    split at h
    · split at h
      · exact ih h
      · next hwalk =>
        obtain rfl := Except.error.inj h
        exact onCycle_of_walk hwalk
    · exact ih h

/-! ### The check for edges that lead back -/

theorem onCycle_of_backSource? {passed rest : List α} {vertex : α}
    (hback : rest.Pairwise fun earlier later =>
      graph.Leads later earlier → ReflTransGen graph.Leads earlier later)
    (hall : ∀ edge ∈ graph.edges, edge.1 ∈ passed ∨ edge.1 ∈ rest)
    (h : graph.backSource? passed rest = some vertex) : graph.OnCycle vertex := by
  induction rest generalizing passed with
  | nil => simp [backSource?] at h
  | cons first rest ih =>
    obtain ⟨hfirst, hrest⟩ := List.pairwise_cons.mp hback
    rw [backSource?] at h
    split at h
    · next edge hfind =>
      obtain rfl : edge.1 = vertex := by simpa using h
      have hmem := List.mem_of_find?_eq_some hfind
      have hfound := List.find?_some hfind
      rw [decide_eq_true_eq, List.mem_cons, not_or] at hfound
      obtain ⟨rfl, hne, hnew⟩ := hfound
      -- the source was finished before the target, which therefore has a path to it
      have hbehind : edge.1 ∈ rest :=
        (List.mem_cons.mp ((hall edge hmem).resolve_left hnew)).resolve_left hne
      exact TransGen.head' hmem (hfirst edge.1 hbehind hmem)
    · refine ih hrest (fun edge hedge => ?_) h
      rcases hall edge hedge with hin | hin
      · exact Or.inl (List.mem_cons_of_mem _ hin)
      · rcases List.mem_cons.mp hin with heq | hin
        · exact Or.inl (heq ▸ List.mem_cons_self)
        · exact Or.inr hin

/-! ### The order -/

/-- Without an order, the vertex answered with lies on a cycle. -/
theorem onCycle_of_order {vertex : α} (hvertices : graph.vertices.Nodup)
    (hgraph : graph.IsClosed) (h : graph.order = .error vertex) : graph.OnCycle vertex := by
  unfold Digraph.order at h
  split at h
  · next hwalk =>
    obtain rfl := Except.error.inj h
    exact onCycle_of_walkAll hwalk
  · next finished hwalk =>
    split at h
    · next hback =>
      obtain rfl := Except.error.inj h
      have hstart : Tracked graph graph.vertices [] [] :=
        ⟨fun _ => Or.inl, by simp, by simp, by simp, List.Pairwise.nil⟩
      obtain ⟨_, htracked⟩ := tracked_of_walkAll hgraph hstart hwalk
      have hlisted := (walkAll_ok hvertices List.nodup_nil hwalk).2.2.2
      refine onCycle_of_backSource? htracked.backward (fun edge hedge => Or.inr ?_) hback
      have hsource := (hgraph edge hedge).1
      exact (hlisted _ hsource hsource).1
    · simp at h

theorem IsOrder.idxOf_lt {order : List α} (horder : graph.IsOrder order) (hgraph : graph.IsClosed)
    {source target : α} (h : graph.Leads source target) :
    order.idxOf source < order.idxOf target := by
  obtain ⟨hsource, htarget⟩ : source ∈ order ∧ target ∈ order :=
    ⟨(horder.mem_iff _).mpr (hgraph _ h).1, (horder.mem_iff _).mpr (hgraph _ h).2⟩
  rcases Nat.lt_trichotomy (order.idxOf source) (order.idxOf target) with hlt | heq | hlt
  · exact hlt
  · obtain rfl := (List.idxOf_inj hsource).mp heq
    exact absurd h (horder.noLoop _ hsource)
  · have hnot := List.pairwise_iff_getElem.mp horder.forward _ _
      (List.idxOf_lt_length_of_mem htarget) (List.idxOf_lt_length_of_mem hsource) hlt
    rw [List.getElem_idxOf, List.getElem_idxOf] at hnot
    exact absurd h hnot

theorem IsOrder.not_onCycle {order : List α} (horder : graph.IsOrder order)
    (hgraph : graph.IsClosed) (vertex : α) : ¬ graph.OnCycle vertex := by
  intro hcycle
  have hlt : ∀ target, TransGen graph.Leads vertex target →
      order.idxOf vertex < order.idxOf target := by
    intro target hpath
    induction hpath with
    | single hleads => exact horder.idxOf_lt hgraph hleads
    | tail _ hleads ih => exact ih.trans (horder.idxOf_lt hgraph hleads)
  exact Nat.lt_irrefl _ (hlt vertex hcycle)

theorem exists_order_iff (hvertices : graph.vertices.Nodup) (hgraph : graph.IsClosed) :
    (∃ order, graph.order = .ok order) ↔ ∀ vertex, ¬ graph.OnCycle vertex := by
  constructor
  · rintro ⟨order, horder⟩
    exact (isOrder_of_order hvertices horder).not_onCycle hgraph
  · intro hacyclic
    cases horder : graph.order with
    | ok order => exact ⟨order, rfl⟩
    | error vertex => exact absurd (onCycle_of_order hvertices hgraph horder) (hacyclic vertex)

end FormFlow.Digraph
