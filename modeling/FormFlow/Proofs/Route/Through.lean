import Mathlib.Data.List.Chain
import FormFlow.Proofs.Plan.Basic
import FormFlow.Proofs.Route.Arrangement
import FormFlow.Proofs.Route.WellFormed

/-!
# Ways through a form

In a form that has a plan nothing is out of the way and nothing leads nowhere: every section and
decision is led to from `START` or from the vertex before it, and every path goes on until it ends
at `END` (`leads_through`).

The check of the route knows the edges of single vertices only. That they make up such paths is due
to the order of the vertices, in which every edge leads forward (`exists_place`): the way back is
followed by induction on the place of a vertex, the way on by induction on what is left behind it.
-/

namespace FormFlow

open Relation

namespace Form

/-- `START`, a section or a decision. -/
def IsOnRoute (form : Form) (id : String) : Prop := id = startId ∨ id ∈ form.vertexIds

variable {form : Form} {id : String}

theorem IsWellFormed.target_isOnRoute (h : form.IsWellFormed) {next : String}
    (hleads : Route.Leads form.edges id next) : next = endId ∨ form.IsOnRoute next := by
  obtain ⟨edge, hmem, -, rfl⟩ := hleads
  rcases h.target edge hmem with hid | hstart | hend
  · exact Or.inr (Or.inr hid)
  · exact Or.inr (Or.inl hstart)
  · exact Or.inl hend

theorem IsWellFormed.exists_leads (h : form.IsWellFormed) (hid : form.IsOnRoute id) :
    ∃ next, Route.Leads form.edges id next := by
  have hleaves : ∀ edge ∈ form.edges.filter (·.source = id),
      Route.Leads form.edges id edge.target := by
    intro edge hedge
    obtain ⟨hmem, hsource⟩ := List.mem_filter.mp hedge
    exact ⟨edge, hmem, by simpa using hsource, rfl⟩
  rcases hid with rfl | hid
  · obtain ⟨edge, hmem, hsource⟩ := h.started
    exact ⟨edge.target, edge, hmem, hsource, rfl⟩
  rcases List.mem_append.mp hid with hsection | hdecision
  · obtain ⟨edge, honly⟩ := h.sectionEdge id hsection
    exact ⟨edge.target, hleaves edge (by simp [honly])⟩
  · obtain ⟨yes, no, hperm, -⟩ := h.decisionEdges id hdecision
    exact ⟨yes.target, hleaves yes (hperm.mem_iff.mpr List.mem_cons_self)⟩

end Form

namespace Route

/-- A path along declared edges that no edge continues. -/
structure IsMaximalPath (declared : List Form.Edge) (path : List String) : Prop where
  chain : path.IsChain (Leads declared)
  ended : ∀ last ∈ path.getLast?, ∀ next, ¬ Leads declared last next

variable {form : Form} {id : String}

/-! ### Places -/

/-- Vertices have places, not beyond a last one, and every edge leads to a later place. -/
theorem exists_place {kinds : Members VertexKind} {declared : List Form.Edge} {edges : List Edge}
    (h : orderEdges kinds declared = .ok edges) :
    ∃ (place : String → Nat) (last : Nat), (∀ id, place id ≤ last) ∧
      ∀ source target, Leads declared source target → place source < place target := by
  obtain ⟨order, horder, -⟩ := orderEdges_ok h
  refine ⟨order.idxOf, order.length, fun id => List.idxOf_le_length, fun source target hleads => ?_⟩
  refine horder.idxOf_lt (consists_graph declared).isClosed ?_
  rw [leads_graph]
  exact Or.inl hleads

variable {place : String → Nat} {last : Nat}

theorem exists_way_to (h : form.IsWellFormed)
    (hplace : ∀ source target, Leads form.edges source target → place source < place target)
    (hid : id ∈ form.vertexIds) : ReflTransGen (Leads form.edges) startId id ∨
      ∃ first ∈ form.vertexIds, Leads form.edges first startId ∧
        ReflTransGen (Leads form.edges) first id := by
  induction hn : place id using Nat.strong_induction_on generalizing id with
  | _ n ih =>
    subst hn
    by_cases hbefore : ∀ edge ∈ form.edges, edge.source = id → edge.target ≠ startId
    · obtain ⟨edge, hmem, rfl⟩ := (h.entered id hid).mpr hbefore
      have hleads : Leads form.edges edge.source edge.target := ⟨edge, hmem, rfl, rfl⟩
      rcases h.source edge hmem with hsource | hstart
      · refine (ih _ (hplace _ _ hleads) hsource rfl).imp (fun hpath => hpath.tail hleads) ?_
        rintro ⟨first, hfirst, hstart, hpath⟩
        exact ⟨first, hfirst, hstart, hpath.tail hleads⟩
      · exact Or.inl (.single (hstart ▸ hleads))
    · push Not at hbefore
      obtain ⟨edge, hmem, hsource, htarget⟩ := hbefore
      exact Or.inr ⟨id, hid, ⟨edge, hmem, hsource, htarget⟩, .refl⟩

theorem exists_way_on (h : form.IsWellFormed) (hlast : ∀ id, place id ≤ last)
    (hplace : ∀ source target, Leads form.edges source target → place source < place target)
    (hid : form.IsOnRoute id) : ReflTransGen (Leads form.edges) id endId := by
  induction hn : last - place id using Nat.strong_induction_on generalizing id with
  | _ n ih =>
    subst hn
    obtain ⟨next, hleads⟩ := h.exists_leads hid
    rcases h.target_isOnRoute hleads with rfl | hnext
    · exact .single hleads
    · have hlt := hplace _ _ hleads
      have hle := hlast next
      exact .head hleads (ih (last - place next) (by omega) hnext rfl)

theorem exists_not_leads {declared : List Form.Edge} (hlast : ∀ id, place id ≤ last)
    (hplace : ∀ source target, Leads declared source target → place source < place target)
    (path : Nat → String) : ∃ n, ¬ Leads declared (path n) (path (n + 1)) := by
  by_contra! hpath
  have hle : ∀ n, n ≤ place (path n) := by
    intro n
    induction n with
    | zero => exact Nat.zero_le _
    | succ n ih =>
      have hlt := hplace _ _ (hpath n)
      omega
  have hbeyond := hle (last + 1)
  have hbound := hlast (path (last + 1))
  omega

theorem isOnRoute_of_way (h : form.IsWellFormed) (hid : form.IsOnRoute id) {other : String}
    (hway : ReflTransGen (Leads form.edges) id other) :
    other = endId ∨ form.IsOnRoute other := by
  induction hway with
  | refl => exact Or.inr hid
  | tail _ hleads _ => exact h.target_isOnRoute hleads

theorem getLast?_of_isMaximalPath (h : form.IsWellFormed) (hid : form.IsOnRoute id)
    {path : List String} (hpath : IsMaximalPath form.edges (id :: path)) :
    (id :: path).getLast? = some endId := by
  have hway := List.relationReflTransGen_of_exists_isChain_cons path hpath.chain rfl
  rw [List.getLast?_eq_some_getLast (List.cons_ne_nil id path), Option.some.injEq]
  rcases isOnRoute_of_way h hid hway with hend | hroute
  · exact hend
  · obtain ⟨next, hleads⟩ := h.exists_leads hroute
    exact absurd hleads (hpath.ended _ (List.getLast?_eq_some_getLast _) next)

/-- In every form that has a plan, each section and decision is led to from `START` or from the
vertex before it. From each of them and from `START` a way leads to `END`, no path goes on forever,
and a path that cannot go on ends at `END`. -/
theorem leads_through {document : Document} {plan : Plan}
    (h : Plan.ofDocument document = .ok plan) :
    ∃ form, Form.read document = .ok form ∧
      (∀ id ∈ form.vertexIds, ReflTransGen (Leads form.edges) startId id ∨
        ∃ first ∈ form.vertexIds, Leads form.edges first startId ∧
          ReflTransGen (Leads form.edges) first id) ∧
      ∀ id, form.IsOnRoute id → ReflTransGen (Leads form.edges) id endId ∧
        (∀ path : Nat → String, path 0 = id → ∃ n, ¬ Leads form.edges (path n) (path (n + 1))) ∧
        ∀ path, IsMaximalPath form.edges (id :: path) → (id :: path).getLast? = some endId := by
  obtain ⟨form, hread, hmakes⟩ := Plan.exists_read_makes h
  have hform := (Form.checkRoute_eq_ok_iff.mp hmakes.kinds).1
  obtain ⟨place, last, hlast, hplace⟩ := exists_place hmakes.edges
  refine ⟨form, hread, fun id hid => exists_way_to hform hplace hid, fun id hid =>
    ⟨exists_way_on hform hlast hplace hid, fun path _ => exists_not_leads hlast hplace path,
      fun path => getLast?_of_isMaximalPath hform hid⟩⟩

theorem leads_through_branching :
    (ReflTransGen (Leads branchingRead.edges) startId "c" ∨
      ∃ first ∈ branchingRead.vertexIds, Leads branchingRead.edges first startId ∧
        ReflTransGen (Leads branchingRead.edges) first "c") ∧
      ReflTransGen (Leads branchingRead.edges) "intro" endId ∧
      ∀ path, IsMaximalPath branchingRead.edges ("intro" :: path) →
        ("intro" :: path).getLast? = some endId := by
  have hread : Form.read branchingForm = .ok branchingRead := rfl
  obtain ⟨form, hform, hled, hends⟩ := leads_through plan_branchingForm
  obtain rfl := Except.ok.inj (hread.symm.trans hform)
  obtain ⟨hend, -, hlast⟩ := hends "intro" (Or.inr (by decide))
  exact ⟨hled "c" (by decide), hend, hlast⟩

end Route

end FormFlow
