import FormFlow.Proofs.Path.Written
import FormFlow.Proofs.Plan.OuterLocation

/-!
# Outer documents

What is handed on is made of the leaves of a document, written one after another at their outer
locations. Without outer names that is the document itself (`outerDocument_eq_self`). With them no
leaf is lost and none comes from nowhere, as long as the outer locations part
(`outerDocument_keeps_leaves`).
-/

namespace FormFlow

open Document (insertAll memberLeaves)

theorem Document.exists_field_of_mem_memberLeaves {members : List (String × Document)}
    {leaf : Location × Document} (h : leaf ∈ memberLeaves [] members) :
    ∃ name below, leaf.1 = .field name :: below := by
  induction members with
  | nil => simp [memberLeaves] at h
  | cons member rest ih =>
    rw [memberLeaves, List.nil_append, leaves_singleton, List.mem_append] at h
    rcases h with h | h
    · obtain ⟨below, -, rfl⟩ := List.mem_map.mp h
      exact ⟨member.1, below.1, rfl⟩
    · exact ih h

namespace Plan

variable {plan : Plan} {passed segment place : Location} {members : Members Document}

def outward (plan : Plan) (leaves : List (Location × Document)) : List (Location × Document) :=
  leaves.map fun leaf => (plan.outerLocation leaf.1, leaf.2)

theorem outerDocument_eq (plan : Plan) (members : Members Document) :
    plan.outerDocument (.object members) =
      insertAll (plan.outward (memberLeaves [] members)) .empty := by
  have hleaves : ((Document.object members).leaves []).filter (fun leaf => !leaf.1.isEmpty) =
      memberLeaves [] members := by
    cases members with
    | nil => rfl
    | cons member rest =>
      refine List.filter_eq_self.mpr fun leaf hmem => ?_
      obtain ⟨name, below, hlocation⟩ := Document.exists_field_of_mem_memberLeaves hmem
      rw [hlocation]
      rfl
  rw [outerDocument, hleaves, insertAll, outward, List.foldl_map]

/-! ### Without outer names -/

theorem outerFrom_of_unnamed (h : ∀ place, plan.outerNameAt? place = none) :
    plan.outerFrom passed segment place = segment ++ place := by
  induction place generalizing passed segment with
  | nil => simp [outerFrom]
  | cons step rest ih =>
    cases step with
    | field name =>
      rw [outerFrom_field, ih, stem, h]
      simp [Step.isIndex]
    | index position =>
      rw [outerFrom_index, ih, stem, h]
      simp [Step.isIndex]

theorem outerNameAt?_of_unnamed (h : ∀ node ∈ plan.nodes, node.outerName = none)
    (place : Location) : plan.outerNameAt? place = none := by
  rw [outerNameAt?, Option.bind_eq_none_iff]
  intro node hnode
  obtain ⟨position, -, hposition⟩ := Option.bind_eq_some_iff.mp hnode
  exact h node (List.mem_of_getElem? hposition)

/-- If no node declares an outer name, a document is handed on as it is, with its members in their
order, the lengths of its arrays, its nulls and its empty containers. -/
theorem outerDocument_eq_self (hnames : ∀ node ∈ plan.nodes, node.outerName = none)
    (hformed : (Document.object members).WellFormed) :
    plan.outerDocument (.object members) = .object members := by
  have hsame : plan.outward (memberLeaves [] members) = memberLeaves [] members := by
    refine List.map_id'' (fun leaf => ?_) _
    rw [outerLocation, outerFrom_of_unnamed (outerNameAt?_of_unnamed hnames), List.nil_append]
  rw [outerDocument_eq, hsame]
  exact Document.insertAll_memberLeaves members [] hformed.1 hformed.2

/-! A form without outer names, and a document with numerals for names, nulls and empty containers. -/

def namelessForm : Document := .object [("sections", .array [
  .object [("id", .text "a"), ("children", .array [
    .object [("id", .text "items"), ("type", .text "array_group"), ("children", .array [
      .object [("id", .text "0"), ("type", .text "value")]])]])]])]

def namelessRead : Form := (Form.read namelessForm).toOption.getD ⟨[], [], [], []⟩

theorem plan_namelessForm : ofDocument namelessForm = .ok (.lone namelessRead.sections) := by
  have hread : Form.read namelessForm = .ok namelessRead := rfl
  have horder : orderGuards (lone namelessRead.sections).nodes = .ok [] := by cbv
  exact ofDocument_eq_ok hread rfl rfl orderEdges_lone horder

def namelessMembers : Members Document := [
  ("a", .object [("items", .array [.null, .object [("0", .array []), ("x", .object [])],
    .array [.array [.null]]]), ("1", .text "y")]), ("b", .null)]

theorem outerDocument_eq_nameless :
    ofDocument namelessForm = .ok (.lone namelessRead.sections) ∧
    (lone namelessRead.sections).outerDocument (.object namelessMembers) =
      .object namelessMembers := by
  have hformed : (Document.object namelessMembers).WellFormed := by
    simp [namelessMembers, Document.WellFormed, Document.ItemsWellFormed,
      Document.MembersWellFormed, Members.keys]
  exact ⟨plan_namelessForm, outerDocument_eq_self (by decide +kernel) hformed⟩

/-! ### With outer names -/

theorem exists_field_outerFrom (h : ∃ name below, segment = .field name :: below) :
    ∃ name below, plan.outerFrom passed segment place = .field name :: below := by
  induction place generalizing passed segment with
  | nil => exact h
  | cons step rest ih =>
    have hstem : ∃ name below, plan.stem passed segment step = .field name :: below := by
      obtain ⟨name, below, rfl⟩ := h
      rw [stem]
      cases plan.outerNameAt? (passed ++ [step]) with
      | some name => exact ⟨name, [], rfl⟩
      | none => exact ⟨name, _, rfl⟩
    cases step with
    | field name =>
      rw [outerFrom_field]
      exact ih hstem
    | index position =>
      obtain ⟨name, below, hname⟩ := hstem
      rw [outerFrom_index, hname]
      exact ⟨name, _, rfl⟩

theorem exists_field_outerLocation (plan : Plan) (name : String) (below : Location) :
    ∃ outer rest, plan.outerLocation (.field name :: below) = .field outer :: rest := by
  rw [outerLocation, outerFrom_field]
  refine exists_field_outerFrom ?_
  rw [stem]
  cases plan.outerNameAt? ([] ++ [Step.field name]) with
  | some outer => exact ⟨outer, [], rfl⟩
  | none => exact ⟨name, [], rfl⟩

theorem exists_field_of_mem_outward (hformed : (Document.object members).WellFormed) :
    ∀ entry ∈ plan.outward (memberLeaves [] members),
      (∃ name below, entry.1 = .field name :: below) ∧ entry.2.IsBare := by
  intro entry hmem
  obtain ⟨leaf, hleaf, rfl⟩ := List.mem_map.mp hmem
  obtain ⟨name, below, hlocation⟩ := Document.exists_field_of_mem_memberLeaves hleaf
  obtain ⟨outer, rest, houter⟩ := exists_field_outerLocation plan name below
  obtain ⟨-, child, -, -, -, -, -, hbare⟩ :=
    Document.exists_leaf_of_mem_memberLeaves members hformed.2 hleaf
  exact ⟨⟨outer, rest, by rw [hlocation, houter]⟩, hbare⟩

/-- If the outer locations of the leaves part, every leaf is handed on at its outer location, and
every leaf that is handed on and not null is one of them. -/
theorem outerDocument_keeps_leaves (plan : Plan) (hformed : (Document.object members).WellFormed)
    (hparts : ((Document.object members).leaves []).Pairwise fun leaf other =>
      (plan.outerLocation leaf.1).Parts (plan.outerLocation other.1)) :
    (∀ leaf ∈ (Document.object members).leaves [],
      (plan.outerDocument (.object members)).at? (plan.outerLocation leaf.1) = some leaf.2) ∧
    ∀ leaf ∈ (plan.outerDocument (.object members)).leaves [], leaf.2.isNull = false →
      ∃ own ∈ (Document.object members).leaves [],
        leaf = (plan.outerLocation own.1, own.2) := by
  rw [outerDocument_eq]
  cases members with
  | nil =>
    have hroot : ∀ leaf ∈ Document.empty.leaves [], leaf = (([] : Location), Document.empty) :=
      fun leaf hmem => List.mem_singleton.mp hmem
    refine ⟨fun leaf hmem => ?_, fun leaf hmem _ => ⟨leaf, hmem, ?_⟩⟩
    · obtain rfl := hroot leaf hmem
      rfl
    · obtain rfl := hroot leaf hmem
      rfl
  | cons member rest =>
    have hempty : (Document.object []).Holds [] := .empty
    have hholds := hempty.insertAll (List.pairwise_map.mpr hparts) (exists_field_of_mem_outward hformed)
    refine ⟨fun leaf hmem => ?_, fun leaf hmem hnull => ?_⟩
    · exact (hholds.leaf _ (List.mem_map_of_mem hmem)).2.1
    · have hne : plan.outward ((Document.object (member :: rest)).leaves []) ≠ [] := by
        simpa [outward] using Document.leaves_ne_nil _ []
      obtain ⟨own, hown, hleaf⟩ := List.mem_map.mp (hholds.mem_of_leaf hne hmem hnull)
      exact ⟨own, hown, hleaf.symm⟩

/-! A ledger with tags in two of three items. The names that lead to them give way to outer names,
and a leaf of the last item is found by its own. -/

def ledgerMembers : Members Document := [("a", .object [("items", .array [
  .object [("tags", .array [.object [("name", .text "x")], .object []])], .object [],
  .object [("tags", .array [.object [("name", .text "y"), ("note", .null)]])]])])]

theorem outerDocument_keeps_ledger :
    ofDocument ledgerForm = .ok (.lone ledgerRead.sections) ∧
    (((Document.object ledgerMembers).leaves []).Pairwise fun leaf other =>
      ((lone ledgerRead.sections).outerLocation leaf.1).Parts
        ((lone ledgerRead.sections).outerLocation other.1)) ∧
    ((lone ledgerRead.sections).outerDocument (.object ledgerMembers)).at?
      [.field "lines", .index 2, .field "tags", .index 0, .field "tag"] = some (.text "y") ∧
    ∀ leaf ∈ ((lone ledgerRead.sections).outerDocument (.object ledgerMembers)).leaves [],
      leaf.2.isNull = false → ∃ own ∈ (Document.object ledgerMembers).leaves [],
        leaf = ((lone ledgerRead.sections).outerLocation own.1, own.2) := by
  have hformed : (Document.object ledgerMembers).WellFormed := by
    simp [ledgerMembers, Document.WellFormed, Document.ItemsWellFormed,
      Document.MembersWellFormed, Members.keys]
  have hparts : ((Document.object ledgerMembers).leaves []).Pairwise fun leaf other =>
      ((lone ledgerRead.sections).outerLocation leaf.1).Parts
        ((lone ledgerRead.sections).outerLocation other.1) := by
    decide +kernel
  obtain ⟨hkept, hown⟩ := outerDocument_keeps_leaves (lone ledgerRead.sections) hformed hparts
  refine ⟨plan_ledgerForm, hparts, hkept
    ([.field "a", .field "items", .index 2, .field "tags", .index 0, .field "name"], .text "y") ?_,
    hown⟩
  simp [ledgerMembers, Document.leaves, memberLeaves, Document.itemLeaves]

end Plan

end FormFlow
