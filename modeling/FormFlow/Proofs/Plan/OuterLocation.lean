import FormFlow.Plan.OuterName
import FormFlow.Proofs.Plan.Basic

/-!
# Outer locations

Records stay apart when data is handed on: of two locations of the same shape, the outer locations
are the same only if the locations are (`outerLocation_separates`).

The outer location is put together segment by segment, and an index ends the segment that it closes.
So what waits for the next index holds names alone (`filter_isIndex_stem`). An outer name that takes
their place drops no index, and all indexes are kept in their order (`filter_isIndex_outerFrom`).
Locations of the same shape have nothing else to tell them apart (`SameShape.eq_of_indexes`).
-/

namespace FormFlow

/-- Two locations are as long as each other and go on alike at every step: by the same name, or by
an index each. -/
inductive Location.SameShape : Location → Location → Prop
  | nil : SameShape [] []
  | field (name : String) {place other : Location} (h : SameShape place other) :
      SameShape (.field name :: place) (.field name :: other)
  | index (position position' : Nat) {place other : Location} (h : SameShape place other) :
      SameShape (.index position :: place) (.index position' :: other)

namespace Location.SameShape

variable {place other : Location}

theorem eq_of_indexes (h : SameShape place other)
    (hindexes : place.filter Step.isIndex = other.filter Step.isIndex) : place = other := by
  induction h with
  | nil => rfl
  | field name _ ih => exact congrArg (Step.field name :: ·) (ih hindexes)
  | index position position' _ ih =>
    obtain ⟨hposition, hrest⟩ := List.cons.inj hindexes
    rw [hposition, ih hrest]

end Location.SameShape

namespace Plan

open Location (SameShape)

variable {plan : Plan} {passed segment place other : Location}

/-! ### One step -/

/-- The names that stand for the steps since the last index, up to one more step: the outer name
declared there, or else those before it and its own. -/
def stem (plan : Plan) (passed segment : Location) (step : Step) : Location :=
  match plan.outerNameAt? (passed ++ [step]) with
  | some name => [.field name]
  | none => segment ++ [step].filter fun step => !step.isIndex

theorem outerFrom_field (name : String) (rest : Location) :
    plan.outerFrom passed segment (.field name :: rest) =
      plan.outerFrom (passed ++ [.field name]) (plan.stem passed segment (.field name)) rest := by
  rw [outerFrom, stem]
  cases plan.outerNameAt? (passed ++ [.field name]) <;> rfl

theorem outerFrom_index (position : Nat) (rest : Location) :
    plan.outerFrom passed segment (.index position :: rest) =
      plan.stem passed segment (.index position) ++
        .index position :: plan.outerFrom (passed ++ [.index position]) [] rest := by
  rw [outerFrom, stem]
  cases plan.outerNameAt? (passed ++ [.index position]) <;> simp [Step.isIndex]

theorem filter_isIndex_stem (h : segment.filter Step.isIndex = []) (step : Step) :
    (plan.stem passed segment step).filter Step.isIndex = [] := by
  unfold stem
  cases plan.outerNameAt? (passed ++ [step]) with
  | some name => rfl
  | none =>
    rw [List.filter_append, h]
    cases step <;> rfl

/-! ### All steps -/

theorem filter_isIndex_outerFrom (h : segment.filter Step.isIndex = []) :
    (plan.outerFrom passed segment place).filter Step.isIndex = place.filter Step.isIndex := by
  induction place generalizing passed segment with
  | nil => exact h
  | cons step rest ih =>
    cases step with
    | field name =>
      rw [outerFrom_field, ih (filter_isIndex_stem h _)]
      rfl
    | index position =>
      rw [outerFrom_index, List.filter_append, filter_isIndex_stem h, List.nil_append]
      exact congrArg (_ :: ·) (ih rfl)

theorem filter_isIndex_outerLocation (plan : Plan) (place : Location) :
    (plan.outerLocation place).filter Step.isIndex = place.filter Step.isIndex :=
  filter_isIndex_outerFrom rfl

/-- Outer locations have the indexes of the locations, all of them and in order. So for locations of
the same shape they are the same exactly if the locations are. -/
theorem outerLocation_separates (plan : Plan) (h : SameShape place other) :
    (plan.outerLocation place).filter Step.isIndex = place.filter Step.isIndex ∧
      (plan.outerLocation other).filter Step.isIndex = other.filter Step.isIndex ∧
      (plan.outerLocation place = plan.outerLocation other ↔ place = other) := by
  have hplace := filter_isIndex_outerLocation plan place
  have hother := filter_isIndex_outerLocation plan other
  refine ⟨hplace, hother, fun houter => h.eq_of_indexes ?_, congrArg _⟩
  rw [← hplace, ← hother, houter]

/-! A form whose outer records are handed on under another name, and with them the values in the
inner ones. -/

def ledgerForm : Document := .object [("sections", .array [
  .object [("id", .text "a"), ("children", .array [
    .object [("id", .text "items"), ("type", .text "array_group"), ("data_mapping", .text "lines"),
      ("children", .array [
        .object [("id", .text "tags"), ("type", .text "array_group"), ("children", .array [
          .object [("id", .text "name"), ("type", .text "value"),
            ("data_mapping", .text "tag")]])]])]])]])]

def ledgerRead : Form := (Form.read ledgerForm).toOption.getD ⟨[], [], [], []⟩

theorem plan_ledgerForm : ofDocument ledgerForm = .ok (.lone ledgerRead.sections) := by
  have hread : Form.read ledgerForm = .ok ledgerRead := rfl
  have horder : orderGuards (lone ledgerRead.sections).nodes = .ok [] := by cbv
  exact ofDocument_eq_ok hread rfl rfl orderEdges_lone horder

theorem outerLocation_separates_ledger :
    ofDocument ledgerForm = .ok (.lone ledgerRead.sections) ∧
    (lone ledgerRead.sections).outerLocation
        [.field "a", .field "items", .index 0, .field "tags", .index 1, .field "name"] =
      [.field "lines", .index 0, .field "tags", .index 1, .field "tag"] ∧
    (lone ledgerRead.sections).outerLocation
        [.field "a", .field "items", .index 0, .field "tags", .index 1, .field "name"] ≠
      (lone ledgerRead.sections).outerLocation
        [.field "a", .field "items", .index 1, .field "tags", .index 0, .field "name"] := by
  have hshape : SameShape
      [.field "a", .field "items", .index 0, .field "tags", .index 1, .field "name"]
      [.field "a", .field "items", .index 1, .field "tags", .index 0, .field "name"] :=
    .field "a" (.field "items" (.index 0 1 (.field "tags" (.index 1 0 (.field "name" .nil)))))
  obtain ⟨_, _, hiff⟩ := outerLocation_separates (lone ledgerRead.sections) hshape
  exact ⟨plan_ledgerForm, by decide, fun hsame => absurd (hiff.mp hsame) (by decide)⟩

end Plan

end FormFlow
