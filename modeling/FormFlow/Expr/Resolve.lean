import FormFlow.Expr.Basic
import FormFlow.Function.Table
import FormFlow.Path.Matching

/-!
# Resolving expressions

An expression is resolved against a document and a function table, and may speak of the place under
evaluation. Resolving never fails: what is not there is undefined, and a call of an unknown
function is taken as a plain object.
-/

namespace FormFlow

/-- What an expression is resolved against. -/
structure Scope where
  table : FunctionTable
  document : Document
  /-- The place under evaluation. -/
  target : Option Location

namespace Scope

def valueAt (scope : Scope) (location : Location) : Value :=
  match scope.document.at? location with
  | some found => Value.ofDocument found
  | none => .undefined

/-- The value at the place under evaluation. -/
def self (scope : Scope) : Value :=
  match scope.target with
  | some location => scope.valueAt location
  | none => .undefined

/-- The value of a pattern: an array of all it names if it has a `*`, else the value at its only
location. A `^` is first taken from the place under evaluation. -/
def valueOf (scope : Scope) (pattern : Pattern) : Value :=
  let pattern := match scope.target with
    | some location => pattern.relativeTo location
    | none => pattern
  if pattern.hasEach then .array ((pattern.locations scope.document).map scope.valueAt)
  else
    match pattern.location? with
    | some location => scope.valueAt location
    | none => .undefined

end Scope

namespace Expr

mutual

def resolve (scope : Scope) : Expr → Value
  | .literal value => value
  | .self => scope.self
  | .reference pattern => scope.valueOf pattern
  | .array items => .array (resolveItems scope items)
  | .object fields => Value.ofFields (resolveFields scope fields)
  | .call name arguments fallback =>
    match scope.table.find? name with
    | some found => found.run (resolveItems scope arguments)
    | none => resolve scope fallback
  | .function name target =>
    match name.bind scope.table.find? with
    | some found => .function found.handle
    | none =>
      match resolve scope target with
      | .function handle => .function handle
      | _ => .null

def resolveItems (scope : Scope) : List Expr → List Value
  | [] => []
  | item :: rest => resolve scope item :: resolveItems scope rest

def resolveFields (scope : Scope) : List (String × Expr) → List (String × Value)
  | [] => []
  | (name, value) :: rest => (name, resolve scope value) :: resolveFields scope rest

end

theorem resolveItems_eq_map (scope : Scope) (items : List Expr) :
    resolveItems scope items = items.map (resolve scope) := by
  induction items with
  | nil => rfl
  | cons item rest ih => rw [resolveItems, ih, List.map_cons]

theorem resolveFields_eq_map (scope : Scope) (fields : Members Expr) :
    resolveFields scope fields = fields.map fun field => (field.1, resolve scope field.2) := by
  induction fields with
  | nil => rfl
  | cons field rest ih => rw [resolveFields, ih, List.map_cons]

def holds (scope : Scope) (expr : Expr) : Bool := (expr.resolve scope).isTruthy

end Expr

end FormFlow
