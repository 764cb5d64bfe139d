import FormFlow.Value.Basic

/-!
# Function tables

A function is a total map from arguments to a value, with a handle that identifies it among values.
A table holds the functions that expressions may call, each under one name.
-/

namespace FormFlow

structure Function where
  handle : FunctionHandle
  run : List Value → Value

/-- The functions that expressions may call, by name. -/
abbrev FunctionTable := Members Function

namespace FunctionTable

def empty : FunctionTable := []

def find? (table : FunctionTable) (name : String) : Option Function := Members.get? name table

/-- Registers a function under its own name. Whoever registers functions gives each its own
identity. -/
def register (table : FunctionTable) (name : String) (identity : Nat)
    (run : List Value → Value) : FunctionTable :=
  Members.put name ⟨⟨name, identity⟩, run⟩ table

/-- Registers every function of another table, over those of the same name. -/
def merge (table other : FunctionTable) : FunctionTable := Members.putAll table other

def names (table : FunctionTable) : List String :=
  Members.keys (Members.sorted table)

end FunctionTable

end FormFlow
