import FormFlow.Expr.Resolve
import FormFlow.Proofs.Path.Apart

/-!
# What an expression reads

An expression reads the value at the place under evaluation and the values of its references, those
of the arguments of a call included. With a function table it looks up some of them only
(`lookups`). It resolves alike wherever these are the same (`resolve_eq_of_lookups`), whatever else
differs between two documents. Taking out a value that a reference
misses changes nothing of what it finds (`Scope.valueOf_without`).
-/

namespace FormFlow

/-- What an expression looks up. -/
inductive Read where
  | self
  | reference (pattern : Pattern)
  deriving Repr, DecidableEq

/-- What a read finds. -/
def Scope.find (scope : Scope) : Read → Value
  | .self => scope.self
  | .reference pattern => scope.valueOf pattern

namespace Expr

mutual

/-- All reads of an expression, whether or not its functions are known. -/
def reads : Expr → List Read
  | .self => [.self]
  | .reference pattern => [.reference pattern]
  | .array items => itemReads items
  | .object fields => fieldReads fields
  | .call _ arguments fallback => itemReads arguments ++ fallback.reads
  | .function _ target => target.reads
  | .literal _ => []

def itemReads : List Expr → List Read
  | [] => []
  | item :: rest => item.reads ++ itemReads rest

def fieldReads : List (String × Expr) → List Read
  | [] => []
  | (_, value) :: rest => value.reads ++ fieldReads rest

end

mutual

/-- The reads that resolving makes with a function table. The arguments of a call are resolved if
its function is known, and its fallback if not. -/
def lookups (table : FunctionTable) : Expr → List Read
  | .self => [.self]
  | .reference pattern => [.reference pattern]
  | .array items => itemLookups table items
  | .object fields => fieldLookups table fields
  | .call name arguments fallback =>
    if (table.find? name).isSome then itemLookups table arguments else fallback.lookups table
  | .function name target =>
    if (name.bind table.find?).isSome then [] else target.lookups table
  | .literal _ => []

def itemLookups (table : FunctionTable) : List Expr → List Read
  | [] => []
  | item :: rest => item.lookups table ++ itemLookups table rest

def fieldLookups (table : FunctionTable) : List (String × Expr) → List Read
  | [] => []
  | (_, value) :: rest => value.lookups table ++ fieldLookups table rest

end

variable {scope scope' : Scope} {table : FunctionTable} {read : Read}

/-! ### The reads that decide the value -/

mutual

theorem resolve_eq_of_lookups (htable : scope.table = scope'.table) (expr : Expr)
    (h : ∀ read ∈ expr.lookups scope.table, scope.find read = scope'.find read) :
    expr.resolve scope = expr.resolve scope' := by
  match expr with
  | .literal _ => rfl
  | .self => exact h .self (by simp [lookups])
  | .reference pattern => exact h (.reference pattern) (by simp [lookups])
  | .array items =>
    rw [resolve, resolve, resolveItems_eq_of_lookups htable items h]
  | .object fields =>
    rw [resolve, resolve, resolveFields_eq_of_lookups htable fields h]
  | .call name arguments fallback =>
    rw [lookups] at h
    rw [resolve, resolve, ← htable]
    cases hfound : scope.table.find? name with
    | none =>
      rw [hfound] at h
      exact resolve_eq_of_lookups htable fallback h
    | some found =>
      rw [hfound] at h
      exact congrArg found.run (resolveItems_eq_of_lookups htable arguments h)
  | .function name target =>
    rw [lookups] at h
    rw [resolve, resolve, ← htable]
    cases hfound : name.bind scope.table.find? with
    | none =>
      rw [hfound] at h
      rw [resolve_eq_of_lookups htable target h]
    | some found => rfl

theorem resolveItems_eq_of_lookups (htable : scope.table = scope'.table) (items : List Expr)
    (h : ∀ read ∈ itemLookups scope.table items, scope.find read = scope'.find read) :
    resolveItems scope items = resolveItems scope' items := by
  match items with
  | [] => rfl
  | item :: rest =>
    rw [resolveItems, resolveItems,
      resolve_eq_of_lookups htable item fun read hread => h read (by simp [itemLookups, hread]),
      resolveItems_eq_of_lookups htable rest fun read hread =>
        h read (by simp [itemLookups, hread])]

theorem resolveFields_eq_of_lookups (htable : scope.table = scope'.table)
    (fields : List (String × Expr))
    (h : ∀ read ∈ fieldLookups scope.table fields, scope.find read = scope'.find read) :
    resolveFields scope fields = resolveFields scope' fields := by
  match fields with
  | [] => rfl
  | (name, value) :: rest =>
    rw [resolveFields, resolveFields,
      resolve_eq_of_lookups htable value fun read hread => h read (by simp [fieldLookups, hread]),
      resolveFields_eq_of_lookups htable rest fun read hread =>
        h read (by simp [fieldLookups, hread])]

end

/-! ### Lookups are reads -/

mutual

theorem mem_reads_of_lookups (expr : Expr) (h : read ∈ expr.lookups table) :
    read ∈ expr.reads := by
  match expr with
  | .literal _ => simp [lookups] at h
  | .self => exact h
  | .reference _ => exact h
  | .array items => exact mem_itemReads_of_lookups items h
  | .object fields => exact mem_fieldReads_of_lookups fields h
  | .call name arguments fallback =>
    rw [lookups] at h
    rw [reads, List.mem_append]
    split at h
    · exact Or.inl (mem_itemReads_of_lookups arguments h)
    · exact Or.inr (mem_reads_of_lookups fallback h)
  | .function name target =>
    rw [lookups] at h
    split at h
    · simp at h
    · exact mem_reads_of_lookups target h

theorem mem_itemReads_of_lookups (items : List Expr) (h : read ∈ itemLookups table items) :
    read ∈ itemReads items := by
  match items with
  | [] => exact h
  | item :: rest =>
    rw [itemLookups, List.mem_append] at h
    rw [itemReads, List.mem_append]
    exact h.imp (mem_reads_of_lookups item) (mem_itemReads_of_lookups rest)

theorem mem_fieldReads_of_lookups (fields : List (String × Expr))
    (h : read ∈ fieldLookups table fields) : read ∈ fieldReads fields := by
  match fields with
  | [] => exact h
  | (_, value) :: rest =>
    rw [fieldLookups, List.mem_append] at h
    rw [fieldReads, List.mem_append]
    exact h.imp (mem_reads_of_lookups value) (mem_fieldReads_of_lookups rest)

end

theorem resolve_congr (htable : scope.table = scope'.table) (expr : Expr)
    (h : ∀ read ∈ expr.reads, scope.find read = scope'.find read) :
    expr.resolve scope = expr.resolve scope' :=
  resolve_eq_of_lookups htable expr fun read hread => h read (mem_reads_of_lookups expr hread)

end Expr

theorem Scope.valueOf_without {table : FunctionTable} {document : Document} {pattern : Pattern}
    {here removed : Location} (hremoved : document.Fits removed)
    (hmisses : (pattern.relativeTo here).misses removed = true) :
    (Scope.mk table (document.without removed) (some here)).valueOf pattern =
      (Scope.mk table document (some here)).valueOf pattern := by
  simp only [valueOf]
  generalize pattern.relativeTo here = relative at hmisses
  by_cases heach : relative.hasEach = true
  · rw [if_pos heach, if_pos heach, Pattern.locations_without hremoved hmisses]
    congr 1
    apply List.map_congr_left
    intro location hlocation
    obtain ⟨hnames, hfits⟩ := Pattern.mem_locations_iff.mp hlocation
    simp only [valueAt]
    rw [Pattern.at?_without_of_misses hremoved hmisses hnames (Or.inl hfits)]
  · rw [if_neg heach, if_neg heach]
    cases hlocation : relative.location? with
    | none => rfl
    | some location =>
      obtain ⟨hnames, hfields⟩ := Pattern.names_of_location? hlocation
      simp only [valueAt]
      rw [Pattern.at?_without_of_misses hremoved hmisses hnames (Or.inr hfields)]

end FormFlow
