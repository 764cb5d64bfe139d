/-!
# Named members in order

A list of named members keeps the order in which names were first put. `put` overwrites in place
or appends, `erase` keeps the order of the others, and `get?` finds the first member of a name.
-/

namespace FormFlow

/-- Values with names, in order. -/
abbrev Members (α : Type) := List (String × α)

namespace Members

variable {α β : Type}

def get? (name : String) : Members α → Option α
  | [] => none
  | (key, value) :: rest => if key = name then some value else get? name rest

/-- Overwrites the member of a name in its place, or appends it. -/
def put (name : String) (value : α) : Members α → Members α
  | [] => [(name, value)]
  | (key, old) :: rest =>
    if key = name then (key, value) :: rest else (key, old) :: put name value rest

/-- All members but those of a name. -/
def erase (name : String) : Members α → Members α
  | [] => []
  | (key, value) :: rest => if key = name then erase name rest else (key, value) :: erase name rest

def keys (members : Members α) : List String := members.map Prod.fst

def contains (name : String) (members : Members α) : Bool := (get? name members).isSome

def putAll (members : Members α) (added : Members α) : Members α :=
  added.foldl (fun sofar member => put member.1 member.2 sofar) members

/-- Inserts into members sorted by name; a member of the same name is replaced. -/
def insertSorted (name : String) (value : α) : Members α → Members α
  | [] => [(name, value)]
  | (key, old) :: rest =>
    if name < key then (name, value) :: (key, old) :: rest
    else if key = name then (name, value) :: rest
    else (key, old) :: insertSorted name value rest

/-- The members sorted by name, by code point. Of several members of one name the first is kept. -/
def sorted (members : Members α) : Members α :=
  members.foldr (fun member sofar => insertSorted member.1 member.2 sofar) []

@[simp] theorem get?_put_self (name : String) (value : α) (members : Members α) :
    get? name (put name value members) = some value := by
  induction members with
  | nil => simp [put, get?]
  | cons member rest ih =>
    obtain ⟨key, old⟩ := member
    by_cases h : key = name <;> simp [put, get?, h, ih]

theorem get?_put_of_ne {name other : String} (h : other ≠ name) (value : α)
    (members : Members α) : get? other (put name value members) = get? other members := by
  induction members with
  | nil => simp [put, get?, Ne.symm h]
  | cons member rest ih =>
    obtain ⟨key, old⟩ := member
    by_cases hk : key = name
    · subst hk
      simp [put, get?, Ne.symm h]
    · by_cases ho : key = other
      · subst ho
        simp [put, get?, hk]
      · simp [put, get?, hk, ho, ih]

@[simp] theorem get?_erase_self (name : String) (members : Members α) :
    get? name (erase name members) = none := by
  induction members with
  | nil => rfl
  | cons member rest ih =>
    obtain ⟨key, old⟩ := member
    by_cases h : key = name <;> simp [erase, get?, h, ih]

theorem get?_erase_of_ne {name other : String} (h : other ≠ name) (members : Members α) :
    get? other (erase name members) = get? other members := by
  induction members with
  | nil => rfl
  | cons member rest ih =>
    obtain ⟨key, old⟩ := member
    by_cases hk : key = name
    · subst hk
      simp [erase, get?, Ne.symm h, ih]
    · by_cases ho : key = other
      · subst ho
        simp [erase, get?, hk]
      · simp [erase, get?, hk, ho, ih]

theorem erase_eq_filter (name : String) (members : Members α) :
    erase name members = members.filter fun member => !(member.1 = name) := by
  induction members with
  | nil => rfl
  | cons member rest ih =>
    obtain ⟨key, old⟩ := member
    by_cases h : key = name <;> simp [erase, h, ih]

theorem put_of_get? {name : String} {value : α} {members : Members α}
    (h : get? name members = some value) : put name value members = members := by
  induction members with
  | nil => simp [get?] at h
  | cons member rest ih =>
    obtain ⟨key, old⟩ := member
    by_cases hk : key = name
    · simp only [get?, hk, if_true, Option.some.injEq] at h
      simp [put, hk, h]
    · simp only [get?, hk, if_false] at h
      simp [put, hk, ih h]

theorem put_put (name : String) (value next : α) (members : Members α) :
    put name next (put name value members) = put name next members := by
  induction members with
  | nil => simp [put]
  | cons member rest ih =>
    obtain ⟨key, old⟩ := member
    by_cases h : key = name <;> simp [put, h, ih]

theorem mem_keys_put {name other : String} {value : α} {members : Members α} :
    other ∈ keys (put name value members) ↔ other = name ∨ other ∈ keys members := by
  induction members with
  | nil => simp [put, keys]
  | cons member rest ih =>
    obtain ⟨key, old⟩ := member
    simp only [keys] at ih
    by_cases h : key = name
    · simp [put, keys, h]
    · simp [put, keys, h, ih, or_left_comm]

theorem nodup_keys_put {members : Members α} (name : String) (value : α)
    (h : (keys members).Nodup) : (keys (put name value members)).Nodup := by
  induction members with
  | nil => simp [put, keys]
  | cons member rest ih =>
    obtain ⟨key, old⟩ := member
    rw [keys, List.map_cons, List.nodup_cons] at h
    by_cases hkey : key = name
    · rw [put, if_pos hkey]
      exact List.nodup_cons.mpr h
    · rw [put, if_neg hkey]
      refine List.nodup_cons.mpr ⟨fun hmem => ?_, ih h.2⟩
      exact (mem_keys_put.mp hmem).elim hkey h.1

theorem eq_or_mem_of_mem_put {name : String} {value : α} {members : Members α}
    {member : String × α} (h : member ∈ put name value members) :
    member = (name, value) ∨ member ∈ members := by
  induction members with
  | nil => exact Or.inl (List.mem_singleton.mp h)
  | cons first rest ih =>
    obtain ⟨key, old⟩ := first
    rw [put] at h
    split at h
    · next hkey =>
      rcases List.mem_cons.mp h with rfl | hmem
      · exact Or.inl (by rw [hkey])
      · exact Or.inr (List.mem_cons_of_mem _ hmem)
    · rcases List.mem_cons.mp h with rfl | hmem
      · exact Or.inr List.mem_cons_self
      · exact (ih hmem).imp id (List.mem_cons_of_mem _)

theorem put_of_not_mem {name : String} {members : Members α} (value : α)
    (h : name ∉ keys members) : put name value members = members ++ [(name, value)] := by
  induction members with
  | nil => rfl
  | cons member rest ih =>
    obtain ⟨key, old⟩ := member
    rw [keys, List.map_cons, List.mem_cons, not_or] at h
    rw [put, if_neg (Ne.symm h.1), ih h.2, List.cons_append]

theorem keys_put_of_mem {name : String} {members : Members α} (value : α)
    (h : name ∈ keys members) : keys (put name value members) = keys members := by
  induction members with
  | nil => simp [keys] at h
  | cons member rest ih =>
    obtain ⟨key, old⟩ := member
    by_cases hkey : key = name
    · rw [put, if_pos hkey]
      rfl
    · have hrest : name ∈ keys rest := (List.mem_cons.mp h).resolve_left (Ne.symm hkey)
      rw [put, if_neg hkey]
      exact congrArg (key :: ·) (ih hrest)

/-- Putting keeps the names and their order; a new name comes last. -/
theorem keys_part_put (name : String) (value : α) (members : Members α) :
    keys members <+: keys (put name value members) := by
  by_cases hmem : name ∈ keys members
  · exact (keys_put_of_mem value hmem).symm ▸ List.prefix_refl _
  · rw [put_of_not_mem value hmem, keys, keys, List.map_append]
    exact List.prefix_append _ _

theorem keys_erase (name : String) (members : Members α) :
    keys (erase name members) = (keys members).filter fun key => key ≠ name := by
  simp only [erase_eq_filter, keys, List.filter_map, Function.comp_def, decide_not]

/-! ### Finding members -/

theorem get?_append (name : String) (front back : Members α) :
    get? name (front ++ back) = (get? name front).or (get? name back) := by
  induction front with
  | nil => simp [get?]
  | cons member rest ih =>
    obtain ⟨key, value⟩ := member
    by_cases h : key = name <;> simp [get?, h, ih]

theorem mem_of_get? {name : String} {value : α} {members : Members α}
    (h : get? name members = some value) : (name, value) ∈ members := by
  induction members with
  | nil => simp [get?] at h
  | cons member rest ih =>
    obtain ⟨key, old⟩ := member
    by_cases hk : key = name
    · simp only [get?, hk, if_true, Option.some.injEq] at h
      simp [hk, h]
    · simp only [get?, hk, if_false] at h
      exact List.mem_cons_of_mem _ (ih h)

theorem get?_of_mem {name : String} {value : α} {members : Members α}
    (hnodup : (keys members).Nodup) (hmem : (name, value) ∈ members) :
    get? name members = some value := by
  induction members with
  | nil => simp at hmem
  | cons member rest ih =>
    obtain ⟨key, other⟩ := member
    rw [keys, List.map_cons, List.nodup_cons] at hnodup
    rcases List.mem_cons.mp hmem with heq | hrest
    · obtain ⟨rfl, rfl⟩ := Prod.mk.inj heq
      simp [get?]
    · have hne : key ≠ name := by
        rintro rfl
        exact hnodup.1 (List.mem_map.mpr ⟨_, hrest, rfl⟩)
      rw [get?, if_neg hne, ih hnodup.2 hrest]

theorem get?_eq_none_iff {name : String} {members : Members α} :
    get? name members = none ↔ name ∉ keys members := by
  induction members with
  | nil => simp [get?, keys]
  | cons member rest ih =>
    obtain ⟨key, value⟩ := member
    by_cases h : key = name
    · simp [get?, keys, h]
    · rw [get?, if_neg h, ih]
      simp [keys, Ne.symm h]

theorem contains_iff {name : String} {members : Members α} :
    contains name members = true ↔ name ∈ keys members := by
  rw [contains, Option.isSome_iff_ne_none, ne_eq, get?_eq_none_iff, Classical.not_not]

theorem erase_of_get?_eq_none {name : String} {members : Members α}
    (h : get? name members = none) : erase name members = members := by
  rw [get?_eq_none_iff, keys, List.mem_map, not_exists] at h
  rw [erase_eq_filter, List.filter_eq_self]
  intro member hmem
  simpa using fun hname => h member ⟨hmem, hname⟩

theorem get?_map (change : String → α → β) (name : String) (members : Members α) :
    get? name (members.map fun (key, value) => (key, change key value)) =
      (get? name members).map (change name) := by
  induction members with
  | nil => rfl
  | cons member rest ih =>
    obtain ⟨key, value⟩ := member
    by_cases h : key = name
    · subst h
      simp [get?]
    · simp [get?, h, ih]

theorem get?_insertSorted (name other : String) (value : α) (members : Members α) :
    get? other (insertSorted name value members) =
      if other = name then some value else get? other members := by
  induction members with
  | nil => simp [insertSorted, get?, eq_comm]
  | cons member rest ih =>
    obtain ⟨key, old⟩ := member
    rw [insertSorted]
    by_cases hlt : name < key
    · rw [if_pos hlt, get?]
      simp only [eq_comm]
    · rw [if_neg hlt]
      by_cases hkey : key = name
      · subst hkey
        by_cases hother : other = key
        · simp [get?, hother]
        · simp [get?, hother, Ne.symm hother]
      · rw [if_neg hkey, get?, get?, ih]
        by_cases hother : other = name
        · subst hother
          simp [hkey]
        · simp [hother]

@[simp] theorem get?_sorted (name : String) (members : Members α) :
    get? name (sorted members) = get? name members := by
  induction members with
  | nil => rfl
  | cons member rest ih =>
    obtain ⟨key, value⟩ := member
    rw [sorted, List.foldr_cons, get?_insertSorted]
    rw [sorted] at ih
    by_cases h : name = key
    · simp [get?, h]
    · rw [if_neg h, ih, get?, if_neg (Ne.symm h)]

theorem perm_insertSorted {name : String} {members : Members α} (value : α)
    (h : name ∉ keys members) : (insertSorted name value members).Perm ((name, value) :: members) := by
  induction members with
  | nil => exact .refl _
  | cons member rest ih =>
    obtain ⟨key, old⟩ := member
    rw [keys, List.map_cons, List.mem_cons, not_or] at h
    rw [insertSorted]
    by_cases hlt : name < key
    · rw [if_pos hlt]
    · rw [if_neg hlt, if_neg (Ne.symm h.1)]
      exact ((ih h.2).cons _).trans (.swap _ _ _)

theorem perm_sorted {members : Members α} (h : (keys members).Nodup) :
    (sorted members).Perm members := by
  induction members with
  | nil => exact .refl _
  | cons member rest ih =>
    obtain ⟨key, value⟩ := member
    rw [keys, List.map_cons, List.nodup_cons] at h
    have hrest := ih h.2
    have hkey : key ∉ keys (sorted rest) := by
      intro hmem
      exact h.1 ((hrest.map Prod.fst).mem_iff.mp hmem)
    exact (perm_insertSorted value hkey).trans (hrest.cons _)

end Members

end FormFlow
