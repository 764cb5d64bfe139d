import FormFlow.Flow.Outcome

/-!
# Navigation

Where to go from a section, forward and back. Both ways pass through decisions. A section that is
not valid is not left forward. From a vertex that is not reached, the way forward is to the end of
the route, and the way back to the nearest vertex that is reached.
-/

namespace FormFlow

/-- A section, `START` or `END` to go to, with the messages to show there. -/
structure Destination where
  id : String
  messages : Option (List Message)
  deriving Repr, DecidableEq

namespace Destination

def plain (id : String) : Destination := ⟨id, none⟩

end Destination

namespace Outcome

/-- A section as a destination, with its messages if it has any. -/
def withMessages (outcome : Outcome) (id : String) : Destination :=
  match outcome.section? id with
  | some ⟨_, message :: messages⟩ => ⟨id, some (message :: messages)⟩
  | _ => .plain id

/-- How many edges a walk follows at most. -/
def walkBound (outcome : Outcome) : Nat := outcome.edges.length + 1

/-- Follows active edges to the next section or `END`. -/
def ahead (outcome : Outcome) : Nat → String → Option String
  | 0, _ => none
  | fuel + 1, current =>
    match Route.activeFrom? outcome.edges current with
    | none => none
    | some edge =>
      match edge.targetKind with
      | .sectionVertex | .finish => some edge.target
      | .start | .decision => outcome.ahead fuel edge.target

/-- Follows active edges back to the section before or `START`. -/
def behind (outcome : Outcome) : Nat → String → Option String
  | 0, _ => none
  | fuel + 1, current =>
    match Route.activeInto? outcome.edges current with
    | none => none
    | some edge =>
      match edge.sourceKind with
      | .sectionVertex | .start => some edge.source
      | .decision | .finish => outcome.behind fuel edge.source

/-- Follows active edges as far as they lead and answers with the last section or `END` on the
way, or with `furthest` if there is none. -/
def furthestFrom (outcome : Outcome) : Nat → String → String → String
  | 0, _, furthest => furthest
  | fuel + 1, current, furthest =>
    match Route.activeFrom? outcome.edges current with
    | none => furthest
    | some edge =>
      let furthest := match edge.targetKind with
        | .sectionVertex | .finish => edge.target
        | .start | .decision => furthest
      outcome.furthestFrom fuel edge.target furthest

/-- The last section or `END` that active edges lead to from `START`. -/
def furthest (outcome : Outcome) : String :=
  outcome.furthestFrom outcome.walkBound startId startId

def next (outcome : Outcome) (current : String) : Option Destination :=
  if current = endId then none
  else if current = startId then (outcome.ahead outcome.walkBound startId).map .plain
  else if !outcome.isVertex current then none
  else if !outcome.isReached current then some (outcome.withMessages outcome.furthest)
  else
    match outcome.section? current with
    | some result =>
      if result.isValid then (outcome.ahead outcome.walkBound current).map .plain
      else some ⟨current, some result.messages⟩
    | none => (outcome.ahead outcome.walkBound current).map .plain

/-! ## The way back -/

def endsBack (outcome : Outcome) (edge : Route.JudgedEdge) : Bool :=
  edge.source = startId ||
    (outcome.isReached edge.source &&
      (edge.sourceKind = .sectionVertex || edge.sourceKind = .decision))

/-- Where the way back ends, given an edge at whose source it does. -/
def backTo (outcome : Outcome) (edge : Route.JudgedEdge) : Option Destination :=
  if edge.source = startId then some (.plain startId)
  else if edge.sourceKind = .sectionVertex then some (outcome.withMessages edge.source)
  else (outcome.behind outcome.walkBound edge.source).map .plain

/-- Searches back breadth first, at most `fuel` vertices, from those in a queue. A vertex is looked
at when an edge leads back to it for the first time. -/
def searchBack (outcome : Outcome) : Nat → List String → List String → Option Destination
  | 0, _, _ | _, _, [] => none
  | fuel + 1, visited, vertex :: queue =>
    let fresh := outcome.edges.filter fun edge => edge.target = vertex && edge.source ∉ visited
    match fresh.find? outcome.endsBack with
    | some edge => outcome.backTo edge
    | none =>
      let sources := (fresh.map (·.source)).eraseDups
      outcome.searchBack fuel (visited ++ sources) (queue ++ sources)

def previous (outcome : Outcome) (current : String) : Option Destination :=
  if current = startId || !outcome.isVertex current then none
  else if outcome.edges.any fun edge =>
      edge.source = startId && edge.target = current && edge.active then some (.plain startId)
  else if outcome.isReached current then
    (outcome.behind outcome.walkBound current).map .plain
  else outcome.searchBack outcome.walkBound [current] [current]

end Outcome

end FormFlow
