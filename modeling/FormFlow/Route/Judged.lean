import FormFlow.Route.Basic

/-!
# Judged edges

Edges are gone through in the order of evaluation. An edge is active if its source is entered and
leads on by this edge: a section if it is valid, a decision if the condition of the edge is its
output. Behind the first section that is entered and not valid, the frontier, no section and no
decision leads on.

What is valid and what a decision puts out are parameters here.
-/

namespace FormFlow.Route

structure JudgedEdge extends Edge where
  active : Bool
  deriving Repr, DecidableEq

structure Judgement where
  /-- Whether a section is valid. -/
  valid : String → Bool
  /-- The output of a decision. -/
  output : String → Bool

/-- Edges gone through so far, and whether one of them left the frontier. -/
structure Sweep where
  judged : List JudgedEdge
  beyondFrontier : Bool

namespace Sweep

def start : Sweep := ⟨[], false⟩

/-- Whether an edge may be active at all. The edge that leads to `START` always may. -/
def enters (sweep : Sweep) (edge : Edge) : Bool :=
  edge.source = startId || edge.target = startId ||
    sweep.judged.any fun earlier => earlier.active && earlier.target = edge.source

/-- Whether the source of an edge leads on by it. -/
def leadsOn (sweep : Sweep) (judgement : Judgement) (edge : Edge) : Bool :=
  match edge.sourceKind with
  | .start => true
  | .finish => false
  | .sectionVertex => !sweep.beyondFrontier && judgement.valid edge.source
  | .decision => !sweep.beyondFrontier && edge.condition = some (judgement.output edge.source)

def isFrontier (sweep : Sweep) (judgement : Judgement) (edge : Edge) : Bool :=
  edge.sourceKind = .sectionVertex && sweep.enters edge && !judgement.valid edge.source

/-- Goes through one more edge. -/
def next (judgement : Judgement) (sweep : Sweep) (edge : Edge) : Sweep where
  judged := sweep.judged ++ [⟨edge, sweep.enters edge && sweep.leadsOn judgement edge⟩]
  beyondFrontier := sweep.beyondFrontier || sweep.isFrontier judgement edge

end Sweep

def judge (judgement : Judgement) (edges : List Edge) : List JudgedEdge :=
  (edges.foldl (Sweep.next judgement) Sweep.start).judged

theorem judged_foldl_next (judgement : Judgement) (sweep : Sweep) (edges : List Edge) :
    (edges.foldl (Sweep.next judgement) sweep).judged.map JudgedEdge.toEdge =
      sweep.judged.map JudgedEdge.toEdge ++ edges := by
  induction edges generalizing sweep with
  | nil => simp
  | cons edge rest ih => simp [ih, Sweep.next]

@[simp] theorem map_toEdge_judge (judgement : Judgement) (edges : List Edge) :
    (judge judgement edges).map JudgedEdge.toEdge = edges := by
  simpa [judge, Sweep.start] using judged_foldl_next judgement Sweep.start edges

/-! ## Questions about judged edges -/

/-- The sections and decisions that active edges leave, in order. The edge to `START` does not
count. -/
def pathway (edges : List JudgedEdge) : List String :=
  (((edges.filter fun edge => edge.active && edge.target ≠ startId).map (·.source)).filter
    fun id => !isReserved id).eraseDups

/-- `START`, what active edges lead to, and what precedes `START` are reached. -/
def isReached (edges : List JudgedEdge) (id : String) : Bool :=
  id = startId || edges.any fun edge =>
    (edge.target = id && edge.active) || (edge.source = id && edge.target = startId)

/-- Whether an id is an end of an edge. -/
def isVertex (edges : List JudgedEdge) (id : String) : Bool :=
  edges.any fun edge => edge.source = id || edge.target = id

def activeFrom? (edges : List JudgedEdge) (id : String) : Option JudgedEdge :=
  edges.find? fun edge => edge.source = id && edge.active

def activeInto? (edges : List JudgedEdge) (id : String) : Option JudgedEdge :=
  edges.find? fun edge => edge.target = id && edge.active

end FormFlow.Route
