import FormFlow.Proofs.Flow.Checkpoints
import FormFlow.Proofs.Flow.Inspections
import FormFlow.Proofs.Path.Shapes

/-!
# Settled plans

A plan is settled if, whenever the places of a pattern are inspected, nothing is still to be
inspected that the preconditions on the way to them read. This can be told from the plan alone, and
then no inspection is disturbed by those behind it, whatever the document (`not_disturbs`).

The order of the plan alone does not give this. It puts a node behind what its own preconditions
refer to, but not behind what lies below that, and not behind what the preconditions above it read.
-/

namespace FormFlow

/-- Whether a read finds the same whatever is taken out at places of the given patterns. -/
def Read.avoids : Read → List Pattern → Bool
  | .self, _ => false
  | .reference pattern, others => others.all pattern.apart

/-- Whether no `^` of a read stands behind the given number of steps. -/
def Read.isWithin (length : Nat) : Read → Bool
  | .self => true
  | .reference pattern => !Pattern.hasSame (pattern.drop length)

/-- Whether a read is of another node than the one of a path, and of none above or below it. -/
def Read.isElsewhere (path : Pattern) : Read → Bool
  | .self => false
  | .reference pattern => !pattern.absolute.isPrefixOf path && !path.isPrefixOf pattern.absolute

namespace Plan

/-- Whether a node may hold a place of a pattern, or a location above it. -/
def Node.governs (node : Node) (pattern : Pattern) : Bool :=
  node.path.withoutEach.length ≤ pattern.length && !node.path.withoutEach.apart pattern

def Node.avoids (node : Node) (patterns : List Pattern) : Bool :=
  node.preconditions.all fun precondition =>
    precondition.reads.all fun read => read.avoids patterns

def settledFrom (nodes : List Node) : List Pattern → Bool
  | [] => true
  | pattern :: rest =>
    (nodes.all fun node => !node.governs pattern || node.avoids (pattern :: rest)) &&
      settledFrom nodes rest

/-- Whether nothing is inspected after the preconditions that read it. -/
def isSettled (plan : Plan) : Bool := settledFrom plan.nodes plan.guardOrder

/-- Whether each `^` stands where every place that the node holds has a step. -/
def Node.isAnchored (node : Node) : Bool :=
  node.preconditions.all fun precondition =>
    precondition.reads.all (Read.isWithin node.path.withoutEach.length)

def isAnchored (plan : Plan) : Bool := plan.nodes.all Node.isAnchored

/-- Whether no precondition speaks of its own node, nor of what lies above or below it. -/
def looksElsewhere (plan : Plan) : Bool :=
  plan.nodes.all fun node => node.preconditions.all fun precondition =>
    precondition.reads.all (Read.isElsewhere node.path)

theorem avoids_of_settledFrom {nodes : List Node} {order passed rest : List Pattern}
    {pattern : Pattern} (h : settledFrom nodes order = true)
    (hsplit : order = passed ++ pattern :: rest) {node : Node} (hnode : node ∈ nodes)
    (hgoverns : node.governs pattern = true) : node.avoids (pattern :: rest) = true := by
  induction passed generalizing order with
  | nil =>
    rw [hsplit, List.nil_append, settledFrom, Bool.and_eq_true, List.all_eq_true] at h
    simpa [hgoverns] using h.1 node hnode
  | cons first passed ih =>
    rw [hsplit, List.cons_append, settledFrom, Bool.and_eq_true] at h
    exact ih h.2 rfl

end Plan

/-! ### The nodes on the way to a place -/

namespace Pattern

/-- A pattern is taken alike from a place and from a longer one if each `^` stands within the
shorter. -/
theorem relativeTo_of_part {pattern : Pattern} {here there : Location} {length : Nat}
    (habove : here <+: there) (hlength : length ≤ here.length)
    (hwithin : hasSame (pattern.drop length) = false) :
    pattern.relativeTo here = pattern.relativeTo there := by
  obtain ⟨below, rfl⟩ := habove
  apply List.map_congr_left
  rintro ⟨token, position⟩ hmem
  rw [List.mk_mem_zipIdx_iff_getElem?] at hmem
  cases token with
  | key name => rfl
  | each => rfl
  | same =>
    have hlt : position < length := by
      by_contra hle
      have hdropped : (pattern.drop length)[position - length]? = some .same := by
        rw [List.getElem?_drop, Nat.add_sub_cancel' (Nat.le_of_not_lt hle), hmem]
      simp [hasSame, List.mem_of_getElem? hdropped] at hwithin
    simp only [List.getElem?_append_left (Nat.lt_of_lt_of_le hlt hlength)]

theorem apart_shape_eq_false {token : Token} {step : Step} (hdenotes : token.Denotes step) :
    step.shape.apart token = false := by
  match step, token, hdenotes with
  | .field _, .key _, rfl => simp [Step.shape, Token.apart]
  | .index position, .key name, hposition =>
    have hread : Text.readIndex name.toList = some position := hposition
    simp [Step.shape, Token.apart, hread]
  | .index _, .each, _ => rfl

theorem apart_eq_false_of_names {part pattern : Pattern} {place : Location}
    (hpart : part <+: Location.shape place) (hnames : pattern.Names place) :
    part.apart pattern = false := by
  induction place generalizing part pattern with
  | nil =>
    obtain rfl : part = [] := List.prefix_nil.mp hpart
    rfl
  | cons step rest ih =>
    cases part with
    | nil => rfl
    | cons first part =>
      rw [Location.shape, List.map_cons, List.cons_prefix_cons] at hpart
      obtain ⟨rfl, hpart⟩ := hpart
      cases pattern with
      | nil => rfl
      | cons token pattern =>
        rw [apart, ih hpart hnames.2, apart_shape_eq_false hnames.1]
        rfl

end Pattern

namespace Plan

theorem withoutEach_path_part {plan : Plan} {location : Location} {position : Nat} {node : Node}
    (hposition : plan.positionAt? location = some position)
    (hnode : plan.node? position = some node) : node.path.withoutEach <+: location.shape := by
  rw [positionAt?, positionOfPath?, Option.or_eq_some_iff, Pattern.ofLocation_eq] at hposition
  rcases hposition with hposition | ⟨_, hposition⟩
  · rw [path_of_positionOf? hposition hnode]
    exact (Pattern.withoutEach_part _).trans (Pattern.withoutEach_part _)
  · rw [path_of_positionOf? hposition hnode, Pattern.withoutEach_withEach]
    exact Pattern.withoutEach_part _

theorem governs_of_mem_checkpoints {plan : Plan} {place : Location} {pattern : Pattern}
    {checkpoint : Node × Location} (h : checkpoint ∈ plan.checkpoints none place.upward)
    (hnames : pattern.Names place) :
    checkpoint.1 ∈ plan.nodes ∧ checkpoint.1.governs pattern = true := by
  obtain ⟨hupward, position, hposition, hnode⟩ := mem_checkpoints h
  have hbelow : checkpoint.2.shape <+: place.shape :=
    (Location.mem_upward.mp hupward).1.map Step.shape
  have hpart := (withoutEach_path_part hposition hnode).trans hbelow
  refine ⟨List.mem_of_getElem? hnode, ?_⟩
  rw [Node.governs, Pattern.apart_eq_false_of_names hpart hnames, Bool.not_false, Bool.and_true,
    decide_eq_true_eq, Pattern.length_eq_of_names hnames]
  simpa [Location.shape] using hpart.length_le

end Plan

theorem Scope.valueOf_of_part {table : FunctionTable} {document : Document} {pattern : Pattern}
    {here there : Location} {length : Nat} (habove : here <+: there)
    (hlength : length ≤ here.length) (hwithin : (Read.reference pattern).isWithin length = true) :
    (Scope.mk table document (some here)).valueOf pattern =
      (Scope.mk table document (some there)).valueOf pattern := by
  rw [Read.isWithin, Bool.not_eq_true'] at hwithin
  simp only [valueOf, Pattern.relativeTo_of_part habove hlength hwithin]
  rfl

/-! ### Inspections of a settled plan -/

namespace Flow

variable {flow : Flow} {document : Document} {front back : List Location} {place : Location}

theorem findsAlike_of_avoids {removed : Location}
    (hremoved : document.Fits removed ∨ document.at? removed = none) {patterns : List Pattern}
    {pattern : Pattern} (hpattern : pattern ∈ patterns) (hnames : pattern.Names removed)
    (havoids : ∀ checkpoint ∈ flow.plan.checkpoints none place.upward,
      checkpoint.1.avoids patterns = true) :
    flow.FindsAlike place document (document.without removed) := by
  rcases hremoved with hremoved | hnone
  · intro checkpoint hcheckpoint precondition hprecondition read hread
    have hreads := havoids checkpoint hcheckpoint
    simp only [Plan.Node.avoids, List.all_eq_true] at hreads
    have hread := hreads precondition hprecondition read hread
    cases read with
    | self => simp [Read.avoids] at hread
    | reference reference =>
      rw [Read.avoids, List.all_eq_true] at hread
      exact (Scope.valueOf_without hremoved
        (Pattern.misses_of_apart checkpoint.2 (hread pattern hpattern) hnames)).symm
  · rw [Document.without_of_at?_eq_none hnone]
    exact fun _ _ _ _ _ _ => rfl

/-- In a settled plan, nothing that is taken out from an inspection on changes what its
preconditions read. -/
theorem not_disturbs (hsettled : flow.plan.isSettled = true)
    (hsplit : flow.inspections document = front ++ place :: back) :
    ¬ flow.Disturbs (flow.after document front) (place :: back) place := by
  rintro ⟨mid, removed, rest, hmid, _, hdiffers⟩
  obtain ⟨passed, pattern, later, horder, hnames, hback, _⟩ := inspected_split hsplit
  obtain ⟨other, hother, hotherNames⟩ :
      ∃ other ∈ pattern :: later, other.Names removed := by
    have hremoved : removed ∈ place :: back := by simp [hmid]
    rcases List.mem_cons.mp hremoved with rfl | hremoved
    · exact ⟨pattern, List.mem_cons_self, hnames⟩
    · exact hback removed hremoved
  have hsplitRemoved : flow.inspections document = (front ++ mid) ++ removed :: rest := by
    rw [hsplit, hmid, List.append_assoc]
  obtain ⟨_, _, _, _, _, _, hremoved⟩ := inspected_split hsplitRemoved
  rw [after_append] at hremoved
  refine hdiffers (findsAlike_of_avoids hremoved hother hotherNames fun checkpoint hmem => ?_)
  obtain ⟨hnode, hgoverns⟩ := Plan.governs_of_mem_checkpoints hmem hnames
  exact Plan.avoids_of_settledFrom hsettled horder hnode hgoverns

/-- A precondition on the way to a place reads something else on the way to a location below it. -/
def Shifts (flow : Flow) (document : Document) (place location : Location) : Prop :=
  ∃ checkpoint ∈ flow.plan.checkpoints none place.upward,
    ∃ other ∈ flow.plan.checkpoints none location.upward,
      other.1 = checkpoint.1 ∧ checkpoint.2 <+: other.2 ∧
        ∃ precondition ∈ checkpoint.1.preconditions, ∃ read ∈ precondition.reads,
          (flow.scope document (some checkpoint.2)).find read ≠
            (flow.scope document (some other.2)).find read

/-- What lies below a place that is not live is not live, unless it reads something else. -/
theorem shifts_of_isLive {location : Location} (hbelow : place <+: location)
    (hfailed : flow.isLive document place = false)
    (hlive : flow.isLive document location = true) : flow.Shifts document place location := by
  rw [← Bool.not_eq_true, isLive, List.all_eq_true] at hfailed
  rw [isLive, List.all_eq_true] at hlive
  by_contra hshifts
  refine hfailed fun checkpoint hcheckpoint => ?_
  obtain ⟨here, hhere, habove⟩ := Plan.exists_checkpoint_below hbelow hcheckpoint
  have hholds := hlive (checkpoint.1, here) hhere
  rw [List.all_eq_true] at hholds ⊢
  intro precondition hprecondition
  rw [← hholds precondition hprecondition]
  refine holds_congr fun read hread => ?_
  by_contra hdiffers
  exact hshifts ⟨checkpoint, hcheckpoint, (checkpoint.1, here), hhere, rfl, habove, precondition,
    hprecondition, read, hread, hdiffers⟩

/-- In a settled plan whose `^` all stand within the paths of their nodes, preconditions read the
same on the way to a place and to what lies below it. -/
theorem not_shifts (hsettled : flow.plan.isSettled = true) (hanchored : flow.plan.isAnchored = true)
    (hsplit : flow.inspections document = front ++ place :: back) (other : Document)
    (location : Location) : ¬ flow.Shifts other place location := by
  rintro ⟨checkpoint, hcheckpoint, below, _, _, habove, precondition, hprecondition, read, hread,
    hdiffers⟩
  obtain ⟨passed, pattern, later, horder, hnames, _, _⟩ := inspected_split hsplit
  obtain ⟨hnode, hgoverns⟩ := Plan.governs_of_mem_checkpoints hcheckpoint hnames
  have havoids := Plan.avoids_of_settledFrom hsettled horder hnode hgoverns
  have hwithin := List.all_eq_true.mp hanchored checkpoint.1 hnode
  rw [Plan.Node.avoids, List.all_eq_true] at havoids
  rw [Plan.Node.isAnchored, List.all_eq_true] at hwithin
  have havoidsRead := List.all_eq_true.mp (havoids precondition hprecondition) read hread
  have hwithinRead := List.all_eq_true.mp (hwithin precondition hprecondition) read hread
  cases read with
  | self => simp [Read.avoids] at havoidsRead
  | reference reference =>
    obtain ⟨_, position, hposition, hheld⟩ := Plan.mem_checkpoints hcheckpoint
    have hlength := (Plan.withoutEach_path_part hposition hheld).length_le
    rw [Location.shape, List.length_map] at hlength
    exact hdiffers (Scope.valueOf_of_part habove hlength hwithinRead)

end Flow

end FormFlow
