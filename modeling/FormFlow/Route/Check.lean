import FormFlow.Form.Error
import FormFlow.Route.Basic

/-!
# Checking the route of a form

`Form.checkRoute` accepts a graph in which every section leads on by one edge and every decision by
two, one for each output, in which everything is led to, and in which at most one vertex precedes
`START`. It answers with the kinds of all vertices.
-/

namespace FormFlow.Form

/-- Adds the id of a section or a decision to those before it. -/
def addVertex (vertices : Members VertexKind) (id : Option String) (kind : VertexKind) :
    Except FormError (Members VertexKind) :=
  match id with
  | none => .error (.malformed .sections .sectionWithoutId)
  | some id =>
    if isReserved id then .error (.reservedId id)
    else if Members.contains id vertices then .error (.duplicateId id)
    else .ok (vertices ++ [(id, kind)])

def addVertices (vertices : Members VertexKind) :
    List (Option String × VertexKind) → Except FormError (Members VertexKind)
  | [] => .ok vertices
  | (id, kind) :: rest =>
    match addVertex vertices id kind with
    | .ok vertices => addVertices vertices rest
    | .error error => .error error

/-- The sections and then the decisions of a form, as they are declared. -/
def declaredVertices (form : Form) : List (Option String × VertexKind) :=
  form.sections.map (fun node => (node.id, .sectionVertex)) ++
    form.decisions.map (fun decision => (some decision.id, .decision))

/-- The kind of the vertex that an edge leaves. No edge leaves `END`. -/
def sourceKind? (vertices : Members VertexKind) (source : String) : Option VertexKind :=
  if source = startId then some .start else Members.get? source vertices

/-- Checks the ends and the condition of an edge; `earlier` are the edges declared before it. -/
def checkEdge (vertices : Members VertexKind) (earlier : List Edge) (edge : Edge) :
    Except FormError Unit :=
  if !isReserved edge.target && !Members.contains edge.target vertices then
    .error (.edgeToUnknown edge.target)
  else
    match sourceKind? vertices edge.source, edge.condition with
    | none, _ => .error (.edgeFromUnknown edge.source)
    | some .decision, none => .error (.missingCondition edge.source edge.target)
    | some .sectionVertex, some _ | some .start, some _ =>
      .error (.unexpectedCondition edge.source edge.target)
    | _, _ =>
      if edge.target = startId && earlier.any (·.target = startId) then
        .error (.severalBeforeStart edge.source edge.target)
      else .ok ()

def checkEdges (vertices : Members VertexKind) (earlier : List Edge) :
    List Edge → Except FormError Unit
  | [] => .ok ()
  | edge :: rest =>
    match checkEdge vertices earlier edge with
    | .ok () => checkEdges vertices (earlier ++ [edge]) rest
    | .error error => .error error

def checkVertex (edges : List Edge) (id : String) (kind : VertexKind) : Except FormError Unit :=
  let incoming := edges.filter (·.target = id)
  let outgoing := edges.filter (·.source = id)
  let precedesStart := outgoing.any (·.target = startId)
  let hasBranch (branch : Bool) : Bool := outgoing.any (·.condition = some branch)
  match precedesStart, incoming with
  | true, first :: _ => .error (.severalBeforeStart first.source first.target)
  | _, _ =>
    if outgoing.isEmpty then .error (.noEdgeFrom id)
    else if kind = .sectionVertex && 1 < outgoing.length then .error (.severalEdgesFrom id)
    else if !precedesStart && incoming.isEmpty then .error (.noEdgeTo id)
    else if kind = .decision then
      if !hasBranch true then .error (.noTrueEdge id)
      else if !hasBranch false then .error (.noFalseEdge id)
      else if 2 < outgoing.length then .error (.tooManyEdges id)
      else .ok ()
    else .ok ()

def checkVertices (edges : List Edge) : Members VertexKind → Except FormError Unit
  | [] => .ok ()
  | (id, kind) :: rest =>
    match checkVertex edges id kind with
    | .ok () => checkVertices edges rest
    | .error error => .error error

/-- The kinds of all vertices of a form with a sound route. -/
def checkRoute (form : Form) : Except FormError (Members VertexKind) := do
  let vertices ← addVertices [] form.declaredVertices
  checkEdges vertices [] form.edges
  if !form.edges.any (·.source = startId) then .error .noStartEdge
  checkVertices form.edges vertices
  .ok (vertices ++ [(startId, .start), (endId, .finish)])

end FormFlow.Form
