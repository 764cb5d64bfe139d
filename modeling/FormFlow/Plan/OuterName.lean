import FormFlow.Path.Access
import FormFlow.Plan.Basic

/-!
# Outer names

A node may declare the name under which its data is handed on. Such an outer name stands for all
steps since the last index, and indexes are kept.
-/

namespace FormFlow.Plan

/-- The outer name that the node of a location declares. -/
def outerNameAt? (plan : Plan) (location : Location) : Option String :=
  (plan.nodeAt? location).bind Node.outerName

/-- Renames the steps behind `passed`; `segment` are the renamed steps since the last index. -/
def outerFrom (plan : Plan) (passed segment : Location) : Location → Location
  | [] => segment
  | step :: rest =>
    let passed := passed ++ [step]
    let segment := match plan.outerNameAt? passed with
      | some name => .field name :: if step.isIndex then [step] else []
      | none => segment ++ [step]
    if step.isIndex then segment ++ plan.outerFrom passed [] rest
    else plan.outerFrom passed segment rest

def outerLocation (plan : Plan) (location : Location) : Location := plan.outerFrom [] [] location

/-- The document that is handed on: each leaf at its outer location. -/
def outerDocument (plan : Plan) (document : Document) : Document :=
  ((document.leaves []).filter fun leaf => !leaf.1.isEmpty).foldl
    (fun outer (location, leaf) => outer.insertAt (plan.outerLocation location) leaf)
    Document.empty

end FormFlow.Plan
