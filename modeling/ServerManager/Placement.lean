import ServerManager.ProxmoxVm

namespace ServerManager.Placement

open Interaction PyJson Effects ProxmoxVm

def generalPreferredNode : String := "miam-00100"

def inferenceNodes : List String := ["miam00111", "miam00112", "miam00143", "miam00144"]

def excludedNodes : List String := ["miam-00133", "miam-00147"]

def maxWorkersPerInferenceNode : Nat := 1

def inferenceRuntimeClasses : List String := ["inference", "inference_worker", "gpu"]

def templatePinnedClasses : List String := ["sandbox", "dkms_service"]

structure PlacementDecision where
  node : String
  score : Int
  reasons : List String := []
  rejected : Bool := false
  rejectionReason : Option String := none

/-- Rows per node among those `_worker_counts_by_node` selects. -/
def workerCount (rows : List (String × String)) (node : String) : Nat :=
  (rows.filter (fun p => p.1 = node && p.1 ≠ "")).length

def inferenceWorkerCount (rows : List (String × String)) (node : String) : Nat :=
  (rows.filter (fun p => p.1 = node && p.1 ≠ "" && inferenceRuntimeClasses.contains p.2)).length

/-- Nodes PVE reports online, minus exclusions; a failed listing has none. -/
def candidateNodes : Py (List String) := do
  let nodes ← tryCatch listNodes (fun _ => pure [])
  pure ((nodes.filter (fun p => p.2.isStr "online" && !excludedNodes.contains p.1)).map (·.1))

def scoreNode (runtimeClass : String) (total inference : List (String × String)) (node : String) :
    PlacementDecision :=
  if node = generalPreferredNode then { node, score := 100, reasons := ["general_preferred"] }
  else if inferenceNodes.contains node then
    if inferenceRuntimeClasses.contains runtimeClass then
      if maxWorkersPerInferenceNode ≤ inferenceWorkerCount inference node then
        { node, score := 0, rejected := true, rejectionReason := some "inference_node_at_worker_cap" }
      else { node, score := 40 }
    else { node, score := 40 - 60, reasons := ["inference_node_penalty"] }
  else
    let n := workerCount total node
    { node, score := 20 - 2 * n, reasons := ["generic", s!"existing_workers={n}"] }

/-- The sort key `(-score, node != template_node, node)`. -/
def ranksBefore (templateNode : String) (a b : PlacementDecision) : Bool :=
  if a.score ≠ b.score then b.score < a.score
  else if (a.node = templateNode) ≠ (b.node = templateNode) then a.node = templateNode
  else a.node ≤ b.node

def selectNode (runtimeClass templateNode : String) : Py PlacementDecision := do
  flush
  let total ← placedNodes
  let inference ← placedNodes
  if templatePinnedClasses.contains runtimeClass then
    pure
      { node := templateNode, score := 100, reasons := [s!"{runtimeClass}_pinned_to_template_node"] }
  else
    let nodes ← candidateNodes
    let scored :=
      (nodes.map (scoreNode runtimeClass total inference)).mergeSort (ranksBefore templateNode)
    match scored.filter (fun d => !d.rejected && d.node ≠ "") with
    | d :: _ => pure d
    | [] =>
        pure
          { node := "", score := 0, rejected := true, rejectionReason := some "no_eligible_node" }

end ServerManager.Placement
