import VllmEcho.KVCache.Basic

/-!
# The default expert placement policy

`DefaultEplb` computes, layer by layer, which experts each card holds.  It first hands out the
redundant copies to the experts with the highest load per copy, puts one redundant copy on each
of the first cards, and then packs one copy of every expert, hottest first, on the lightest card
with a free place that does not hold the expert yet.  The new lists are finally permuted so that
experts that stay on a card keep their slot.

The source computes with floats: workloads are rational numbers here, and `fl` rounds the result of
every multiplication, division and addition.
-/

namespace VllmEcho

variable (fl : ℚ → ℚ) (weights : List (Nat × ℚ)) (itemsPerBox : Nat)

namespace DefaultEplb

/-- `weights[np.argsort([t[1] for t in weights], kind="stable")[::-1]]`: a stable sort by weight,
read backwards. -/
def sortDescending : List (Nat × ℚ) :=
  (weights.insertionSort fun s t => s.2 ≤ t.2).reverse

/-! ## Handing out the redundant copies -/

structure Replication where
  weights : List (Nat × ℚ)
  redundancy : List (List Nat)
  deriving DecidableEq

def Replication.split (routeExpertNum i : Nat) (st : Replication) : Except PyError Replication :=
  match sortDescending st.weights with
  | [] => .error .indexError
  | (item, weight) :: others =>
    match st.redundancy[item]? with
    | none => .error .indexError
    | some copies =>
      let rawWeight := fl (weight * (copies.length + 1))
      let copies' := copies ++ [routeExpertNum + i]
      let avgWeight := fl (rawWeight / (copies'.length + 1))
      .ok ⟨(item, avgWeight) :: others, st.redundancy.set item copies'⟩

def replicate (originWeights : List (Nat × ℚ)) (numRedundancyExpert : Nat) :
    Except PyError Replication :=
  (List.range numRedundancyExpert).foldlM
    (fun st i => st.split fl originWeights.length i)
    ⟨originWeights, List.replicate originWeights.length []⟩

/-! ## Boxes -/

structure Box where
  items : List Nat
  weights : List ℚ
  total : ℚ
  count : Nat
  deriving DecidableEq

def Box.empty : Box := ⟨[], [], 0, 0⟩

def Box.add (box : Box) (item : Nat) (weight : ℚ) : Box :=
  ⟨box.items ++ [item], box.weights ++ [weight], fl (box.total + weight), box.count + 1⟩

def addToBox (boxes : List Box) (i item : Nat) (weight : ℚ) : Except PyError (List Box) :=
  match boxes[i]? with
  | none => .error .indexError
  | some box => .ok (boxes.set i (box.add fl item weight))

def curWeight (item : Nat) : ℚ :=
  weights.foldl (fun cur t => if t.1 = item then t.2 else cur) 0

def redundantItems (redundancy : List (List Nat)) : List Nat :=
  (List.range redundancy.length).flatMap fun i =>
    List.replicate ((redundancy[i]?).getD []).length i

def placeRedundant (fl : ℚ → ℚ) (weights : List (Nat × ℚ)) :
    List Nat → Nat → List Box → Except PyError (List Box)
  | [], _, boxes => .ok boxes
  | item :: items, index, boxes => do
    let boxes ← addToBox fl boxes index item (curWeight weights item)
    placeRedundant fl weights items (index + 1) boxes

/-! ## Packing -/

def Box.hasSpace (remainingItems : Nat) (box : Box) : Bool :=
  box.count < itemsPerBox || (box.count == itemsPerBox && decide (0 < remainingItems))

def minBox (i : Nat) (box : Box) : Option (Nat × ℚ) → Nat × ℚ
  | none => (i, box.total)
  | some (m, weight) => if box.total < weight then (i, box.total) else (m, weight)

def scanBoxes (itemsPerBox remainingItems item : Nat) :
    List Box → Nat → Option (Nat × ℚ) → Option (Nat × ℚ)
  | [], _, best => best
  | box :: boxes, i, best =>
    if item ∈ box.items then scanBoxes itemsPerBox remainingItems item boxes (i + 1) best
    else if box.hasSpace itemsPerBox remainingItems then
      scanBoxes itemsPerBox remainingItems item boxes (i + 1) (some (minBox i box best))
    else scanBoxes itemsPerBox remainingItems item boxes (i + 1) best

structure PackState where
  boxes : List Box
  remainingItems : Nat
  deriving DecidableEq

/-- One item of the packing loop.  When no box qualifies `min_box_index` is still `-1`, and Python
indexes the last box. -/
def PackState.place (st : PackState) (item : Nat × ℚ) : Except PyError PackState := do
  let index := match scanBoxes itemsPerBox st.remainingItems item.1 st.boxes 0 none with
    | some (m, _) => m
    | none => st.boxes.length - 1
  let boxes ← addToBox fl st.boxes index item.1 item.2
  let count := ((boxes[index]?).getD Box.empty).count
  if count = itemsPerBox + 1 ∧ 0 < st.remainingItems then
    .ok ⟨boxes, st.remainingItems - 1⟩
  else .ok ⟨boxes, st.remainingItems⟩

/-- `original_compute_balanced_pack_redundancy`.  The returned boxes carry both results of the
source, the summary records and the item lists. -/
def originalComputeBalancedPackRedundancy (originWeights : List (Nat × ℚ))
    (cardNum numRedundancyExpert : Nat) : Except PyError (List Box) := do
  let rep ← replicate fl originWeights numRedundancyExpert
  let expertNum := originWeights.length + numRedundancyExpert
  if cardNum = 0 then .error .zeroDivisionError
  else do
    let boxes ← placeRedundant fl rep.weights (redundantItems rep.redundancy) 0
      (List.replicate cardNum Box.empty)
    let packed ← (sortDescending rep.weights).foldlM (PackState.place fl (expertNum / cardNum))
      ⟨boxes, expertNum % cardNum⟩
    .ok packed.boxes

/-! ## Local exchange -/

/-- The inner loop of `constraint_expert_local_exchange`: the first free slot with the given expert.
`new_index[j]` and `new_result[j]` leave `-1` together, so one list stands for both. -/
def claimSlot (expert : Nat) :
    List Nat → List (Option Nat) → Except PyError (Option (List (Option Nat)))
  | _, [] => .ok none
  | [], _ :: _ => .error .indexError
  | c :: current, slot :: slots =>
    if expert = c ∧ slot = none then .ok (some (some c :: slots))
    else do
      let found ← claimSlot expert current slots
      .ok (found.map (slot :: ·))

def keepSlots (current : List Nat) :
    List Nat → List (Option Nat) → List Nat → Except PyError (List (Option Nat) × List Nat)
  | [], slots, remaining => .ok (slots, remaining)
  | expert :: new, slots, remaining => do
    match ← claimSlot expert current slots with
    | some slots => keepSlots current new slots remaining
    | none => keepSlots current new slots (remaining ++ [expert])

def fillSlots : List (Option Nat) → List Nat → Except PyError (List Nat)
  | [], _ => .ok []
  | some expert :: slots, remaining => do
    let filled ← fillSlots slots remaining
    .ok (expert :: filled)
  | none :: _, [] => .error .indexError
  | none :: slots, expert :: remaining => do
    let filled ← fillSlots slots remaining
    .ok (expert :: filled)

def exchangeCard (current new : List Nat) : Except PyError (List Nat) := do
  let (slots, remaining) ← keepSlots current new (List.replicate new.length none) []
  fillSlots slots remaining

def exchangeLayer : List (List Nat) → List (List Nat) → Except PyError (List (List Nat))
  | _, [] => .ok []
  | [], _ :: _ => .error .indexError
  | current :: currents, new :: news => do
    let card ← exchangeCard current new
    let cards ← exchangeLayer currents news
    .ok (card :: cards)

def constraintExpertLocalExchange :
    List (List (List Nat)) → List (List (List Nat)) → Except PyError (List (List (List Nat)))
  | _, [] => .ok []
  | [], _ :: _ => .error .indexError
  | current :: currents, new :: news => do
    let layer ← exchangeLayer current new
    let layers ← constraintExpertLocalExchange currents news
    .ok (layer :: layers)

/-! ## Rebalancing -/

/-- `add_redundant` for one layer: the load of an expert is the sum over its copies, which are token
counts, stored as a float. -/
def addRedundant (numOriginalExpert : Nat) (placement : List (List Nat))
    (workload : List (List Nat)) : List ℚ :=
  let pairs := (placement.zip workload).flatMap fun card => card.1.zip card.2
  (List.range numOriginalExpert).map fun expert =>
    fl ((pairs.filter fun t => t.1 = expert).map Prod.snd).sum

def enumerateWeights (loads : List ℚ) : List (Nat × ℚ) :=
  loads.zipIdx.map fun t => (t.2, t.1)

def packLayers (layerWorkloads : List (List ℚ)) (cardNum numRedundancyExpert : Nat) :
    Except PyError (List (List (List Nat))) :=
  layerWorkloads.mapM fun loads => do
    let boxes ← originalComputeBalancedPackRedundancy fl (enumerateWeights loads) cardNum
      numRedundancyExpert
    .ok (boxes.map Box.items)

/-- `rebalance_experts`: the new deployment.  The change flag and the layer priorities that the
source also returns are dropped by its caller. -/
def rebalanceExperts (currentExpertTable : List (List (List Nat)))
    (expertWorkload : List (List (List Nat))) : Except PyError (List (List (List Nat))) :=
  match currentExpertTable, expertWorkload with
  | [], _ | _, [] => .error .indexError
  | row :: _, workload :: _ => do
    let numNpus := workload.length
    let expertIds := row.flatten.dedup
    let numRedundancyExpert := row.flatten.length - expertIds.length
    let layerWorkloads := (currentExpertTable.zip expertWorkload).map fun layer =>
      addRedundant fl expertIds.length layer.1 layer.2
    if numNpus = 0 then .error (.valueError "the number of NPUs must be greater than 0")
    else if numNpus < numRedundancyExpert then
      .error (.valueError (s!"the number of NPUs {numNpus} must be greater than or equal to the " ++
        s!"number of redundant experts {numRedundancyExpert}"))
    else do
      let globalDeployment ← packLayers fl layerWorkloads numNpus numRedundancyExpert
      constraintExpertLocalExchange currentExpertTable globalDeployment

end DefaultEplb

end VllmEcho
