import VllmEcho.Eplb.Worker
import VllmEcho.Lib.Channels

/-!
# Installing a plan

The ranks run `EplbUpdator` in step with the forward passes.  In each of the `num_moe_layers` update
iterations a rank pops one entry of the packed plan, posts the sends and receives of that layer,
and after the forward pass copies what it received into its expert slots.

The weights of one expert (a list of tensors) are one value of `W`.
-/

namespace VllmEcho

namespace Eplb

open Lib Function

variable {L G E K : Nat} {W : Type}

inductive ExpertWeightUpdateState
  | waiting
  | ready
  | transferring
  deriving DecidableEq, Repr

/-- A posted operation.  A send refers to a slot, whose content is read during the transfer. -/
inductive P2POp (L G K : Nat)
  | isend (layer : Fin L) (slot : Fin K) (dst : Fin G)
  | irecv (buffer : Nat) (src : Fin G)
  deriving DecidableEq

structure Loader (L G E K : Nat) where
  commOpList : List (P2POp L G K)
  updatedExpertMap : Option (Fin E → Option (Fin K))
  updatedLog2phyMap : Option (Fin E → Nat)
  layerId : Option (Fin L)
  state : ExpertWeightUpdateState
  recvExpertList : List (Fin K × Nat)

structure EplbConfig where
  expertHeatCollectionInterval : Nat
  algorithmExecutionInterval : Nat
  expertMapRecordPath : Option String
  deriving DecidableEq

structure Rank (L G E K : Nat) (W : Type) where
  oldExpertMaps : ExpertMaps L G E K
  blockUpdateQ : Option (List (UpdateInfo L G E K))
  curIterations : Nat
  updateInfoAll : List (UpdateInfo L G E K)
  loader : Loader L G E K
  expertMapPerLayer : Fin L → Fin E → Option (Fin K)
  log2phyMapPerLayer : Fin L → Option (Fin E → Nat)
  expertParamPerLayer : Fin L → Fin K → W
  bufferTensorList : Nat → W

/-! ## The loader -/

/-- Indexing a list of `K` slots with an entry of an expert map: `-1` is the last slot. -/
def slotIndex : Option (Fin K) → Except PyError (Fin K)
  | some slot => .ok slot
  | none => match (List.finRange K).getLast? with
    | some slot => .ok slot
    | none => .error .indexError

def sendOps (map : Fin E → Option (Fin K)) (layerId : Fin L) (sendInfo : List (Fin G × Fin E)) :
    Except PyError (List (P2POp L G K)) :=
  sendInfo.mapM fun x => do
    let slot ← slotIndex (map x.2)
    .ok (.isend layerId slot x.1)

def recvOps (updatedMap : Fin E → Option (Fin K)) (recvInfo : List (Fin G × Fin E)) :
    Except PyError (List (P2POp L G K × (Fin K × Nat))) :=
  recvInfo.zipIdx.mapM fun x => do
    if x.2 < K then
      let slot ← slotIndex (updatedMap x.1.2)
      .ok (.irecv x.2 x.1.1, (slot, x.2))
    else .error .indexError

variable (r : Rank L G E K W) (layerId : Fin L)

namespace Rank

def generateExpertD2dTransferTask (info : UpdateInfo L G E K) : Except PyError (Rank L G E K W) :=
  if r.loader.state ≠ .waiting then .ok r
  else do
    let sends ← sendOps (r.expertMapPerLayer info.layerId) info.layerId info.sendInfo
    let recvs ← recvOps info.expertMap info.recvInfo
    .ok { r with loader := { r.loader with
      updatedExpertMap := some info.expertMap
      layerId := some info.layerId
      commOpList := sends ++ recvs.map Prod.fst
      recvExpertList := r.loader.recvExpertList ++ recvs.map Prod.snd
      state := .ready } }

def setLog2phyMap (log2phyMap : Fin E → Nat) : Rank L G E K W :=
  { r with loader := { r.loader with updatedLog2phyMap := some log2phyMap } }

def asynExpertWeightTransfer : Rank L G E K W × List (P2POp L G K) :=
  if r.loader.state ≠ .ready then (r, [])
  else ({ r with loader := { r.loader with state := .transferring } }, r.loader.commOpList)

def doUpdateExpertMap (map : Fin E → Option (Fin K)) : Rank L G E K W :=
  { r with expertMapPerLayer := update r.expertMapPerLayer layerId map }

def doUpdateLog2phyMap (map : Option (Fin E → Nat)) : Rank L G E K W :=
  if (r.log2phyMapPerLayer layerId).isNone then r
  else { r with log2phyMapPerLayer := update r.log2phyMapPerLayer layerId map }

def doUpdateExpertWeight (x : Fin K × Nat) : Rank L G E K W :=
  let params := update (r.expertParamPerLayer layerId) x.1 (r.bufferTensorList x.2)
  { r with expertParamPerLayer := update r.expertParamPerLayer layerId params }

/-- `update_expert_map_and_weight`.  `completed` says that every posted operation found its
counterpart; the wait does not return otherwise, which the model reports as an error. -/
def updateExpertMapAndWeight (completed : Bool) : Except PyError (Rank L G E K W) :=
  if r.loader.state ≠ .transferring then .ok r
  else if !completed then .error (.runtimeError "a send or receive never completes")
  else match r.loader.layerId, r.loader.updatedExpertMap with
    | some layerId, some map =>
      let r' := (r.doUpdateExpertMap layerId map).doUpdateLog2phyMap layerId
        r.loader.updatedLog2phyMap
      let r'' := r.loader.recvExpertList.foldl (fun r x => r.doUpdateExpertWeight layerId x) r'
      .ok { r'' with loader := { r''.loader with
        commOpList := []
        recvExpertList := []
        updatedExpertMap := none
        layerId := none
        state := .waiting } }
    | _, _ => .error .keyError

/-! ## The updator -/

variable (cfg : EplbConfig)

def getUpdateInfoFlag (r : Rank L G E K W) : Bool :=
  r.curIterations + 1 ==
    cfg.expertHeatCollectionInterval + cfg.algorithmExecutionInterval

def wakeupEplbWorkerFlag (r : Rank L G E K W) : Bool :=
  r.curIterations + 1 == cfg.expertHeatCollectionInterval

def updateExpertWeightFlag (r : Rank L G E K W) : Bool :=
  decide (cfg.expertHeatCollectionInterval + cfg.algorithmExecutionInterval ≤ r.curIterations ∧
    r.curIterations < cfg.expertHeatCollectionInterval + cfg.algorithmExecutionInterval + L)

def updateIteration (r : Rank L G E K W) : Rank L G E K W :=
  if r.curIterations + 1 =
      cfg.expertHeatCollectionInterval + cfg.algorithmExecutionInterval + L then
    { r with curIterations := 0 }
  else { r with curIterations := r.curIterations + 1 }

def takeUpdateInfo (r : Rank L G E K W) : Except PyError (Rank L G E K W) :=
  if r.getUpdateInfoFlag cfg then
    match r.blockUpdateQ with
    | none => .error (.runtimeError "block_update_q.get() never returns")
    | some infos => .ok { r with updateInfoAll := infos, blockUpdateQ := none }
  else .ok r

def forwardBefore (r : Rank L G E K W) : Except PyError (Rank L G E K W × List (P2POp L G K)) := do
  let r ← r.takeUpdateInfo cfg
  if r.updateExpertWeightFlag cfg then
    match r.updateInfoAll with
    | [] => .error .indexError
    | info :: infos => do
      let r ← (({ r with updateInfoAll := infos }).setLog2phyMap
        info.log2phyMap).generateExpertD2dTransferTask info
      .ok r.asynExpertWeightTransfer
  else .ok (r, [])

/-- `wakeup_eplb_worker`.  The planning process works through `do_update` while the forward passes
go on; nothing but `block_update_q.get()` reads its result, so its work is done at once here. -/
def wakeupEplbWorker (id : Fin G) (proposal : Fin L → Fin G → Fin K → Fin E)
    (r : Rank L G E K W) : Except PyError (Rank L G E K W) := do
  let (newExpertMaps, infos) ← doUpdate id r.oldExpertMaps proposal
  .ok { r with oldExpertMaps := newExpertMaps, blockUpdateQ := some infos }

def forwardEnd (id : Fin G) (proposal : Fin L → Fin G → Fin K → Fin E) (completed : Bool)
    (r : Rank L G E K W) : Except PyError (Rank L G E K W) := do
  let r ← if r.wakeupEplbWorkerFlag cfg then r.wakeupEplbWorker id proposal else .ok r
  let r ← if r.updateExpertWeightFlag cfg && cfg.expertMapRecordPath.isNone then
      r.updateExpertMapAndWeight completed
    else .ok r
  .ok (r.updateIteration cfg)

end Rank

/-! ## All ranks -/

abbrev World (L G E K : Nat) (W : Type) := Fin G → Rank L G E K W

def forRanks {α : Type} (f : Fin G → Except PyError α) : Except PyError (Fin G → α) := do
  let results ← (List.finRange G).mapM f
  if h : results.length = G then .ok fun g => results.get (g.cast h.symm)
  else .error .indexError

variable (ops : List (P2POp L G K))

def sendsOf : List (Fin G × (Fin L × Fin K)) :=
  ops.filterMap fun
    | .isend layer slot dst => some (dst, (layer, slot))
    | .irecv .. => none

def recvsOf : List (Fin G × Nat) :=
  ops.filterMap fun
    | .isend .. => none
    | .irecv buffer src => some (src, buffer)

variable (posted : Fin G → List (P2POp L G K))

def channel (s d : Fin G) : List (Nat × (Fin L × Fin K)) :=
  (withParty (recvsOf (posted d)) s).zip (withParty (sendsOf (posted s)) d)

def completes (d : Fin G) : Bool :=
  decide (∀ s, (withParty (recvsOf (posted d)) s).length =
    (withParty (sendsOf (posted s)) d).length ∧
    (withParty (recvsOf (posted s)) d).length = (withParty (sendsOf (posted d)) s).length)

def transferBuffers (w : World L G E K W) (posted : Fin G → List (P2POp L G K)) (d : Fin G) :
    Nat → W := fun buffer =>
  match ((List.finRange G).flatMap fun s => (channel posted s d).map fun x => (s, x)).find?
      (fun x => x.2.1 == buffer) with
  | some (s, _, layer, slot) => (w s).expertParamPerLayer layer slot
  | none => (w d).bufferTensorList buffer

variable (cfg : EplbConfig) (proposal : Fin L → Fin G → Fin K → Fin E) (w : World L G E K W)

def iteration : Except PyError (World L G E K W) := do
  let before ← forRanks fun g => (w g).forwardBefore cfg
  let posted := fun g => (before g).2
  let sent : World L G E K W := fun g => (before g).1
  forRanks fun g => ({ sent g with bufferTensorList := transferBuffers sent posted g }).forwardEnd
    cfg g proposal (completes posted g)

def iterations (cfg : EplbConfig) (proposal : Fin L → Fin G → Fin K → Fin E) :
    Nat → World L G E K W → Except PyError (World L G E K W)
  | 0, w => .ok w
  | n + 1, w => do iterations cfg proposal n (← iteration cfg proposal w)

def round : Except PyError (World L G E K W) :=
  iterations cfg proposal
    (cfg.expertHeatCollectionInterval + cfg.algorithmExecutionInterval + L) w

end Eplb

end VllmEcho
