import VllmEcho.KVCache.Basic

/-!
# The planning process of expert load balancing

`EplbWorker` keeps the expert maps of the last plan, checks the placement a policy proposes,
and packs for every layer what each rank has to send and to receive.

A tensor of expert maps has one entry per layer, rank and logical expert: the local slot of the
expert, or `-1`, written `none`.  Placements have one entry per layer, rank and slot.  All ranks run
the same planning process on the same gathered loads.
-/

namespace VllmEcho

open List

namespace Eplb

variable {L G E K : Nat}

abbrev LayerMap (G E K : Nat) := Fin G → Fin E → Option (Fin K)

abbrev ExpertMaps (L G E K : Nat) := Fin L → LayerMap G E K

abbrev LayerPlacement (G E K : Nat) := Fin G → Fin K → Option (Fin E)

variable (map : LayerMap G E K)

def global2local : LayerPlacement G E K := fun g slot =>
  (finRange E).find? fun e => map g e == some slot

variable (placement : LayerPlacement G E K)

/-- `local2global` for one layer.  The source takes the number of experts from the largest expert
id; a placement that passed the check places every expert, so that number is `E`. -/
def local2global : LayerMap G E K := fun g e =>
  (finRange K).find? fun slot => placement g slot == some e

/-! ## The check -/

def uniqueCount : Nat :=
  (Finset.univ.image fun x : Fin G × Fin K => placement x.1 x.2).card

variable (new : Fin K → Option (Fin E))

def replicated : Bool :=
  (Finset.univ.image new).card != K

/-- An expert that was on the rank is to move to another slot: `new[isin]` and `old[isin]`
differ. -/
def movedInside (old : Fin K → Option (Fin E)) : Bool :=
  decide (∃ slot, (∃ slot', old slot' = new slot) ∧ new slot ≠ old slot)

def checkExpertPlacement (old new : LayerPlacement G E K) : LayerPlacement G E K :=
  if uniqueCount new < uniqueCount old then old
  else if ∃ g, replicated (new g) = true ∨ movedInside (new g) (old g) = true then old
  else new

/-! ## Transfers -/

structure Transfers (G E : Nat) where
  send : Fin G → List (Fin G × Fin E)
  recv : Fin G → List (Fin G × Fin E)

def wherePairs (cond : Fin G → Fin E → Bool) : List (Fin G × Fin E) :=
  (finRange G).flatMap fun g => ((finRange E).filter (cond g)).map fun e => (g, e)

variable (updated current : LayerMap G E K)

def toReceive : List (Fin G × Fin E) :=
  wherePairs fun g e => (current g e).isNone && (updated g e).isSome

def toSend : List (Fin G × Fin E) :=
  wherePairs fun g e => (current g e).isSome && (updated g e).isNone

def sourceRank (e : Fin E) : Option (Fin G) :=
  if e ∈ (toSend updated current).map Prod.snd then
    (((toSend updated current).filter fun x => x.2 = e).map Prod.fst).head?
  else ((finRange G).filter fun g => (current g e).isSome).head?

def Transfers.add (t : Transfers G E) (src dst : Fin G) (e : Fin E) : Transfers G E where
  send := Function.update t.send src (t.send src ++ [(dst, e)])
  recv := Function.update t.recv dst (t.recv dst ++ [(src, e)])

def composeLayer : Except PyError (Transfers G E) :=
  (toReceive updated current).foldlM
    (fun t x => match sourceRank updated current x.2 with
      | none => .error .indexError
      | some src => .ok (t.add src x.1 x.2))
    ⟨fun _ => [], fun _ => []⟩

structure LayerUpdate (L G E K : Nat) where
  transfers : Transfers G E
  map : LayerMap G E K
  layerId : Fin L

/-- `compose_expert_update_info_greedy`.  The guard clause for a layer without changes yields and
then falls through to the general case, which yields again. -/
def composeExpertUpdateInfoGreedy (updated current : ExpertMaps L G E K) :
    Except PyError (List (LayerUpdate L G E K)) := do
  let perLayer ← (finRange L).mapM fun l => do
    let early : List (LayerUpdate L G E K) :=
      if updated l = current l then [⟨⟨fun _ => [], fun _ => []⟩, updated l, l⟩] else []
    let transfers ← composeLayer (updated l) (current l)
    .ok (early ++ [⟨transfers, updated l, l⟩])
  .ok perLayer.flatten

/-! ## Packing for one rank -/

def physicalIds (e : Fin E) : List Nat :=
  let validCount := match (finRange G).head? with
    | none => 0
    | some g => ((finRange E).filter fun e => (map g e).isSome).length
  (finRange G).filterMap fun g => (map g e).map fun slot => slot.val + g.val * validCount

/-- `generate_log2phy_map`: each rank uses one of the copies.  An expert without a copy has no entry
in the source's dictionary; maps of a checked placement have none. -/
def generateLog2phyMap (epRank : Fin G) : Fin E → Nat := fun e =>
  ((physicalIds map e)[epRank.val % (physicalIds map e).length]?).getD 0

structure UpdateInfo (L G E K : Nat) where
  sendInfo : List (Fin G × Fin E)
  recvInfo : List (Fin G × Fin E)
  expertMap : Fin E → Option (Fin K)
  log2phyMap : Fin E → Nat
  layerId : Fin L

variable (rank : Fin G)

def packLayer (u : LayerUpdate L G E K) : UpdateInfo L G E K where
  sendInfo := u.transfers.send rank
  recvInfo := u.transfers.recv rank
  expertMap := u.map rank
  log2phyMap := generateLog2phyMap u.map rank
  layerId := u.layerId

def packUpdateInfo (updates : List (LayerUpdate L G E K)) : List (UpdateInfo L G E K) :=
  updates.map (packLayer rank)

variable (oldExpertMaps : ExpertMaps L G E K) (proposal : Fin L → Fin G → Fin K → Fin E)

def plannedMaps : ExpertMaps L G E K := fun l =>
  local2global (checkExpertPlacement (global2local (oldExpertMaps l))
    fun g slot => some (proposal l g slot))

def doUpdate : Except PyError (ExpertMaps L G E K × List (UpdateInfo L G E K)) := do
  let newExpertMaps := plannedMaps oldExpertMaps proposal
  let updates ← composeExpertUpdateInfoGreedy newExpertMaps oldExpertMaps
  .ok (newExpertMaps, packUpdateInfo rank updates)

end Eplb

end VllmEcho
