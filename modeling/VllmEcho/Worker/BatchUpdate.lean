import VllmEcho.Lib.RowMoves
import VllmEcho.Worker.InputBatch

/-!
# The update that a step of the batch reports

The row numbers of `InputBatch` and its `BatchUpdateBuilder`: which rows were left empty, which
requests were added, and which rows were moved by `condense` or swapped.  `refresh_metadata` hands
this update to the logits processors.  What the rows hold is left out here.
-/

namespace VllmEcho

open Lib

structure LogitsParams where
  minP : ℚ
  logitBias : Option (List (TokenId × ℚ))
  minTokens : Nat
  allStopTokenIds : List TokenId
  thinkingTokenBudget : Option Int
  deriving DecidableEq

/-- A request as it is added.  The processors get a reference to its running list of output tokens;
the list is found under the request's id. -/
structure NewRequest where
  reqId : ReqId
  params : LogitsParams
  promptTokenIds : Option (List TokenId)
  deriving DecidableEq

structure BatchUpdate where
  batchSize : Nat
  removed : List Nat
  added : List (Nat × NewRequest)
  moved : List Move
  deriving DecidableEq

structure BatchUpdateBuilder extends RemovedRows where
  added : List (Nat × NewRequest)
  moved : List Move

namespace BatchUpdateBuilder

variable (b : BatchUpdateBuilder)

def setRemoved (u : RemovedRows) : BatchUpdateBuilder := { b with toRemovedRows := u }

def getAndReset (batchSize : Nat) : Option BatchUpdate × BatchUpdateBuilder :=
  if b.removed.isEmpty && b.moved.isEmpty && b.added.isEmpty then
    (none, { b with isRemovedSorted := false })
  else (some ⟨batchSize, b.removed, b.added, b.moved⟩, ⟨⟨[], false⟩, [], []⟩)

end BatchUpdateBuilder

structure RowBatch where
  maxNumReqs : Nat
  reqIds : List (Option ReqId)
  reqIdToIndex : Dict ReqId Nat
  builder : BatchUpdateBuilder

namespace RowBatch

variable (b : RowBatch)

def numReqs : Nat := b.reqIdToIndex.entries.length

def init (maxNumReqs : Nat) : RowBatch := ⟨maxNumReqs, [], Dict.empty, ⟨⟨[], false⟩, [], []⟩⟩

def registerAddRequest (request : NewRequest) : Except PyError (Nat × BatchUpdateBuilder) :=
  let newReqIndex := b.builder.popRemoved.1.getD b.numReqs
  if newReqIndex < b.maxNumReqs then
    .ok (newReqIndex, { b.builder.setRemoved b.builder.popRemoved.2 with
      added := b.builder.added ++ [(newReqIndex, request)] })
  else .error (.assertionError "")

def addRequest (request : NewRequest) : Except PyError RowBatch := do
  let (reqIndex, builder) ← b.registerAddRequest request
  return { b with
    reqIds :=
      if reqIndex = b.reqIds.length then b.reqIds ++ [some request.reqId]
      else b.reqIds.set reqIndex (some request.reqId)
    reqIdToIndex := b.reqIdToIndex.set request.reqId reqIndex
    builder := builder }

def removeRequest (reqId : ReqId) : Except PyError RowBatch :=
  match b.reqIdToIndex.get? reqId with
  | none => .ok b
  | some reqIndex => do
    let removed ← b.builder.removedAppend reqIndex
    return { b with
      reqIds := b.reqIds.set reqIndex none
      reqIdToIndex := b.reqIdToIndex.erase reqId
      builder := b.builder.setRemoved removed }

def moveLast (last empty : Nat) : Except PyError RowBatch :=
  match b.reqIds.getD last none with
  | none => .error (.assertionError "")
  | some reqId =>
    .ok { b with
      reqIds := (b.reqIds.set empty (some reqId)).set last none
      reqIdToIndex := b.reqIdToIndex.set reqId empty
      builder := { b.builder with
        moved := b.builder.moved ++ [⟨last, empty, .unidirectional⟩] } }

def condenseLoop : Nat → RowBatch → Nat → Except PyError RowBatch
  | 0, b, _ => .ok b
  | fuel + 1, b, lastReqIndex =>
    match b.builder.removed.getLast? with
    | none => .ok b
    | some emptyIndex =>
      if InputBatch.skipRemoved b.builder.removed lastReqIndex ≤ emptyIndex then .ok b
      else do
        let b' ← { b with
          builder := { b.builder with removed := b.builder.removed.dropLast } }.moveLast
            (InputBatch.skipRemoved b.builder.removed lastReqIndex) emptyIndex
        condenseLoop fuel b' (InputBatch.skipRemoved b.builder.removed lastReqIndex - 1)

def condenseSorted : Except PyError RowBatch :=
  if b.builder.removed.isEmpty then .ok b
  else if b.numReqs = 0 then .ok { b with reqIds := [] }
  else do
    let b' ← condenseLoop b.builder.removed.length b (b.numReqs + b.builder.removed.length - 1)
    return { b' with reqIds := b'.reqIds.take b.numReqs }

def condense : Except PyError RowBatch :=
  { b with builder := b.builder.setRemoved b.builder.ensureRemovedSorted }.condenseSorted

def swapStates (i1 i2 : Nat) : Except PyError RowBatch :=
  match b.reqIds[i1]?, b.reqIds[i2]? with
  | some (some id1), some (some id2) =>
    .ok { b with
      reqIds := (b.reqIds.set i1 (some id2)).set i2 (some id1)
      reqIdToIndex := (b.reqIdToIndex.set id1 ((b.reqIdToIndex.get? id2).getD i2)).set id2
        ((b.reqIdToIndex.get? id1).getD i1)
      builder := { b.builder with moved := b.builder.moved ++ [⟨i1, i2, .swap⟩] } }
  | some _, some _ => .error (.assertionError "")
  | _, _ => .error .indexError

def updateStates (removals : List ReqId) (additions : List NewRequest) (swaps : List (Nat × Nat)) :
    Except PyError RowBatch := do
  let b ← removals.foldlM removeRequest b
  let b ← additions.foldlM addRequest b
  let b ← b.condense
  swaps.foldlM (fun b s => b.swapStates s.1 s.2) b

def refreshMetadata : Option BatchUpdate × RowBatch :=
  ((b.builder.getAndReset b.numReqs).1,
    { b with builder := (b.builder.getAndReset b.numReqs).2 })

end RowBatch

end VllmEcho
