import VllmEcho.KVCache.Basic
import VllmEcho.Lib.Argsort
import VllmEcho.Lib.FlatArrays
import VllmEcho.Lib.Float32

/-!
# Splitting a batch over the ranks of prefill context parallelism

`PCPManager.update_tokens_for_pcp` pads every prefill request to a multiple of twice the number of
ranks, cuts it into chunks and gives every rank one chunk from the front and one from the back.
Decode requests, which come first in the batch, are processed by all ranks alike.  The function
also builds the index list that restores the order after the outputs of the ranks were gathered,
and the mask of the entries that are no padding.

This is the path of models without hybrid attention.
-/

namespace VllmEcho

variable (pcpWorldSize pcpWorldRank numDecodeReqs : Nat) (numScheduledTokens : List Nat)

namespace PCPManager

open Lib List

/-- `_get_cumsum_and_arange`; `cu_num_tokens[-1]` does not exist for an empty array. -/
def getCumsumAndArange (counts : List Nat) : Except PyError (List Nat × List Nat) :=
  match (cumsumFrom 0 counts).getLast? with
  | none => .error .indexError
  | some total =>
    let offsets := repeatEach (zipWith (· - ·) (cumsumFrom 0 counts) counts) counts
    .ok (cumsumFrom 0 counts, zipWith (· - ·) (range total) offsets)

def maskAssign (xs : List Nat) (mask : List Bool) (values : List Nat) : Except PyError (List Nat) :=
  let values := match values with
    | [v] => replicate (mask.count true) v
    | vs => vs
  match maskFill xs mask values with
  | some r => .ok r
  | none => .error (.valueError "cannot assign input values to the output values")

def currentRankPositions (numDecodeTokens : Nat) (pcpTokens pcpChunkSizes : List Nat)
    (positionsStartLoc : List Nat) (rank : Nat) : Except PyError (List Nat) := do
  let (_, pcpArange) ← getCumsumAndArange pcpTokens
  let (_, pcpChunkArange) ← getCumsumAndArange pcpChunkSizes
  let headChunkMask := zipWith (fun a c => decide (a < c)) pcpArange
    (repeatEach pcpChunkSizes pcpTokens)
  let headStartLoc := zipWith (fun s c => s + rank * c) positionsStartLoc pcpChunkSizes
  let tailStartLoc := zipWith (fun s c => s + (2 * pcpWorldSize - rank - 1) * c)
    positionsStartLoc pcpChunkSizes
  let positions ← maskAssign (replicate headChunkMask.length 0) headChunkMask
    (zipWith (· + ·) pcpChunkArange (repeatEach headStartLoc pcpChunkSizes))
  maskAssign positions (headChunkMask.map (! ·))
    (zipWith (· + ·) (pcpChunkArange.drop numDecodeTokens)
      ((repeatEach tailStartLoc pcpChunkSizes).drop numDecodeTokens))

def overwriteDecodePositions (positions : List Nat) : Except PyError (List Nat) :=
  if 0 < numDecodeReqs then do
    let (_, arange) ← getCumsumAndArange (numScheduledTokens.take numDecodeReqs)
    .ok (arange ++ positions.drop (numScheduledTokens.take numDecodeReqs).sum)
  else .ok positions

structure Split where
  pcpTokens : List Nat
  positions : List Nat
  numPcpPads : List Nat
  pcpUnpadMask : List Bool
  pcpAllgatherRestoreIdx : List Nat
  deriving DecidableEq

def updateTokensForPcp : Except PyError Split := do
  let padded := (numScheduledTokens.take numDecodeReqs).map (· * pcpWorldSize) ++
    (numScheduledTokens.drop numDecodeReqs).map
      fun n => cdiv n (2 * pcpWorldSize) * (2 * pcpWorldSize)
  let numDecodeTokens := (numScheduledTokens.take numDecodeReqs).sum
  let (cuPaddedTokens, pcpPaddedArange) ← getCumsumAndArange padded
  let unpadMask := zipWith (fun a n => decide (a < n)) pcpPaddedArange
    (repeatEach numScheduledTokens padded)
  -- the rows of the decode part, one entry per rank, keep their first column
  let unpadMask := (replicate numDecodeTokens
      (true :: replicate (pcpWorldSize - 1) false)).flatten ++
    unpadMask.drop (numDecodeTokens * pcpWorldSize)
  let pcpTokens := padded.map (· / pcpWorldSize)
  let pcpChunkSizes := pcpTokens.take numDecodeReqs ++
    (pcpTokens.drop numDecodeReqs).map fun t => max (t / 2) 1
  let positions ← currentRankPositions pcpWorldSize numDecodeTokens pcpTokens pcpChunkSizes
    (replicate numScheduledTokens.length 0) pcpWorldRank
  let positions ← overwriteDecodePositions numDecodeReqs numScheduledTokens positions
  -- `np.roll(cu_padded_tokens, 1)` with the first entry cleared
  let paddedPosStartLoc := 0 :: cuPaddedTokens.dropLast
  let allPositions ← (range pcpWorldSize).mapM fun rank =>
    currentRankPositions pcpWorldSize numDecodeTokens pcpTokens pcpChunkSizes paddedPosStartLoc rank
  .ok ⟨pcpTokens, positions, zipWith (· - ·) padded numScheduledTokens, unpadMask,
    argsort allPositions.flatten⟩

def getLogitsIndices (cuNumTokens numPcpPads : List Nat) : List Int :=
  zipWith (fun cu pads : Nat => (cu : Int) * pcpWorldSize - pads - 1) cuNumTokens numPcpPads

/-- What a rank processes: `req_indices = np.repeat(arange, num_scheduled_tokens)` and the positions
select tokens of the requests; a position behind a request's tokens is padding. -/
def localTokens {α : Type} (reqs : List (List α)) (pcpTokens positions : List Nat) :
    List (Option α) :=
  zipWith (fun i p => (reqs[i]?).bind fun tokens => tokens[p]?)
    (repeatEach (range reqs.length) pcpTokens) positions

def restoreHiddenStates {α : Type} (outputs : List (List α)) (restoreIdx : List Nat) :
    Except PyError (List α) :=
  match indexSelect outputs.flatten restoreIdx with
  | some restored => .ok restored
  | none => .error .indexError

/-! ## The index lists of context-parallel attention

`PCPManager.generate_pcp_metadata` records, for the head and the tail chunk of this rank, which
local queries belong to the chunk and which gathered keys they attend to: the keys before the chunk
without a mask, the keys of the chunk itself with a causal mask.  The `*_in_tail` lists select the
same keys out of `kv_tail_proj_idx`, the keys up to the end of the tail chunk. -/

def pyRange (start stop : Nat) : List Nat := range' start (stop - start)

structure PcpLists where
  qHeadIdx : List Nat := []
  qTailIdx : List Nat := []
  kvWithQHeadNomaskIdx : List Nat := []
  kvWithQHeadMaskIdx : List Nat := []
  kvWithQTailNomaskIdx : List Nat := []
  kvWithQTailMaskIdx : List Nat := []
  kvTailProjIdx : List Nat := []
  kvWithQHeadAttnIdxInTail : List Nat := []
  kvWithQTailAttnIdxInTail : List Nat := []
  chunkSeqlens : List Nat := []
  kvWithQHeadNomaskSeqlens : List Nat := []
  kvWithQTailNomaskSeqlens : List Nat := []
  headActualSeqLengthsKv : List Nat := []
  tailActualSeqLengthsKv : List Nat := []
  qReqOffset : Nat := 0
  kvReqOffset : Nat := 0

def PcpLists.addRequest (l : PcpLists) (seqLen : Nat) : PcpLists :=
  let qHeadChunkId := pcpWorldRank
  let qTailChunkId := pcpWorldSize * 2 - 1 - pcpWorldRank
  let q := l.qReqOffset
  let kv := l.kvReqOffset
  let chunkLen := seqLen / 2
  let tailProjOffset := l.kvTailProjIdx.length
  let tailProjLen := chunkLen * (qTailChunkId + 1)
  let headInTail := l.kvWithQHeadAttnIdxInTail ++
    pyRange tailProjOffset (tailProjOffset + chunkLen * (qHeadChunkId + 1))
  let tailInTail := l.kvWithQTailAttnIdxInTail ++
    pyRange tailProjOffset (tailProjOffset + tailProjLen)
  { qHeadIdx := l.qHeadIdx ++ pyRange q (q + chunkLen)
    qTailIdx := l.qTailIdx ++ pyRange (q + chunkLen) (q + chunkLen * 2)
    kvWithQHeadNomaskIdx := l.kvWithQHeadNomaskIdx ++ pyRange kv (kv + chunkLen * qHeadChunkId)
    kvWithQHeadMaskIdx := l.kvWithQHeadMaskIdx ++
      pyRange (kv + chunkLen * qHeadChunkId) (kv + chunkLen * (qHeadChunkId + 1))
    kvWithQTailNomaskIdx := l.kvWithQTailNomaskIdx ++ pyRange kv (kv + chunkLen * qTailChunkId)
    kvWithQTailMaskIdx := l.kvWithQTailMaskIdx ++
      pyRange (kv + chunkLen * qTailChunkId) (kv + chunkLen * (qTailChunkId + 1))
    kvTailProjIdx := l.kvTailProjIdx ++ pyRange kv (kv + tailProjLen)
    kvWithQHeadAttnIdxInTail := headInTail
    kvWithQTailAttnIdxInTail := tailInTail
    chunkSeqlens := l.chunkSeqlens ++ [chunkLen]
    kvWithQHeadNomaskSeqlens := l.kvWithQHeadNomaskSeqlens ++ [chunkLen * qHeadChunkId]
    kvWithQTailNomaskSeqlens := l.kvWithQTailNomaskSeqlens ++ [chunkLen * qTailChunkId]
    headActualSeqLengthsKv := l.headActualSeqLengthsKv ++ [headInTail.length]
    tailActualSeqLengthsKv := l.tailActualSeqLengthsKv ++ [tailInTail.length]
    qReqOffset := q + seqLen
    kvReqOffset := kv + seqLen * pcpWorldSize }

structure PcpMetadata extends PcpLists where
  qFullIdx : List Nat
  attnMaskSeqlens : List Nat
  headAttnNomaskSeqlens : List Nat
  tailAttnNomaskSeqlens : List Nat

/-- The context-parallel part of `generate_pcp_metadata`; `query_lens` holds the local token counts.
Nothing is built for a single rank.  `torch.argsort` is an argument, as it promises no order of
equal keys. -/
def generatePcpMetadata (argsort : List Nat → List Nat) (queryLens : List Nat) :
    Option PcpMetadata :=
  if 1 < pcpWorldSize then
    let l := (queryLens.drop numDecodeReqs).foldl (PcpLists.addRequest pcpWorldSize pcpWorldRank) {}
    some
      { l with
        qFullIdx := argsort ((l.qHeadIdx ++ l.qTailIdx).map toFloat32)
        attnMaskSeqlens := cumsumFrom 0 l.chunkSeqlens
        headAttnNomaskSeqlens := cumsumFrom 0 l.kvWithQHeadNomaskSeqlens
        tailAttnNomaskSeqlens := cumsumFrom 0 l.kvWithQTailNomaskSeqlens }
  else none

/-- The keys that query `j` of sequence `i` attends to: all unmasked ones, and the masked ones up to
its own place. -/
def attendedKeys (nomaskEnds maskEnds nomask mask : List Nat) (i j : Nat) : List Nat :=
  segment nomaskEnds i nomask ++ (segment maskEnds i mask).take (j + 1)

end PCPManager

end VllmEcho
