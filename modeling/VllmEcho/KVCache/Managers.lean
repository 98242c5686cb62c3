import VllmEcho.KVCache.BlockPool

/-!
# Single-type KV cache managers

One manager per KV cache group.  `SingleTypeKVCacheManager` carries the state of the base class and
of `MambaManager`; the methods branch on the attention type where the classes override each other.
A method that also changes the shared block pool takes the pool and returns it.
-/

namespace VllmEcho

open Lib

inductive MambaCacheMode
  | none
  | all
  | align
  deriving DecidableEq, Repr

inductive AttentionKind
  | full
  | mla
  | slidingWindow (slidingWindow : Nat)
  | chunkedLocal (attentionChunkSize : Nat)
  | mamba (mambaCacheMode : MambaCacheMode) (numSpeculativeBlocks : Nat)
  deriving DecidableEq, Repr

def AttentionKind.wellFormed : AttentionKind → Bool
  | .slidingWindow w => decide (0 < w)
  | .chunkedLocal c => decide (0 < c)
  | _ => true

theorem AttentionKind.full_wellFormed : AttentionKind.full.wellFormed = true := rfl

/-- `KVCacheSpec`; `layout` stands for the shape and dtype fields, which matter only when two
specs are compared.  `blockSize` is the manager's block size, context parallelism included. -/
structure KVCacheSpec where
  blockSize : Nat
  kind : AttentionKind
  layout : Nat
  blockSize_pos : 0 < blockSize := by decide
  kind_wf : kind.wellFormed = true := by rfl
  deriving DecidableEq, Repr

variable (spec : KVCacheSpec)

namespace KVCacheSpec

def isFullAttention : Bool :=
  match spec.kind with
  | .full | .mla => true
  | _ => false

def alignSpeculativeBlocks : Option Nat :=
  match spec.kind with
  | .mamba .align n => some n
  | _ => none

/-- `get_num_skipped_tokens`.  The mamba value is `-1` for no computed token in the source; every
use of it rounds that up to zero. -/
def getNumSkippedTokens (numComputedTokens : Nat) : Nat :=
  match spec.kind with
  | .full | .mla => 0
  | .slidingWindow w => numComputedTokens + 1 - w
  | .chunkedLocal c => numComputedTokens / c * c
  | .mamba _ _ => numComputedTokens - 1

end KVCacheSpec

structure SingleTypeKVCacheManager where
  kvCacheSpec : KVCacheSpec
  kvCacheGroupId : Nat
  newBlockIds : List BlockRef
  reqToBlocks : Dict ReqId (List BlockRef)
  numCachedBlock : Dict ReqId Nat
  -- `MambaManager` only
  cachedBlocksThisStep : List BlockHashWithGroupId
  lastStateBlockIdx : Dict ReqId Nat
  allocatedBlockReqs : List ReqId

variable (m : SingleTypeKVCacheManager) (requestId : ReqId) (blocks : List BlockRef)

namespace SingleTypeKVCacheManager

def init (groupId : Nat) : SingleTypeKVCacheManager :=
  ⟨spec, groupId, [], .empty, .empty, [], .empty, []⟩

def blockSize (m : SingleTypeKVCacheManager) : Nat := m.kvCacheSpec.blockSize

def blocksOf : List BlockRef :=
  (m.reqToBlocks.get? requestId).getD []

def numCached : Nat :=
  (m.numCachedBlock.get? requestId).getD 0

/-- `self.req_to_blocks[request_id]` on a default dictionary leaves an entry behind. -/
def openBlocks : SingleTypeKVCacheManager :=
  { m with reqToBlocks := m.reqToBlocks.set requestId (m.blocksOf requestId) }

def setBlocks : SingleTypeKVCacheManager :=
  { m with reqToBlocks := m.reqToBlocks.set requestId blocks }

def setNumCached (n : Nat) : SingleTypeKVCacheManager :=
  { m with numCachedBlock := m.numCachedBlock.set requestId n }

def recordNewBlocks : SingleTypeKVCacheManager :=
  if m.kvCacheSpec.kind = .full then { m with newBlockIds := m.newBlockIds ++ blocks } else m

variable (p : BlockPool) (m : SingleTypeKVCacheManager) (requestId : ReqId)

def getNumEvictableBlocks (blocks : List BlockRef) : Nat :=
  blocks.countP fun b => decide ((p.blocks b).refCnt = 0) && !(p.blocks b).isNull

/-! ## How many blocks a call needs -/

variable (numTokens : Nat) (newComputedBlocks : List BlockRef) (totalComputedTokens : Nat)

def getNumBlocksToAllocateBase : Except PyError Int :=
  let numRequiredBlocks := cdiv numTokens m.blockSize
  let numReqBlocks := (m.blocksOf requestId).length
  if m.numCachedBlock.contains requestId then do
    assertThat (decide (newComputedBlocks.length = 0)) "len(new_computed_blocks) == 0"
    pure ((numRequiredBlocks - numReqBlocks : Nat) : Int)
  else
    let numSkippedTokens := m.kvCacheSpec.getNumSkippedTokens totalComputedTokens
    let numLocalComputedBlocks := newComputedBlocks.length + numReqBlocks
    let numSkippedBlocks := numSkippedTokens / m.blockSize
    let numNewBlocks := numRequiredBlocks - max numSkippedBlocks numLocalComputedBlocks
    let numSkippedNewComputedBlocks := numSkippedBlocks - numReqBlocks
    let numEvictableBlocks :=
      getNumEvictableBlocks p (newComputedBlocks.drop numSkippedNewComputedBlocks)
    pure ((numNewBlocks + numEvictableBlocks : Nat) : Int)

variable (numTokensMainModel : Nat)

/-- `get_num_blocks_to_allocate`, with `MambaManager`'s override.  The entry that align mode leaves
in its default dictionary is not recorded: no mamba method looks at the number of entries. -/
def getNumBlocksToAllocate : Except PyError Int :=
  match m.kvCacheSpec.kind with
  | .mamba mode numSpeculativeBlocks =>
    -- A block another request produces in this step cannot be relied on yet.
    if (newComputedBlocks.getLast?.bind fun b => (p.blocks b).blockHash).elim false
        (fun h => decide (h ∈ m.cachedBlocksThisStep)) then
      .ok (p.numGpuBlocks + 1)
    else if mode ≠ .align then
      getNumBlocksToAllocateBase p m requestId
        (numTokens + m.blockSize * numSpeculativeBlocks) newComputedBlocks totalComputedTokens
    else
      let numRequiredBlocks : Int := cdiv numTokensMainModel m.blockSize + numSpeculativeBlocks
      let numNewBlocks : Int :=
        numRequiredBlocks - newComputedBlocks.length - (m.blocksOf requestId).length
      let numNewBlocks : Int :=
        if numNewBlocks > 0 then
          if requestId ∈ m.allocatedBlockReqs then 1 else 1 + numSpeculativeBlocks
        else numNewBlocks
      .ok (numNewBlocks + getNumEvictableBlocks p newComputedBlocks)
  | _ => getNumBlocksToAllocateBase p m requestId numTokens newComputedBlocks totalComputedTokens

/-! ## Allocation -/

def touchComputedBlocks : Except PyError BlockPool :=
  if p.enableCaching then p.touch newComputedBlocks
  else do
    assertThat newComputedBlocks.isEmpty
      "Computed blocks should be empty when prefix caching is disabled"
    pure p

def allocateExternalBlocks (numTotalComputedTokens numExternalComputedTokens : Nat) :
    Except PyError (BlockPool × SingleTypeKVCacheManager) :=
  if 0 < numExternalComputedTokens then do
    let reqBlocks := m.blocksOf requestId
    let r ← p.getNewBlocks ((cdiv numTotalComputedTokens m.blockSize : Int) - reqBlocks.length)
    pure (r.1, (m.setBlocks requestId (reqBlocks ++ r.2)).recordNewBlocks r.2)
  else .ok (p, m)

def allocateNewComputedBlocks (numLocalComputedTokens numExternalComputedTokens : Nat) :
    Except PyError (BlockPool × SingleTypeKVCacheManager) :=
  if m.numCachedBlock.contains requestId then do
    assertThat (decide (newComputedBlocks.length = 0)) "len(new_computed_blocks) == 0"
    pure (p, m)
  else do
    assertThat (decide ((m.blocksOf requestId).length = 0)) "len(req_blocks) == 0"
    let numTotalComputedTokens := numLocalComputedTokens + numExternalComputedTokens
    let numSkippedTokens := m.kvCacheSpec.getNumSkippedTokens numTotalComputedTokens
    let numSkippedBlocks := numSkippedTokens / m.blockSize
    let newComputedBlocks := newComputedBlocks.drop numSkippedBlocks
    let numExternalComputedTokens :=
      if 0 < numSkippedBlocks then
        min (numTotalComputedTokens - numSkippedTokens) numExternalComputedTokens
      else numExternalComputedTokens
    let p ← touchComputedBlocks p newComputedBlocks
    let reqBlocks := List.replicate numSkippedBlocks p.nullBlock ++ newComputedBlocks
    let m := (m.setBlocks requestId reqBlocks).setNumCached requestId reqBlocks.length
    allocateExternalBlocks p m requestId numTotalComputedTokens numExternalComputedTokens

def allocateNewBlocksBase : Except PyError (BlockPool × SingleTypeKVCacheManager × List BlockRef) :=
  let reqBlocks := m.blocksOf requestId
  let numRequiredBlocks := cdiv numTokens m.blockSize
  if numRequiredBlocks ≤ reqBlocks.length then .ok (p, m.openBlocks requestId, [])
  else do
    let r ← p.getNewBlocks ((numRequiredBlocks : Int) - reqBlocks.length)
    pure (r.1, (m.setBlocks requestId (reqBlocks ++ r.2)).recordNewBlocks r.2, r.2)

/-- The loop that moves the previous speculative blocks behind the skipped ones: `fuel` block
indices from `blockIdx` on. -/
def reuseLoop (nullBlock : BlockRef) (numSkippedBlocks : Nat) :
    Nat → Nat → List BlockRef → List BlockRef
  | 0, _, blocks => blocks
  | fuel + 1, blockIdx, blocks =>
    if blockIdx < numSkippedBlocks then
      reuseLoop nullBlock numSkippedBlocks fuel (blockIdx + 1)
        ((blocks ++ [blocks.getD blockIdx nullBlock]).set blockIdx nullBlock)
    else blocks

/-- The table in align mode before new blocks are appended: null blocks for the skipped ones, and
the previous speculative blocks behind them. -/
def alignedTable (nullBlock : BlockRef) (blocksAllocated : Bool)
    (numSkippedBlocks numSpeculativeBlocks : Nat) (reqBlocks : List BlockRef) : List BlockRef :=
  let prevBlockLen := reqBlocks.length
  let padded := reqBlocks ++ List.replicate (numSkippedBlocks - prevBlockLen) nullBlock
  if blocksAllocated then
    reuseLoop nullBlock numSkippedBlocks numSpeculativeBlocks
      (prevBlockLen - numSpeculativeBlocks) padded
  else padded

def allocateNewBlocksAlign (numSpeculativeBlocks : Nat) :
    Except PyError (BlockPool × SingleTypeKVCacheManager × List BlockRef) :=
  let prevBlockLen := (m.blocksOf requestId).length
  let numRequiredBlocks := cdiv numTokens m.blockSize + numSpeculativeBlocks
  if numRequiredBlocks = prevBlockLen then .ok (p, m.openBlocks requestId, [])
  else do
    assertThat (decide (prevBlockLen < numRequiredBlocks))
      s!"num_required_blocks {numRequiredBlocks} < len(req_blocks) {prevBlockLen}"
    let blocksAllocated := decide (requestId ∈ m.allocatedBlockReqs)
    let lastStateBlockIdx :=
      if blocksAllocated then
        m.lastStateBlockIdx.set requestId (prevBlockLen - 1 - numSpeculativeBlocks)
      else if 0 < prevBlockLen then m.lastStateBlockIdx.set requestId (prevBlockLen - 1)
      else m.lastStateBlockIdx
    let numSkippedBlocks := numRequiredBlocks - numSpeculativeBlocks - 1
    let reqBlocks := alignedTable p.nullBlock blocksAllocated numSkippedBlocks
      numSpeculativeBlocks (m.blocksOf requestId)
    let numNewBlocks : Int := numRequiredBlocks - reqBlocks.length
    assertThat (decide (numNewBlocks ≤ if blocksAllocated then 1 else numSpeculativeBlocks + 1))
      (if blocksAllocated then "num_new_blocks <= 1"
        else "num_new_blocks <= self.num_speculative_blocks + 1")
    let r ← p.getNewBlocks numNewBlocks
    pure (r.1,
      { m.setBlocks requestId (reqBlocks ++ r.2) with
        lastStateBlockIdx := lastStateBlockIdx
        allocatedBlockReqs :=
          if requestId ∈ m.allocatedBlockReqs then m.allocatedBlockReqs
          else m.allocatedBlockReqs ++ [requestId] },
      (reqBlocks ++ r.2).drop prevBlockLen)

def allocateNewBlocks : Except PyError (BlockPool × SingleTypeKVCacheManager × List BlockRef) :=
  match m.kvCacheSpec.kind with
  | .mamba mode numSpeculativeBlocks =>
    if mode ≠ .align then
      allocateNewBlocksBase p m requestId (numTokens + m.blockSize * numSpeculativeBlocks)
    else allocateNewBlocksAlign p m requestId numTokensMainModel numSpeculativeBlocks
  | _ => allocateNewBlocksBase p m requestId numTokens

/-! ## Caching, freeing and skipping -/

variable (request : RequestView)

def cacheBlocksBase (numTokens : Nat) : Except PyError (BlockPool × SingleTypeKVCacheManager) :=
  let numCachedBlocks := m.numCached request.requestId
  let numFullBlocks := numTokens / m.blockSize
  if numFullBlocks ≤ numCachedBlocks then .ok (p, m)
  else do
    let p ← p.cacheFullBlocks request (m.blocksOf request.requestId) numCachedBlocks numFullBlocks
      m.blockSize m.kvCacheGroupId
    pure (p, (m.openBlocks request.requestId).setNumCached request.requestId numFullBlocks)

def newlyCachedHashes (p : BlockPool) : List BlockRef → Except PyError (List BlockHashWithGroupId)
  | [] => .ok []
  | b :: bs =>
    if (p.blocks b).isNull then newlyCachedHashes p bs
    else
      match (p.blocks b).blockHash with
      | none => .error (.assertionError "block.block_hash is not None")
      | some h => (newlyCachedHashes p bs).map (h :: ·)

def cacheBlocks (numTokens : Nat) : Except PyError (BlockPool × SingleTypeKVCacheManager) :=
  match m.kvCacheSpec.kind with
  | .mamba _ _ => do
    let before := m.numCached request.requestId
    let (p, m) ← cacheBlocksBase p m request numTokens
    let after := m.numCached request.requestId
    if before < after then do
      let hashes ← newlyCachedHashes p (((m.blocksOf request.requestId).take after).drop before)
      pure (p, { m with cachedBlocksThisStep := m.cachedBlocksThisStep ++ hashes })
    else pure (p, m)
  | _ => cacheBlocksBase p m request numTokens

def free : Except PyError (BlockPool × SingleTypeKVCacheManager) := do
  let m :=
    if m.kvCacheSpec.alignSpeculativeBlocks.isSome then
      { m with
        allocatedBlockReqs := m.allocatedBlockReqs.filter (· ≠ requestId)
        lastStateBlockIdx := m.lastStateBlockIdx.erase requestId }
    else m
  let p ← p.freeBlocks (m.blocksOf requestId).reverse
  pure (p,
    { m with
      reqToBlocks := m.reqToBlocks.erase requestId
      numCachedBlock := m.numCachedBlock.erase requestId })

/-- The loop of `remove_skipped_blocks` from index `i - 1` down to the first null block: the
removed blocks in order, and the table. -/
def skipLoop (nullBlock : BlockRef) : Nat → List BlockRef → List BlockRef × List BlockRef
  | 0, blocks => ([], blocks)
  | i + 1, blocks =>
    let b := blocks.getD i nullBlock
    if b = nullBlock then ([], blocks)
    else
      let r := skipLoop nullBlock i (blocks.set i nullBlock)
      (b :: r.1, r.2)

def removeSkippedBlocksBase : Except PyError (BlockPool × SingleTypeKVCacheManager) :=
  let numSkippedTokens := m.kvCacheSpec.getNumSkippedTokens totalComputedTokens
  if numSkippedTokens = 0 then .ok (p, m)
  else do
    let blocks := m.blocksOf requestId
    let numSkippedBlocks := min (numSkippedTokens / m.blockSize) blocks.length
    let r := skipLoop p.nullBlock numSkippedBlocks blocks
    let p ← p.freeBlocks r.1
    pure (p, m.setBlocks requestId r.2)

/-- The align-mode part of `MambaManager.remove_skipped_blocks`: the block allocated two steps ago
is no longer needed. -/
def freeLastState (numComputedTokens : Nat) :
    Except PyError (BlockPool × SingleTypeKVCacheManager) :=
  match m.lastStateBlockIdx.get? requestId with
  | none => .ok (p, m)
  | some idx =>
    if idx < cdiv numComputedTokens m.blockSize - 1 then
      match (m.blocksOf requestId)[idx]? with
      | none => .error .indexError
      | some b =>
        if b = p.nullBlock then .ok (p, m.openBlocks requestId)
        else do
          let p' ← p.freeBlocks [b]
          pure (p', m.setBlocks requestId ((m.blocksOf requestId).set idx p.nullBlock))
    else .ok (p, m)

def removeSkippedBlocks : Except PyError (BlockPool × SingleTypeKVCacheManager) :=
  match m.kvCacheSpec.kind with
  | .mamba mode numSpeculativeBlocks => do
    let r ← removeSkippedBlocksBase p m requestId (totalComputedTokens - numSpeculativeBlocks)
    if mode = .align then
      freeLastState r.1 r.2 requestId (totalComputedTokens - numSpeculativeBlocks)
    else pure r
  | _ => removeSkippedBlocksBase p m requestId totalComputedTokens

def newStepStarts : SingleTypeKVCacheManager :=
  { m with cachedBlocksThisStep := [] }

end SingleTypeKVCacheManager

end VllmEcho
