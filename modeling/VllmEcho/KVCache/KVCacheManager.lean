import VllmEcho.KVCache.CacheHit

/-!
# The coordinator and the KV cache manager

`KVCacheManager` with its coordinator: the managers of all groups over one block pool.  The three
coordinator classes differ only in `find_longest_cache_hit` and in what their constructors check.
-/

namespace VllmEcho

open Lib

@[ext]
structure KVCacheConfig where
  numBlocks : Nat
  maxModelLen : Nat
  hashBlockSize : Nat
  enableCaching : Bool
  useEagle : Bool
  kvCacheGroups : List KVCacheSpec
  maxModelLen_pos : 0 < maxModelLen := by decide

instance : DecidableEq KVCacheConfig := fun _ _ => decidable_of_iff' _ KVCacheConfig.ext_iff

structure AttentionGroup where
  spec : KVCacheSpec
  groupIds : List Nat
  deriving DecidableEq

def addToAttentionGroups (spec : KVCacheSpec) (i : Nat) : List AttentionGroup → List AttentionGroup
  | [] => [⟨spec, [i]⟩]
  | g :: gs =>
    if g.spec = spec then { g with groupIds := g.groupIds ++ [i] } :: gs
    else g :: addToAttentionGroups spec i gs

namespace KVCacheConfig

variable (cfg : KVCacheConfig)

def splitGroups : List AttentionGroup :=
  cfg.kvCacheGroups.zipIdx.foldl (fun gs e => addToAttentionGroups e.1 e.2 gs) []

def attentionGroups : List AttentionGroup :=
  cfg.splitGroups.filter (·.spec.isFullAttention) ++
    cfg.splitGroups.filter (!·.spec.isFullAttention)

def lcmBlockSize : Nat :=
  cfg.splitGroups.foldl (fun n g => n.lcm g.spec.blockSize) 1

def isSimpleHybrid : Bool :=
  match cfg.attentionGroups with
  | [g, _] => g.spec.isFullAttention
  | _ => false

end KVCacheConfig

structure KVCacheManager where
  config : KVCacheConfig
  blockPool : BlockPool
  singleTypeManagers : List SingleTypeKVCacheManager

structure AllocArgs where
  numNewTokens : Nat
  numNewComputedTokens : Nat
  newComputedBlocks : List (List BlockRef)
  numLookaheadTokens : Nat
  numExternalComputedTokens : Nat
  delayCacheBlocks : Bool
  deriving DecidableEq

def forManagers {β : Type} (f : BlockPool → SingleTypeKVCacheManager →
      Except PyError (BlockPool × SingleTypeKVCacheManager × β)) :
    BlockPool → List SingleTypeKVCacheManager →
      Except PyError (BlockPool × List SingleTypeKVCacheManager × List β)
  | p, [] => .ok (p, [], [])
  | p, m :: ms => do
    let (p, m, out) ← f p m
    let (p, ms, outs) ← forManagers f p ms
    pure (p, m :: ms, out :: outs)

def noResult (r : Except PyError (BlockPool × SingleTypeKVCacheManager)) :
    Except PyError (BlockPool × SingleTypeKVCacheManager × Unit) :=
  r.map fun s => (s.1, s.2, ())

variable (cfg : KVCacheConfig)

namespace KVCacheManager

open SingleTypeKVCacheManager

def checkConfig : Except PyError Unit :=
  if cfg.enableCaching then
    match cfg.kvCacheGroups with
    | [spec] =>
      assertThat (decide (cfg.hashBlockSize = spec.blockSize))
        "UnitaryKVCacheCoordinator assumes hash_block_size == block_size"
    | specs => do
      assertThat (specs.all fun s => decide (s.blockSize % cfg.hashBlockSize = 0))
        "block_size must be divisible by hash_block_size"
      assertThat (decide (1 < cfg.attentionGroups.length))
        "HybridKVCacheCoordinator requires at least two attention groups."
  else .ok ()

def init (cfg : KVCacheConfig) : Except PyError KVCacheManager := do
  let pool ← BlockPool.init cfg.numBlocks cfg.enableCaching cfg.hashBlockSize
  checkConfig cfg
  pure ⟨cfg, pool, cfg.kvCacheGroups.zipIdx.map fun e => SingleTypeKVCacheManager.init e.1 e.2⟩

/-! ## Prefix-cache hits -/

def storeHits : List Nat → List (List BlockRef) → List (Option (List BlockRef)) →
    List (Option (List BlockRef))
  | g :: gs, L :: Ls, hits => storeHits gs Ls (hits.set g (some L))
  | _, _, hits => hits

def hybridPass (mgr : KVCacheManager) (blockHashes : List BlockHash) :
    List AttentionGroup → Nat → List (Option (List BlockRef)) →
      Except PyError (Nat × List (Option (List BlockRef)))
  | [], currHitLength, hits => .ok (currHitLength, hits)
  | g :: gs, currHitLength, hits =>
    if g.spec.isFullAttention && ((hits.getD (g.groupIds.headD 0) none).isSome) then
      hybridPass mgr blockHashes gs (currHitLength / g.spec.blockSize * g.spec.blockSize) hits
    else do
      let hitBlocks ← mgr.blockPool.findLongestCacheHit
        (blockHashesAt blockHashes mgr.config.hashBlockSize g.spec.blockSize) currHitLength
        g.groupIds g.spec mgr.config.useEagle mgr.config.lcmBlockSize
      hybridPass mgr blockHashes gs ((hitBlocks.headD []).length * g.spec.blockSize)
        (storeHits g.groupIds hitBlocks hits)

/-- The fixed-point loop; the hit length decreases in every pass that does not end it. -/
def hybridLoop (mgr : KVCacheManager) (blockHashes : List BlockHash) :
    Nat → Nat → List (Option (List BlockRef)) → Except PyError (Nat × List (Option (List BlockRef)))
  | 0, hitLength, hits => .ok (hitLength, hits)
  | fuel + 1, hitLength, hits => do
    let (currHitLength, hits) ←
      hybridPass mgr blockHashes mgr.config.attentionGroups hitLength hits
    if hitLength ≤ currHitLength then pure (hitLength, hits)
    else if mgr.config.isSimpleHybrid then pure (currHitLength, hits)
    else hybridLoop mgr blockHashes fuel currHitLength hits

def truncateHits (hitLength : Nat) (hits : List (Option (List BlockRef))) :
    List (Option (List BlockRef)) :=
  match cfg.attentionGroups.head? with
  | some g =>
    if g.spec.isFullAttention then
      hits.mapIdx fun i h =>
        if i ∈ g.groupIds then h.map (·.take (hitLength / g.spec.blockSize)) else h
    else hits
  | none => hits

variable (mgr : KVCacheManager) (request : RequestView) (args : AllocArgs)

def findLongestCacheHit (blockHashes : List BlockHash) (maxCacheHitLength : Nat) :
    Except PyError (List (List BlockRef) × Nat) :=
  let groups := mgr.config.kvCacheGroups
  if mgr.config.enableCaching then
    match groups with
    | [spec] => do
      let hitBlocks ← mgr.blockPool.findLongestCacheHit blockHashes maxCacheHitLength [0] spec
        mgr.config.useEagle spec.blockSize
      pure (hitBlocks, (hitBlocks.headD []).length * spec.blockSize)
    | _ => do
      let (hitLength, hits) ← mgr.hybridLoop blockHashes (maxCacheHitLength + 1)
        maxCacheHitLength (List.replicate groups.length none)
      pure ((truncateHits mgr.config hitLength hits).map (·.getD []), hitLength)
  else .ok (List.replicate groups.length [], 0)

def getComputedBlocks : Except PyError (List (List BlockRef) × Nat) :=
  if !mgr.config.enableCaching || request.skipReadingPrefixCache then
    .ok (List.replicate mgr.config.kvCacheGroups.length [], 0)
  else mgr.findLongestCacheHit request.blockHashes (request.numTokens - 1)

/-! ## Allocation -/

def numBlocksLoop (p : BlockPool) (requestId : ReqId) (numTokens : Nat)
    (newComputedBlocks : List (List BlockRef)) (totalComputedTokens numTokensMainModel : Nat) :
    List SingleTypeKVCacheManager → Except PyError Int
  | [] => .ok 0
  | m :: ms => do
    let n ← m.getNumBlocksToAllocate p requestId numTokens
      (newComputedBlocks.getD m.kvCacheGroupId []) totalComputedTokens numTokensMainModel
    let rest ← numBlocksLoop p requestId numTokens newComputedBlocks totalComputedTokens
      numTokensMainModel ms
    pure (n + rest)

namespace Slots

/-! The quantities `allocate_slots` computes first. -/

def numLocalComputedTokens : Nat :=
  request.numComputedTokens + args.numNewComputedTokens

variable (cfg : KVCacheConfig)

def totalComputedTokens (request : RequestView) (args : AllocArgs) : Nat :=
  min (numLocalComputedTokens request args + args.numExternalComputedTokens) cfg.maxModelLen

def numTokensMainModel (request : RequestView) (args : AllocArgs) : Nat :=
  totalComputedTokens cfg request args + args.numNewTokens

def numTokensNeedSlot (request : RequestView) (args : AllocArgs) : Nat :=
  min (numTokensMainModel cfg request args + args.numLookaheadTokens) cfg.maxModelLen

def numTokensToCache (request : RequestView) (args : AllocArgs) : Nat :=
  min (totalComputedTokens cfg request args + args.numNewTokens) request.numTokens

end Slots

def removeSkippedBlocks (requestId : ReqId) (totalComputedTokens : Nat) :
    Except PyError KVCacheManager := do
  let (p, ms, _) ← forManagers
    (fun p m => noResult (m.removeSkippedBlocks p requestId totalComputedTokens))
    mgr.blockPool mgr.singleTypeManagers
  pure { mgr with blockPool := p, singleTypeManagers := ms }

def numBlocksToAllocate : Except PyError Int :=
  numBlocksLoop mgr.blockPool request.requestId (Slots.numTokensNeedSlot mgr.config request args)
    args.newComputedBlocks
    (Slots.numLocalComputedTokens request args + args.numExternalComputedTokens)
    (Slots.numTokensMainModel mgr.config request args) mgr.singleTypeManagers

def allocateNewComputedBlocks : Except PyError KVCacheManager := do
  let (p, ms, _) ← forManagers
    (fun p m => noResult (m.allocateNewComputedBlocks p request.requestId
      (args.newComputedBlocks.getD m.kvCacheGroupId [])
      (Slots.numLocalComputedTokens request args) args.numExternalComputedTokens))
    mgr.blockPool mgr.singleTypeManagers
  pure { mgr with blockPool := p, singleTypeManagers := ms }

def allocateNewBlocks : Except PyError (KVCacheManager × List (List BlockRef)) := do
  let (p, ms, newBlocks) ← forManagers
    (fun p m => m.allocateNewBlocks p request.requestId
      (Slots.numTokensNeedSlot mgr.config request args)
      (Slots.numTokensMainModel mgr.config request args))
    mgr.blockPool mgr.singleTypeManagers
  pure ({ mgr with blockPool := p, singleTypeManagers := ms }, newBlocks)

variable (numComputedTokens : Nat)

def cacheBlocksLoop : Except PyError KVCacheManager := do
  let (p, ms, _) ← forManagers
    (fun p m => noResult (m.cacheBlocks p request numComputedTokens))
    mgr.blockPool mgr.singleTypeManagers
  pure { mgr with blockPool := p, singleTypeManagers := ms }

def takeComputedBlocks : Except PyError KVCacheManager :=
  if args.newComputedBlocks.any (!·.isEmpty) || decide (0 < args.numExternalComputedTokens) then
    mgr.allocateNewComputedBlocks request args
  else .ok mgr

def cacheNewBlocks : Except PyError KVCacheManager :=
  if !mgr.config.enableCaching || args.delayCacheBlocks then .ok mgr
  else mgr.cacheBlocksLoop request (Slots.numTokensToCache mgr.config request args)

def commitSlots : Except PyError (KVCacheManager × List (List BlockRef)) := do
  let mgr ← mgr.takeComputedBlocks request args
  let r ← mgr.allocateNewBlocks request args
  let mgr ← r.1.cacheNewBlocks request args
  pure (mgr, r.2)

def allocateSlots : Except PyError (KVCacheManager × Option (List (List BlockRef))) :=
  if args.numNewTokens = 0 ∧ args.numExternalComputedTokens = 0 then
    .error (.valueError ("num_new_tokens must be greater than 0 when there are no " ++
      "external computed tokens"))
  else do
    let mgr ← mgr.removeSkippedBlocks request.requestId
      (Slots.totalComputedTokens mgr.config request args)
    let numBlocksToAllocate ← mgr.numBlocksToAllocate request args
    if mgr.blockPool.getNumFreeBlocks < numBlocksToAllocate then pure (mgr, none)
    else do
      let r ← mgr.commitSlots request args
      pure (r.1, some r.2)

/-! ## The other operations -/

def cacheBlocks : Except PyError KVCacheManager :=
  if mgr.config.enableCaching then mgr.cacheBlocksLoop request numComputedTokens else .ok mgr

def free (requestId : ReqId) : Except PyError KVCacheManager := do
  let (p, ms, _) ← forManagers (fun p m => noResult (m.free p requestId))
    mgr.blockPool mgr.singleTypeManagers
  pure { mgr with blockPool := p, singleTypeManagers := ms }

def evictBlocks (blockIds : List Nat) : Except PyError KVCacheManager := do
  let p ← mgr.blockPool.evictBlocks blockIds
  pure { mgr with blockPool := p }

def resetPrefixCache : KVCacheManager × Bool :=
  ({ mgr with blockPool := mgr.blockPool.resetPrefixCache.1 }, mgr.blockPool.resetPrefixCache.2)

def newStepStarts : KVCacheManager :=
  { mgr with singleTypeManagers := mgr.singleTypeManagers.map (·.newStepStarts) }

end KVCacheManager

end VllmEcho
