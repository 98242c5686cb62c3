import VllmEcho.KVCache.FreeQueue
import VllmEcho.Lib.Dict

/-!
# The block pool

`BlockPool` owns every KV cache block, the free queue and the map from block hashes to cached
blocks.  A block is referred to by its identity; the two fake nodes of the free list are blocks as
well, because a free list whose counter has run ahead of it hands the fake tail out like any other
block.  The inner dictionaries of the map are keyed by block id.
-/

namespace VllmEcho

open Lib Dict List

/-- `KVCacheBlock`, without the link fields, which the free queue keeps. -/
structure KVCacheBlock where
  refCnt : Int
  blockHash : Option BlockHashWithGroupId
  isNull : Bool
  deriving DecidableEq

def KVCacheBlock.new : KVCacheBlock := ⟨0, none, false⟩

def groupIdBytes (g : Nat) : List UInt8 :=
  [UInt8.ofNat (g / 2 ^ 24), UInt8.ofNat (g / 2 ^ 16), UInt8.ofNat (g / 2 ^ 8), UInt8.ofNat g]

def makeBlockHashWithGroupId (blockHash : BlockHash) (groupId : Nat) : BlockHashWithGroupId :=
  blockHash ++ groupIdBytes groupId

/-! ## The map from block hashes to cached blocks -/

inductive CachedBlocks
  | single (block : BlockRef)
  | dict (blocks : List BlockRef)
  deriving DecidableEq

namespace CachedBlocks

def toList : CachedBlocks → List BlockRef
  | single b => [b]
  | dict bs => bs

structure Wf (v : CachedBlocks) : Prop where
  ne_nil : v.toList ≠ []
  nodup : v.toList.Nodup

end CachedBlocks

structure BlockHashToBlockMap where
  cache : Dict BlockHashWithGroupId CachedBlocks

variable {b : BlockRef}

namespace BlockHashToBlockMap

def new : BlockHashToBlockMap := ⟨Dict.empty⟩

variable (m : BlockHashToBlockMap) (key : BlockHashWithGroupId)

def blocksAt : List BlockRef :=
  (m.cache.get? key).elim [] CachedBlocks.toList

def getOneBlock : Option BlockRef :=
  match m.cache.get? key with
  | none => none
  | some (.single b) => some b
  | some (.dict bs) => bs.head?

variable (block : BlockRef)

def insert : BlockHashToBlockMap :=
  match m.cache.get? key with
  | none => ⟨m.cache.set key (.single block)⟩
  | some (.single b) => ⟨m.cache.set key (.dict (if b = block then [b] else [b, block]))⟩
  | some (.dict bs) => ⟨m.cache.set key (.dict (if block ∈ bs then bs else bs ++ [block]))⟩

def pop : BlockHashToBlockMap × Bool :=
  match m.cache.get? key with
  | none => (m, false)
  | some (.single b) =>
    if b = block then (⟨m.cache.erase key⟩, true)
    else (⟨(m.cache.erase key).set key (.single b)⟩, false)
  | some (.dict bs) =>
    if 0 < (bs.erase block).length then
      (⟨(m.cache.erase key).set key (.dict (bs.erase block))⟩, decide (block ∈ bs))
    else (⟨m.cache.erase key⟩, decide (block ∈ bs))

def Wf : Prop := ∀ k v, m.cache.get? k = some v → v.Wf

theorem new_wf : new.Wf := by
  intro k v h
  simp [new] at h

variable (k : BlockHashWithGroupId)

@[simp] theorem blocksAt_new : new.blocksAt k = [] := by
  simp [blocksAt, new]

theorem getOneBlock_eq (m : BlockHashToBlockMap) (k : BlockHashWithGroupId) :
    m.getOneBlock k = (m.blocksAt k).head? := by
  unfold getOneBlock blocksAt
  split <;> rename_i h <;> rw [h] <;> rfl

theorem mem_blocksAt_of_getOneBlock {m : BlockHashToBlockMap} {k : BlockHashWithGroupId}
    (h : m.getOneBlock k = some b) : b ∈ m.blocksAt k := by
  rw [getOneBlock_eq] at h
  exact mem_of_mem_head? h

theorem mem_blocksAt_insert (k' : BlockHashWithGroupId) (c : BlockRef) :
    c ∈ (m.insert k b).blocksAt k' ↔ c ∈ m.blocksAt k' ∨ (k' = k ∧ c = b) := by
  unfold insert blocksAt
  by_cases hk : k' = k
  · subst hk
    split <;> rename_i hget <;> simp only [get?_set_self, Option.elim, hget,
      CachedBlocks.toList]
    · simp
    · split <;> rename_i hb
      · subst hb
        simp
      · simp
    split <;> rename_i hb
    · refine ⟨Or.inl, ?_⟩
      rintro (h | ⟨-, rfl⟩)
      · exact h
      · exact hb
    · simp
  · split <;> simp [get?_set_ne _ hk, hk]

theorem insert_wf {m : BlockHashToBlockMap} (h : m.Wf) {k : BlockHashWithGroupId} :
    (m.insert k b).Wf := by
  intro k' v hv
  unfold insert at hv
  split at hv <;> rename_i hget <;> simp only [get?_set] at hv <;> split at hv
  · cases hv
    exact ⟨by simp [CachedBlocks.toList], by simp [CachedBlocks.toList]⟩
  · exact h k' v hv
  · rename_i c hc
    cases hv
    split <;> rename_i hb
    · exact ⟨by simp [CachedBlocks.toList], by simp [CachedBlocks.toList]⟩
    · exact ⟨by simp [CachedBlocks.toList], by simp [CachedBlocks.toList, hb]⟩
  · exact h k' v hv
  · rename_i bs hc
    cases hv
    have hold := h k _ hget
    split <;> rename_i hb
    · exact hold
    · refine ⟨by simp [CachedBlocks.toList], ?_⟩
      refine nodup_append.mpr ⟨hold.nodup, by simp, ?_⟩
      intro x hx y hy he
      rw [mem_singleton.mp hy] at he
      exact hb (he ▸ hx)
  · exact h k' v hv

/-- `pop` takes exactly one block out of the entry of its key. -/
theorem mem_blocksAt_pop {m : BlockHashToBlockMap} (h : m.Wf) {k : BlockHashWithGroupId}
    (k' : BlockHashWithGroupId) (c : BlockRef) :
    c ∈ (m.pop k b).1.blocksAt k' ↔ c ∈ m.blocksAt k' ∧ ¬ (k' = k ∧ c = b) := by
  unfold pop blocksAt
  by_cases hk : k' = k
  · subst hk
    split <;> rename_i hget
    · simp [hget]
    · split <;> rename_i hb
      · subst hb
        simp [hget, CachedBlocks.toList]
      · simp only [get?_set_self, hget, Option.elim, CachedBlocks.toList, mem_singleton]
        constructor
        · rintro rfl
          exact ⟨rfl, fun hc => hb hc.2⟩
        · exact And.left
    rename_i bs
    have hnd : bs.Nodup := (h k' _ hget).nodup
    have herase : c ∈ bs.erase b ↔ c ∈ bs ∧ ¬ c = b := by
      rw [hnd.mem_erase_iff, and_comm]
    split <;> rename_i hlen
    · simp [hget, CachedBlocks.toList, herase]
    · have hnil : bs.erase b = [] := length_eq_zero_iff.mp (by omega)
      rw [hnil] at herase
      simp only [get?_erase_self, hget, Option.elim, CachedBlocks.toList]
      simpa using herase
  · split <;> rename_i hget
    · simp [hk]
    · split <;> simp [get?_erase_ne _ hk, get?_set_ne _ hk, hk]
    · split <;> simp [get?_erase_ne _ hk, get?_set_ne _ hk, hk]

theorem pop_wf {m : BlockHashToBlockMap} (h : m.Wf) {k : BlockHashWithGroupId} :
    (m.pop k b).1.Wf := by
  intro k' v hv
  have herase : ∀ v', (m.cache.erase k).get? k' = some v' → v'.Wf := by
    intro v' hv'
    rw [get?_erase] at hv'
    split at hv'
    · cases hv'
    · exact h k' v' hv'
  unfold pop at hv
  split at hv <;> rename_i hget
  · exact h k' v hv
  · split at hv
    · exact herase v hv
    · simp only [get?_set] at hv
      split at hv
      · cases hv
        exact h k _ hget
      · exact herase v hv
  · split at hv <;> rename_i hlen
    · simp only [get?_set] at hv
      split at hv
      · cases hv
        exact ⟨ne_nil_of_length_pos hlen, (h k _ hget).nodup.erase b⟩
      · exact herase v hv
    · exact herase v hv

theorem pop_found {m : BlockHashToBlockMap} : (m.pop k b).2 = true ↔ b ∈ m.blocksAt k := by
  unfold pop blocksAt
  split <;> rename_i hget
  · simp [hget]
  · split <;> rename_i hb
    · subst hb
      simp [hget, CachedBlocks.toList]
    · simp [hget, CachedBlocks.toList, Ne.symm hb]
  · split <;> simp [hget, CachedBlocks.toList]

end BlockHashToBlockMap

/-! ## The pool -/

structure RequestView where
  requestId : ReqId
  numTokens : Nat
  numComputedTokens : Nat
  blockHashes : List BlockHash
  skipReadingPrefixCache : Bool
  deriving DecidableEq

variable (blockHashes : List BlockHash)

def mergedHash (scale idx : Nat) : BlockHash :=
  ((blockHashes.drop (idx * scale)).take scale).flatten

def blockHashesAt (hashBlockSize blockSize : Nat) : List BlockHash :=
  if blockSize = hashBlockSize then blockHashes
  else (range (blockHashes.length / (blockSize / hashBlockSize))).map
    (mergedHash blockHashes (blockSize / hashBlockSize))

/-- `BlockPool`; KV events and metrics are left out. -/
structure BlockPool where
  numGpuBlocks : Nat
  enableCaching : Bool
  hashBlockSize : Nat
  blocks : BlockRef → KVCacheBlock
  freeBlockQueue : FreeKVCacheBlockQueue
  cachedBlockHashToBlock : BlockHashToBlockMap
  nullBlock : BlockRef

namespace BlockPool

def init (numGpuBlocks : Nat) (enableCaching : Bool) (hashBlockSize : Nat) :
    Except PyError BlockPool := do
  assertThat (decide (0 < numGpuBlocks))
    "isinstance(num_gpu_blocks, int) and num_gpu_blocks > 0"
  let (queue, nullBlock) ← (FreeKVCacheBlockQueue.init numGpuBlocks).popleft
  pure {
    numGpuBlocks := numGpuBlocks
    enableCaching := enableCaching
    hashBlockSize := hashBlockSize
    blocks := Function.update (fun _ => .new) nullBlock { KVCacheBlock.new with isNull := true }
    freeBlockQueue := queue
    cachedBlockHashToBlock := .new
    nullBlock := nullBlock }

variable (p : BlockPool)

def getNumFreeBlocks : Int := p.freeBlockQueue.numFreeBlocks

def addRef (b : BlockRef) (d : Int) : BlockPool :=
  { p with
    blocks := Function.update p.blocks b { p.blocks b with refCnt := (p.blocks b).refCnt + d } }

def setHash (b : BlockRef) (h : Option BlockHashWithGroupId) : BlockPool :=
  { p with blocks := Function.update p.blocks b { p.blocks b with blockHash := h } }

def getCachedBlock (blockHash : BlockHash) (kvCacheGroupIds : List Nat) : Option (List BlockRef) :=
  kvCacheGroupIds.mapM fun g =>
    p.cachedBlockHashToBlock.getOneBlock (makeBlockHashWithGroupId blockHash g)

def hashAssertion : PyError := .assertionError "blk.block_hash is None"

def cacheLoop (kvCacheGroupId : Nat) :
    BlockPool → List BlockRef → List BlockHash → Except PyError BlockPool
  | p, [], _ => .ok p
  | p, blk :: blks, hashes =>
    if (p.blocks blk).isNull then cacheLoop kvCacheGroupId p blks hashes.tail
    else do
      assertThat (p.blocks blk).blockHash.isNone "blk.block_hash is None"
      match hashes.head? with
      | none => .error .indexError
      | some h =>
        let key := makeBlockHashWithGroupId h kvCacheGroupId
        let p' := p.setHash blk (some key)
        cacheLoop kvCacheGroupId
          { p' with cachedBlockHashToBlock := p'.cachedBlockHashToBlock.insert key blk }
          blks hashes.tail

def cacheFullBlocks (request : RequestView) (blocks : List BlockRef)
    (numCachedBlocks numFullBlocks blockSize kvCacheGroupId : Nat) : Except PyError BlockPool :=
  if numFullBlocks ≤ numCachedBlocks then .ok p
  else do
    let newFullBlocks := (blocks.take numFullBlocks).drop numCachedBlocks
    assertThat (decide (numFullBlocks ≤ request.blockHashes.length))
      "len(request.block_hashes) >= num_full_blocks"
    assertThat (decide (blockSize = p.hashBlockSize ∨ blockSize % p.hashBlockSize = 0))
      "block_size % self.hash_block_size == 0"
    let blockHashes := blockHashesAt request.blockHashes p.hashBlockSize blockSize
    cacheLoop kvCacheGroupId p newFullBlocks (blockHashes.drop numCachedBlocks)

def maybeEvictCachedBlock (block : BlockRef) : BlockPool × Bool :=
  match (p.blocks block).blockHash with
  | none => (p, false)
  | some h =>
    let popped := p.cachedBlockHashToBlock.pop h block
    if popped.2 then
      ({ p.setHash block none with cachedBlockHashToBlock := popped.1 }, true)
    else ({ p with cachedBlockHashToBlock := popped.1 }, false)

def allocLoop : BlockPool → List BlockRef → Except PyError BlockPool
  | p, [] => .ok p
  | p, b :: bs => do
    let p' := if p.enableCaching then (p.maybeEvictCachedBlock b).1 else p
    assertThat (decide ((p'.blocks b).refCnt = 0)) "block.ref_cnt == 0"
    allocLoop (p'.addRef b 1) bs

def getNewBlocks (numBlocks : Int) : Except PyError (BlockPool × List BlockRef) :=
  if p.getNumFreeBlocks < numBlocks then
    .error (.valueError s!"Cannot get {numBlocks} free blocks from the pool")
  else do
    let (queue, ret) ← p.freeBlockQueue.popleftN numBlocks
    let p' ← allocLoop { p with freeBlockQueue := queue } ret
    pure (p', ret)

def touch : BlockPool → List BlockRef → Except PyError BlockPool
  | p, [] => .ok p
  | p, b :: bs =>
    if (p.blocks b).refCnt = 0 ∧ (p.blocks b).isNull = false then do
      let queue ← p.freeBlockQueue.remove b
      touch ({ p with freeBlockQueue := queue }.addRef b 1) bs
    else touch (p.addRef b 1) bs

/-- The reference counts go down for the whole list before any block is appended. -/
def dropRefs (blocks : List BlockRef) : BlockPool :=
  blocks.foldl (fun p b => p.addRef b (-1)) p

def freeBlocks (orderedBlocks : List BlockRef) : Except PyError BlockPool := do
  let p' := p.dropRefs orderedBlocks
  let queue ← p'.freeBlockQueue.appendN
    (orderedBlocks.filter fun b => decide ((p'.blocks b).refCnt = 0) && !(p'.blocks b).isNull)
  pure { p' with freeBlockQueue := queue }

def evictBlocks : BlockPool → List Nat → Except PyError BlockPool
  | p, [] => .ok p
  | p, blockId :: ids => do
    let numGpuBlocks := p.numGpuBlocks
    assertThat (decide (blockId < numGpuBlocks))
      (s!"Invalid block_id {blockId} >= {numGpuBlocks}. " ++
        "This indicates a bug in the KV connector - " ++
        "workers should only report block IDs that were allocated by the scheduler.")
    evictBlocks (p.maybeEvictCachedBlock blockId).1 ids

def resetPrefixCache : BlockPool × Bool :=
  if (p.numGpuBlocks : Int) - p.getNumFreeBlocks ≠ 1 then (p, false)
  else
    ({ p with
      cachedBlockHashToBlock := .new
      blocks := fun b =>
        if b < p.numGpuBlocks then { p.blocks b with blockHash := none } else p.blocks b }, true)

end BlockPool

end VllmEcho
