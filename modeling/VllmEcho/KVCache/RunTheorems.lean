import VllmEcho.KVCache.Run

/-!
# Reference counts and the prefix cache map along runs

The two invariants of the block pool, over every run of promised operations whose hits fit, and the
runs that break them when the hits of a second full-attention group reach beyond the computed
tokens.
-/

namespace VllmEcho

open Lib BlockPool SingleTypeKVCacheManager

variable {mgr : KVCacheManager} {l : List BlockRef}

/-! ## Reference counts and the free queue -/

/-- The reference count of a block is the number of its occurrences in the tables; it is in the free
queue once if nobody holds it and not at all otherwise. -/
def ReferenceCountsExact (mgr : KVCacheManager) : Prop :=
  ∃ free, mgr.blockPool.freeBlockQueue.Holds free ∧
    (∀ b, b < mgr.blockPool.numGpuBlocks → b ≠ mgr.blockPool.nullBlock →
      (mgr.blockPool.blocks b).refCnt = occAll mgr.singleTypeManagers b ∧
      free.count b = if (mgr.blockPool.blocks b).refCnt = 0 then 1 else 0) ∧
    mgr.blockPool.getNumFreeBlocks = free.length

theorem KVInv.referenceCountsExact (h : KVInv mgr l) : ReferenceCountsExact mgr := by
  refine ⟨l, h.groups.free.holds, fun b hlt hne => ?_, h.groups.free.numFree_eq⟩
  have href : (mgr.blockPool.blocks b).refCnt = occAll mgr.singleTypeManagers b := by
    rw [h.groups.core.refCnt_eq b hne, Nat.zero_add]
  refine ⟨href, ?_⟩
  have hmem := h.groups.free.mem_iff b
  rw [Nat.zero_add] at hmem
  rw [href]
  split <;> rename_i hzero
  · exact List.count_eq_one_of_mem h.groups.free.nodup
      (hmem.mpr ⟨hlt, hne, by exact_mod_cast hzero⟩)
  · exact List.count_eq_zero.mpr fun hb => hzero (by exact_mod_cast (hmem.mp hb).2.2)

/-- In every run of promised operations whose hits fit, reference counts and free queue are exact
after every operation. -/
theorem fittingRun_referenceCountsExact {cfg : KVCacheConfig} {s : RunState}
    (hrun : FittingRun cfg s) : ReferenceCountsExact s.mgr := by
  obtain ⟨l, hinv⟩ := hrun.inv.inv
  exact hinv.referenceCountsExact

def samplePrompt (requestId seed n : Nat) : RequestView :=
  ⟨requestId, n, 0, (List.range n).map fun i => [UInt8.ofNat seed, UInt8.ofNat i], false⟩

def twoFullSpecs : KVCacheConfig where
  numBlocks := 9
  maxModelLen := 16
  hashBlockSize := 1
  enableCaching := true
  useEagle := false
  kvCacheGroups := [
    { blockSize := 1, kind := .mamba .align 0, layout := 0 },
    { blockSize := 1, kind := .full, layout := 0 },
    { blockSize := 1, kind := .full, layout := 1 }]

/-- A request of three tokens comes and goes; another one hits only in the second full-attention
group and then gets blocks for one external token. -/
def overlongHitsOps : List Op := [
  .allocateSlots (samplePrompt 1 0 3) ⟨3, 0, [], 0, 0, false⟩,
  .free 1,
  .getComputedBlocks (samplePrompt 2 0 3),
  .allocateSlots (samplePrompt 2 0 3) ⟨0, 0, [[], [], [5, 6]], 0, 1, true⟩]

def counterOff (mgr : KVCacheManager) : Bool :=
  decide (mgr.blockPool.getNumFreeBlocks ≠ (mgr.blockPool.queueOrder.length : Int))

theorem not_exact_of_counterOff (h : counterOff mgr = true) : ¬ ReferenceCountsExact mgr := by
  rintro ⟨free, hholds, -, hnum⟩
  refine of_decide_eq_true h ?_
  rw [queueOrder, hnum, Int.toNat_natCast, hholds.walk_eq (Nat.lt_succ_self _)]

/-- A negative number of blocks for external tokens raises the counter of the free queue. -/
theorem overlongHits_break_referenceCounts :
    ∃ s, RunReaches (fun s op => op.Promised s) twoFullSpecs s ∧ ¬ ReferenceCountsExact s.mgr := by
  have hbad : ∃ s ∈ runOps (fun s op => op.Promised s) twoFullSpecs overlongHitsOps,
      counterOff s.mgr = true := by decide +kernel
  obtain ⟨s, hs, hoff⟩ := hbad
  exact ⟨s, runOps_reaches hs, not_exact_of_counterOff hoff⟩

def fittingHitsOps : List Op := [
  .allocateSlots (samplePrompt 1 0 3) ⟨3, 0, [], 0, 0, false⟩,
  .free 1,
  .getComputedBlocks (samplePrompt 2 0 3),
  .allocateSlots (samplePrompt 2 0 3) ⟨1, 0, [[], [], [5, 6]], 0, 0, true⟩]

theorem fittingHits_run {P : RunState → Prop} (h : ∃ s ∈ runOps (fun s op => op.Promised s ∧
    op.HitsFit s.mgr.config) twoFullSpecs fittingHitsOps, P s) :
    ∃ s, FittingRun twoFullSpecs s ∧ P s := by
  obtain ⟨s, hs, hP⟩ := h
  exact ⟨s, runOps_reaches hs, hP⟩

/-- Hits without external tokens. -/
theorem fittingRun_referenceCountsExact_sample :
    ∃ s, FittingRun twoFullSpecs s ∧ s.mgr.blockPool.getNumFreeBlocks = 4 ∧
      ReferenceCountsExact s.mgr := by
  obtain ⟨s, hrun, hfree⟩ := fittingHits_run
    (P := fun s => s.mgr.blockPool.getNumFreeBlocks = 4) (by decide +kernel)
  exact ⟨s, hrun, hfree, fittingRun_referenceCountsExact hrun⟩

/-! ## The prefix cache map -/

/-- The map lists under every key exactly the blocks that carry it, and no entry of it is empty. -/
structure CacheMapExact (mgr : KVCacheManager) : Prop where
  exact : ∀ k b, b ∈ mgr.blockPool.cachedBlockHashToBlock.blocksAt k ↔
    (mgr.blockPool.blocks b).blockHash = some k
  not_empty : ∀ k v, mgr.blockPool.cachedBlockHashToBlock.cache.get? k = some v → v.toList ≠ []

/-- Every block that `find_longest_cache_hit` returns carries the key of its position and group. -/
def HitsCarryKeys (mgr : KVCacheManager) : Prop :=
  ∀ (blockHashes : List BlockHash) (maxLength n : Nat) (hits : List (List BlockRef)),
    mgr.findLongestCacheHit blockHashes maxLength = .ok (hits, n) →
    ∀ (g : Nat) (spec : KVCacheSpec) (i : Nat) (b : BlockRef),
      mgr.config.kvCacheGroups[g]? = some spec → (hits.getD g [])[i]? = some b →
      b ≠ mgr.blockPool.nullBlock →
      ∃ h, (blockHashesAt blockHashes mgr.config.hashBlockSize spec.blockSize)[i]? = some h ∧
        (mgr.blockPool.blocks b).blockHash = some (makeBlockHashWithGroupId h g)

theorem KVInv.cacheMapExact (h : KVInv mgr l) : CacheMapExact mgr :=
  ⟨h.groups.core.cache_exact, fun k v hv => (h.groups.core.cache_wf k v hv).ne_nil⟩

theorem KVInv.hitsCarryKeys (h : KVInv mgr l) : HitsCarryKeys mgr := by
  intro blockHashes maxLength n hits hok g spec i b hspec hb hne
  obtain ⟨hhits, -⟩ := KVCacheManager.findLongestCacheHit_hitsOk h.checked hok
  exact (hhits.hit g spec hspec).key h.groups.core hb hne

/-- In every run whose hits fit, the cache map is exact, hits carry their keys, and the next
operation does not fail the hash assertion. -/
theorem fittingRun_cacheMapExact {cfg : KVCacheConfig} {s : RunState} (hrun : FittingRun cfg s) :
    CacheMapExact s.mgr ∧ HitsCarryKeys s.mgr ∧
      ∀ op : Op, op.Promised s → op.HitsFit s.mgr.config → op.exec s ≠ .error hashAssertion := by
  obtain ⟨l, hinv⟩ := hrun.inv.inv
  refine ⟨hinv.cacheMapExact, hinv.hitsCarryKeys, fun op hprom hfit herr => ?_⟩
  rcases op.exec_keeps hrun.inv hprom hfit with ⟨s', hok, -⟩ | ⟨e, herr', he⟩
  · rw [herr] at hok
    cases hok
  · rw [herr] at herr'
    exact he (Except.error.inj herr').symm

def twoFullSpecsAndWindow : KVCacheConfig where
  numBlocks := 25
  maxModelLen := 16
  hashBlockSize := 1
  enableCaching := true
  useEagle := false
  kvCacheGroups := [
    { blockSize := 1, kind := .full, layout := 0 },
    { blockSize := 1, kind := .full, layout := 1 },
    { blockSize := 1, kind := .slidingWindow 1, layout := 0 }]

def overlongHitsCall (requestId : ReqId) : List Op := [
  .getComputedBlocks (samplePrompt requestId 0 7),
  .allocateSlots (samplePrompt requestId 0 7)
    ⟨0, 0, [[], [8, 9, 10, 11, 12, 13], []], 0, 1, true⟩]

/-- The counter rises so far that the fifth call pops the fake tail of the queue. Caching gives it a
hash that `reset_prefix_cache` does not clear. -/
def fakeTailOps : List Op :=
  [.allocateSlots (samplePrompt 0 0 7) ⟨7, 0, [], 0, 0, false⟩,
    .evictBlocks [15, 16, 17, 18, 19, 20, 21]] ++
  overlongHitsCall 2 ++ [.free 2] ++ overlongHitsCall 2 ++ [.free 2] ++
  overlongHitsCall 2 ++ [.free 2] ++ overlongHitsCall 2 ++ [.free 2] ++
  [.allocateSlots (samplePrompt 3 3 1) ⟨1, 0, [], 0, 0, false⟩] ++
  overlongHitsCall 4 ++
  [.cacheBlocks (samplePrompt 4 0 7) 1, .resetPrefixCache, .free 4, .free 3]

def failingCall : Op := .allocateSlots (samplePrompt 5 5 1) ⟨1, 0, [], 0, 0, false⟩

/-- After these calls, caching meets a block that still has a hash. -/
theorem overlongHits_fail_hashAssertion :
    ∃ s, RunReaches (fun s op => op.Promised s) twoFullSpecsAndWindow s ∧
      failingCall.Promised s ∧ failingCall.exec s = .error hashAssertion := by
  have hbad : ∃ s ∈ runOps (fun s op => op.Promised s) twoFullSpecsAndWindow fakeTailOps,
      failingCall.Promised s ∧ failingCall.exec s = .error hashAssertion := by decide +kernel
  obtain ⟨s, hs, hfails⟩ := hbad
  exact ⟨s, runOps_reaches hs, hfails⟩

/-- A run without external tokens in which hits are taken. -/
theorem fittingRun_cacheMapExact_sample : ∃ s, FittingRun twoFullSpecs s ∧
      s.mgr.blockPool.cachedBlockHashToBlock.blocksAt (makeBlockHashWithGroupId [0, 0] 2) = [5] ∧
      CacheMapExact s.mgr := by
  obtain ⟨s, hrun, hmap⟩ :=
    fittingHits_run (P := fun s => s.mgr.blockPool.cachedBlockHashToBlock.blocksAt
    (makeBlockHashWithGroupId [0, 0] 2) = [5]) (by decide +kernel)
  exact ⟨s, hrun, hmap, (fittingRun_cacheMapExact hrun).1⟩

end VllmEcho
