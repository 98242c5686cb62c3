import VllmEcho.KVCache.RowInvariant
import VllmEcho.Recompute.Schedule
import VllmEcho.Sched.Engine

/-!
# What counts as computed after a load

`RecomputeScheduler._update_waiting_for_remote_kv` does not look at the tokens the connector was
asked to load.  It reads the number of computed tokens off the block table, whose last block need
not be full, or takes the whole prompt when there are several groups.
-/

namespace VllmEcho

open Lib

/-! ## What a call to `cache_blocks` caches -/

namespace SingleTypeKVCacheManager

variable {p p' : BlockPool} {m m' : SingleTypeKVCacheManager} {request : RequestView} {n : Nat}

theorem cacheBlocksBase_numCached (h : m.cacheBlocksBase p request n = .ok (p', m')) :
    m'.numCached request.requestId ≤ max (m.numCached request.requestId) (n / m.blockSize) := by
  unfold cacheBlocksBase at h
  dsimp only at h
  split at h
  · cases h
    exact Nat.le_max_left _ _
  · obtain ⟨p₁, -, h⟩ := of_bind h
    cases h
    rw [numCached_setNumCached]
    exact Nat.le_max_right _ _

theorem cacheBlocks_numCached (h : m.cacheBlocks p request n = .ok (p', m')) :
    m'.numCached request.requestId ≤ max (m.numCached request.requestId) (n / m.blockSize) := by
  unfold cacheBlocks at h
  split at h
  · obtain ⟨⟨p₁, m₁⟩, hbase, h⟩ := of_bind h
    have hle := cacheBlocksBase_numCached hbase
    dsimp only at h
    split at h
    · obtain ⟨hashes, -, h⟩ := of_bind h
      cases h
      exact hle
    · cases h
      exact hle
  · exact cacheBlocksBase_numCached h

theorem free_numCached {id : ReqId} (h : m.free p id = .ok (p', m')) (q : ReqId) :
    m'.numCached q ≤ m.numCached q := by
  obtain ⟨p₁, -, h⟩ := of_bind h
  cases h
  show ((Dict.erase _ id).get? q).getD 0 ≤ _
  by_cases hq : q = id
  · rw [hq, Dict.get?_erase_self]
    exact Nat.zero_le _
  · rw [Dict.get?_erase_ne _ hq]
    split <;> exact Nat.le_refl _

end SingleTypeKVCacheManager

section

variable {p p' : BlockPool} {ms ms' : List SingleTypeKVCacheManager}

/-- A loop over the groups relates each of them to what it becomes.  No invariant of the cache is
needed: this holds of any call that returns. -/
theorem forManagers_forall₂ {β : Type} {outs : List β}
    {f : BlockPool → SingleTypeKVCacheManager →
      Except PyError (BlockPool × SingleTypeKVCacheManager × β)}
    {R : SingleTypeKVCacheManager → SingleTypeKVCacheManager → Prop}
    (hf : ∀ p m p' m' out, f p m = .ok (p', m', out) → R m m')
    (h : forManagers f p ms = .ok (p', ms', outs)) : List.Forall₂ R ms ms' := by
  induction ms generalizing p ms' outs with
  | nil =>
    cases h
    exact .nil
  | cons m ms ih =>
    obtain ⟨⟨p₁, m₁, out⟩, hm, h⟩ := of_bind h
    obtain ⟨⟨p₂, ms₂, outs₂⟩, hms, h⟩ := of_bind h
    cases h
    exact .cons (hf _ _ _ _ _ hm) (ih hms)

theorem noResult_eq_ok {r : Except PyError (BlockPool × SingleTypeKVCacheManager)}
    {m : SingleTypeKVCacheManager} {u : Unit} (h : noResult r = .ok (p, m, u)) :
    r = .ok (p, m) := by
  cases r with
  | error e => cases h
  | ok s =>
    cases h
    rfl

end

/-- Every block of the request that a call has cached ends at or before token `bound`.  The blocks
cached so far are the first `num_cached_block` of the table. -/
def CachesBelow (r : ReqId) (bound : Nat) (kv kv' : KVCacheManager) : Prop :=
  List.Forall₂ (fun m m' => ∀ i, m.numCached r ≤ i → i < m'.numCached r →
    (i + 1) * m.blockSize ≤ bound) kv.singleTypeManagers kv'.singleTypeManagers

section

variable {kv kv' : KVCacheManager} {r : ReqId} {bound bound' : Nat}

theorem CachesBelow.mono (h : CachesBelow r bound kv kv') (hle : bound ≤ bound') :
    CachesBelow r bound' kv kv' :=
  List.Forall₂.imp (fun _ _ hm i hi hlt => (hm i hi hlt).trans hle) h

theorem CachesBelow.refl (r : ReqId) (bound : Nat) (kv : KVCacheManager) :
    CachesBelow r bound kv kv :=
  List.forall₂_same.mpr fun _ _ _ hi hlt => absurd hlt (Nat.not_lt.mpr hi)

theorem cacheBlocks_cachesBelow {request : RequestView} {n : Nat}
    (h : kv.cacheBlocks request n = .ok kv') : CachesBelow request.requestId n kv kv' := by
  unfold KVCacheManager.cacheBlocks at h
  split at h
  · obtain ⟨⟨p, ms, outs⟩, hloop, h⟩ := of_bind h
    cases h
    apply forManagers_forall₂ _ hloop
    intro p m p' m' out hm i hi hlt
    have hle := SingleTypeKVCacheManager.cacheBlocks_numCached (noResult_eq_ok hm)
    -- the block is one of the `n / block_size` full ones
    have hfull : i + 1 ≤ n / m.blockSize := by omega
    exact (Nat.mul_le_mul_right _ hfull).trans (Nat.div_mul_le_self n m.blockSize)
  · cases h
    exact CachesBelow.refl _ _ _

theorem free_cachesBelow {id : ReqId} (h : kv.free id = .ok kv') : CachesBelow r bound kv kv' := by
  obtain ⟨⟨p, ms, outs⟩, hloop, h⟩ := of_bind h
  cases h
  apply forManagers_forall₂ _ hloop
  intro p m p' m' out hm i hi hlt
  have hle := SingleTypeKVCacheManager.free_numCached (noResult_eq_ok hm) r
  omega

end

variable (numExternal : Nat)

namespace RecomputeScheduler

variable {cfg : RecomputeConfig} {env : CallEnv} {s s' : Scheduler} {r : ReqId}

/-- Only the `loaded` tokens of a promoted request count as computed, the last token is left to
compute, and no block beyond them has been cached. -/
structure CountsLoaded (s s' : Scheduler) (r : ReqId) (loaded : Nat) : Prop where
  computed : (s'.objects r).numComputedTokens ≤ loaded
  beforeLast : (s'.objects r).numComputedTokens ≤ ((s'.objects r).numTokens : Int) - 1
  cached : CachesBelow (s.objects r).requestId loaded s.kvCacheManager s'.kvCacheManager

/-- After a failed load the counter has already been cut back to valid tokens; otherwise all tokens
but the last were asked for, or a single group has no room in its table for others. -/
def LoadFillsTable (cfg : RecomputeConfig) (s : Scheduler) (r : ReqId) (loaded : Nat) : Prop :=
  if r ∈ s.failedRecvingKvReqIds then
    (s.objects r).numComputedTokens ≤ loaded ∧
      (s.objects r).numComputedTokens < (s.objects r).numTokens
  else
    (s.objects r).numTokens ≤ loaded + 1 ∨
      ∃ blocks, s.kvCacheManager.getBlocks (s.objects r).requestId = [blocks] ∧
        blocks.length * cfg.blockSize ≤ loaded

/-! ## The number of computed tokens -/

theorem tokensInTable_le (cfg : RecomputeConfig) (kv : KVCacheManager) (q : Request) :
    tokensInTable cfg kv q ≤ q.numTokens := by
  unfold tokensInTable
  split
  · exact Int.min_le_right _ _
  · exact Int.le_refl _

theorem tokensLoaded_lt (cfg : RecomputeConfig) (kv : KVCacheManager) (q : Request) :
    tokensLoaded cfg kv q ≤ (q.numTokens : Int) - 1 := by
  have hle := tokensInTable_le cfg kv q
  unfold tokensLoaded
  split <;> omega

theorem tokensLoaded_le_iff {kv : KVCacheManager} {q : Request} (loaded : Nat) :
    tokensLoaded cfg kv q ≤ loaded ↔ q.numTokens ≤ loaded + 1 ∨
        ∃ blocks, kv.getBlocks q.requestId = [blocks] ∧ blocks.length * cfg.blockSize ≤ loaded := by
  unfold tokensLoaded tokensInTable
  split
  · rename_i blocks hblocks
    rw [hblocks]
    have hone : (∃ bs, [blocks] = [bs] ∧ bs.length * cfg.blockSize ≤ loaded) ↔
        blocks.length * cfg.blockSize ≤ loaded := by simp
    rw [hone]
    split <;> omega
  · rename_i hmany
    have hnone : ¬ ∃ bs, kv.getBlocks q.requestId = [bs] ∧ bs.length * cfg.blockSize ≤ loaded :=
      fun ⟨bs, hbs, _⟩ => hmany bs hbs
    rw [or_iff_left hnone]
    omega

/-! ## The promotion -/

/-- The end of a load: what it sets and what it caches. -/
theorem updateWaitingForRemoteKv_spec (h : updateWaitingForRemoteKv cfg s r = .ok s') :
    (s'.objects r).numTokens = (s.objects r).numTokens ∧ if r ∈ s.failedRecvingKvReqIds then
      (s'.objects r).numComputedTokens = (s.objects r).numComputedTokens ∧
        CachesBelow (s.objects r).requestId (s.objects r).numComputedTokens.toNat
          s.kvCacheManager s'.kvCacheManager else
      (s'.objects r).numComputedTokens = tokensLoaded cfg s.kvCacheManager (s.objects r) ∧
        CachesBelow (s.objects r).requestId (tokensLoaded cfg s.kvCacheManager (s.objects r)).toNat
          s.kvCacheManager s'.kvCacheManager := by
  obtain ⟨-, -, h⟩ := of_bind h
  split at h <;> rename_i hfailed
  · rw [if_pos hfailed]
    obtain ⟨kv, hkeep, h⟩ := of_bind h
    cases h
    refine ⟨rfl, rfl, ?_⟩
    unfold Scheduler.keepValidBlocks at hkeep
    split at hkeep
    · exact cacheBlocks_cachesBelow hkeep
    · exact free_cachesBelow hkeep
  · rw [if_neg hfailed]
    obtain ⟨kv, hcache, h⟩ := of_bind h
    cases h
    simp only [Scheduler.modify, if_pos, true_and]
    exact ⟨rfl, cacheBlocks_cachesBelow hcache⟩

theorem countsLoaded_iff (computed : Int) {loaded : Nat}
    (hcomputed : (s'.objects r).numComputedTokens = computed)
    (htokens : (s'.objects r).numTokens = (s.objects r).numTokens)
    (hcached : CachesBelow (s.objects r).requestId computed.toNat s.kvCacheManager
      s'.kvCacheManager) :
    CountsLoaded s s' r loaded ↔ computed ≤ loaded ∧ computed < (s.objects r).numTokens := by
  apply Iff.intro
  · intro h
    have hle := h.computed
    have hlast := h.beforeLast
    omega
  · intro h
    refine ⟨by rw [hcomputed]; exact h.1, by omega, ?_⟩
    exact hcached.mono (by omega)

/-- When a request is promoted from `WAITING_FOR_REMOTE_KVS`, no token counts as computed that was
not loaded, exactly under the condition on the table. -/
theorem promotion_countsLoaded_iff {numLocal numExternal : Nat}
    (hstatus : (s.objects r).status = .waitingForRemoteKvs)
    (h : tryPromoteBlockedWaitingRequest cfg env s r = .ok (s', true)) :
    CountsLoaded s s' r (numLocal + numExternal) ↔
      LoadFillsTable cfg s r (numLocal + numExternal) := by
  unfold tryPromoteBlockedWaitingRequest at h
  rw [if_pos hstatus] at h
  split at h
  · obtain ⟨s₁, hupdate, h⟩ := of_bind h
    cases h
    obtain ⟨htokens, hspec⟩ := updateWaitingForRemoteKv_spec hupdate
    have hself : ∀ f : Request → Request, (s₁.modify r f).objects r = f (s₁.objects r) :=
      fun f => if_pos rfl
    unfold LoadFillsTable
    split at hspec <;> rename_i hfailed
    · rw [if_pos hfailed]
      exact countsLoaded_iff _ (by rw [hself]; exact hspec.1) (by rw [hself]; exact htokens) hspec.2
    rw [if_neg hfailed, ← tokensLoaded_le_iff]
    refine Iff.trans (countsLoaded_iff (tokensLoaded cfg s.kvCacheManager (s.objects r))
      (by rw [hself]; exact hspec.1) (by rw [hself]; exact htokens) ?_) ?_
    · exact hspec.2
    · have hlt := tokensLoaded_lt cfg s.kvCacheManager (s.objects r)
      omega
  · cases h

/-! ## Concrete promotions -/

def smallConsumer : RecomputeConfig :=
  { smallScheduler .fcfs false 16 0 with
    hasConnector := true
    isMtpKvConsumer := false
    isKvProducer := false
    isHybridModel := false }

def loadEnv : CallEnv :=
  { quietEnv with getNumNewMatchedTokens := fun _ _ => (some numExternal, true) }

def decodeCache (numBlocks : Nat) : KVCacheConfig := smallCache numBlocks 16 (Nat.add_one_pos 15)

def loadedScheduler : Except PyError Scheduler := do
  let kv ← KVCacheManager.init (decodeCache 8)
  let request ← Request.init none (smallRequest 0 [1, 2, 3, 4, 5, 6] 1)
  let s ← addRequest smallConsumer (loadEnv numExternal) (Scheduler.init kv 8 noObjects)
    { request with blockHashes := [[1], [2], [3]] }
  let (s, _) ← schedule smallConsumer (loadEnv numExternal) s
  s.receiveKv 0

def loadAndPromote : Option (Scheduler × Scheduler) :=
  (loadedScheduler numExternal).toOption.bind fun s =>
    match tryPromoteBlockedWaitingRequest smallConsumer (loadEnv numExternal) s 0 with
    | .ok (s', true) =>
      if (s.objects 0).status = .waitingForRemoteKvs then some (s, s') else none
    | _ => none

theorem loadAndPromote_spec {numExternal : Nat} (h : loadAndPromote numExternal = some (s, s')) :
    (s.objects 0).status = .waitingForRemoteKvs ∧
      tryPromoteBlockedWaitingRequest smallConsumer (loadEnv numExternal) s 0 = .ok (s', true) := by
  obtain ⟨s₀, -, h⟩ := Option.bind_eq_some_iff.mp h
  split at h
  · rename_i s₁ hpromote
    split at h <;> rename_i hstatus
    · cases h
      exact ⟨hstatus, hpromote⟩
    · cases h
  · cases h

/-- Three tokens were asked for, the table has room for four, and four count as computed. -/
theorem three_loaded_four_counted :
    ∃ s s', loadAndPromote 3 = some (s, s') ∧ ¬ CountsLoaded s s' 0 (0 + 3) := by
  have hbad : ∃ p ∈ loadAndPromote 3, (p.2.objects 0).numComputedTokens = 4 := by decide +kernel
  obtain ⟨⟨s, s'⟩, hrun, hfour⟩ := hbad
  refine ⟨s, s', hrun, fun hcounts => ?_⟩
  have hle := hcounts.computed
  rw [hfour] at hle
  omega

/-- Four tokens fill two blocks, and both are cached. -/
theorem four_loaded_four_counted :
    ∃ s s', loadAndPromote 4 = some (s, s') ∧
      s'.kvCacheManager.singleTypeManagers.map (·.numCached 0) = [2] ∧
      CountsLoaded s s' 0 (0 + 4) := by
  have hgood : ∃ p ∈ loadAndPromote 4, 0 ∉ p.1.failedRecvingKvReqIds ∧
      (p.1.kvCacheManager.getBlocks (p.1.objects 0).requestId).map List.length = [2] ∧
      p.2.kvCacheManager.singleTypeManagers.map (·.numCached 0) = [2] := by decide +kernel
  obtain ⟨⟨s, s'⟩, hrun, hfailed, hrows, hcached⟩ := hgood
  obtain ⟨blocks, hblocks, htwo⟩ := List.map_eq_singleton_iff.mp hrows
  obtain ⟨hstatus, hpromote⟩ := loadAndPromote_spec hrun
  refine ⟨s, s', hrun, hcached, (promotion_countsLoaded_iff hstatus hpromote).mpr ?_⟩
  unfold LoadFillsTable
  rw [if_neg hfailed]
  refine Or.inr ⟨blocks, hblocks, ?_⟩
  rw [htwo]
  decide

end RecomputeScheduler

end VllmEcho
