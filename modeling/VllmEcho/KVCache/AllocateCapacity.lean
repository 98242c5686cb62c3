import VllmEcho.KVCache.Capacity

/-!
# The capacity check of `allocate_slots`

A call that passes the check completes, and the tables cover its tokens; a call that is refused has
only cleared entries outside the attention window.  Both for the two kinds of calls the scheduler
makes: a request without a table, and one whose tables cover its computed tokens.
-/

namespace VllmEcho

open Lib BlockPool SingleTypeKVCacheManager KVCacheManager.Slots List

variable {m : SingleTypeKVCacheManager} {id : ReqId} {cfg : KVCacheConfig} {request : RequestView}
  {args : AllocArgs} {p : BlockPool} {l' : List BlockRef} {mgr' : KVCacheManager}

/-! ## Covered tokens -/

/-- The table of a request covers the tokens of a call: `n` with lookahead, or in align mode the
`main` tokens of the model in front of the speculative blocks. -/
def Covers (m : SingleTypeKVCacheManager) (id : ReqId) (n main : Nat) : Prop :=
  match m.kvCacheSpec.alignSpeculativeBlocks with
  | some s => main ≤ ((m.blocksOf id).length - s) * m.blockSize
  | none => n ≤ (m.blocksOf id).length * m.blockSize

variable {main n : Nat}

theorem covers_of_required (h : requiredBlocks m.kvCacheSpec n main ≤ (m.blocksOf id).length) :
    Covers m id n main := by
  unfold Covers
  have hpos : 0 < m.blockSize := m.kvCacheSpec.blockSize_pos
  cases hs : m.kvCacheSpec.alignSpeculativeBlocks with
  | none => exact (cdiv_le_iff hpos).mp ((cdiv_le_requiredBlocks hs n main).trans h)
  | some s =>
    unfold KVCacheSpec.alignSpeculativeBlocks at hs
    split at hs <;> rename_i hkind
    · cases hs
      rw [requiredBlocks, hkind] at h
      apply (cdiv_le_iff hpos).mp
      exact Nat.le_sub_of_add_le h
    · cases hs

variable {k : Int}

namespace KVCacheManager

variable {mgr : KVCacheManager} {l : List BlockRef}

abbrev CoversCall (cfg : KVCacheConfig) (request : RequestView) (args : AllocArgs)
    (mgr : KVCacheManager) : Prop :=
  ∀ m ∈ mgr.singleTypeManagers, Covers m request.requestId (numTokensNeedSlot cfg request args)
    (numTokensMainModel cfg request args)

/-- With room for the call, the second loop and the caching at its end both complete. -/
theorem finishSlots_complete
    (h : Pending mgr l request.requestId (numTokensMainModel cfg request args))
    (hcfg : mgr.config = cfg)
    (hhashes : request.numTokens / cfg.hashBlockSize ≤ request.blockHashes.length)
    (hroom : RoomForCall cfg mgr l request args) :
    ∃ mgr₁ out mgr₂, mgr.allocateNewBlocks request args = .ok (mgr₁, out) ∧
      mgr₁.cacheNewBlocks request args = .ok mgr₂ ∧ CoversCall cfg request args mgr₂ := by
  subst hcfg
  obtain ⟨mgr₁, out, l₁, hok, hloop⟩ :=
    (allocateNewBlocks_rule h.toKVBase request h.ready).resolve_right
    fun ⟨_, _, _, hnot⟩ => hnot hroom
  have hcover : ∀ m ∈ mgr₁.singleTypeManagers,
      requiredBlocks m.kvCacheSpec (numTokensNeedSlot mgr.config request args)
        (numTokensMainModel mgr.config request args) ≤
          (m.blocksOf request.requestId).length := by
    intro m' hm'
    obtain ⟨m, -, hle⟩ := forall₂_mem (hloop.trace.forall₂
      (Q := fun _ m' => requiredBlocks m'.kvCacheSpec _ _ ≤ (m'.blocksOf request.requestId).length)
      fun p l m p' l' m' hr => by
        rw [hr.rowUpdate.spec, hr.2.2.2.1]
        exact Nat.le_max_right _ _) hm'
    exact hle
  rw [← hloop.config] at hhashes
  rcases cacheNewBlocks_rule (pending_done h hloop)
      (newRound_guard hloop) with
    ⟨mgr₂, l₂, hok₂, -, -, hcache⟩ | ⟨e, -, -, hnot⟩
  · refine ⟨mgr₁, out, mgr₂, hok, hok₂, fun m' hm' => ?_⟩
    rcases hcache with rfl | hcache
    · exact covers_of_required (hcover m' hm')
    obtain ⟨m, hm, hspec, hblocks⟩ := forall₂_mem (hcache.trace.forall₂
      (Q := fun m m' => m'.kvCacheSpec = m.kvCacheSpec ∧
        m'.blocksOf request.requestId = m.blocksOf request.requestId)
      fun _ _ _ _ _ _ hr => ⟨hr.1.rowUpdate.spec, hr.1.blocks⟩) hm'
    apply covers_of_required
    rw [hspec, hblocks]
    exact hcover m hm
  · exact absurd hhashes hnot

/-! ## The two kinds of calls -/

@[mk_iff]
structure RunningCall (mgr : KVCacheManager) (request : RequestView) (args : AllocArgs) : Prop where
  numNewComputed : args.numNewComputedTokens = 0
  noHits : ∀ L ∈ args.newComputedBlocks, L = []
  noExternal : args.numExternalComputedTokens = 0
  covered : ∀ m ∈ mgr.singleTypeManagers,
    request.numComputedTokens ≤ (m.blocksOf request.requestId).length * m.blockSize

structure FreshCall (mgr : KVCacheManager) (request : RequestView) (args : AllocArgs) : Prop where
  fresh : FreshRequest mgr request.requestId
  numComputed : request.numComputedTokens = 0
  noTokens : (∀ L ∈ args.newComputedBlocks, L = []) → args.numNewComputedTokens = 0
  caching : mgr.config.enableCaching = true ∨ ∀ L ∈ args.newComputedBlocks, L = []

/-- In align mode the call has at least as many blocks as the table, and with external tokens the
new tokens fit the last block of the computed ones. -/
def AlignFits (mgr : KVCacheManager) (request : RequestView) (args : AllocArgs) : Prop :=
  ∀ m ∈ mgr.singleTypeManagers, ∀ s ∈ m.kvCacheSpec.alignSpeculativeBlocks,
    (m.blocksOf request.requestId).length ≤
      cdiv (numTokensMainModel mgr.config request args) m.blockSize + s ∧
    (args.numExternalComputedTokens = 0 ∨
      cdiv (numTokensMainModel mgr.config request args) m.blockSize ≤
        cdiv (numLocalComputedTokens request args + args.numExternalComputedTokens)
          m.blockSize)

instance (mgr : KVCacheManager) (request : RequestView) (args : AllocArgs) :
    Decidable (AlignFits mgr request args) := by
  unfold AlignFits
  infer_instance

theorem FreshCall.running (h : FreshCall mgr request args)
    (hnil : ∀ L ∈ args.newComputedBlocks, L = []) (hext : args.numExternalComputedTokens = 0) :
    RunningCall mgr request args :=
  ⟨h.noTokens hnil, hnil, hext, fun m _ => by rw [h.numComputed]; exact Nat.zero_le _⟩

theorem total_le_tokens : totalComputedTokens cfg request args ≤
    numTokensMainModel cfg request args ∧
    totalComputedTokens cfg request args ≤ numTokensNeedSlot cfg request args := by
  unfold numTokensNeedSlot numTokensMainModel totalComputedTokens
  omega

theorem commitSlots_eq {mgr₁ mgr₂ mgr₃ : KVCacheManager} {out : List (List BlockRef)}
    (h₁ : mgr.takeComputedBlocks request args = .ok mgr₁)
    (h₂ : mgr₁.allocateNewBlocks request args = .ok (mgr₂, out))
    (h₃ : mgr₂.cacheNewBlocks request args = .ok mgr₃) :
    mgr.commitSlots request args = .ok (mgr₃, out) := by
  simp only [commitSlots, h₁, h₂, h₃, ok_bind, pure_eq_ok]

/-- What passes the capacity check bounds any cost that the predictions bound group by group. -/
theorem prediction_covers (h : KVBase mgr l) (cost : SingleTypeKVCacheManager → Nat)
    (hnum : mgr.numBlocksToAllocate request args = .ok k) (hle : k ≤ mgr.blockPool.getNumFreeBlocks)
    (hcost : ∀ m ∈ mgr.singleTypeManagers, ∀ v,
      m.getNumBlocksToAllocate mgr.blockPool request.requestId
        (numTokensNeedSlot mgr.config request args)
        (args.newComputedBlocks.getD m.kvCacheGroupId [])
        (numLocalComputedTokens request args + args.numExternalComputedTokens)
        (numTokensMainModel mgr.config request args) = .ok v →
      v = mgr.blockPool.numGpuBlocks + 1 ∨ (cost m : Int) ≤ v) :
    (mgr.singleTypeManagers.map cost).sum ≤ l.length := by
  obtain ⟨vs, hvs, rfl⟩ := numBlocksLoop_ok hnum
  have hfree : mgr.blockPool.getNumFreeBlocks = l.length := h.groups.free.numFree_eq
  have hlen : l.length ≤ mgr.blockPool.numGpuBlocks := by
    have hsub : l ⊆ range mgr.blockPool.numGpuBlocks := fun b hb =>
      mem_range.mpr ((h.groups.free.mem_iff b).mp hb).1
    simpa using (subperm_of_subset h.groups.free.nodup hsub).length_le
  have hall : List.Forall₂ (fun m v => v = (mgr.blockPool.numGpuBlocks : Int) + 1 ∨
      (cost m : Int) ≤ v) mgr.singleTypeManagers vs :=
    forall₂_iff_get.mpr ⟨hvs.length_eq, fun i h₁ h₂ =>
      hcost _ (get_mem _ _) _ ((forall₂_iff_get.mp hvs).2 i h₁ h₂)⟩
  have := (sum_cost_le hall).2 (by omega)
  omega

end KVCacheManager

/-! ## Fresh requests -/

variable {hits : List BlockRef} {numExternal numLocal : Nat}

theorem hitLength_le {spec : KVCacheSpec} (hhits : GroupHits p numLocal numExternal main spec hits)
    (hmain : numLocal + numExternal ≤ main) (hs : spec.alignSpeculativeBlocks.isSome) :
    hitLength spec hits numLocal numExternal ≤ cdiv main spec.blockSize := by
  have hle := hhits.align hs
  have hc := cdiv_mono hmain spec.blockSize
  have hext := hhits.external
  unfold hitLength
  unfold externalBlocks at hext ⊢
  split at hext <;> rename_i hpos
  · omega
  · omega

theorem SingleTypeKVCacheManager.HitRound.fresh {hitsOf : Nat → List BlockRef} {p' : BlockPool}
    {l : List BlockRef}
    {m' : SingleTypeKVCacheManager} (h : HitRound id hitsOf numLocal numExternal p l m p' l' m')
    (hnew : m.numCachedBlock.contains id = false) : (m'.blocksOf id).length =
        hitLength m.kvCacheSpec (hitsOf m.kvCacheGroupId) numLocal numExternal ∧
      m'.allocatedBlockReqs = m.allocatedBlockReqs := by
  rcases h with ⟨hc, -⟩ | ⟨-, -, hcap, -, htakes⟩
  · rw [hnew] at hc
    cases hc
  · refine ⟨?_, htakes.allocated⟩
    rw [htakes.blocks, length_append, hitTable_length, length_take]
    unfold hitLength
    omega

variable {ms ms' : List SingleTypeKVCacheManager} {total : Nat}

namespace KVCacheManager

variable {mgr : KVCacheManager} {l : List BlockRef}

def freshBlocks (cfg : KVCacheConfig) (request : RequestView) (args : AllocArgs)
    (m : SingleTypeKVCacheManager) : Nat :=
  newBlocksFor m.kvCacheSpec false
    (hitLength m.kvCacheSpec (args.newComputedBlocks.getD m.kvCacheGroupId [])
      (numLocalComputedTokens request args) args.numExternalComputedTokens)
    (numTokensNeedSlot cfg request args) (numTokensMainModel cfg request args)

theorem newBlocksFor_of_not (len : Nat)
    (h : ∀ s, m.kvCacheSpec.alignSpeculativeBlocks = some s → id ∉ m.allocatedBlockReqs) :
    newBlocksFor m.kvCacheSpec (decide (id ∈ m.allocatedBlockReqs)) len n main =
      newBlocksFor m.kvCacheSpec false len n main := by
  unfold newBlocksFor
  cases hs : m.kvCacheSpec.alignSpeculativeBlocks with
  | none => rfl
  | some s => simp only [decide_eq_false (h s hs)]

theorem sum_map_of_forall₂ {f g : SingleTypeKVCacheManager → Nat}
    (h : List.Forall₂ (fun m m' => f m' = g m) ms ms') : (ms'.map f).sum = (ms.map g).sum :=
  congrArg List.sum (map_eq_of_forall₂ h)

theorem not_allocated_of_fresh (h : KVInv mgr l) (hfresh : FreshRequest mgr id)
    (hm : m ∈ mgr.singleTypeManagers) :
    ∀ s, m.kvCacheSpec.alignSpeculativeBlocks = some s → id ∉ m.allocatedBlockReqs := by
  intro s hs hid
  have := (h.groups.tables m hm id).allocated s hs hid
  rw [(hfresh m hm).2, length_nil] at this
  omega

theorem freshRounds (h : KVInv mgr l) (hfresh : FreshRequest mgr request.requestId)
    (hloop : Looped (HitsOf request args) mgr l mgr' l') :
    List.Forall₂ (fun m m' => m ∈ mgr.singleTypeManagers ∧ m'.kvCacheSpec = m.kvCacheSpec ∧
      (m'.blocksOf request.requestId).length = hitLength m.kvCacheSpec
        (args.newComputedBlocks.getD m.kvCacheGroupId [])
        (numLocalComputedTokens request args) args.numExternalComputedTokens ∧
      callBlocks mgr.config request args m' = freshBlocks mgr.config request args m)
      mgr.singleTypeManagers mgr'.singleTypeManagers := by
  refine forall₂_with_mem (hloop.trace.forall₂ fun _ _ m _ _ m' hr hm => ?_)
  obtain ⟨hlen, halloc⟩ := hr.fresh (hfresh m hm).1
  refine ⟨hr.rowUpdate.spec, hlen, ?_⟩
  rw [callBlocks, newBlocks_eq, hr.rowUpdate.spec, halloc, hlen]
  exact newBlocksFor_of_not _ (not_allocated_of_fresh h hfresh hm)

section

variable (h : KVInv mgr l) (halign : AlignFits mgr request args)
  (hpos : 0 < numTokensMainModel mgr.config request args)
  (hhashes : request.numTokens / mgr.config.hashBlockSize ≤ request.blockHashes.length)
  (hnum : mgr.numBlocksToAllocate request args = .ok k) (hle : k ≤ mgr.blockPool.getNumFreeBlocks)
include h halign hpos hhashes hnum hle

theorem commitSlots_running (hcall : RunningCall mgr request args) :
    ∃ mgr' out, mgr.commitSlots request args = .ok (mgr', out) ∧
      CoversCall mgr.config request args mgr' := by
  have hcap := prediction_covers h.toKVBase (callBlocks mgr.config request args) hnum hle
    fun m hm v hv => by
      rw [getD_eq_nil hcall.noHits] at hv
      refine newBlocks_le_prediction hv ?_ fun s hs => (halign m hm s hs).1
      refine (windowBlocks_le _).trans (Nat.div_le_of_le_mul ?_)
      have hcov := hcall.covered m hm
      rw [Nat.mul_comm] at hcov
      unfold numLocalComputedTokens
      rw [hcall.numNewComputed, hcall.noExternal]
      exact hcov
  obtain ⟨mgr₁, out, mgr₂, hok₁, hok₂, hcover⟩ := finishSlots_complete
    (pending_of_inv h request.requestId hpos) rfl hhashes
    ⟨fun m hm s hs => (halign m hm s hs).1, hcap⟩
  exact ⟨mgr₂, out, commitSlots_eq (takeComputedBlocks_skip hcall.noHits hcall.noExternal)
    hok₁ hok₂, hcover⟩

/-- A call for a request without tables completes once the check has passed. -/
theorem commitSlots_fresh (hcall : FreshCall mgr request args) (hfit : FittingHits mgr request args)
    (hmax : numLocalComputedTokens request args + args.numExternalComputedTokens ≤
      mgr.config.maxModelLen) : ∃ mgr' out, mgr.commitSlots request args = .ok (mgr', out) ∧
      CoversCall mgr.config request args mgr' := by
  by_cases hskip : (∀ L ∈ args.newComputedBlocks, L = []) ∧ args.numExternalComputedTokens = 0
  · exact commitSlots_running h halign hpos hhashes hnum hle (hcall.running hskip.1 hskip.2)
  obtain ⟨htotal, hneed⟩ := @total_le_tokens mgr.config request args
  rw [totalComputedTokens, Nat.min_eq_left hmax] at htotal hneed
  have hnot := fun m hm => not_allocated_of_fresh h hcall.fresh (m := m) hm
  have hcap := prediction_covers h.toKVBase
    (fun m => hitCost mgr.blockPool (args.newComputedBlocks.getD · [])
        (numLocalComputedTokens request args) args.numExternalComputedTokens m +
      freshBlocks mgr.config request args m) hnum hle
    fun m hm v hv => by
      obtain ⟨hnew, hnil⟩ := hcall.fresh m hm
      refine (hitBlocks_le_prediction hv hnew hnil (hnot m hm) (hfit m hm) hneed htotal
        fun hs => ?_).imp id fun hsum => by
          exact hsum
      obtain ⟨s, hs⟩ := Option.isSome_iff_exists.mp hs
      exact (halign m hm s hs).2
  rw [sum_map_add] at hcap
  have hafford : Affordable mgr l request args
      (mgr.singleTypeManagers.map (freshBlocks mgr.config request args)).sum := by
    refine ⟨hcall.fresh, ?_, hcap⟩
    rw [h.caching]
    exact hcall.caching.imp id getD_eq_nil
  obtain ⟨mgr₁, l₁, hok, hloop, hrest⟩ := (allocateNewComputedBlocks_rule h.toKVBase request _
    hfit).resolve_right fun ⟨_, _, _, hnot⟩ => hnot hafford
  have hrounds := freshRounds h hcall.fresh hloop
  have hsum := sum_map_of_forall₂ (hrounds.imp fun _ _ hr => hr.2.2.2)
  obtain ⟨mgr₂, out, mgr₃, hok₂, hok₃, hcover⟩ := finishSlots_complete
    (pending_of_loop h hpos hfit hloop) hloop.config hhashes
    ⟨fun m' hm' s hs => by
      obtain ⟨m, hm, -, hspec, hlen, -⟩ := forall₂_mem hrounds hm'
      have hbs : m'.blockSize = m.kvCacheSpec.blockSize := by rw [blockSize, hspec]
      rw [hlen, hbs]
      exact (hitLength_le (hfit m hm) htotal (by rw [← hspec, hs]; rfl)).trans
        (Nat.le_add_right _ _), hsum ▸ hrest hafford⟩
  exact ⟨mgr₃, out, commitSlots_eq ((takeComputedBlocks_run hskip).trans hok) hok₂ hok₃, hcover⟩

end

/-! ## The whole call -/

/-- Only entries of one request outside the attention window have been cleared: hashes stay, and
reference counts differ by the cleared entries. -/
structure OnlySkipped (mgr : KVCacheManager) (id : ReqId) (total : Nat) (mgr' : KVCacheManager) :
    Prop where
  config : mgr'.config = mgr.config
  groups : List.Forall₂ (fun m m' => RowUpdate id m m' ∧
    Nulled mgr.blockPool.nullBlock (skippedBlocks m.kvCacheSpec total) (m.blocksOf id)
      (m'.blocksOf id) ∧
    m'.numCachedBlock = m.numCachedBlock ∧ m'.lastStateBlockIdx = m.lastStateBlockIdx ∧
    m'.allocatedBlockReqs = m.allocatedBlockReqs ∧
    m'.cachedBlocksThisStep = m.cachedBlocksThisStep)
    mgr.singleTypeManagers mgr'.singleTypeManagers
  hash : ∀ b, mgr'.blockPool.hash b = mgr.blockPool.hash b
  map : mgr'.blockPool.cachedBlockHashToBlock = mgr.blockPool.cachedBlockHashToBlock
  refCnt : ∀ b, b ≠ mgr.blockPool.nullBlock →
    (mgr'.blockPool.blocks b).refCnt - occAll mgr'.singleTypeManagers b =
      (mgr.blockPool.blocks b).refCnt - occAll mgr.singleTypeManagers b

theorem onlySkipped_of_loop (h : KVInv mgr l) (hloop : Looped (SkipRound id total) mgr l mgr' l') :
    OnlySkipped mgr id total mgr' where
  config := hloop.config
  groups := hloop.trace.forall₂_frame (Frame.refl _) (fun _ _ _ _ _ _ hr => hr.1.frame)
    fun _ _ _ _ _ _ hframe hr => ⟨hr.1.rowUpdate, hframe.nullBlock ▸ hr.1.nulled, hr.1.cached,
      hr.1.lastState, hr.1.allocated, hr.1.thisStep⟩
  hash b := hloop.trace.pool_eq fun _ _ _ _ _ _ hr => hr.1.hash b
  map := hloop.trace.pool_eq
    fun _ _ _ _ _ _ hr => hr.1.map
  refCnt b hb := by
    have hb' : b ≠ mgr'.blockPool.nullBlock := by rwa [hloop.null, ← h.null]
    rw [h.groups.core.refCnt_eq b hb, hloop.groups.core.refCnt_eq b hb']
    simp

theorem numBlocksLoop_total {hits : List (List BlockRef)}
    (hhits : ∀ m ∈ ms, m.numCachedBlock.contains id = true → hits.getD m.kvCacheGroupId [] = []) :
    ∃ k, numBlocksLoop p id n hits total main ms = .ok k := by
  induction ms with
  | nil => exact ⟨0, rfl⟩
  | cons m ms ih =>
    obtain ⟨k, hk⟩ := ih fun m' hm' => hhits m' (mem_cons_of_mem m hm')
    rw [numBlocksLoop, hk]
    rcases getNumBlocksToAllocate_eq p n total main (hhits m mem_cons_self) with hv | hv <;> rw [hv]
    · exact ⟨_, rfl⟩
    · exact ⟨_, rfl⟩

structure CapacityCall (mgr : KVCacheManager) (request : RequestView) (args : AllocArgs) :
    Prop where
  tokens : ¬ (args.numNewTokens = 0 ∧ args.numExternalComputedTokens = 0)
  hashes : request.numTokens / mgr.config.hashBlockSize ≤ request.blockHashes.length
  fits : numLocalComputedTokens request args + args.numExternalComputedTokens ≤
    mgr.config.maxModelLen
  call : RunningCall mgr request args ∨ FreshCall mgr request args

theorem FreshCall.congr (h : FreshCall mgr request args)
    (hskip : OnlySkipped mgr request.requestId total mgr') : FreshCall mgr' request args := by
  refine ⟨fun m' hm' => ?_, h.numComputed, h.noTokens, hskip.config ▸ h.caching⟩
  obtain ⟨m, hm, -, hnulled, hcached, -⟩ := forall₂_mem hskip.groups hm'
  obtain ⟨hnew, hnil⟩ := h.fresh m hm
  refine ⟨hcached ▸ hnew, length_eq_zero_iff.mp ?_⟩
  rw [hnulled.1, hnil, length_nil]

theorem CapacityCall.congr {total : Nat} (h : CapacityCall mgr request args)
    (hskip : OnlySkipped mgr request.requestId total mgr') : CapacityCall mgr' request args := by
  obtain ⟨htokens, hhashes, hfits, hcall⟩ := h
  refine ⟨htokens, hskip.config ▸ hhashes, hskip.config ▸ hfits, ?_⟩
  rcases hcall with h | h
  · refine Or.inl ⟨h.numNewComputed, h.noHits, h.noExternal, fun m' hm' => ?_⟩
    obtain ⟨m, hm, hrow, hnulled, -⟩ := forall₂_mem hskip.groups hm'
    rw [hnulled.1, blockSize, hrow.spec]
    exact h.covered m hm
  · exact Or.inr (h.congr hskip)

/-- `allocate_slots` returns: slots that cover the tokens if the prediction is at most the number of
free blocks, and otherwise a refusal that has only cleared entries. -/
theorem allocateSlots_capacity (h : KVInv mgr l) (hcall : CapacityCall mgr request args)
    (halign : AlignFits mgr request args) (hfit : FittingHits mgr request args) :
    ∃ mgr₁ k, mgr.removeSkippedBlocks request.requestId
        (totalComputedTokens mgr.config request args) = .ok mgr₁ ∧
      mgr₁.numBlocksToAllocate request args = .ok k ∧
      (k ≤ mgr₁.blockPool.getNumFreeBlocks → ∃ mgr' out,
        mgr.allocateSlots request args = .ok (mgr', some out) ∧
        CoversCall mgr.config request args mgr') ∧
      (mgr₁.blockPool.getNumFreeBlocks < k → mgr.allocateSlots request args = .ok (mgr₁, none) ∧
        OnlySkipped mgr request.requestId (totalComputedTokens mgr.config request args) mgr₁) := by
  obtain ⟨mgr₁, l₁, hok₁, hinv₁, hloop⟩ :=
    removeSkippedBlocks_spec h request.requestId (totalComputedTokens mgr.config request args)
  have hskip := onlySkipped_of_loop h hloop
  have hcall₁ := hcall.congr hskip
  have halign₁ : AlignFits mgr₁ request args := by
    intro m' hm' s hs
    obtain ⟨m, hm, hrow, hnulled, -⟩ := forall₂_mem hskip.groups hm'
    have hbs : m'.blockSize = m.blockSize := by rw [blockSize, hrow.spec]; rfl
    rw [hnulled.1, hbs, hskip.config]
    exact halign m hm s (by rwa [hrow.spec] at hs)
  have hfit₁ := hfit.congr hskip.config hloop.frame (hskip.groups.imp fun _ _ hr => hr.1)
  have hpos := numTokensMainModel_pos mgr₁.config request hcall.tokens
  obtain ⟨k, hnum⟩ : ∃ k, mgr₁.numBlocksToAllocate request args = .ok k := by
    refine numBlocksLoop_total (fun m hm hc => ?_)
    rcases hcall₁.call with hrun | hfresh
    · exact getD_eq_nil hrun.noHits _
    · rw [(hfresh.fresh m hm).1] at hc
      cases hc
  refine ⟨mgr₁, k, hok₁, hnum, fun hle => ?_, fun hlt => ⟨?_, hskip⟩⟩
  · obtain ⟨mgr', out, hcommit, hcover⟩ : ∃ mgr' out,
        mgr₁.commitSlots request args = .ok (mgr', out) ∧
        CoversCall mgr₁.config request args mgr' := by
      rcases hcall₁.call with hrun | hfresh
      · exact commitSlots_running hinv₁ halign₁ hpos hcall₁.hashes hnum hle hrun
      · exact commitSlots_fresh hinv₁ halign₁ hpos hcall₁.hashes hnum hle hfresh hfit₁ hcall₁.fits
    rw [hskip.config] at hcover
    refine ⟨mgr', out, ?_, hcover⟩
    rw [allocateSlots, if_neg hcall.tokens, hok₁, ok_bind, hnum, ok_bind, if_neg (not_lt.mpr hle),
      hcommit]
    rfl
  · rw [allocateSlots, if_neg hcall.tokens, hok₁, ok_bind, hnum, ok_bind, if_pos hlt]
    rfl

end KVCacheManager

end VllmEcho
