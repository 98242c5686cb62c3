import VllmEcho.KVCache.KVCacheManager
import VllmEcho.Lib.Heap
import VllmEcho.Request.Session

/-!
# The state of the scheduler

`vllm/v1/core/sched/scheduler.py`, and the subclass of `async_scheduler.py`.  The queues hold
requests by reference, so the state keeps the request objects apart from the dictionary
`requests`: a queue may still refer to an object that `requests` has forgotten.  The front end
gives every request an id of its own, and the id stands for the object.  Encoder-decoder models,
statistics, events and the worker-side payload of a step are left out.
-/

namespace VllmEcho

open Lib

/-! ## The output of a step

The payloads of new and cached requests are reduced to the request ids and their new blocks. -/

structure SchedulerOutput where
  scheduledNewReqs : List ReqId
  scheduledRunningReqs : List ReqId
  scheduledResumedReqs : List ReqId
  newBlockIds : Dict ReqId (List (List BlockRef))
  numScheduledTokens : Dict ReqId Int
  totalNumScheduledTokens : Int
  scheduledSpecDecodeTokens : Dict ReqId (List TokenId)
  scheduledEncoderInputs : Dict ReqId (List Nat)
  preemptedReqIds : List ReqId
  finishedReqIds : List ReqId
  freeEncoderMMHashes : List String

def SchedulerOutput.drafts (out : SchedulerOutput) (r : ReqId) : List TokenId :=
  (out.scheduledSpecDecodeTokens.get? r).getD []

/-! ## The calls into the KV cache manager

The scheduler's counters are signed: `num_new_tokens` and `num_computed_tokens` may in principle
be negative when `allocate_slots` is called.  Block counts of a negative number of tokens are no
blocks, as in Python, where a rounded-up quotient below the length of the table asks for nothing. -/

def Request.view (r : Request) : RequestView where
  requestId := r.requestId
  numTokens := r.numTokens
  numComputedTokens := r.numComputedTokens.toNat
  blockHashes := r.blockHashes
  skipReadingPrefixCache := r.skipReadingPrefixCache

structure SlotArgs where
  numNewTokens : Int
  numNewComputedTokens : Nat
  newComputedBlocks : List (List BlockRef)
  numLookaheadTokens : Nat
  numExternalComputedTokens : Nat
  delayCacheBlocks : Bool

namespace SlotArgs

def toAllocArgs (a : SlotArgs) : AllocArgs where
  numNewTokens := a.numNewTokens.toNat
  numNewComputedTokens := a.numNewComputedTokens
  newComputedBlocks := a.newComputedBlocks
  numLookaheadTokens := a.numLookaheadTokens
  numExternalComputedTokens := a.numExternalComputedTokens
  delayCacheBlocks := a.delayCacheBlocks

variable (cfg : KVCacheConfig) (r : Request) (a : SlotArgs)

def numLocalComputedTokens : Int := r.numComputedTokens + a.numNewComputedTokens

def totalComputedTokens : Int :=
  min (a.numLocalComputedTokens r + a.numExternalComputedTokens) cfg.maxModelLen

def numTokensMainModel : Int := a.totalComputedTokens cfg r + a.numNewTokens

def numTokensNeedSlot : Int :=
  min (a.numTokensMainModel cfg r + a.numLookaheadTokens) cfg.maxModelLen

def numTokensToCache : Int := min (a.numTokensMainModel cfg r) r.numTokens

end SlotArgs

namespace KVCacheManager

variable (mgr : KVCacheManager) (r : Request) (a : SlotArgs)

def commitSlotsFor : Except PyError (KVCacheManager × List (List BlockRef)) := do
  let mgr ← mgr.takeComputedBlocks r.view a.toAllocArgs
  let (p, ms, newBlocks) ← forManagers
    (fun p m => m.allocateNewBlocks p r.requestId (a.numTokensNeedSlot mgr.config r).toNat
      (a.numTokensMainModel mgr.config r).toNat)
    mgr.blockPool mgr.singleTypeManagers
  let mgr := { mgr with blockPool := p, singleTypeManagers := ms }
  let mgr ←
    (if !mgr.config.enableCaching || a.delayCacheBlocks then .ok mgr
    else mgr.cacheBlocksLoop r.view (a.numTokensToCache mgr.config r).toNat)
  pure (mgr, newBlocks)

def allocateSlotsFor : Except PyError (KVCacheManager × Option (List (List BlockRef))) :=
  if a.numNewTokens = 0 ∧ a.numExternalComputedTokens = 0 then
    .error (.valueError ("num_new_tokens must be greater than 0 when there are no " ++
      "external computed tokens"))
  else do
    let mgr ← mgr.removeSkippedBlocks r.requestId (a.totalComputedTokens mgr.config r).toNat
    let numBlocksToAllocate ← numBlocksLoop mgr.blockPool r.requestId
      (a.numTokensNeedSlot mgr.config r).toNat a.newComputedBlocks
      (a.numLocalComputedTokens r + a.numExternalComputedTokens).toNat
      (a.numTokensMainModel mgr.config r).toNat mgr.singleTypeManagers
    if mgr.blockPool.getNumFreeBlocks < numBlocksToAllocate then pure (mgr, none)
    else do
      let res ← mgr.commitSlotsFor r a
      pure (res.1, some res.2)

def canFitFullSequence : Except PyError Bool := do
  let fullNumTokens := min r.numTokens mgr.config.maxModelLen
  let numBlocksToAllocate ← numBlocksLoop mgr.blockPool r.requestId fullNumTokens
    a.newComputedBlocks (a.totalComputedTokens mgr.config r).toNat fullNumTokens
    mgr.singleTypeManagers
  pure (decide (numBlocksToAllocate ≤ mgr.blockPool.getNumFreeBlocks))

def getBlocks (requestId : ReqId) : List (List BlockRef) :=
  mgr.singleTypeManagers.map (·.blocksOf requestId)

end KVCacheManager

/-! ## Request queues

A queue is the list of its requests' ids, in deque order or as the heap's array; `lt` is
`Request.__lt__` on the requests as they are at the time of the call. -/

inductive SchedulingPolicy
  | fcfs
  | priority
  deriving DecidableEq, Repr

namespace RequestQueue

variable (policy : SchedulingPolicy) (lt : ReqId → ReqId → Bool) (q : List ReqId) (r : ReqId)

def addRequest : List ReqId :=
  match policy with
  | .fcfs => q ++ [r]
  | .priority => Heap.heappush lt q r

def popRequest : Except PyError (ReqId × List ReqId) :=
  match policy with
  | .fcfs =>
    match q with
    | [] => .error .indexError
    | r :: q => .ok (r, q)
  | .priority =>
    match Heap.heappop lt q with
    | none => .error .indexError
    | some r => .ok r

def peekRequest : Except PyError ReqId :=
  match q with
  | [] => .error .indexError
  | r :: _ => .ok r

def prependRequest : List ReqId :=
  match policy with
  | .fcfs => r :: q
  | .priority => addRequest .priority lt q r

def iterate : List ReqId :=
  match policy with
  | .fcfs => q
  | .priority => Heap.popAll lt q.length q

variable (other : List ReqId)

/-- `prepend_requests`: `extendleft` of a deque reverses, a heap takes the requests one by one. -/
def prependRequests : List ReqId :=
  (iterate policy lt other).foldl (prependRequest policy lt) q

variable (rs : List ReqId)

def removeRequests : List ReqId :=
  let kept := q.filter fun r => r ∉ rs
  match policy with
  | .fcfs => kept
  | .priority => Heap.heapify lt kept

variable {policy lt}

theorem addRequest_perm : (addRequest policy lt q r).Perm (r :: q) := by
  cases policy with
  | fcfs => exact List.perm_append_singleton r q
  | priority => exact Heap.heappush_perm lt q r

theorem prependRequest_perm : (prependRequest policy lt q r).Perm (r :: q) := by
  cases policy with
  | fcfs => exact List.Perm.refl _
  | priority => exact Heap.heappush_perm lt q r

theorem popRequest_spec {q q' : List ReqId} {r : ReqId} (h : popRequest policy lt q = .ok (r, q')) :
    peekRequest q = .ok r ∧ (r :: q').Perm q := by
  cases policy with
  | fcfs =>
    cases q with
    | nil => cases h
    | cons x xs =>
      cases h
      exact ⟨rfl, List.Perm.refl _⟩
  | priority =>
    unfold popRequest at h
    dsimp only at h
    split at h
    · cases h
    rename_i p hpop
    cases h
    have hspec := Heap.heappop_spec lt hpop
    refine ⟨?_, hspec.2⟩
    cases q with
    | nil => cases hspec.1
    | cons x xs =>
      show Except.ok x = Except.ok r
      rw [Option.some.inj hspec.1]

theorem peekRequest_mem {q : List ReqId} {r : ReqId} (h : peekRequest q = .ok r) : r ∈ q := by
  cases q with
  | nil => cases h
  | cons x xs =>
    cases h
    exact List.mem_cons_self

theorem iterate_perm : (iterate policy lt q).Perm q := by
  cases policy with
  | fcfs => exact List.Perm.refl q
  | priority => exact Heap.popAll_perm lt (Nat.le_refl _)

theorem prependRequests_perm : (prependRequests policy lt q other).Perm (other ++ q) := by
  have hfold : ∀ (rs q : List ReqId),
      (rs.foldl (prependRequest policy lt) q).Perm (rs ++ q) := by
    intro rs
    induction rs with
    | nil => exact fun q => List.Perm.refl q
    | cons r rs ih =>
      intro q
      -- the first request goes in front, the others are prepended after it
      apply (ih _).trans
      apply (List.Perm.append_left rs (prependRequest_perm q r)).trans
      exact List.perm_middle
  exact (hfold _ q).trans ((iterate_perm other).append_right q)

theorem removeRequests_perm : (removeRequests policy lt q rs).Perm (q.filter fun r => r ∉ rs) := by
  cases policy with
  | fcfs => exact List.Perm.refl _
  | priority => exact Heap.heapify_perm lt _

end RequestQueue

/-! ## The encoder cache manager -/

namespace MMFeature

def getNumEmbeds (f : MMFeature) : Nat :=
  match f.isEmbed with
  | none => f.length
  | some mask => mask.count true

/-- `embeds_cumsum[idx - 1]`; for `idx = 0` Python reads the last entry. -/
def cumsumBefore (mask : List Bool) (idx : Nat) : Nat :=
  if idx = 0 then mask.count true else (mask.take idx).count true

def getEmbedsIndicesInRange (f : MMFeature) (startIdx endIdx : Nat) : Nat × Nat :=
  match f.isEmbed with
  | none => (startIdx, endIdx)
  | some mask => (if 0 < startIdx then cumsumBefore mask startIdx else 0, cumsumBefore mask endIdx)

end MMFeature

structure EncoderCacheManager where
  cacheSize : Nat
  numFreeSlots : Int
  numFreeableSlots : Int
  cached : Dict String (List ReqId)
  freeable : Dict String Nat
  freed : List String

namespace EncoderCacheManager

def init (cacheSize : Nat) : EncoderCacheManager :=
  ⟨cacheSize, cacheSize, cacheSize, Dict.empty, Dict.empty, []⟩

def addRef (refs : List ReqId) (r : ReqId) : List ReqId := if r ∈ refs then refs else refs ++ [r]

variable (m : EncoderCacheManager) (requestId : ReqId) (f : MMFeature)

def checkAndUpdateCache : Except PyError (Bool × EncoderCacheManager) :=
  match m.cached.get? f.identifier with
  | none => .ok (false, m)
  | some [] =>
    match m.freeable.get? f.identifier with
    | none => .error .keyError
    | some numEncoderEmbeds =>
      .ok (true,
        { m with
          freeable := m.freeable.erase f.identifier
          numFreeableSlots := m.numFreeableSlots - numEncoderEmbeds
          cached := m.cached.set f.identifier [requestId] })
  | some refs => .ok (true, { m with cached := m.cached.set f.identifier (addRef refs requestId) })

def evictLoop (numEmbeds : Int) : Nat → EncoderCacheManager → Except PyError EncoderCacheManager
  | 0, m => if m.numFreeSlots < numEmbeds then .error .keyError else .ok m
  | fuel + 1, m =>
    if m.numFreeSlots < numEmbeds then
      match m.freeable.entries with
      | [] => .error .keyError
      | (mmHash, numFreeEmbeds) :: _ =>
        if m.cached.contains mmHash then
          evictLoop numEmbeds fuel
            { m with
              freeable := m.freeable.erase mmHash
              cached := m.cached.erase mmHash
              freed := m.freed ++ [mmHash]
              numFreeSlots := m.numFreeSlots + numFreeEmbeds }
        else .error .keyError
    else .ok m

def canAllocate (encoderComputeBudget : Int) (numEmbedsToSchedule : Nat) :
    Except PyError (Bool × EncoderCacheManager) :=
  if encoderComputeBudget < f.getNumEmbeds then .ok (false, m)
  else
    let numEmbeds : Int := f.getNumEmbeds + numEmbedsToSchedule
    if numEmbeds ≤ m.numFreeSlots then .ok (true, m)
    else if m.numFreeableSlots < numEmbeds then .ok (false, m)
    else do
      let m ← evictLoop numEmbeds m.freeable.entries.length m
      pure (true, m)

def allocate : Except PyError EncoderCacheManager := do
  assertThat (decide ((f.getNumEmbeds : Int) ≤ m.numFreeSlots))
    "self.num_free_slots >= num_encoder_embeds"
  assertThat (decide ((f.getNumEmbeds : Int) ≤ m.numFreeableSlots))
    "self.num_freeable_slots >= num_encoder_embeds"
  pure
    { m with
      cached := m.cached.set f.identifier (addRef ((m.cached.get? f.identifier).getD []) requestId)
      numFreeSlots := m.numFreeSlots - f.getNumEmbeds
      numFreeableSlots := m.numFreeableSlots - f.getNumEmbeds }

def freeEncoderInput : EncoderCacheManager :=
  match m.cached.get? f.identifier with
  | none | some [] => m
  | some refs =>
    let rest := refs.filter (· ≠ requestId)
    if rest = [] then
      { m with
        cached := m.cached.set f.identifier rest
        freeable := m.freeable.set f.identifier f.getNumEmbeds
        numFreeableSlots := m.numFreeableSlots + f.getNumEmbeds }
    else { m with cached := m.cached.set f.identifier rest }

variable (r : Request)

def cachedInputs : List MMFeature :=
  r.mmFeatures.filter fun f => m.cached.contains f.identifier

def free : EncoderCacheManager :=
  (m.cachedInputs r).foldl (fun m f => m.freeEncoderInput r.requestId f) m

def freeComputedInputs : EncoderCacheManager :=
  ((m.cachedInputs r).filter fun f => decide ((f.stop : Int) ≤ r.numComputedTokens)).foldl
    (fun m f => m.freeEncoderInput r.requestId f) m

def getFreedMMHashes : List String × EncoderCacheManager :=
  (m.freed, { m with freed := [] })

end EncoderCacheManager

inductive PauseState
  | unpaused
  | pausedNew
  | pausedAll
  deriving DecidableEq, Repr

/-- What `Scheduler.__init__` reads. `mambaSplit` is the block size of the cache when
`need_mamba_block_aligned_split` holds, and `maxLoras` is present with a LoRA configuration. -/
structure SchedulerConfig where
  policy : SchedulingPolicy
  asyncScheduling : Bool
  maxNumRunningReqs : Nat
  maxNumScheduledTokens : Nat
  maxModelLen : Nat
  longPrefillTokenThreshold : Nat
  enableChunkedPrefill : Bool
  disableChunkedMMInput : Bool
  schedulerReserveFullIsl : Bool
  maxNumEncoderInputTokens : Nat
  numSpecTokens : Nat
  numLookaheadTokens : Nat
  useEagle : Bool
  maxLoras : Option Nat
  blockSize : Nat
  mambaSplit : Option Nat
  useV2ModelRunner : Bool
  hasConnector : Bool
  hasEcConnector : Bool
  recomputeKvLoadFailures : Bool
  hasher : Option BlockHasher

structure Scheduler where
  objects : ReqId → Request
  requests : List ReqId
  waiting : List ReqId
  skippedWaiting : List ReqId
  running : List ReqId
  finishedReqIds : List ReqId
  numWaitingForStreamingInput : Int
  finishedRecvingKvReqIds : List ReqId
  failedRecvingKvReqIds : List ReqId
  prevStepScheduledReqIds : List ReqId
  kvCacheManager : KVCacheManager
  encoderCacheManager : EncoderCacheManager
  pauseState : PauseState

/-- What the KV connector, the grammar compiler and the encoder connector answer during one call. -/
structure CallEnv where
  /-- `connector.get_num_new_matched_tokens`: the external tokens, if known, and whether they are
  loaded asynchronously -/
  getNumNewMatchedTokens : ReqId → Nat → Option Nat × Bool
  /-- `connector.request_finished`: whether the blocks must stay until the transfer is done -/
  requestFinished : ReqId → Bool
  /-- the grammar of a structured-output request is compiled -/
  grammarReady : ReqId → Bool
  /-- `ec_connector.has_cache_item` -/
  hasCacheItem : String → Bool

def RequestStatus.isBlockedWaiting : RequestStatus → Bool
  | .waitingForStructuredOutputGrammar | .waitingForRemoteKvs | .waitingForStreamingReq => true
  | _ => false

namespace Scheduler

variable (cfg : SchedulerConfig) (s : Scheduler)

def before (a b : ReqId) : Bool := (s.objects a).before (s.objects b)

variable (r : ReqId)

def modify (f : Request → Request) : Scheduler :=
  { s with objects := fun q => if q = r then f (s.objects q) else s.objects q }

def isLive : Bool := decide (r ∈ s.requests) && !(s.objects r).isFinished

def enqueueWaitingRequest : Scheduler :=
  if (s.objects r).status.isBlockedWaiting then
    { s with skippedWaiting := RequestQueue.addRequest cfg.policy s.before s.skippedWaiting r }
  else { s with waiting := RequestQueue.addRequest cfg.policy s.before s.waiting r }

def preempted (r : Request) : Request :=
  { r with
    status := .preempted
    numComputedTokens := 0
    specTokenIds := []
    numPreemptions := r.numPreemptions + 1 }

def preemptRequest : Except PyError Scheduler := do
  assertThat (decide ((s.objects r).status = .running)) "Only running requests can be preempted"
  let kv ← s.kvCacheManager.free r
  let s :=
    { s with
      kvCacheManager := kv
      encoderCacheManager := s.encoderCacheManager.free (s.objects r) }
  let s := s.modify r preempted
  pure { s with waiting := RequestQueue.prependRequest cfg.policy s.before s.waiting r }

def freeBlocks : Except PyError Scheduler := do
  assertThat (s.objects r).isFinished "request.is_finished()"
  let kv ← s.kvCacheManager.free r
  pure { s with kvCacheManager := kv, requests := s.requests.filter (· ≠ r) }

def connectorFinished (env : CallEnv) (r : ReqId) : Except PyError (Scheduler × Bool) :=
  if cfg.hasConnector then do
    let kv ← s.kvCacheManager.removeSkippedBlocks r (s.objects r).numTokens
    pure ({ s with kvCacheManager := kv }, env.requestFinished r)
  else .ok (s, false)

def freeRequest (env : CallEnv) (r : ReqId) (delayFreeBlocks : Bool) :
    Except PyError Scheduler := do
  assertThat (s.objects r).isFinished "request.is_finished()"
  let (s, connectorDelayFreeBlocks) ← s.connectorFinished cfg env r
  let s :=
    { s with
      encoderCacheManager := s.encoderCacheManager.free (s.objects r)
      finishedReqIds := if r ∈ s.finishedReqIds then s.finishedReqIds else s.finishedReqIds ++ [r] }
  if delayFreeBlocks || connectorDelayFreeBlocks then pure s else s.freeBlocks r

def updateRequestAsSession (session : ReqId) (update : StreamingUpdate) :
    Except PyError Scheduler := do
  let r ← VllmEcho.updateRequestAsSession cfg.hasher (s.objects session) update
  let s :=
    if (s.objects session).status = .waitingForStreamingReq then
      { s with numWaitingForStreamingInput := s.numWaitingForStreamingInput - 1 }
    else s
  pure (s.modify session fun _ => r)

/-- `remove_all`: the first occurrence of a single item, every occurrence of several. -/
def removeAll (lst items : List ReqId) : List ReqId :=
  match items with
  | [] => lst
  | [r] => lst.erase r
  | rs => lst.filter fun r => r ∉ rs

end Scheduler

end VllmEcho
