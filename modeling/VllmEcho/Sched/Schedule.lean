import VllmEcho.Sched.Scheduler

/-!
# One scheduling step

`Scheduler.schedule`: the loop over the running requests with its preemptions, the loop over the
waiting requests, and the bookkeeping of `_update_after_schedule`.  `RecomputeScheduler` has a copy
of the method; what the copy does in its own way is a parameter of the loops here.
-/

namespace VllmEcho

open Lib RequestQueue

/-! ## Encoder inputs

`_try_schedule_encoder_inputs`: which multimodal items of a request are encoded in this step, and
how many of its tokens can be scheduled given the encoder budget and cache. -/

structure EncoderPlan where
  encoderInputsToSchedule : List Nat
  numNewTokens : Int
  encoderComputeBudget : Int
  externalLoadEncoderInput : List Nat
  mmHashesToSchedule : List String
  numEmbedsToSchedule : Nat
  cache : EncoderCacheManager

namespace EncoderPlan

def start (numNewTokens encoderComputeBudget : Int) (cache : EncoderCacheManager) : EncoderPlan :=
  ⟨[], numNewTokens, encoderComputeBudget, [], [], 0, cache⟩

variable (cfg : SchedulerConfig) (env : CallEnv) (requestId : ReqId)
  (numComputedTokens : Int) (shift : Nat)

variable (p : EncoderPlan) (f : MMFeature)

def embedsInRange : Nat × Nat :=
  let startIdxRel := (max 0 (numComputedTokens - f.offset)).toNat
  let endIdxRel := (min (f.length : Int) (numComputedTokens + p.numNewTokens - f.offset)).toNat
  f.getEmbedsIndicesInRange startIdxRel endIdxRel

variable (i : Nat)

def take : EncoderPlan :=
  if cfg.hasEcConnector && env.hasCacheItem f.identifier then
    { p with
      mmHashesToSchedule := p.mmHashesToSchedule ++ [f.identifier]
      externalLoadEncoderInput := p.externalLoadEncoderInput ++ [i]
      numEmbedsToSchedule := p.numEmbedsToSchedule + f.getNumEmbeds }
  else
    { p with
      numEmbedsToSchedule := p.numEmbedsToSchedule + f.getNumEmbeds
      encoderComputeBudget := p.encoderComputeBudget - f.getNumEmbeds
      mmHashesToSchedule := p.mmHashesToSchedule ++ [f.identifier]
      encoderInputsToSchedule := p.encoderInputsToSchedule ++ [i] }

/-- An item that is not cached: the body of the loop from the check of `disable_chunked_mm_input`
on.  The flag says whether the loop goes on. -/
def place : Except PyError (EncoderPlan × Bool) :=
  if cfg.disableChunkedMMInput ∧ numComputedTokens < f.offset ∧
      numComputedTokens + p.numNewTokens < f.stop then
    -- Only part of the item would be covered: stop before it.
    .ok ({ p with numNewTokens := max 0 (f.offset - (numComputedTokens + shift)) }, false)
  else do
    let (fits, cache) ←
      p.cache.canAllocate f p.encoderComputeBudget p.numEmbedsToSchedule
    let p := { p with cache := cache }
    if !fits then
      let room :=
        if numComputedTokens + shift < f.offset then f.offset - (numComputedTokens + shift) else 0
      pure ({ p with numNewTokens := room }, false)
    -- No embedding among the scheduled tokens: the item is not needed yet.
    else if (p.embedsInRange numComputedTokens f).2 = (p.embedsInRange numComputedTokens f).1 then
      pure (p, true)
    else pure (p.take cfg env f i, true)

def item : Except PyError (EncoderPlan × Bool) :=
  if numComputedTokens + p.numNewTokens + shift ≤ f.offset then .ok (p, false)
  else if (f.stop : Int) ≤ numComputedTokens then .ok (p, true)
  else if f.identifier ∈ p.mmHashesToSchedule then .ok (p, true)
  else do
    let (hit, cache) ← p.cache.checkAndUpdateCache requestId f
    let p := { p with cache := cache }
    if hit then pure (p, true) else p.place cfg env numComputedTokens shift f i

def loop : List (MMFeature × Nat) → EncoderPlan → Except PyError EncoderPlan
  | [], p => .ok p
  | (f, i) :: fs, p => do
    let (p, goOn) ← p.item cfg env requestId numComputedTokens shift f i
    if goOn then loop fs p else pure p

end EncoderPlan

variable (cfg : SchedulerConfig) (env : CallEnv) (r : Request) (numNewTokens : Int)

def tryScheduleEncoderInputs (numComputedTokens numNewTokens encoderComputeBudget : Int)
    (cache : EncoderCacheManager) : Except PyError EncoderPlan :=
  let p := EncoderPlan.start numNewTokens encoderComputeBudget cache
  if numNewTokens = 0 || !r.hasEncoderInputs then .ok p
  else
    EncoderPlan.loop cfg env r.requestId numComputedTokens (if cfg.useEagle then 1 else 0)
      r.mmFeatures.zipIdx p

def allocateEncoderInputs (r : Request) :
    List Nat → EncoderCacheManager → Except PyError EncoderCacheManager
  | [], cache => .ok cache
  | i :: is, cache =>
    match r.mmFeatures[i]? with
    | none => .error .indexError
    | some f => do
      let cache ← cache.allocate r.requestId f
      allocateEncoderInputs r is cache

structure StepState where
  sched : Scheduler
  scheduledNewReqs : List ReqId
  scheduledResumedReqs : List ReqId
  scheduledRunningReqs : List ReqId
  preemptedReqs : List ReqId
  -- a local variable of `RecomputeScheduler.schedule` only
  recomputedReqs : List ReqId
  reqToNewBlocks : Dict ReqId (List (List BlockRef))
  numScheduledTokens : Dict ReqId Int
  tokenBudget : Int
  scheduledEncoderInputs : Dict ReqId (List Nat)
  encoderComputeBudget : Int
  scheduledSpecDecodeTokens : Dict ReqId (List TokenId)
  scheduledLoras : List Nat
  stepSkippedWaiting : List ReqId

variable (st : StepState) (s : Scheduler) (kv : KVCacheManager)

namespace StepState

def start : StepState where
  sched := { s with kvCacheManager := s.kvCacheManager.newStepStarts }
  scheduledNewReqs := []
  scheduledResumedReqs := []
  scheduledRunningReqs := []
  preemptedReqs := []
  recomputedReqs := []
  reqToNewBlocks := Dict.empty
  numScheduledTokens := Dict.empty
  tokenBudget := if s.pauseState = .pausedAll then 0 else cfg.maxNumScheduledTokens
  scheduledEncoderInputs := Dict.empty
  encoderComputeBudget := cfg.maxNumEncoderInputTokens
  scheduledSpecDecodeTokens := Dict.empty
  scheduledLoras := []
  stepSkippedWaiting := []

def req (r : ReqId) : Request := st.sched.objects r

def modify (st : StepState) (r : ReqId) (f : Request → Request) : StepState :=
  { st with sched := st.sched.modify r f }

def setEncoderCache (cache : EncoderCacheManager) : StepState :=
  { st with sched := { st.sched with encoderCacheManager := cache } }

def setKV : StepState :=
  { st with sched := { st.sched with kvCacheManager := kv } }

end StepState

/-- Where the two `schedule` methods differ: how a running request makes room, and for a waiting
request how it is promoted, how many tokens it has to schedule, how its blocks are allocated and
which drafts it takes along. -/
structure ScheduleVariant where
  makeRoom : StepState → Nat → Except PyError (ReqId × StepState × Nat)
  promote : Scheduler → ReqId → Except PyError (Scheduler × Bool)
  waitingNumTokens : Request → Nat
  allocateWaiting : KVCacheManager → Request → SlotArgs →
    Except PyError (KVCacheManager × Option (List (List BlockRef)))
  takeDrafts : StepState → ReqId → Int → StepState

/-! ## How many tokens -/

def mambaBlockAlignedSplit (numNewLocalComputedTokens numExternalComputedTokens : Nat) :
    Except PyError Int :=
  match cfg.mambaSplit with
  | none => .ok numNewTokens
  | some blockSize => do
    assertThat (decide (numExternalComputedTokens = 0)) "External KV connector is not verified yet"
    let numComputedTokens : Int :=
      r.numComputedTokens + numNewLocalComputedTokens + numExternalComputedTokens
    if numComputedTokens < max (r.numPromptTokens : Int) ((r.numTokens : Int) - 1) then
      let lastCachePosition : Int := (r.numTokens : Int) - (r.numTokens % blockSize : Nat)
      let lastCachePosition : Int :=
        if cfg.useEagle then max (lastCachePosition - blockSize) 0 else lastCachePosition
      if numComputedTokens + numNewTokens < lastCachePosition then
        pure (numNewTokens / blockSize * blockSize)
      else if numComputedTokens < lastCachePosition ∧
          lastCachePosition < numComputedTokens + numNewTokens then
        pure (lastCachePosition - numComputedTokens)
      else pure numNewTokens
    else pure numNewTokens

def capLongPrefill : Int :=
  if 0 < cfg.longPrefillTokenThreshold ∧ (cfg.longPrefillTokenThreshold : Int) < numNewTokens then
    cfg.longPrefillTokenThreshold
  else numNewTokens

def Request.reachesMaxTokens : Bool :=
  decide (0 < r.numOutputPlaceholders) &&
    decide ((r.numPromptTokens : Int) + r.maxTokens ≤
      r.numComputedTokens + 2 - r.numOutputPlaceholders)

variable (tokenBudget : Int)

def runningNumNewTokens : Int :=
  let numNewTokens :=
    capLongPrefill cfg (r.numTokensWithSpec + r.numOutputPlaceholders - r.numComputedTokens)
  min (min numNewTokens tokenBudget) ((cfg.maxModelLen : Int) - 1 - r.numComputedTokens)

def planRunning (encoderComputeBudget : Int) (cache : EncoderCacheManager) :
    Except PyError EncoderPlan := do
  let p ← tryScheduleEncoderInputs cfg env r r.numComputedTokens
    (runningNumNewTokens cfg r tokenBudget) encoderComputeBudget cache
  let numNewTokens ← mambaBlockAlignedSplit cfg r p.numNewTokens 0 0
  pure { p with numNewTokens := numNewTokens }

/-! ## Running requests -/

def lowestPriority (objects : ReqId → Request) : List ReqId → ReqId → ReqId
  | [], best => best
  | r :: rs, best =>
    if (objects best).priority < (objects r).priority ∨
        ((objects best).priority = (objects r).priority ∧
          (objects best).arrivalTime < (objects r).arrivalTime) then
      lowestPriority objects rs r
    else lowestPriority objects rs best

def victim : Except PyError ReqId :=
  match cfg.policy with
  | .priority =>
    match s.running with
    | [] => .error (.valueError "max() arg is an empty sequence")
    | r :: rs => .ok (lowestPriority s.objects rs r)
  | .fcfs =>
    match s.running.getLast? with
    | none => .error .indexError
    | some r => .ok r

def StepState.takeBack (r : ReqId) : Except PyError StepState :=
  match st.numScheduledTokens.get? r with
  | none => .error .keyError
  | some n =>
    if st.reqToNewBlocks.contains r then
      .ok
        { st with
          scheduledRunningReqs := st.scheduledRunningReqs.erase r
          tokenBudget := st.tokenBudget + n
          numScheduledTokens := st.numScheduledTokens.erase r
          reqToNewBlocks := st.reqToNewBlocks.erase r
          scheduledSpecDecodeTokens := st.scheduledSpecDecodeTokens.erase r
          scheduledEncoderInputs := st.scheduledEncoderInputs.erase r
          encoderComputeBudget := st.encoderComputeBudget +
            (((st.scheduledEncoderInputs.get? r).getD []).map fun i =>
              (((st.req r).mmFeatures[i]?).map MMFeature.getNumEmbeds).getD 0).sum }
    else .error .keyError

variable (reqIndex : Nat)

/-- Removing the victim from `running`: the last entry, or with priorities the first occurrence of
the request, which may already be scheduled. -/
def removeVictim (r : ReqId) : Except PyError (StepState × Nat) :=
  match cfg.policy with
  | .fcfs => .ok ({ st with sched := { st.sched with running := st.sched.running.dropLast } },
    reqIndex)
  | .priority =>
    let st := { st with sched := { st.sched with running := st.sched.running.erase r } }
    if r ∈ st.scheduledRunningReqs then do
      let st ← st.takeBack r
      pure (st, reqIndex - 1)
    else .ok (st, reqIndex)

def preemptOne : Except PyError (ReqId × StepState × Nat) := do
  let r ← victim cfg st.sched
  let (st, reqIndex) ← removeVictim cfg st reqIndex r
  let sched ← st.sched.preemptRequest cfg r
  pure (r, { st with sched := sched, preemptedReqs := st.preemptedReqs ++ [r] }, reqIndex)

def runningSlotArgs : SlotArgs where
  numNewTokens := numNewTokens
  numNewComputedTokens := 0
  newComputedBlocks := []
  numLookaheadTokens := cfg.numLookaheadTokens
  numExternalComputedTokens := 0
  delayCacheBlocks := false

/-- The inner loop: allocate, and make room until there is enough or the request itself is gone.
Every round but the last takes one request out of `running`. -/
def allocateOrMakeRoom (v : ScheduleVariant) (cfg : SchedulerConfig) (request : ReqId)
    (numNewTokens : Int) :
    Nat → StepState → Nat → Except PyError (StepState × Nat × Option (List (List BlockRef)))
  | 0, _, _ => .error .indexError
  | fuel + 1, st, reqIndex => do
    let (kv, newBlocks) ← st.sched.kvCacheManager.allocateSlotsFor (st.req request)
      (runningSlotArgs cfg numNewTokens)
    let st := st.setKV kv
    match newBlocks with
    | some blocks => pure (st, reqIndex, some blocks)
    | none => do
      let (r, st, reqIndex) ← v.makeRoom st reqIndex
      if r = request then pure (st, reqIndex, none)
      else allocateOrMakeRoom v cfg request numNewTokens fuel st reqIndex

def scheduledDrafts : List TokenId :=
  r.specTokenIds.take
    (numNewTokens + r.numComputedTokens - r.numTokens - r.numOutputPlaceholders).toNat

variable (request : ReqId)

def StepState.scheduleRunning (p : EncoderPlan) (newBlocks : List (List BlockRef)) :
    Except PyError StepState := do
  let drafts := scheduledDrafts (st.req request) p.numNewTokens
  let cache ← allocateEncoderInputs (st.req request) p.encoderInputsToSchedule
    st.sched.encoderCacheManager
  let cache ← allocateEncoderInputs (st.req request) p.externalLoadEncoderInput cache
  let st :=
    { st with
      scheduledRunningReqs := st.scheduledRunningReqs ++ [request]
      reqToNewBlocks := st.reqToNewBlocks.set request newBlocks
      numScheduledTokens := st.numScheduledTokens.set request p.numNewTokens
      tokenBudget := st.tokenBudget - p.numNewTokens
      scheduledSpecDecodeTokens :=
        if drafts = [] then st.scheduledSpecDecodeTokens
        else st.scheduledSpecDecodeTokens.set request drafts
      scheduledEncoderInputs :=
        if p.encoderInputsToSchedule = [] then st.scheduledEncoderInputs
        else st.scheduledEncoderInputs.set request p.encoderInputsToSchedule
      encoderComputeBudget :=
        if p.encoderInputsToSchedule = [] then st.encoderComputeBudget
        else p.encoderComputeBudget }
  pure ((st.setEncoderCache cache).modify request fun r => { r with specTokenIds := [] })

def runningRound (v : ScheduleVariant) : Except PyError (StepState × Option Nat) :=
  if (st.req request).reachesMaxTokens then .ok (st, some (reqIndex + 1))
  else do
    let p ← planRunning cfg env (st.req request) st.tokenBudget st.encoderComputeBudget
      st.sched.encoderCacheManager
    let st := st.setEncoderCache p.cache
    if p.numNewTokens = 0 then pure (st, some (reqIndex + 1))
    else do
      let (st, reqIndex, newBlocks) ← allocateOrMakeRoom v cfg request p.numNewTokens
        (st.sched.running.length + 1) st reqIndex
      match newBlocks with
      | none => pure (st, none)
      | some blocks => do
        let st ← st.scheduleRunning request p blocks
        pure (st, some (reqIndex + 1))

/-- The loop over the running requests.  A round moves the index closer to the end of the list, so
that as many rounds as there are requests suffice. -/
def runningLoop (v : ScheduleVariant) (cfg : SchedulerConfig) (env : CallEnv) :
    Nat → StepState → Nat → Except PyError StepState
  | 0, st, _ => .ok st
  | fuel + 1, st, reqIndex =>
    if 0 < st.tokenBudget then
      match st.sched.running[reqIndex]? with
      | none => .ok st
      | some request => do
        let (st, next) ← runningRound cfg env st reqIndex request v
        match next with
        | none => pure st
        | some reqIndex => runningLoop v cfg env fuel st reqIndex
    else .ok st

def StepState.recordLoras : Except PyError StepState :=
  match cfg.maxLoras with
  | none => .ok st
  | some maxLoras => do
    let loras := ((st.scheduledRunningReqs.filterMap fun r => (st.req r).loraRequest).map
      LoRARequest.loraIntId).filter (0 < ·)
    assertThat (decide (loras.dedup.length ≤ maxLoras))
      "len(scheduled_loras) <= self.lora_config.max_loras"
    pure { st with scheduledLoras := loras.dedup }

/-! ## Waiting requests -/

inductive WaitingQueue
  | waiting
  | skippedWaiting
  deriving DecidableEq, Repr

namespace Scheduler

variable (cfg : SchedulerConfig) (s : Scheduler)

def queue : WaitingQueue → List ReqId
  | .waiting => s.waiting
  | .skippedWaiting => s.skippedWaiting

def setQueue (q : List ReqId) : WaitingQueue → Scheduler
  | .waiting => { s with waiting := q }
  | .skippedWaiting => { s with skippedWaiting := q }

def selectWaitingQueueForScheduling : Option WaitingQueue :=
  match cfg.policy, s.waiting, s.skippedWaiting with
  | _, [], [] => none
  | _, [], _ :: _ => some .skippedWaiting
  | _, _ :: _, [] => some .waiting
  | .fcfs, _ :: _, _ :: _ => some .skippedWaiting
  | .priority, w :: _, k :: _ => some (if s.before w k then .waiting else .skippedWaiting)

def keepValidBlocks (r : ReqId) : Except PyError KVCacheManager :=
  if (s.objects r).numComputedTokens ≠ 0 then
    s.kvCacheManager.cacheBlocks (s.objects r).view (s.objects r).numComputedTokens.toNat
  else s.kvCacheManager.free r

/-- The request after its KV cache has been loaded; on a full hit the last token is recomputed. -/
def loaded : Request :=
  let computed :=
    if r.numComputedTokens = r.numTokens then (r.numTokens : Int) - 1 else r.numComputedTokens
  { r with
    numComputedTokens := computed
    numCachedTokens := if r.numCachedTokens < 0 then computed else r.numCachedTokens }

def updateWaitingForRemoteKv (r : ReqId) : Except PyError Scheduler := do
  assertThat cfg.hasConnector "self.connector is not None"
  if r ∈ s.failedRecvingKvReqIds then do
    let kv ← s.keepValidBlocks r
    pure
      { s with
        kvCacheManager := kv
        failedRecvingKvReqIds := s.failedRecvingKvReqIds.filter (· ≠ r)
        finishedRecvingKvReqIds := s.finishedRecvingKvReqIds.filter (· ≠ r) }
  else do
    let kv ← s.kvCacheManager.cacheBlocks (s.objects r).view (s.objects r).numComputedTokens.toNat
    pure
      { s.modify r loaded with
        kvCacheManager := kv
        finishedRecvingKvReqIds := s.finishedRecvingKvReqIds.filter (· ≠ r) }

def tryPromoteBlockedWaitingRequest (env : CallEnv) (r : ReqId) :
    Except PyError (Scheduler × Bool) :=
  match (s.objects r).status with
  | .waitingForRemoteKvs =>
    if r ∈ s.finishedRecvingKvReqIds then do
      let s ← s.updateWaitingForRemoteKv cfg r
      pure (s.modify r fun q =>
        { q with status := if q.numPreemptions ≠ 0 then .preempted else .waiting }, true)
    else .ok (s, false)
  | .waitingForStructuredOutputGrammar =>
    if env.grammarReady r then
      .ok (s.modify r fun q => { q with status := .waiting }, true)
    else .ok (s, false)
  | .waitingForStreamingReq => do
    assertThat (((s.objects r).streamingQueue.getD []).isEmpty) "not request.streaming_queue"
    pure (s, false)
  | _ => .error (.assertionError "Unexpected blocked waiting status in promotion")

end Scheduler

variable (which : WaitingQueue)

def StepState.skip : Except PyError StepState := do
  let (r, q) ← popRequest cfg.policy st.sched.before (st.sched.queue which)
  pure
    { st with
      sched := st.sched.setQueue q which
      stepSkippedWaiting :=
        prependRequest cfg.policy st.sched.before st.stepSkippedWaiting r }

def exceedsLoras (scheduledLoras : List Nat) (r : Request) : Bool :=
  match cfg.maxLoras, r.loraRequest with
  | some maxLoras, some lora =>
    decide (scheduledLoras.length = maxLoras) && decide (lora.loraIntId ∉ scheduledLoras)
  | _, _ => false

structure FoundTokens where
  newComputedBlocks : List (List BlockRef)
  numNewLocalComputedTokens : Nat
  numExternalComputedTokens : Nat
  loadKvAsync : Bool
  numComputedTokens : Int

def findTokens (r : Request) : Except PyError (Option FoundTokens) :=
  if r.numComputedTokens = 0 then do
    let (blocks, numLocal) ← s.kvCacheManager.getComputedBlocks r.view
    let ext :=
      if cfg.hasConnector then env.getNumNewMatchedTokens r.requestId numLocal else (some 0, false)
    match ext.1 with
    | none => pure none
    | some numExternal => do
      assertThat (decide (numLocal + numExternal ≤ r.numTokens))
        "num_computed_tokens <= request.num_tokens"
      pure (some ⟨blocks, numLocal, numExternal, ext.2, (numLocal : Int) + numExternal⟩)
  else .ok (some ⟨[], 0, 0, false, r.numComputedTokens⟩)

variable (f : FoundTokens)

def FoundTokens.record (r : Request) : Request :=
  if cfg.hasConnector ∧ r.numComputedTokens = 0 then
    { r with numExternalComputedTokens := f.numExternalComputedTokens }
  else r

/-- The tokens of a waiting request and its encoder inputs, before the split of align mode; `none`
ends the loop, with the encoder cache as it is then. -/
def planWaitingTokens (v : ScheduleVariant) (tokenBudget encoderComputeBudget : Int)
    (cache : EncoderCacheManager) : Except PyError (Option EncoderPlan × EncoderCacheManager) :=
  if f.loadKvAsync then do
    assertThat (decide (0 < f.numExternalComputedTokens)) "num_external_computed_tokens > 0"
    pure (some (EncoderPlan.start 0 encoderComputeBudget cache), cache)
  else
    let numNewTokens := capLongPrefill cfg ((v.waitingNumTokens r : Int) - f.numComputedTokens)
    if !cfg.enableChunkedPrefill && decide (tokenBudget < numNewTokens) then .ok (none, cache)
    else do
      assertThat (decide (0 < min numNewTokens tokenBudget)) "num_new_tokens > 0"
      let p ← tryScheduleEncoderInputs cfg env r f.numComputedTokens (min numNewTokens tokenBudget)
        encoderComputeBudget cache
      if r.hasEncoderInputs && decide (p.numNewTokens = 0) then pure (none, p.cache)
      else pure (some p, p.cache)

def planWaiting (v : ScheduleVariant) (tokenBudget encoderComputeBudget : Int)
    (cache : EncoderCacheManager) : Except PyError (Option EncoderPlan × EncoderCacheManager) := do
  let (p, cache) ← planWaitingTokens cfg env r f v tokenBudget encoderComputeBudget cache
  match p with
  | none => pure (none, cache)
  | some p => do
    let numNewTokens ← mambaBlockAlignedSplit cfg r p.numNewTokens f.numNewLocalComputedTokens
      f.numExternalComputedTokens
    if cfg.mambaSplit.isSome && decide (numNewTokens = 0) then pure (none, cache)
    else pure (some { p with numNewTokens := numNewTokens }, cache)

def waitingSlotArgs (numNewTokens : Int) : SlotArgs where
  numNewTokens := numNewTokens
  numNewComputedTokens := f.numNewLocalComputedTokens
  newComputedBlocks := f.newComputedBlocks
  numLookaheadTokens := if r.numComputedTokens = 0 then 0 else cfg.numLookaheadTokens
  numExternalComputedTokens := f.numExternalComputedTokens
  delayCacheBlocks := f.loadKvAsync

def allocateWaiting (r : Request) (a : SlotArgs) :
    Except PyError (KVCacheManager × Option (List (List BlockRef))) := do
  let fits ← (if cfg.schedulerReserveFullIsl then kv.canFitFullSequence r a else .ok true)
  if fits then kv.allocateSlotsFor r a else pure (kv, none)

def StepState.refuse : StepState :=
  if (st.req request).hasEncoderInputs then
    st.setEncoderCache (st.sched.encoderCacheManager.free (st.req request))
  else st

def StepState.awaitRemoteKvs : StepState :=
  let st := st.modify request fun r =>
    { r with status := .waitingForRemoteKvs, numComputedTokens := f.numComputedTokens }
  { st with
    stepSkippedWaiting :=
      prependRequest cfg.policy st.sched.before st.stepSkippedWaiting request }

def startRunning (r : Request) : Request :=
  { r with
    status := .running
    numComputedTokens := f.numComputedTokens
    numCachedTokens := if r.numCachedTokens < 0 then f.numComputedTokens else r.numCachedTokens }

def StepState.recordAdmitted : Except PyError StepState :=
  match (st.req request).status with
  | .waiting => .ok { st with scheduledNewReqs := st.scheduledNewReqs ++ [request] }
  | .preempted => .ok { st with scheduledResumedReqs := st.scheduledResumedReqs ++ [request] }
  | _ => .error (.runtimeError "Invalid request status")

def StepState.admitRequest (p : EncoderPlan) : Except PyError StepState := do
  let st ← st.recordAdmitted request
  let cache ← allocateEncoderInputs (st.req request) p.encoderInputsToSchedule
    st.sched.encoderCacheManager
  let cache ← allocateEncoderInputs (st.req request) p.externalLoadEncoderInput cache
  let st :=
    { st with
      sched := { st.sched with running := st.sched.running ++ [request] }
      scheduledLoras :=
        match cfg.maxLoras, (st.req request).loraRequest with
        | some _, some lora =>
          if lora.loraIntId ∈ st.scheduledLoras then st.scheduledLoras
          else st.scheduledLoras ++ [lora.loraIntId]
        | _, _ => st.scheduledLoras
      reqToNewBlocks := st.reqToNewBlocks.set request (st.sched.kvCacheManager.getBlocks request)
      numScheduledTokens := st.numScheduledTokens.set request p.numNewTokens
      tokenBudget := st.tokenBudget - p.numNewTokens
      scheduledEncoderInputs :=
        if p.encoderInputsToSchedule = [] then st.scheduledEncoderInputs
        else st.scheduledEncoderInputs.set request p.encoderInputsToSchedule
      encoderComputeBudget :=
        if p.encoderInputsToSchedule = [] then st.encoderComputeBudget
        else p.encoderComputeBudget }
  pure ((st.setEncoderCache cache).modify request (startRunning f))

/-- The part of a round that follows once the request is neither blocked nor over the LoRA limit.
The flag says whether the loop goes on. -/
def waitingRequestRound (v : ScheduleVariant) (request : ReqId) :
    Except PyError (StepState × Bool) := do
  let found ← findTokens cfg env st.sched (st.req request)
  match found with
  | none => do
    let st ← st.skip cfg which
    pure (st, true)
  | some f => do
    let st := st.modify request (f.record cfg)
    let (plan, cache) ← planWaiting cfg env (st.req request) f v st.tokenBudget
      st.encoderComputeBudget st.sched.encoderCacheManager
    let st := st.setEncoderCache cache
    match plan with
    | none => pure (st, false)
    | some p => do
      let (kv, newBlocks) ← v.allocateWaiting st.sched.kvCacheManager (st.req request)
        (waitingSlotArgs cfg (st.req request) f p.numNewTokens)
      let st := st.setKV kv
      match newBlocks with
      | none => pure (st.refuse request, false)
      | some _ => do
        let (request, q) ← popRequest cfg.policy st.sched.before (st.sched.queue which)
        let st := { st with sched := st.sched.setQueue q which }
        if f.loadKvAsync then pure (st.awaitRemoteKvs cfg request f, true)
        else do
          let st ← (v.takeDrafts st request p.numNewTokens).admitRequest cfg request f p
          pure (st, true)

def Scheduler.promote : Except PyError (Scheduler × Bool) :=
  if (s.objects request).status.isBlockedWaiting then
    s.tryPromoteBlockedWaitingRequest cfg env request
  else .ok (s, true)

def waitingRound (v : ScheduleVariant) : Except PyError (StepState × Bool) := do
  let request ← peekRequest (st.sched.queue which)
  let (sched, ready) ← v.promote st.sched request
  let st := { st with sched := sched }
  if !ready || exceedsLoras cfg st.scheduledLoras (st.req request) then do
    let st ← st.skip cfg which
    pure (st, true)
  else waitingRequestRound cfg env st which v request

def waitingLoop (v : ScheduleVariant) (cfg : SchedulerConfig) (env : CallEnv) :
    Nat → StepState → Except PyError StepState
  | 0, st => .ok st
  | fuel + 1, st =>
    if 0 < st.tokenBudget ∧ st.sched.running.length ≠ cfg.maxNumRunningReqs then
      match st.sched.selectWaitingQueueForScheduling cfg with
      | none => .ok st
      | some which => do
        let (st, goOn) ← waitingRound cfg env st which v
        if goOn then waitingLoop v cfg env fuel st else pure st
    else .ok st

def scheduleWaiting (v : ScheduleVariant) : Except PyError StepState :=
  if st.preemptedReqs.isEmpty && st.recomputedReqs.isEmpty &&
      decide (st.sched.pauseState = .unpaused) then do
    let st ← waitingLoop v cfg env (st.sched.waiting.length + st.sched.skippedWaiting.length) st
    pure
      { st with
        sched :=
          { st.sched with
            skippedWaiting := prependRequests cfg.policy st.sched.before
              st.sched.skippedWaiting st.stepSkippedWaiting } }
  else .ok st

/-! ## The result -/

def StepState.check : Except PyError Unit := do
  assertThat (decide (st.numScheduledTokens.values.sum ≤ cfg.maxNumScheduledTokens))
    "total_num_scheduled_tokens <= self.max_num_scheduled_tokens"
  assertThat (decide (0 ≤ st.tokenBudget)) "token_budget >= 0"
  assertThat (decide (st.sched.running.length ≤ cfg.maxNumRunningReqs))
    "len(self.running) <= self.max_num_running_reqs"
  assertThat (decide (st.scheduledNewReqs.length + st.scheduledResumedReqs.length +
      st.scheduledRunningReqs.length ≤ st.sched.running.length))
    "scheduled requests <= len(self.running)"

/-- The `SchedulerOutput`, and the scheduler before `_update_after_schedule`. The second model
runner gets resumed requests as new ones; otherwise `_make_cached_request_data` asserts that they
were not scheduled in the previous step. -/
def StepState.finish : Except PyError (Scheduler × SchedulerOutput) := do
  st.check cfg
  let newReqs :=
    if cfg.useV2ModelRunner then st.scheduledNewReqs ++ st.scheduledResumedReqs
    else st.scheduledNewReqs
  let resumedReqs := if cfg.useV2ModelRunner then [] else st.scheduledResumedReqs
  assertThat (resumedReqs.all fun r => decide (r ∉ st.sched.prevStepScheduledReqIds))
    "not scheduled_in_prev_step"
  let (freed, cache) := st.sched.encoderCacheManager.getFreedMMHashes
  let out : SchedulerOutput :=
    { scheduledNewReqs := newReqs
      scheduledRunningReqs := st.scheduledRunningReqs
      scheduledResumedReqs := resumedReqs
      newBlockIds := st.reqToNewBlocks
      numScheduledTokens := st.numScheduledTokens
      totalNumScheduledTokens := st.numScheduledTokens.values.sum
      scheduledSpecDecodeTokens := st.scheduledSpecDecodeTokens
      scheduledEncoderInputs := st.scheduledEncoderInputs
      preemptedReqIds := st.preemptedReqs
      finishedReqIds := st.sched.finishedReqIds
      freeEncoderMMHashes := freed }
  pure
    ({ st.sched with
        prevStepScheduledReqIds := st.numScheduledTokens.keys
        encoderCacheManager := cache }, out)

namespace Scheduler

def advance (numScheduledTokens : Int) : Request :=
  let computed := r.numComputedTokens + numScheduledTokens
  { r with
    numComputedTokens := computed
    isPrefillChunk := decide (computed < (r.numTokens : Int) + r.numOutputPlaceholders) }

def advanceAll : List (ReqId × Int) → Scheduler → Scheduler
  | [], s => s
  | (r, n) :: es, s =>
    let s := s.modify r fun q => advance q n
    advanceAll es
      { s with encoderCacheManager := s.encoderCacheManager.freeComputedInputs (s.objects r) }

def expectTokens (curNumSpecTokens : Nat) (r : Request) : Request :=
  if r.isPrefillChunk then r
  else
    { r with
      numOutputPlaceholders := r.numOutputPlaceholders + (1 + curNumSpecTokens)
      specTokenIds := List.replicate cfg.numSpecTokens (-1) }

def updateAfterSchedule (out : SchedulerOutput) : Scheduler :=
  let s := { advanceAll out.numScheduledTokens.entries s with finishedReqIds := [] }
  if cfg.asyncScheduling then
    out.numScheduledTokens.keys.foldl
      (fun s r => s.modify r (expectTokens cfg (out.drafts r).length)) s
  else s

/-- `schedule` of either class, with the requests that were dropped. -/
def scheduleAs (v : ScheduleVariant) :
    Except PyError (Scheduler × SchedulerOutput × List ReqId) := do
  let st := StepState.start cfg s
  let st ← runningLoop v cfg env st.sched.running.length st 0
  let st ← st.recordLoras cfg
  let st ← scheduleWaiting cfg env st v
  let (s, out) ← st.finish cfg
  pure (s.updateAfterSchedule cfg out, out, st.recomputedReqs)

def variant : ScheduleVariant where
  makeRoom := preemptOne cfg
  promote s := s.promote cfg env
  waitingNumTokens := Request.numTokens
  allocateWaiting := allocateWaiting cfg
  takeDrafts st _ _ := st

def schedule : Except PyError (Scheduler × SchedulerOutput) := do
  let (s, out, _) ← s.scheduleAs cfg env (variant cfg env)
  pure (s, out)

end Scheduler

end VllmEcho
