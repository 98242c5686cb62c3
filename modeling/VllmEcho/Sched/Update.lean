import VllmEcho.Sched.Scheduler

/-!
# The other calls of the scheduler

`update_from_output`, `update_draft_token_ids`, `add_request`, `finish_requests` and
`reset_prefix_cache`.
-/

namespace VllmEcho

open Lib

/-! ## Stopping -/

variable (tokenIds : List TokenId)

def fromEnd (n : Nat) : Option TokenId := tokenIds.reverse[n - 1]?

def hasRepeatingPattern (patternLen repetitionMinCount : Nat) : Bool :=
  (List.range' 1 patternLen).all fun n =>
    (List.range' 1 (repetitionMinCount - 1)).all fun m =>
      decide (fromEnd tokenIds (patternLen * m + n) = fromEnd tokenIds n)

def repetitionLoop (tokenIds : List TokenId) (minCount : Nat) : List Nat → Bool
  | [] => false
  | patternLen :: rest =>
    if tokenIds.length < patternLen * minCount then false
    else if hasRepeatingPattern tokenIds patternLen minCount then true
    else repetitionLoop tokenIds minCount rest

def checkSequenceRepetition (params : RepetitionDetectionParams) : Bool :=
  let minPatternSize := if params.minPatternSize = 0 then 1 else params.minPatternSize
  if params.maxPatternSize = 0 ∨ params.minCount < 2 ∨ params.maxPatternSize < minPatternSize then
    false
  else
    repetitionLoop tokenIds params.minCount
      (List.range' minPatternSize (params.maxPatternSize + 1 - minPatternSize))

def stopOutcome (r : Request) (sp : SamplingParams) (maxModelLen : Nat) :
    Option (RequestStatus × Option StopReason) :=
  if r.numOutputTokens < sp.minTokens then none
  else
    let lastTokenId := r.outputTokenIds.getLast?
    if lastTokenId.isSome ∧ lastTokenId = sp.eosTokenId then some (.finishedStopped, r.stopReason)
    else
      match lastTokenId.filter (· ∈ sp.stopTokenIds) with
      | some t => some (.finishedStopped, some (.token t))
      | none =>
        if maxModelLen ≤ r.numTokens ∨ r.maxTokens ≤ r.numOutputTokens then
          some (.finishedLengthCapped, r.stopReason)
        else
          match sp.repetitionDetection with
          | none => none
          | some params =>
            if checkSequenceRepetition r.outputTokenIds params then
              some (.finishedRepetition, some (.text "repetition_detected"))
            else none

def checkStop (r : Request) (maxModelLen : Nat) : Except PyError (Request × Bool) :=
  match r.poolingParams, r.samplingParams with
  | some _, _ => .error (.assertionError "not request.pooling_params")
  | none, none => .error (.assertionError "sampling_params is not None")
  | none, some sp =>
    match stopOutcome r sp maxModelLen with
    | none => .ok (r, false)
    | some (status, stopReason) => .ok ({ r with status := status, stopReason := stopReason }, true)

def appendUntilStop (hasher : Option BlockHasher) (maxModelLen : Nat) :
    Request → List TokenId → Except PyError (Request × List TokenId × Bool)
  | r, [] => .ok (r, [], false)
  | r, t :: ts => do
    let r ← r.appendOutputTokenIds hasher [t]
    let (r, stopped) ← checkStop r maxModelLen
    if stopped then pure (r, [t], true)
    else do
      let (r, appended, stopped) ← appendUntilStop hasher maxModelLen r ts
      pure (r, t :: appended, stopped)

/-! ## Failed KV loads

Requests whose external blocks could not be loaded are rolled back to their longest valid prefix. -/

structure InvalidScan where
  request : Request
  isAffected : Bool
  markedInvalidBlock : Bool
  markedInvalidBlockIds : List BlockRef
  blocksToEvict : List BlockRef

namespace InvalidScan

variable (blockSize : Nat) (invalidBlockIds : List BlockRef) (evictBlocks : Bool)
  (reqBlockIds : List BlockRef) (reqNumComputedTokens : Int)

def visit (sc : InvalidScan) (idx : Nat) (blockId : BlockRef) : InvalidScan :=
  if blockId ∉ invalidBlockIds then sc
  else
    let sc := { sc with isAffected := true }
    -- Shared with an earlier request, which recomputes it.
    if blockId ∈ sc.markedInvalidBlockIds then sc
    else
      let sc := { sc with markedInvalidBlockIds := sc.markedInvalidBlockIds ++ [blockId] }
      if sc.markedInvalidBlock then sc
      else
        let computed : Int := (idx * blockSize : Nat)
        { sc with
          markedInvalidBlock := true
          request :=
            { sc.request with
              numComputedTokens := computed
              numExternalComputedTokens :=
                sc.request.numExternalComputedTokens - (reqNumComputedTokens - computed) }
          blocksToEvict :=
            if evictBlocks then sc.blocksToEvict ++ reqBlockIds.drop idx else sc.blocksToEvict }

def scan : Nat → List BlockRef → InvalidScan → InvalidScan
  | _, [], sc => sc
  | idx, b :: bs, sc =>
    scan (idx + 1) bs
      (sc.visit blockSize invalidBlockIds evictBlocks reqBlockIds reqNumComputedTokens idx b)

end InvalidScan

structure InvalidResult where
  affectedReqIds : List ReqId
  blocksToEvict : List BlockRef
  markedInvalidBlockIds : List BlockRef

namespace Scheduler

variable (cfg : SchedulerConfig) (invalidBlockIds : List BlockRef)
  (numScheduledTokens : Dict ReqId Int) (evictBlocks : Bool) (r : Request)

def computedBefore : Int :=
  r.numComputedTokens - (numScheduledTokens.get? r.requestId).getD 0

def computedBlocks : Nat :=
  ((computedBefore numScheduledTokens r + cfg.blockSize - 1) / cfg.blockSize).toNat

def updateRequestWithInvalidBlocks (s : Scheduler) (r : ReqId) (res : InvalidResult) :
    Except PyError (Scheduler × InvalidResult) :=
  match s.kvCacheManager.getBlocks r with
  | [reqBlockIds] =>
    let request := s.objects r
    let before := computedBefore numScheduledTokens request
    let sc := InvalidScan.scan cfg.blockSize invalidBlockIds evictBlocks reqBlockIds before 0
      (reqBlockIds.take (computedBlocks cfg numScheduledTokens request))
      ⟨request, false, false, res.markedInvalidBlockIds, res.blocksToEvict⟩
    if sc.isAffected then
      let request :=
        if sc.markedInvalidBlock then sc.request
        else { sc.request with numComputedTokens := before }
      .ok (s.modify r fun _ => request,
        ⟨res.affectedReqIds ++ [r], sc.blocksToEvict, sc.markedInvalidBlockIds⟩)
    else .ok (s, res)
  | _ => .error (.valueError "hybrid memory allocator is not supported")

def updateRequestsWithInvalidBlocks :
    List ReqId → Scheduler → InvalidResult → Except PyError (Scheduler × InvalidResult)
  | [], s, res => .ok (s, res)
  | r :: rs, s, res => do
    let (s, res) ← s.updateRequestWithInvalidBlocks cfg invalidBlockIds numScheduledTokens
      evictBlocks r res
    updateRequestsWithInvalidBlocks rs s res

def handleInvalidBlocks (s : Scheduler) : Except PyError (Scheduler × List ReqId) := do
  let asyncLoadReqs := (RequestQueue.iterate cfg.policy s.before s.skippedWaiting).filter fun r =>
    decide ((s.objects r).status = .waitingForRemoteKvs)
  let (s, asyncRes) ← updateRequestsWithInvalidBlocks cfg invalidBlockIds numScheduledTokens false
    asyncLoadReqs s ⟨[], [], []⟩
  let (s, syncRes) ← updateRequestsWithInvalidBlocks cfg invalidBlockIds numScheduledTokens true
    s.running s ⟨[], [], []⟩
  if asyncRes.affectedReqIds.isEmpty && syncRes.affectedReqIds.isEmpty then pure (s, [])
  else if cfg.recomputeKvLoadFailures then
    pure
      ({ s with
          failedRecvingKvReqIds := s.failedRecvingKvReqIds ++ asyncRes.affectedReqIds.filter
            fun r => r ∉ s.failedRecvingKvReqIds },
        syncRes.affectedReqIds)
  else do
    let kv ← s.kvCacheManager.evictBlocks syncRes.blocksToEvict.dedup
    pure ({ s with kvCacheManager := kv }, asyncRes.affectedReqIds ++ syncRes.affectedReqIds.filter
      fun r => r ∉ asyncRes.affectedReqIds)

end Scheduler

structure KVConnectorOutput where
  invalidBlockIds : List BlockRef
  finishedRecving : List ReqId
  finishedSending : List ReqId

structure ModelRunnerOutput where
  sampledTokenIds : ReqId → List TokenId
  poolerOutput : ReqId → Bool
  kvConnectorOutput : Option KVConnectorOutput

def ModelRunnerOutput.invalidBlockIds (mo : ModelRunnerOutput) : List BlockRef :=
  (mo.kvConnectorOutput.map (·.invalidBlockIds)).getD []

namespace Scheduler

variable (cfg : SchedulerConfig) (env : CallEnv)

/-! ## Sampled tokens -/

variable (s : Scheduler) (r : ReqId)

def updateRequestWithOutput (newTokenIds : List TokenId) :
    Except PyError (Scheduler × List TokenId × Bool) :=
  if cfg.asyncScheduling then
    if (s.objects r).discardLatestAsyncTokens then
      .ok (s.modify r fun q => { q with discardLatestAsyncTokens := false }, [], false)
    else do
      let (request, appended, stopped) ←
        appendUntilStop cfg.hasher cfg.maxModelLen (s.objects r) newTokenIds
      let request :=
        { request with numOutputPlaceholders := request.numOutputPlaceholders - appended.length }
      assertThat (decide ((0 : Int) ≤ request.numOutputPlaceholders))
        "request.num_output_placeholders >= 0"
      -- Blocks of a request that was preempted meanwhile are not cached.
      let kv ←
        (if (s.objects r).status = .running then
          s.kvCacheManager.cacheBlocks request.view
            (request.numComputedTokens - request.numOutputPlaceholders).toNat
        else .ok s.kvCacheManager)
      pure ({ s with kvCacheManager := kv }.modify r fun _ => request, appended, stopped)
  else do
    let (request, appended, stopped) ←
      appendUntilStop cfg.hasher cfg.maxModelLen (s.objects r) newTokenIds
    pure (s.modify r fun _ => request, appended, stopped)

def handleStoppedRequest : Except PyError (Scheduler × Bool) :=
  if !(s.objects r).resumable then .ok (s, true)
  else
    match (s.objects r).streamingQueue.getD [] with
    | none :: rest => .ok (s.modify r fun q => { q with streamingQueue := some rest }, true)
    | some update :: rest => do
      let s ← (s.modify r fun q => { q with streamingQueue := some rest }).updateRequestAsSession
        cfg r update
      pure (s.enqueueWaitingRequest cfg r, false)
    | [] =>
      let s := s.modify r fun q => { q with status := .waitingForStreamingReq }
      let s := { s with numWaitingForStreamingInput := s.numWaitingForStreamingInput + 1 }
      .ok (s.enqueueWaitingRequest cfg r, false)

def rejectDrafts (numRejected : Int) (r : Request) : Request :=
  { r with
    numComputedTokens :=
      if 0 < r.numComputedTokens then r.numComputedTokens - numRejected else r.numComputedTokens
    numOutputPlaceholders :=
      if 0 < r.numOutputPlaceholders then r.numOutputPlaceholders - numRejected
      else r.numOutputPlaceholders }

def applyRejections (drafts generated : List TokenId) : Scheduler :=
  if drafts = [] ∨ generated = [] then s
  else s.modify r (rejectDrafts ((drafts.length : Int) - ((generated.length : Int) - 1)))

def takeOutput (mo : ModelRunnerOutput) (r : ReqId) : Except PyError (Scheduler × Bool) :=
  if mo.sampledTokenIds r ≠ [] then do
    let (s, _, stopped) ← s.updateRequestWithOutput cfg r (mo.sampledTokenIds r)
    pure (s, stopped)
  else if (s.objects r).poolingParams.isSome && mo.poolerOutput r then
    .ok (s.modify r fun q => { q with status := .finishedStopped }, true)
  else .ok (s, false)

structure UpdateState where
  sched : Scheduler
  stoppedRunningReqs : List ReqId
  stoppedPreemptedReqs : List ReqId

def stopRequest : Except PyError Scheduler := do
  let (s, finished) ← s.handleStoppedRequest cfg r
  if finished then s.freeRequest cfg env r false else pure s

variable (out : SchedulerOutput) (mo : ModelRunnerOutput) (failed : List ReqId) (u : UpdateState)

def updateOne (r : ReqId) (numTokensScheduled : Int) : Except PyError UpdateState := do
  assertThat (decide (0 < numTokensScheduled)) "num_tokens_scheduled > 0"
  if r ∈ failed || !u.sched.isLive r then pure u
  else do
    let s := u.sched.applyRejections r (out.drafts r) (mo.sampledTokenIds r)
    let statusBeforeStop := (s.objects r).status
    let (s, stopped) ← s.takeOutput cfg mo r
    if stopped then do
      let s ← s.stopRequest cfg env r
      if statusBeforeStop = .running then
        pure { u with sched := s, stoppedRunningReqs := u.stoppedRunningReqs ++ [r] }
      else pure { u with sched := s, stoppedPreemptedReqs := u.stoppedPreemptedReqs ++ [r] }
    else pure { u with sched := s }

def updateLoop (out : SchedulerOutput) (mo : ModelRunnerOutput) (failed : List ReqId) :
    List (ReqId × Int) → UpdateState → Except PyError UpdateState
  | [], u => .ok u
  | (r, n) :: es, u => do
    let u ← updateOne cfg env out mo failed u r n
    updateLoop out mo failed es u

def UpdateState.settle : Scheduler :=
  let s := { u.sched with running := removeAll u.sched.running u.stoppedRunningReqs }
  if u.stoppedPreemptedReqs.isEmpty then s
  else
    { s with
      waiting := RequestQueue.removeRequests cfg.policy s.before s.waiting u.stoppedPreemptedReqs }

/-! ## Finishing requests -/

def finishAll (finishedStatus : RequestStatus) : List ReqId → Scheduler → Except PyError Scheduler
  | [], s => .ok s
  | r :: rs, s => do
    let remote := decide ((s.objects r).status = .waitingForRemoteKvs)
    let delayFreeBlocks := remote && decide (r ∉ s.finishedRecvingKvReqIds)
    let s :=
      if remote then
        { s with
          finishedRecvingKvReqIds := s.finishedRecvingKvReqIds.filter (· ≠ r)
          failedRecvingKvReqIds := s.failedRecvingKvReqIds.filter (· ≠ r) }
      else s
    let s ← (s.modify r fun q => { q with status := finishedStatus }).freeRequest cfg env r
      delayFreeBlocks
    finishAll finishedStatus rs s

def finishRequests (requestIds : List ReqId) (finishedStatus : RequestStatus) :
    Except PyError Scheduler := do
  assertThat finishedStatus.isFinished "RequestStatus.is_finished(finished_status)"
  let valid := requestIds.dedup.filter s.isLive
  let inRunning := valid.filter fun r => decide ((s.objects r).status = .running)
  let inWaiting := valid.filter fun r => decide ((s.objects r).status ≠ .running)
  let streaming := inWaiting.filter fun r =>
    decide ((s.objects r).status = .waitingForStreamingReq)
  let s :=
    { s with
      numWaitingForStreamingInput := s.numWaitingForStreamingInput - streaming.length
      running := removeAll s.running inRunning }
  let s :=
    if inWaiting.isEmpty then s
    else
      { s with
        waiting := RequestQueue.removeRequests cfg.policy s.before s.waiting inWaiting
        skippedWaiting :=
          RequestQueue.removeRequests cfg.policy s.before s.skippedWaiting inWaiting }
  finishAll cfg env finishedStatus valid s

/-! ## Connector signals and the whole of `update_from_output` -/

def receiveKv : Except PyError Scheduler :=
  if (s.objects r).status = .waitingForRemoteKvs then
    .ok
      { s with
        finishedRecvingKvReqIds :=
          if r ∈ s.finishedRecvingKvReqIds then s.finishedRecvingKvReqIds
          else s.finishedRecvingKvReqIds ++ [r] }
  else s.freeBlocks r

def forReported (act : Scheduler → ReqId → Except PyError Scheduler) :
    List ReqId → Scheduler → Except PyError Scheduler
  | [], s => .ok s
  | r :: rs, s => do
    assertThat (decide (r ∈ s.requests)) "req_id in self.requests"
    let s ← act s r
    forReported act rs s

def finishRecving : List ReqId → Scheduler → Except PyError Scheduler := forReported receiveKv

def finishSending : List ReqId → Scheduler → Except PyError Scheduler := forReported freeBlocks

def updateFromKvXferFinished (kco : KVConnectorOutput) : Except PyError Scheduler := do
  let s ← finishRecving kco.finishedRecving s
  finishSending kco.finishedSending s

def checkLoads : Except PyError (Scheduler × List ReqId) :=
  match mo.kvConnectorOutput with
  | none => .ok (s, [])
  | some kco =>
    if kco.invalidBlockIds.isEmpty then .ok (s, [])
    else s.handleInvalidBlocks cfg kco.invalidBlockIds out.numScheduledTokens

def failRequests : Except PyError Scheduler :=
  if !failed.isEmpty && !cfg.recomputeKvLoadFailures then
    s.finishRequests cfg env failed .finishedError
  else .ok s

def receiveSignals : Except PyError Scheduler :=
  match mo.kvConnectorOutput with
  | none => .ok s
  | some kco => s.updateFromKvXferFinished kco

def updateFromOutput : Except PyError Scheduler := do
  let (s, failed) ← s.checkLoads cfg out mo
  let u ← updateLoop cfg env out mo failed out.numScheduledTokens.entries ⟨s, [], []⟩
  let s ← (u.settle cfg).failRequests cfg env failed
  s.receiveSignals mo

/-! ## Drafts, arrivals and resets -/

def updateDraftTokenIds (validate : ReqId → List TokenId → List TokenId) :
    List (ReqId × List TokenId) → Scheduler → Scheduler
  | [], s => s
  | (r, specTokenIds) :: es, s =>
    let s :=
      if !s.isLive r then s
      else
        s.modify r fun q =>
          { q with specTokenIds := if q.isPrefillChunk then [] else validate r specTokenIds }
    updateDraftTokenIds validate es s

def addRequest (request : Request) : Except PyError Scheduler :=
  let r := request.requestId
  if r ∈ s.requests then
    let update := StreamingUpdate.fromRequest request
    if (s.objects r).status ≠ .waitingForStreamingReq then
      match (s.objects r).streamingQueue with
      | none => .error (.assertionError "duplicate request id")
      | some queue =>
        .ok (s.modify r fun q => { q with streamingQueue := some (queue ++ [update]) })
    else
      match update with
      | some update => s.updateRequestAsSession cfg r update
      | none => s.finishRequests cfg env [r] .finishedAborted
  else
    let s := s.modify r fun _ =>
      if request.resumable then { request with streamingQueue := some [] } else request
    let s := s.enqueueWaitingRequest cfg r
    .ok { s with requests := s.requests ++ [r] }

def discardInFlight (r : Request) : Request :=
  { r with numOutputPlaceholders := 0, discardLatestAsyncTokens := true }

def preemptAll : Nat → Scheduler → Except PyError Scheduler
  | 0, s => .ok s
  | fuel + 1, s =>
    match s.running.getLast? with
    | none => .ok s
    | some r => do
      let s ← { s with running := s.running.dropLast }.preemptRequest cfg r
      preemptAll fuel (s.modify r discardInFlight)

def preemptRunning (resetRunningRequests : Bool) : Except PyError Scheduler :=
  if resetRunningRequests then do
    let s ← preemptAll cfg s.running.length s
    pure { s with prevStepScheduledReqIds := [] }
  else .ok s

/-- `reset_prefix_cache`, without the connector's own cache.  The exception at the end reaches the
caller of the engine, which goes on with the scheduler as it is then. -/
def resetPrefixCache (resetRunningRequests : Bool) :
    Except PyError (Scheduler × Except PyError Bool) := do
  let s ← s.preemptRunning cfg resetRunningRequests
  let (kv, resetSuccessful) := s.kvCacheManager.resetPrefixCache
  let s := { s with kvCacheManager := kv }
  if resetRunningRequests && !resetSuccessful then
    pure (s,
      .error (.runtimeError ("Failed to reset KV cache even when all the running requests " ++
      "are preempted and moved to the waiting queue. This is likely due to the presence of " ++
      "running requests waiting for remote KV transfer, which is not supported yet.")))
  else pure (s, .ok resetSuccessful)

end Scheduler

end VllmEcho
