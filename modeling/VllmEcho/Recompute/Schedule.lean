import VllmEcho.Sched.Schedule
import VllmEcho.Sched.Update

/-!
# The scheduler of a decode node

`vllm_ascend/core/recompute_scheduler.py`.  `RecomputeScheduler` replaces four methods of the
scheduler: on a KV consumer a request that finds no blocks is not preempted but dropped, a node that
drafts schedules placeholder drafts together with the prompt, and the tokens that count as computed
after a load are read off the block table.  `recomputed_reqs` is kept as the list of request ids.
The loops of `schedule` are those of the base class, with these parts replaced.
-/

namespace VllmEcho

open Lib

/-- What `RecomputeScheduler.__init__` reads besides the scheduler's configuration.  A transfer
configuration is present exactly when there is a connector. -/
structure RecomputeConfig extends SchedulerConfig where
  isMtpKvConsumer : Bool
  isKvProducer : Bool
  isHybridModel : Bool

namespace RecomputeConfig

def drops (cfg : RecomputeConfig) : Bool := cfg.hasConnector && !cfg.isKvProducer

end RecomputeConfig

namespace RecomputeScheduler

variable (cfg : RecomputeConfig) (env : CallEnv)

/-! ## Arrivals -/

variable (r : Request)

/-- A producer of a hybrid model leaves the last prompt token to the consumer. -/
def popLastToken : Request :=
  { r with
    promptTokenIds := r.promptTokenIds.map List.dropLast
    allTokenIds := r.allTokenIds.dropLast
    numPromptTokens := r.numPromptTokens - 1 }

def prepareRequest : Request :=
  let r := if r.resumable then { r with streamingQueue := some [] } else r
  let r := if cfg.isKvProducer && cfg.isHybridModel && decide (1 < r.numTokens) then popLastToken r
    else r
  if cfg.isMtpKvConsumer then
    { r with specTokenIds := List.replicate cfg.numSpecTokens (-1) }
  else r

variable (s : Scheduler)

def addRequest (request : Request) : Except PyError Scheduler :=
  if request.requestId ∈ s.requests then s.addRequest cfg.toSchedulerConfig env request
  else
    let r := request.requestId
    let s := s.modify r fun _ => prepareRequest cfg request
    let s := s.enqueueWaitingRequest cfg.toSchedulerConfig r
    .ok { s with requests := s.requests ++ [r] }

/-! ## The end of a load -/

variable (kv : KVCacheManager)

/-- The tokens that count as computed once the blocks are loaded: those the table of a single group
has room for, or all of them. -/
def tokensInTable (r : Request) : Int :=
  match kv.getBlocks r.requestId with
  | [blocks] => min ((blocks.length * cfg.blockSize : Nat) : Int) r.numTokens
  | _ => r.numTokens

def tokensLoaded (r : Request) : Int :=
  if tokensInTable cfg kv r = r.numTokens then tokensInTable cfg kv r - 1 else
    tokensInTable cfg kv r

def updateWaitingForRemoteKv (r : ReqId) : Except PyError Scheduler := do
  assertThat cfg.hasConnector "self.connector is not None"
  if r ∈ s.failedRecvingKvReqIds then do
    let kv ← s.keepValidBlocks r
    pure
      { s with
        kvCacheManager := kv
        failedRecvingKvReqIds := s.failedRecvingKvReqIds.filter (· ≠ r)
        finishedRecvingKvReqIds := s.finishedRecvingKvReqIds.filter (· ≠ r) }
  else do
    let computed := tokensLoaded cfg s.kvCacheManager (s.objects r)
    let kv ← s.kvCacheManager.cacheBlocks (s.objects r).view computed.toNat
    pure
      { s.modify r fun q =>
          { q with
            numComputedTokens := computed
            numCachedTokens := if q.numCachedTokens < 0 then computed else q.numCachedTokens } with
        kvCacheManager := kv
        finishedRecvingKvReqIds := s.finishedRecvingKvReqIds.filter (· ≠ r) }

def tryPromoteBlockedWaitingRequest (r : ReqId) : Except PyError (Scheduler × Bool) :=
  if (s.objects r).status = .waitingForRemoteKvs then
    if r ∈ s.finishedRecvingKvReqIds then do
      let s ← updateWaitingForRemoteKv cfg s r
      pure (s.modify r fun q =>
        { q with status := if q.numPreemptions ≠ 0 then .preempted else .waiting }, true)
    else .ok (s, false)
  else s.tryPromoteBlockedWaitingRequest cfg.toSchedulerConfig env r

def promote (request : ReqId) : Except PyError (Scheduler × Bool) :=
  if (s.objects request).status.isBlockedWaiting then
    tryPromoteBlockedWaitingRequest cfg env s request
  else .ok (s, true)

/-! ## Running requests -/

variable (st : StepState)

/-- A request is dropped: the last running one, wherever the loop stands. -/
def dropOne : Except PyError (ReqId × StepState) :=
  match st.sched.running.getLast? with
  | none => .error .indexError
  | some r => do
    let kv ← st.sched.kvCacheManager.free r
    pure (r,
      { st with
        sched :=
          { st.sched with
            running := st.sched.running.dropLast
            kvCacheManager := kv }
        recomputedReqs := st.recomputedReqs ++ [r] })

def makeRoom (reqIndex : Nat) : Except PyError (ReqId × StepState × Nat) :=
  if cfg.drops then do
    let (r, st) ← dropOne st
    pure (r, st, reqIndex)
  else preemptOne cfg.toSchedulerConfig st reqIndex

/-! ## Waiting requests -/

def waitingNumTokens : Nat :=
  if cfg.isMtpKvConsumer then r.numTokensWithSpec else r.numTokens

/-- The drafts of a request that is taken from a queue, counted before its number of computed tokens
is set. -/
def takeDrafts (request : ReqId) (numNewTokens : Int) : StepState :=
  if cfg.isMtpKvConsumer then
    let drafts := scheduledDrafts (st.req request) numNewTokens
    let st :=
      { st with
        scheduledSpecDecodeTokens :=
          if drafts = [] then st.scheduledSpecDecodeTokens
          else st.scheduledSpecDecodeTokens.set request drafts }
    st.modify request fun r => { r with specTokenIds := [] }
  else st

/-! ## The result -/

structure Output extends SchedulerOutput where
  recomputedReqs : List ReqId

def variant : ScheduleVariant where
  makeRoom := makeRoom cfg
  promote := promote cfg env
  waitingNumTokens := waitingNumTokens cfg
  allocateWaiting := KVCacheManager.allocateSlotsFor
  takeDrafts := takeDrafts cfg

def schedule : Except PyError (Scheduler × Output) := do
  let (s, out, recomputed) ← s.scheduleAs cfg.toSchedulerConfig env (variant cfg env)
  pure (s, { out with recomputedReqs := recomputed })

/-- `update_from_output`: every dropped request is reported as stopped, with the reason
`recomputed`; the rest is that of the scheduler. -/
def updateFromOutput (out : Output) (mo : ModelRunnerOutput) :
    Except PyError (Scheduler × List ReqId) :=
  -- `_handle_invalid_blocks` is called without the scheduled tokens that the base class asks for.
  if mo.invalidBlockIds ≠ [] then
    .error (.typeError ("Scheduler._handle_invalid_blocks() missing 1 required positional " ++
      "argument: 'num_scheduled_tokens'"))
  else do
    let s ← s.updateFromOutput cfg.toSchedulerConfig env out.toSchedulerOutput mo
    pure (s, out.recomputedReqs)

end RecomputeScheduler

end VllmEcho
