import VllmEcho.KVCache.Run
import VllmEcho.Sched.Schedule
import VllmEcho.Sched.Update

/-!
# The engine around the scheduler

The calls the engine core makes, in any order: requests and updates arrive, steps are scheduled and
their outputs come back in order, at most two being in flight, requests are aborted, caches reset,
scheduling paused.
-/

namespace VllmEcho

open Lib

def Scheduler.init (kv : KVCacheManager) (encoderCacheSize : Nat) (objects : ReqId → Request) :
    Scheduler where
  objects := objects
  requests := []
  waiting := []
  skippedWaiting := []
  running := []
  finishedReqIds := []
  numWaitingForStreamingInput := 0
  finishedRecvingKvReqIds := []
  failedRecvingKvReqIds := []
  prevStepScheduledReqIds := []
  kvCacheManager := kv
  encoderCacheManager := EncoderCacheManager.init encoderCacheSize
  pauseState := .unpaused

structure EngineState where
  sched : Scheduler
  inFlight : List SchedulerOutput

inductive EngineOp
  | addRequest (a : RequestArgs)
  | schedule
  | updateFromOutput (mo : ModelRunnerOutput)
  | updateDraftTokenIds (validate : ReqId → List TokenId → List TokenId)
      (drafts : List (ReqId × List TokenId))
  | finishRequests (requestIds : List ReqId) (finishedStatus : RequestStatus)
  | resetPrefixCache (resetRunningRequests : Bool)
  | setPauseState (pauseState : PauseState)

/-- A call together with what the connectors and the grammar compiler answer during it. -/
structure EngineCall where
  op : EngineOp
  env : CallEnv

namespace EngineState

def maxInFlight : Nat := 2

def exec (cfg : SchedulerConfig) (e : EngineState) (c : EngineCall) : Except PyError EngineState :=
  match c.op with
  | .addRequest a => do
    let request ← Request.init cfg.hasher a
    let sched ← e.sched.addRequest cfg c.env request
    pure { e with sched := sched }
  | .schedule =>
    if e.inFlight.length < maxInFlight then do
      let (sched, out) ← e.sched.schedule cfg c.env
      pure { sched := sched, inFlight := e.inFlight ++ [out] }
    else .error (.runtimeError "batch queue is full")
  | .updateFromOutput mo =>
    match e.inFlight with
    | [] => .error (.runtimeError "batch queue is empty")
    | out :: inFlight => do
      let sched ← e.sched.updateFromOutput cfg c.env out mo
      pure { sched := sched, inFlight := inFlight }
  | .updateDraftTokenIds validate drafts =>
    .ok { e with sched := Scheduler.updateDraftTokenIds validate drafts e.sched }
  | .finishRequests requestIds finishedStatus => do
    let sched ← e.sched.finishRequests cfg c.env requestIds finishedStatus
    pure { e with sched := sched }
  | .resetPrefixCache resetRunningRequests => do
    let (sched, _) ← e.sched.resetPrefixCache cfg resetRunningRequests
    pure { e with sched := sched }
  | .setPauseState pauseState =>
    .ok { e with sched := { e.sched with pauseState := pauseState } }

def Starts (kvCfg : KVCacheConfig) (encoderCacheSize : Nat) (e : EngineState) : Prop :=
  ∃ kv objects, KVCacheManager.init kvCfg = .ok kv ∧
    e = ⟨Scheduler.init kv encoderCacheSize objects, []⟩

end EngineState

/-! ## Small engines for concrete runs -/

variable (numBlocks maxModelLen : Nat)

def smallCache (hpos : 0 < maxModelLen) : KVCacheConfig where
  numBlocks := numBlocks
  maxModelLen := maxModelLen
  hashBlockSize := 2
  enableCaching := true
  useEagle := false
  kvCacheGroups := [⟨2, .full, 0, Nat.two_pos, AttentionKind.full_wellFormed⟩]
  maxModelLen_pos := hpos

def smallScheduler (policy : SchedulingPolicy) (asyncScheduling : Bool) (maxModelLen : Nat)
    (numSpecTokens : Nat) : SchedulerConfig where
  policy := policy
  asyncScheduling := asyncScheduling
  maxNumRunningReqs := 4
  maxNumScheduledTokens := 16
  maxModelLen := maxModelLen
  longPrefillTokenThreshold := 0
  enableChunkedPrefill := true
  disableChunkedMMInput := false
  schedulerReserveFullIsl := false
  maxNumEncoderInputTokens := 16
  numSpecTokens := numSpecTokens
  numLookaheadTokens := 0
  useEagle := false
  maxLoras := none
  blockSize := 2
  mambaSplit := none
  useV2ModelRunner := false
  hasConnector := false
  hasEcConnector := false
  recomputeKvLoadFailures := true
  hasher := none

def smallParams (maxTokens : Nat) : SamplingParams where
  maxTokens := some maxTokens
  minTokens := 0
  eosTokenId := none
  stopTokenIds := []
  repetitionDetection := none
  skipReadingPrefixCache := none
  structuredOutputs := false

def smallRequest (requestId : ReqId) (prompt : List TokenId) (maxTokens : Nat) : RequestArgs where
  requestId := requestId
  promptTokenIds := some prompt
  samplingParams := some (smallParams maxTokens)
  poolingParams := none
  arrivalTime := 0
  promptEmbeds := none
  mmFeatures := []
  loraRequest := none
  cacheSalt := none
  priority := 0
  resumable := false

def quietEnv : CallEnv where
  getNumNewMatchedTokens _ _ := (some 0, false)
  requestFinished _ := false
  grammarReady _ := true
  hasCacheItem _ := false

def EngineOp.quiet (op : EngineOp) : EngineCall := ⟨op, quietEnv⟩

def sampledOutput (tokens : ReqId → List TokenId) : ModelRunnerOutput where
  sampledTokenIds := tokens
  poolerOutput _ := false
  kvConnectorOutput := none

def noObjects (_ : ReqId) : Request := Request.unhashed (smallRequest 0 [] 0) 0 .waiting 0

def EngineState.small (hpos : 0 < maxModelLen) : Option EngineState :=
  (KVCacheManager.init (smallCache numBlocks maxModelLen hpos)).toOption.map fun kv =>
    ⟨Scheduler.init kv 8 noObjects, []⟩

theorem EngineState.small_starts {numBlocks maxModelLen : Nat} {hpos : 0 < maxModelLen}
    {e : EngineState} (h : EngineState.small numBlocks maxModelLen hpos = some e) :
    e.Starts (smallCache numBlocks maxModelLen hpos) 8 := by
  obtain ⟨kv, hkv, rfl⟩ := Option.map_eq_some_iff.mp h
  exact ⟨kv, noObjects, toOption_eq_some hkv, rfl⟩

end VllmEcho
