import VllmEcho.KVCache.BlockPool

/-!
# Requests

`vllm/v1/request.py`: the request record, its statuses and the streaming updates of a session.
Fields that only feed statistics or the front end (events, trace headers, log-probability options)
are left out.
-/

namespace VllmEcho

abbrev TokenId := Int

inductive RequestStatus
  | waiting
  | waitingForStructuredOutputGrammar
  | waitingForRemoteKvs
  | waitingForStreamingReq
  | running
  | preempted
  | finishedStopped
  | finishedLengthCapped
  | finishedAborted
  | finishedIgnored
  | finishedError
  | finishedRepetition
  deriving DecidableEq, Repr

def RequestStatus.isFinished : RequestStatus → Bool
  | .waiting | .waitingForStructuredOutputGrammar | .waitingForRemoteKvs
  | .waitingForStreamingReq | .running | .preempted => false
  | _ => true

structure RepetitionDetectionParams where
  maxPatternSize : Nat
  minPatternSize : Nat
  minCount : Nat
  deriving DecidableEq, Repr

/-- The fields of `SamplingParams` the scheduler core reads.  `structuredOutputs` says whether
`StructuredOutputRequest.from_sampling_params` returns a request. -/
structure SamplingParams where
  maxTokens : Option Nat
  minTokens : Nat
  eosTokenId : Option TokenId
  stopTokenIds : List TokenId
  repetitionDetection : Option RepetitionDetectionParams
  skipReadingPrefixCache : Option Bool
  structuredOutputs : Bool
  deriving DecidableEq, Repr

structure PoolingParams where
  skipReadingPrefixCache : Option Bool
  deriving DecidableEq, Repr

structure LoRARequest where
  loraName : String
  loraIntId : Nat
  deriving DecidableEq, Repr

structure MMFeature where
  identifier : String
  offset : Nat
  length : Nat
  isEmbed : Option (List Bool)
  deriving DecidableEq, Repr

def MMFeature.stop (f : MMFeature) : Nat := f.offset + f.length

structure StreamingUpdate where
  mmFeatures : List MMFeature
  promptTokenIds : Option (List TokenId)
  maxTokens : Nat
  arrivalTime : Int
  samplingParams : Option SamplingParams
  deriving DecidableEq, Repr

inductive StopReason
  | token (id : TokenId)
  | text (s : String)
  deriving DecidableEq, Repr

/-- `Request`.  A row of the prompt embeddings is its raw bytes; arrival times are only compared. -/
structure Request where
  requestId : ReqId
  priority : Int
  samplingParams : Option SamplingParams
  poolingParams : Option PoolingParams
  loraRequest : Option LoRARequest
  cacheSalt : Option String
  mmFeatures : List MMFeature
  promptEmbeds : Option (List (List UInt8))
  arrivalTime : Int
  maxTokens : Nat
  resumable : Bool
  skipReadingPrefixCache : Bool
  /-- Whether `structured_output_request` was made by `__init__`; later parameters do not change
  it. -/
  useStructuredOutput : Bool
  status : RequestStatus
  stopReason : Option StopReason
  promptTokenIds : Option (List TokenId)
  numPromptTokens : Nat
  outputTokenIds : List TokenId
  allTokenIds : List TokenId
  numOutputPlaceholders : Int
  discardLatestAsyncTokens : Bool
  specTokenIds : List TokenId
  numComputedTokens : Int
  numCachedTokens : Int
  isPrefillChunk : Bool
  numPreemptions : Nat
  numExternalComputedTokens : Int
  blockHashes : List BlockHash
  streamingQueue : Option (List (Option StreamingUpdate))
  deriving DecidableEq, Repr

variable (r : Request)

namespace Request

def numTokens : Nat := r.allTokenIds.length

def numTokensWithSpec : Nat := r.allTokenIds.length + r.specTokenIds.length

def numOutputTokens : Nat := r.outputTokenIds.length

def hasEncoderInputs : Bool := !r.mmFeatures.isEmpty

def isFinished (r : Request) : Bool := r.status.isFinished

/-- `Request.__lt__`; requests of one scheduler have distinct ids, so object identity never
decides. -/
def before (s : Request) : Bool :=
  if r.priority ≠ s.priority then decide (r.priority < s.priority)
  else if r.arrivalTime ≠ s.arrivalTime then decide (r.arrivalTime < s.arrivalTime)
  else decide (r.requestId < s.requestId)

end Request

def StreamingUpdate.fromRequest : Option StreamingUpdate :=
  if r.resumable then
    some ⟨r.mmFeatures, r.promptTokenIds, r.maxTokens, r.arrivalTime, r.samplingParams⟩
  else none

def slice {α : Type} (xs : List α) (lo hi : Nat) : List α := (xs.take hi).drop lo

theorem slice_append_left {α : Type} (xs ys : List α) (lo : Nat) {hi : Nat}
    (hhi : hi ≤ xs.length) : slice (xs ++ ys) lo hi = slice xs lo hi := by
  rw [slice, slice, List.take_append_of_le_length hhi]

end VllmEcho
