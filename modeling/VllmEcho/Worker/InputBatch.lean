import VllmEcho.Request.Basic

/-!
# The persistent input batch

`InputBatch` keeps one row for each request of the batch in parallel arrays and in dictionaries
keyed by the row.  Requests leave holes when they are removed, new requests fill the lowest holes
first, and `condense` moves the last rows into the holes that are left.
-/

namespace VllmEcho

open Lib Function

structure BatchSamplingParams where
  greedy : Bool
  temperature : ℚ
  topP : ℚ
  topK : Int
  frequencyPenalty : ℚ
  presencePenalty : ℚ
  repetitionPenalty : ℚ
  logprobs : Option Int
  allowedTokenIds : List Nat
  badWordsTokenIds : List (List TokenId)
  deriving DecidableEq

structure BatchPoolingParams where
  requiresTokenIds : Bool
  deriving DecidableEq

abbrev Embeds := List (List ℚ)

structure CachedRequestState where
  reqId : ReqId
  promptTokenIds : Option (List TokenId)
  samplingParams : Option BatchSamplingParams
  poolingParams : Option BatchPoolingParams
  generator : Option Nat
  blockIds : List (List BlockRef)
  numComputedTokens : Nat
  outputTokenIds : List TokenId
  loraRequest : Option LoRARequest
  promptEmbeds : Option Embeds
  deriving DecidableEq

def lengthFromPrompt (promptTokenIds : Option (List TokenId)) (promptEmbeds : Option Embeds) :
    Except PyError Nat :=
  match promptTokenIds, promptEmbeds with
  | none, none => .error (.valueError "Neither prompt_token_ids nor prompt_embeds were defined.")
  | none, some e => .ok e.length
  | some t, none => .ok t.length
  | some t, some e =>
    if e.length ≠ t.length then
      .error (.valueError ("Prompt token ids and prompt embeds had different lengths" ++
        " prompt_token_ids=" ++ toString t.length ++ " prompt_embeds=" ++ toString e.length))
    else .ok t.length

/-- The row of one request in the parallel arrays and the dictionaries keyed by row. Before the mask
of allowed token ids is allocated it counts as false. -/
structure BatchRow where
  tokenIds : Nat → TokenId
  isTokenIds : Nat → Bool
  promptEmbeds : Option Embeds
  numTokensNoSpec : Nat
  numPromptTokens : Nat
  numComputedTokens : Nat
  numAcceptedTokens : Nat
  blockTable : Nat → Nat → BlockRef
  numBlocksPerRow : Nat → Nat
  temperature : ℚ
  topP : ℚ
  topK : Int
  frequencyPenalty : ℚ
  presencePenalty : ℚ
  repetitionPenalty : ℚ
  loraId : Nat
  generator : Option Nat
  allowedTokenIdsMask : Nat → Bool
  badWordsTokenIds : Option (List (List TokenId))
  needsTokenIds : Bool

structure BatchMarks where
  greedy : Bool
  random : Bool
  topP : Bool
  topK : Bool
  frequencyPenalty : Bool
  presencePenalty : Bool
  repetitionPenalty : Bool
  numLogprobs : Option Int
  allowedTokenIds : Bool
  poolingParams : Option BatchPoolingParams
  deriving DecidableEq

def BatchMarks.blank : BatchMarks where
  greedy := false
  random := false
  topP := false
  topK := false
  frequencyPenalty := false
  presencePenalty := false
  repetitionPenalty := false
  numLogprobs := none
  allowedTokenIds := false
  poolingParams := none

/-- What never changes: the kind of model, the sizes, and for each KV cache group the number of
kernel blocks in a block. -/
structure BatchConfig where
  isPoolingModel : Bool
  maxNumReqs : Nat
  vocabSize : Nat
  blocksPerKvBlock : List Nat

structure RemovedRows where
  removed : List Nat
  isRemovedSorted : Bool

structure InputBatch extends RemovedRows where
  config : BatchConfig
  reqIds : List (Option ReqId)
  reqOutputTokenIds : List (Option (List TokenId))
  specTokenIds : List (List TokenId)
  reqIdToIndex : Dict ReqId Nat
  rows : Nat → BatchRow
  marks : ReqId → BatchMarks
  loraIdToRequestIds : Nat → List ReqId
  loraIdToLoraRequest : Nat → Option LoRARequest

namespace RemovedRows

variable (u : RemovedRows)

def removedAppend (index : Nat) : Except PyError RemovedRows :=
  if u.isRemovedSorted then
    .error (.runtimeError
      "Cannot register new removed request after self.removed has been read.")
  else .ok { u with removed := u.removed ++ [index] }

def ensureRemovedSorted : RemovedRows :=
  if u.isRemovedSorted then u
  else ⟨u.removed.mergeSort fun i j => decide (j ≤ i), true⟩

def popRemoved : Option Nat × RemovedRows :=
  if u.removed.isEmpty then (none, u)
  else (u.ensureRemovedSorted.removed.getLast?,
    { u.ensureRemovedSorted with removed := u.ensureRemovedSorted.removed.dropLast })

variable {u}

theorem removedAppend_eq {i : Nat} (hsorted : u.isRemovedSorted = false) :
    u.removedAppend i = .ok { u with removed := u.removed ++ [i] } := by
  unfold removedAppend
  rw [hsorted, if_neg Bool.false_ne_true]

theorem ensureRemovedSorted_sorted (u : RemovedRows) :
    u.ensureRemovedSorted.isRemovedSorted = true := by
  unfold ensureRemovedSorted
  split
  · assumption
  · rfl

theorem popRemoved_nil (hempty : u.removed = []) : u.popRemoved = (none, u) := by
  unfold popRemoved
  rw [hempty]
  rfl

theorem popRemoved_of_ne_nil (hne : u.removed ≠ []) :
    u.popRemoved = (u.ensureRemovedSorted.removed.getLast?,
      ⟨u.ensureRemovedSorted.removed.dropLast, true⟩) := by
  unfold popRemoved
  rw [if_neg (by simpa using hne), ← ensureRemovedSorted_sorted u]

end RemovedRows

namespace BatchConfig

/-! ## The row of an added request -/

def mapToKernelBlocks (blocksPerKvBlock : Nat) (blockIds : List BlockRef) : List BlockRef :=
  blockIds.flatMap fun id => (List.range blocksPerKvBlock).map fun j => id * blocksPerKvBlock + j

variable (c : BatchConfig) (request : CachedRequestState)

def kernelBlocks (group : Nat) : List BlockRef :=
  mapToKernelBlocks (c.blocksPerKvBlock.getD group 1) (request.blockIds.getD group [])

variable (row : BatchRow)

def fillTokens (numPromptTokens : Nat) (row : BatchRow) : BatchRow :=
  let numTokens := numPromptTokens + request.outputTokenIds.length
  { row with
    numPromptTokens := numPromptTokens
    tokenIds := fun col =>
      if col < numPromptTokens then
        match request.promptTokenIds with
        | some ids => ids.getD col 0
        | none => row.tokenIds col
      else if col < numTokens then request.outputTokenIds.getD (col - numPromptTokens) 0
      else row.tokenIds col
    isTokenIds := fun col =>
      if col < numPromptTokens then request.promptTokenIds.isSome
      else if col < numTokens then true
      else row.isTokenIds col
    -- an old entry of the row stays when the request has no embeddings
    promptEmbeds := request.promptEmbeds.or row.promptEmbeds
    numTokensNoSpec := numTokens
    numComputedTokens := request.numComputedTokens
    blockTable := fun group col =>
      if group < c.blocksPerKvBlock.length ∧ col < (c.kernelBlocks request group).length then
        (c.kernelBlocks request group).getD col 0
      else row.blockTable group col
    numBlocksPerRow := fun group =>
      if group < c.blocksPerKvBlock.length then (c.kernelBlocks request group).length
      else row.numBlocksPerRow group }

def allowedMask (allowedTokenIds : List Nat) (token : Nat) : Bool :=
  decide (token < c.vocabSize) && !allowedTokenIds.contains token

def effectiveTopK (topK : Int) : Int :=
  if 0 < topK ∧ topK < c.vocabSize then topK else c.vocabSize

variable (p : BatchSamplingParams)

def fillSampling (generator : Option Nat) (row : BatchRow) : BatchRow :=
  { row with
    temperature := if p.greedy then 0 else p.temperature
    topP := p.topP
    topK := c.effectiveTopK p.topK
    frequencyPenalty := p.frequencyPenalty
    presencePenalty := p.presencePenalty
    repetitionPenalty := p.repetitionPenalty
    generator := generator.or row.generator
    allowedTokenIdsMask :=
      if p.allowedTokenIds.isEmpty then row.allowedTokenIdsMask else c.allowedMask p.allowedTokenIds
    badWordsTokenIds :=
      if p.badWordsTokenIds.isEmpty then row.badWordsTokenIds else some p.badWordsTokenIds }

variable (marks : BatchMarks)

def markSampling : BatchMarks :=
  { marks with
    greedy := marks.greedy || p.greedy
    random := marks.random || !p.greedy
    topP := marks.topP || decide (p.topP < 1)
    topK := marks.topK || decide (0 < p.topK ∧ p.topK < c.vocabSize)
    frequencyPenalty := marks.frequencyPenalty || decide (p.frequencyPenalty ≠ 0)
    presencePenalty := marks.presencePenalty || decide (p.presencePenalty ≠ 0)
    repetitionPenalty := marks.repetitionPenalty || decide (p.repetitionPenalty ≠ 1)
    numLogprobs :=
      match p.logprobs with
      | none => marks.numLogprobs
      | some n => some (if n = -1 then (c.vocabSize : Int) else n)
    allowedTokenIds := marks.allowedTokenIds || !p.allowedTokenIds.isEmpty }

def fillParams : Except PyError (BatchRow × BatchMarks) :=
  match request.samplingParams, request.poolingParams with
  | some p, _ => .ok (c.fillSampling p request.generator row, c.markSampling p marks)
  | none, some p =>
    .ok ({ row with needsTokenIds := p.requiresTokenIds }, { marks with poolingParams := some p })
  | none, none => .error (.notImplementedError "Unrecognized request type")

def fillLora : BatchRow :=
  { row with
    numAcceptedTokens := 1
    loraId := (request.loraRequest.map LoRARequest.loraIntId).getD 0 }

/-! ## The row of a removed request -/

def clearRow : BatchRow :=
  { row with
    blockTable := fun group col =>
      if group < c.blocksPerKvBlock.length ∧ col < row.numBlocksPerRow group then 0
      else row.blockTable group col
    numBlocksPerRow := fun group =>
      if group < c.blocksPerKvBlock.length then 0 else row.numBlocksPerRow group
    loraId := 0 }

/-- The row that a removed request leaves.  The prompt embeddings stay, and a pooling model keeps
everything that belongs to sampling. -/
def vacateRow : BatchRow :=
  if c.isPoolingModel then c.clearRow row
  else
    { c.clearRow row with
      generator := none
      allowedTokenIdsMask := fun _ => false
      badWordsTokenIds := none }

def vacateMarks : BatchMarks :=
  if c.isPoolingModel then { marks with poolingParams := none }
  else { BatchMarks.blank with poolingParams := marks.poolingParams }

/-! ## The rows of a move -/

variable (numTokens : Nat) (src dst : BatchRow)

def moveShared : BatchRow :=
  { dst with
    tokenIds := fun col => if col < numTokens then src.tokenIds col else dst.tokenIds col
    isTokenIds := fun col => if col < numTokens then src.isTokenIds col else dst.isTokenIds col
    promptEmbeds := src.promptEmbeds.or dst.promptEmbeds
    numTokensNoSpec := src.numTokensNoSpec
    numPromptTokens := src.numPromptTokens
    numComputedTokens := src.numComputedTokens
    blockTable := fun group col =>
      if group < c.blocksPerKvBlock.length ∧ col < src.numBlocksPerRow group then
        src.blockTable group col
      else dst.blockTable group col
    numBlocksPerRow := fun group =>
      if group < c.blocksPerKvBlock.length then src.numBlocksPerRow group
      else dst.numBlocksPerRow group
    loraId := src.loraId }

def moveSampling : BatchRow :=
  { dst with
    temperature := src.temperature
    topP := src.topP
    topK := src.topK
    frequencyPenalty := src.frequencyPenalty
    presencePenalty := src.presencePenalty
    repetitionPenalty := src.repetitionPenalty
    numAcceptedTokens := src.numAcceptedTokens
    generator := src.generator.or dst.generator
    allowedTokenIdsMask := src.allowedTokenIdsMask
    badWordsTokenIds := src.badWordsTokenIds.or dst.badWordsTokenIds }

/-- The destination row of a move.  `logits_processing_needs_token_ids` does not move. -/
def movedRow : BatchRow :=
  if c.isPoolingModel then c.moveShared numTokens src dst
  else moveSampling src (c.moveShared numTokens src dst)

/-- The source row of a move: the entries of the dictionaries are popped, the mask stays. -/
def leftRow : BatchRow :=
  if c.isPoolingModel then { src with promptEmbeds := none }
  else { src with promptEmbeds := none, generator := none, badWordsTokenIds := none }

end BatchConfig

namespace InputBatch

variable (s : InputBatch) (request : CachedRequestState)

def numReqs : Nat := s.reqIdToIndex.entries.length

def setRemoved (u : RemovedRows) : InputBatch := { s with toRemovedRows := u }

/-! ## Adding a request -/

def registerAddRequest : Except PyError (Nat × InputBatch) :=
  let newReqIndex := s.popRemoved.1.getD s.numReqs
  if newReqIndex < s.config.maxNumReqs then .ok (newReqIndex, s.setRemoved s.popRemoved.2)
  else .error (.assertionError "")

def enterRow (reqIndex : Nat) : InputBatch :=
  if reqIndex = s.reqIds.length then
    { s with
      reqIds := s.reqIds ++ [some request.reqId]
      reqOutputTokenIds := s.reqOutputTokenIds ++ [some request.outputTokenIds]
      specTokenIds := s.specTokenIds ++ [[]]
      reqIdToIndex := s.reqIdToIndex.set request.reqId reqIndex }
  else
    { s with
      reqIds := s.reqIds.set reqIndex (some request.reqId)
      reqOutputTokenIds := s.reqOutputTokenIds.set reqIndex (some request.outputTokenIds)
      specTokenIds := s.specTokenIds.set reqIndex []
      reqIdToIndex := s.reqIdToIndex.set request.reqId reqIndex }

def registerLora : InputBatch :=
  match request.loraRequest with
  | some lora =>
    { s with
      loraIdToRequestIds := update s.loraIdToRequestIds lora.loraIntId
        ((s.loraIdToRequestIds lora.loraIntId).insert request.reqId)
      loraIdToLoraRequest := update s.loraIdToLoraRequest lora.loraIntId (some lora) }
  | none => s

def addRequest : Except PyError InputBatch := do
  let (reqIndex, s) ← s.registerAddRequest
  let s := s.enterRow request reqIndex
  let numPromptTokens ← lengthFromPrompt request.promptTokenIds request.promptEmbeds
  let (row, marks) ← s.config.fillParams request
    (s.config.fillTokens request numPromptTokens (s.rows reqIndex)) (s.marks request.reqId)
  return { s with
    rows := update s.rows reqIndex (BatchConfig.fillLora request row)
    marks := update s.marks request.reqId marks }.registerLora request

/-! ## Removing a request -/

def discardLora (loraId : Nat) (reqId : ReqId) : InputBatch :=
  if loraId = 0 then s
  else
    let rest := (s.loraIdToRequestIds loraId).erase reqId
    { s with
      loraIdToRequestIds := update s.loraIdToRequestIds loraId rest
      loraIdToLoraRequest :=
        if rest.isEmpty then update s.loraIdToLoraRequest loraId none
        else s.loraIdToLoraRequest }

def removeRequest (reqId : ReqId) : Except PyError InputBatch :=
  match s.reqIdToIndex.get? reqId with
  | none => .ok s
  | some reqIndex => do
    let removed ← s.removedAppend reqIndex
    return { s.setRemoved removed with
      reqIdToIndex := s.reqIdToIndex.erase reqId
      reqIds := s.reqIds.set reqIndex none
      reqOutputTokenIds := s.reqOutputTokenIds.set reqIndex none
      specTokenIds := s.specTokenIds.set reqIndex []
      rows := update s.rows reqIndex (s.config.vacateRow (s.rows reqIndex))
      marks := update s.marks reqId (s.config.vacateMarks (s.marks reqId))
      }.discardLora (s.rows reqIndex).loraId reqId

/-! ## Condensing -/

def activeTokenCount (index : Nat) : Nat :=
  (s.rows index).numTokensNoSpec + (s.specTokenIds.getD index []).length

def moveRow (last empty : Nat) : Except PyError InputBatch :=
  match s.reqIds.getD last none with
  | none => .error (.assertionError "")
  | some reqId =>
    .ok { s with
      reqIds := (s.reqIds.set empty (some reqId)).set last none
      reqOutputTokenIds :=
        (s.reqOutputTokenIds.set empty (s.reqOutputTokenIds.getD last none)).set last none
      specTokenIds := (s.specTokenIds.set empty (s.specTokenIds.getD last [])).set last []
      reqIdToIndex := s.reqIdToIndex.set reqId empty
      rows := update
        (update s.rows empty
          (s.config.movedRow (s.activeTokenCount last) (s.rows last) (s.rows empty)))
        last (s.config.leftRow (s.rows last)) }

def skipRemoved (removed : List Nat) : Nat → Nat
  | 0 => 0
  | last + 1 => if last + 1 ∈ removed then skipRemoved removed last else last + 1

/-- The loop of `condense`; a turn that does not end it fills one hole, so the number of holes
bounds the turns. -/
def condenseLoop : Nat → InputBatch → Nat → Except PyError InputBatch
  | 0, s, _ => .ok s
  | fuel + 1, s, lastReqIndex =>
    match s.removed.getLast? with
    | none => .ok s
    | some emptyIndex =>
      if skipRemoved s.removed lastReqIndex ≤ emptyIndex then .ok s
      else do
        let s' ← { s with removed := s.removed.dropLast }.moveRow
          (skipRemoved s.removed lastReqIndex) emptyIndex
        condenseLoop fuel s' (skipRemoved s.removed lastReqIndex - 1)

def condense : Except PyError InputBatch := do
  let s := s.setRemoved s.ensureRemovedSorted
  if s.removed.isEmpty then return s
  else if s.numReqs = 0 then
    return { s with reqIds := [], reqOutputTokenIds := [], specTokenIds := [] }
  else
    let s' ← condenseLoop s.removed.length s (s.numReqs + s.removed.length - 1)
    return { s' with
      reqIds := s'.reqIds.take s.numReqs
      reqOutputTokenIds := s'.reqOutputTokenIds.take s.numReqs
      specTokenIds := s'.specTokenIds.take s.numReqs }

def refreshMetadata : InputBatch :=
  { s with removed := [], isRemovedSorted := false }

def updateStates (removals : List ReqId) (additions : List CachedRequestState) :
    Except PyError InputBatch := do
  let s ← removals.foldlM removeRequest s
  let s ← additions.foldlM addRequest s
  let s ← s.condense
  return s.refreshMetadata

def init (config : BatchConfig) (uninitialised : Nat → BatchRow) : InputBatch where
  config := config
  reqIds := []
  reqOutputTokenIds := []
  specTokenIds := List.replicate config.maxNumReqs []
  reqIdToIndex := Dict.empty
  rows := fun i =>
    { uninitialised i with
      tokenIds := fun _ => 0
      isTokenIds := fun _ => false
      promptEmbeds := none
      numTokensNoSpec := 0
      numPromptTokens := 0
      numComputedTokens := 0
      numAcceptedTokens := 1
      blockTable := fun _ _ => 0
      numBlocksPerRow := fun _ => 0
      loraId := 0
      generator := none
      allowedTokenIdsMask := fun _ => false
      badWordsTokenIds := none
      needsTokenIds := false }
  marks := fun _ => BatchMarks.blank
  loraIdToRequestIds := fun _ => []
  loraIdToLoraRequest := fun _ => none
  removed := []
  isRemovedSorted := false

end InputBatch

end VllmEcho
