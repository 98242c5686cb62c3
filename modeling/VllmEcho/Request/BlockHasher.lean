import VllmEcho.Lib.HashChain
import VllmEcho.Request.Basic

/-!
# Block hashes of a request

`kv_cache_utils.py`: the extra keys of a block, `hash_block_tokens` and the hasher returned by
`get_request_block_hasher`, and the places of `Request` that call it.
-/

namespace VllmEcho

open Lib

/-- The values of one untagged tuple: LoRA names and salts are plain strings, a multimodal item is
its identifier and its offset in the block, and prompt embeddings give a digest. -/
inductive ExtraKey
  | text (s : String)
  | item (identifier : String) (offset : Int)
  | digest (bytes : List UInt8)
  deriving DecidableEq, Repr

abbrev BlockContent := List TokenId × Option (List ExtraKey)

/-- A hash function and `NONE_HASH`, taken to be collision free: `hash` is injective on parent hash,
tokens and extra keys, and `NONE_HASH` is no block's hash. `sha256` is the digest of a slice of
prompt embeddings. -/
structure HashFunction where
  hash : BlockHash → BlockContent → BlockHash
  noneHash : BlockHash
  sha256 : List (List UInt8) → List UInt8
  injective : ∀ d x d' x', hash d x = hash d' x' → d = d' ∧ x = x'
  noneHash_fresh : ∀ d x, hash d x ≠ noneHash
  hash_ne_nil : ∀ d x, hash d x ≠ []

structure BlockHasher where
  fn : HashFunction
  blockSize : Nat
  blockSize_pos : 0 < blockSize

/-! ## Extra keys -/

def mmKey (startTokenIdx : Nat) (f : MMFeature) : ExtraKey :=
  .item f.identifier ((f.offset : Int) - startTokenIdx)

def mmLoop (startTokenIdx endTokenIdx : Nat) : List MMFeature → Nat → List ExtraKey × Nat
  | [], currMMIdx => ([], currMMIdx)
  | f :: fs, currMMIdx =>
    if f.offset < endTokenIdx then
      if f.stop ≤ startTokenIdx then mmLoop startTokenIdx endTokenIdx fs (currMMIdx + 1)
      else if f.stop ≤ endTokenIdx then
        let rest := mmLoop startTokenIdx endTokenIdx fs (currMMIdx + 1)
        (mmKey startTokenIdx f :: rest.1, rest.2)
      else ([mmKey startTokenIdx f], currMMIdx)
    else ([], currMMIdx)

def resolveMMIdx (mm : List MMFeature) (startMMIdx : Int) : Except PyError Nat :=
  if startMMIdx < 0 then do
    assertThat (decide (-startMMIdx ≤ (mm.length : Int))) "-start_mm_idx <= len(mm_features)"
    pure ((mm.length : Int) + startMMIdx).toNat
  else pure startMMIdx.toNat

variable (r : Request) (startTokenIdx : Nat)

def genMMExtraHashKeys (endTokenIdx : Nat) (startMMIdx : Int) :
    Except PyError (List ExtraKey × Int) :=
  match r.mmFeatures.getLast? with
  | none => pure ([], startMMIdx)
  | some last =>
    -- All items end before the block: the index is handed back as it came.
    if last.stop ≤ startTokenIdx then pure ([], startMMIdx)
    else do
      let idx ← resolveMMIdx r.mmFeatures startMMIdx
      let res := mmLoop startTokenIdx endTokenIdx (r.mmFeatures.drop idx) idx
      pure (res.1, (res.2 : Int))

def genLoraExtraHashKeys : List ExtraKey :=
  match r.loraRequest with
  | none => []
  | some lora => [.text lora.loraName]

def cacheSaltKeys : List ExtraKey :=
  match r.cacheSalt with
  | none => []
  | some salt => if startTokenIdx = 0 ∧ salt ≠ "" then [.text salt] else []

variable (fn : HashFunction)

/-- `_gen_prompt_embeds_extra_hash_keys`; the per-request memo of digests is left out, since the
embeddings never change. -/
def genPromptEmbedsExtraHashKeys (r : Request) (startTokenIdx endTokenIdx : Nat) : List ExtraKey :=
  match r.promptEmbeds with
  | none => []
  | some embeds => [.digest (fn.sha256 (slice embeds startTokenIdx endTokenIdx))]

def packKeys (keys : List ExtraKey) : Option (List ExtraKey) :=
  if keys.isEmpty then none else some keys

def generateBlockHashExtraKeys (r : Request) (startTokenIdx endTokenIdx : Nat) (startMMIdx : Int) :
    Except PyError (Option (List ExtraKey) × Int) := do
  let (mmExtraKeys, newStartMMIdx) ← genMMExtraHashKeys r startTokenIdx endTokenIdx startMMIdx
  pure (packKeys (genLoraExtraHashKeys r ++ mmExtraKeys ++ cacheSaltKeys r startTokenIdx ++
    genPromptEmbedsExtraHashKeys fn r startTokenIdx endTokenIdx), newStartMMIdx)

/-! ## Hashing -/

variable (parentBlockHash : Option BlockHash)

def parentOrNone : BlockHash :=
  match parentBlockHash with
  | none => fn.noneHash
  | some h => if h.isEmpty then fn.noneHash else h

def hashBlockTokens (currBlockTokenIds : List TokenId) (extraKeys : Option (List ExtraKey)) :
    BlockHash :=
  fn.hash (parentOrNone fn parentBlockHash) (currBlockTokenIds, extraKeys)

def hashLoop (h : BlockHasher) (r : Request) :
    Nat → Nat → Int → Option BlockHash → Except PyError (List BlockHash)
  | 0, _, _, _ => pure []
  | n + 1, startTokenIdx, currMMIdx, prevBlockHash => do
    let endTokenIdx := startTokenIdx + h.blockSize
    let (extraKeys, currMMIdx) ←
      generateBlockHashExtraKeys h.fn r startTokenIdx endTokenIdx currMMIdx
    let blockHash := hashBlockTokens h.fn prevBlockHash
      (slice r.allTokenIds startTokenIdx endTokenIdx) extraKeys
    let rest ← hashLoop h r n endTokenIdx currMMIdx (some blockHash)
    pure (blockHash :: rest)

def requestBlockHasher (h : BlockHasher) (r : Request) : Except PyError (List BlockHash) :=
  let startTokenIdx := r.blockHashes.length * h.blockSize
  if r.numTokens < startTokenIdx + h.blockSize then pure []
  else
    hashLoop h r ((r.numTokens - startTokenIdx) / h.blockSize) startTokenIdx
      (if 0 < startTokenIdx then -1 else 0) r.blockHashes.getLast?

namespace Request

def updateBlockHashes (hasher : Option BlockHasher) (r : Request) : Except PyError Request :=
  match hasher with
  | none => pure r
  | some h => do
    let new ← requestBlockHasher h r
    pure { r with blockHashes := r.blockHashes ++ new }

def appendOutputTokenIds (hasher : Option BlockHasher) (r : Request) (tokenIds : List TokenId) :
    Except PyError Request :=
  updateBlockHashes hasher
    { r with
      outputTokenIds := r.outputTokenIds ++ tokenIds
      allTokenIds := r.allTokenIds ++ tokenIds }

end Request

structure RequestArgs where
  requestId : ReqId
  promptTokenIds : Option (List TokenId)
  samplingParams : Option SamplingParams
  poolingParams : Option PoolingParams
  arrivalTime : Int
  promptEmbeds : Option (List (List UInt8))
  mmFeatures : List MMFeature
  loraRequest : Option LoRARequest
  cacheSalt : Option String
  priority : Int
  resumable : Bool
  deriving DecidableEq, Repr

def lengthFromPromptTokenIdsOrEmbeds (promptTokenIds : Option (List TokenId))
    (promptEmbeds : Option (List (List UInt8))) : Except PyError Nat :=
  match promptTokenIds, promptEmbeds with
  | none, none =>
    throw (.valueError "Neither prompt_token_ids nor prompt_embeds were defined.")
  | none, some embeds => pure embeds.length
  | some ids, none => pure ids.length
  | some ids, some embeds =>
    if embeds.length ≠ ids.length then
      throw (.valueError ("Prompt token ids and prompt embeds had different lengths" ++
        " prompt_token_ids=" ++ toString ids.length ++ " prompt_embeds=" ++
        toString embeds.length))
    else pure ids.length

def initialLimits (a : RequestArgs) : Except PyError (Nat × RequestStatus) :=
  match a.poolingParams, a.samplingParams with
  | some _, _ => pure (1, .waiting)
  | none, some sp =>
    match sp.maxTokens with
    | none => throw (.assertionError "sampling_params.max_tokens is not None")
    | some n =>
      pure (n, if sp.structuredOutputs then .waitingForStructuredOutputGrammar else .waiting)
  | none, none => throw (.valueError "sampling_params and pooling_params can't both be unset")

def getSkipReadingPrefixCache (sp : Option SamplingParams) (pp : Option PoolingParams) : Bool :=
  match sp.bind SamplingParams.skipReadingPrefixCache with
  | some b => b
  | none => (pp.bind PoolingParams.skipReadingPrefixCache).getD false

def Request.unhashed (a : RequestArgs) (maxTokens : Nat) (status : RequestStatus)
    (numPromptTokens : Nat) : Request where
  requestId := a.requestId
  priority := a.priority
  samplingParams := a.samplingParams
  poolingParams := a.poolingParams
  loraRequest := a.loraRequest
  cacheSalt := a.cacheSalt
  mmFeatures := a.mmFeatures
  promptEmbeds := a.promptEmbeds
  arrivalTime := a.arrivalTime
  maxTokens := maxTokens
  resumable := a.resumable
  skipReadingPrefixCache := getSkipReadingPrefixCache a.samplingParams a.poolingParams
  useStructuredOutput := (a.samplingParams.map SamplingParams.structuredOutputs).getD false
  status := status
  stopReason := none
  promptTokenIds := a.promptTokenIds
  numPromptTokens := numPromptTokens
  outputTokenIds := []
  allTokenIds := a.promptTokenIds.getD (List.replicate numPromptTokens 0)
  numOutputPlaceholders := 0
  discardLatestAsyncTokens := false
  specTokenIds := []
  numComputedTokens := 0
  numCachedTokens := -1
  isPrefillChunk := false
  numPreemptions := 0
  numExternalComputedTokens := 0
  blockHashes := []
  streamingQueue := none

def Request.init (hasher : Option BlockHasher) (a : RequestArgs) : Except PyError Request := do
  let (maxTokens, status) ← initialLimits a
  let numPromptTokens ← lengthFromPromptTokenIdsOrEmbeds a.promptTokenIds a.promptEmbeds
  (Request.unhashed a maxTokens status numPromptTokens).updateBlockHashes hasher

def Request.appendAll (hasher : Option BlockHasher) :
    Request → List (List TokenId) → Except PyError Request
  | r, [] => pure r
  | r, c :: cs => do
    let r' ← r.appendOutputTokenIds hasher c
    appendAll hasher r' cs

def Request.build (hasher : Option BlockHasher) (a : RequestArgs)
    (outputs : List (List TokenId)) : Except PyError Request := do
  let r ← Request.init hasher a
  r.appendAll hasher outputs

end VllmEcho
