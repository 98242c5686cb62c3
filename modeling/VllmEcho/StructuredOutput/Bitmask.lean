import VllmEcho.Sched.Scheduler

/-!
# The grammar bitmask

The scheduler packs one row for each draft of a structured-output request and one more, request
after request (`get_grammar_bitmask`, `grammar_bitmask`).  The worker unpacks the rows to the rows
of its logits (`apply_grammar_bitmask`).
-/

namespace VllmEcho

open Lib List

/-! ## Grammars

The compiled grammar belongs to the backend library; it is given by the tokens it allows after a
sequence of tokens and by the sequences at which it terminates. -/

structure GrammarRules where
  allows : List TokenId → TokenId → Bool
  terminates : List TokenId → Bool

structure Grammar where
  rules : GrammarRules
  tokens : List TokenId

abbrev MaskRow := TokenId → Bool

def fullMask : MaskRow := fun _ => true

namespace Grammar

variable (g : Grammar)

def isTerminated : Bool := g.rules.terminates g.tokens

def acceptEach (g : Grammar) : List TokenId → Bool × Grammar
  | [] => (true, g)
  | token :: tokens =>
    if g.rules.allows g.tokens token then
      { g with tokens := g.tokens ++ [token] }.acceptEach tokens
    else (false, g)

variable (tokens : List TokenId)

def acceptTokens : Bool × Grammar :=
  if g.isTerminated then (false, g) else g.acceptEach tokens

def rollback (numTokens : Nat) : Grammar :=
  { g with tokens := g.tokens.take (g.tokens.length - numTokens) }

def fillBitmask : MaskRow := g.rules.allows g.tokens

theorem rollback_append :
    ({ g with tokens := g.tokens ++ tokens } : Grammar).rollback tokens.length = g := by
  unfold rollback
  rw [length_append, Nat.add_sub_cancel, take_left]

end Grammar

structure StructuredOutputRequest where
  grammar : Grammar
  reasoningEnded : Option Bool

structure MaskedRequest where
  promptTokenIds : Option (List TokenId)
  isPrefillChunk : Bool
  structuredOutputRequest : Option StructuredOutputRequest

def MaskedRequest.needsMask (q : MaskedRequest) : Bool :=
  q.structuredOutputRequest.isSome && !q.isPrefillChunk

structure StructuredOutputManager where
  reasoner : Option (List TokenId → Bool)
  enableInReasoning : Bool
  maxNumSeqs : Nat
  numSpeculativeTokens : Option Nat
  grammarBitmask : Option (List MaskRow)

variable (requests : ReqId → Option MaskedRequest)

namespace StructuredOutputManager

variable (m : StructuredOutputManager)

def shouldFillBitmask (prompt : Option (List TokenId)) (so : StructuredOutputRequest) :
    Bool × StructuredOutputRequest :=
  match m.reasoner with
  | none => (true, so)
  | some isReasoningEnd =>
    if m.enableInReasoning then (true, so)
    else
      let ended := so.reasoningEnded.getD (isReasoningEnd (prompt.getD []))
      (ended, { so with reasoningEnded := some ended })

def fillBitmasks (buffer : List MaskRow) (grammar : Grammar) (index : Nat) (applyBitmask : Bool) :
    Except PyError (List MaskRow) :=
  if index < buffer.length then
    .ok (buffer.set index
      (if applyBitmask && !grammar.isTerminated then grammar.fillBitmask else fullMask))
  else .error .indexError

def fillDrafts : List TokenId → Grammar → Bool → Nat → List MaskRow → Nat →
    Except PyError (Grammar × Nat × List MaskRow × Nat)
  | [], grammar, _, stateAdvancements, buffer, cumulativeIndex =>
    .ok (grammar, stateAdvancements, buffer, cumulativeIndex)
  | token :: tokens, grammar, applyBitmask, stateAdvancements, buffer, cumulativeIndex => do
    let buffer ← fillBitmasks buffer grammar cumulativeIndex applyBitmask
    let applyBitmask := applyBitmask && decide (token ≠ -1)
    if applyBitmask && !grammar.isTerminated then
      assertThat (grammar.acceptTokens [token]).1 ""
      fillDrafts tokens (grammar.acceptTokens [token]).2 applyBitmask (stateAdvancements + 1) buffer
        (cumulativeIndex + 1)
    else
      fillDrafts tokens grammar applyBitmask stateAdvancements buffer (cumulativeIndex + 1)

structure FillState where
  requests : ReqId → Option MaskedRequest
  buffer : List MaskRow
  cumulativeIndex : Nat

def lookup (r : ReqId) : Except PyError (MaskedRequest × StructuredOutputRequest) :=
  match requests r with
  | none => .error .keyError
  | some q =>
    match q.structuredOutputRequest with
    | none => .error (.assertionError "")
    | some so => .ok (q, so)

def fillRequest (drafts : ReqId → List TokenId) (s : FillState) (r : ReqId) :
    Except PyError FillState := do
  let (q, so) ← lookup s.requests r
  let (applyBitmask, so) := m.shouldFillBitmask q.promptTokenIds so
  let (grammar, stateAdvancements, buffer, cumulativeIndex) ←
    fillDrafts (drafts r ++ [-1]) so.grammar applyBitmask 0 s.buffer s.cumulativeIndex
  let grammar := if 0 < stateAdvancements then grammar.rollback stateAdvancements else grammar
  return {
    requests := Function.update s.requests r
      (some { q with structuredOutputRequest := some { so with grammar := grammar } })
    buffer := buffer
    cumulativeIndex := cumulativeIndex }

/-- One request of the parallel path: a row for each request.  The tasks write different rows, so
they are run in the order of the requests. -/
def fillParallel (s : FillState) (r : ReqId) : Except PyError FillState := do
  let (q, so) ← lookup s.requests r
  let (applyBitmask, so) := m.shouldFillBitmask q.promptTokenIds so
  let buffer ← fillBitmasks s.buffer so.grammar s.cumulativeIndex applyBitmask
  return {
    requests := Function.update s.requests r (some { q with structuredOutputRequest := some so })
    buffer := buffer
    cumulativeIndex := s.cumulativeIndex + 1 }

def fillBitmaskParallelThreshold : Nat := 128

def numRows : Nat :=
  m.maxNumSeqs * (1 + m.numSpeculativeTokens.getD 0)

def fillRows (ids : List ReqId) (drafts : ReqId → List TokenId) (s : FillState) :
    Except PyError FillState :=
  if fillBitmaskParallelThreshold < ids.length ∧ m.numSpeculativeTokens.getD 0 = 0 then
    ids.foldlM m.fillParallel s
  else ids.foldlM (m.fillRequest drafts) s

def grammarBitmaskOf (requests : ReqId → Option MaskedRequest) (ids : List ReqId)
    (drafts : ReqId → List TokenId) :
    Except PyError (List MaskRow × StructuredOutputManager × (ReqId → Option MaskedRequest)) := do
  let s ← m.fillRows ids drafts
    ⟨requests, m.grammarBitmask.getD (replicate m.numRows fullMask), 0⟩
  return (s.buffer.take s.cumulativeIndex, { m with grammarBitmask := some s.buffer }, s.requests)

end StructuredOutputManager

structure GrammarOutput where
  structuredOutputRequestIds : List ReqId
  grammarBitmask : List MaskRow

variable (out : SchedulerOutput)

def structuredOutputRequestIds : List ReqId :=
  out.numScheduledTokens.keys.filter fun r => (requests r).any MaskedRequest.needsMask

/-- `get_grammar_bitmask`.  `has_structured_output_requests` is the disjunction of the condition
that collects the ids. -/
def getGrammarBitmask (m : StructuredOutputManager) (requests : ReqId → Option MaskedRequest)
    (out : SchedulerOutput) : Except PyError
      (Option GrammarOutput × StructuredOutputManager × (ReqId → Option MaskedRequest)) := do
  let ids := structuredOutputRequestIds requests out
  if ids.isEmpty then return (none, m, requests)
  else
    let (bitmask, m, requests) ← m.grammarBitmaskOf requests ids out.drafts
    return (some ⟨ids, bitmask⟩, m, requests)

/-! ## The worker -/

abbrev LogitsRow := TokenId → WithBot ℚ

def structOutReqBatchIndices (drafts : ReqId → List TokenId) (ids : List ReqId) :
    List ReqId → Nat → Nat → Dict ReqId Nat → Dict ReqId Nat
  | [], _, _, indices => indices
  | r :: rs, batchIndex, cumulativeOffset, indices =>
    structOutReqBatchIndices drafts ids rs (batchIndex + 1) (cumulativeOffset + (drafts r).length)
      (if r ∈ ids then indices.set r (batchIndex + cumulativeOffset) else indices)

structure SortState where
  sortedBitmask : List MaskRow
  outIndices : List Nat

variable (bitmask : List MaskRow)

def copyRow (logitIdx cumulativeIndex : Nat) (s : SortState) (i : Nat) : Except PyError SortState :=
  match bitmask[cumulativeIndex + i]? with
  | none => .error .indexError
  | some row =>
    if logitIdx + i < s.sortedBitmask.length then
      .ok ⟨s.sortedBitmask.set (logitIdx + i) row, s.outIndices ++ [logitIdx + i]⟩
    else .error .indexError

def copyRows (logitIdx : Option Nat) (cumulativeIndex numSpecTokens : Nat) (s : SortState) :
    Except PyError SortState :=
  match logitIdx with
  | some logitIdx =>
    (range (1 + numSpecTokens)).foldlM (copyRow bitmask logitIdx cumulativeIndex) s
  | none => .ok s

def sortBitmask (drafts : ReqId → List TokenId) (indices : Dict ReqId Nat)
    (bitmask : List MaskRow) :
    List ReqId → Nat → SortState → Except PyError SortState
  | [], _, s => .ok s
  | r :: rs, cumulativeIndex, s => do
    let s ← copyRows bitmask (indices.get? r) cumulativeIndex (drafts r).length s
    sortBitmask drafts indices bitmask rs (cumulativeIndex + (1 + (drafts r).length)) s

def maskLogits (mask : MaskRow) (logits : LogitsRow) : LogitsRow :=
  fun t => if mask t then logits t else ⊥

def applyTokenBitmaskInplace (logits : List LogitsRow) (bitmask : List MaskRow)
    (indices : Option (List Nat)) : List LogitsRow :=
  logits.mapIdx fun i row =>
    if indices.all (fun is => decide (i ∈ is)) then maskLogits (bitmask.getD i fullMask) row else
      row

def applyGrammarBitmask (g : GrammarOutput) (reqIds : List ReqId) (logits : List LogitsRow) :
    Except PyError (List LogitsRow) := do
  let indices :=
    structOutReqBatchIndices out.drafts g.structuredOutputRequestIds reqIds 0 0 Dict.empty
  let s ← sortBitmask out.drafts indices g.grammarBitmask g.structuredOutputRequestIds 0
    ⟨replicate logits.length fullMask, []⟩
  let skipOutIndices := s.outIndices.length = logits.length
  return applyTokenBitmaskInplace logits s.sortedBitmask
    (if skipOutIndices then none else some s.outIndices)

def maskedLogits (g : Option GrammarOutput) (reqIds : List ReqId) (logits : List LogitsRow) :
    Except PyError (List LogitsRow) :=
  match g with
  | none => .ok logits
  | some g => applyGrammarBitmask out g reqIds logits

end VllmEcho
