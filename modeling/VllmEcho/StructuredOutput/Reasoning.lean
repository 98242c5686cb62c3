import VllmEcho.Sched.Schedule
import VllmEcho.Sched.StopCases
import VllmEcho.StructuredOutput.Bitmask

/-!
# Reasoning before structured output

A model that reasons first is held to its grammar from the end marker on.  `should_advance` finds
the marker in the tokens of a step; from then on the grammar takes the output tokens, checks the
drafts and masks the logits.

`ReasoningRun` follows one such request through the engine: the calls that `step` (one batch at a
time) and `step_with_batch_queue` (a batch is scheduled while the one before is running, and waits
with sampling for the tokens of structured-output requests) make for it.
-/

namespace VllmEcho

structure ReasoningParser where
  endTokenId : TokenId
  isReasoningEnd : List TokenId → Bool

namespace ReasoningParser

def isReasoningEndStreaming (p : ReasoningParser) (deltaIds : List TokenId) : Bool :=
  decide (p.endTokenId ∈ deltaIds)

def lastMarkerIsEnd (startTokenId endTokenId : TokenId) : List TokenId → Bool
  | [] => false
  | t :: ts =>
    if t = startTokenId then false
    else if t = endTokenId then true
    else lastMarkerIsEnd startTokenId endTokenId ts

def baseThinking (startTokenId endTokenId : TokenId) : ReasoningParser :=
  ⟨endTokenId, fun inputIds => lastMarkerIsEnd startTokenId endTokenId inputIds.reverse⟩

def step3 (thinkEndTokenId : TokenId) : ReasoningParser :=
  ⟨thinkEndTokenId, fun inputIds => decide (thinkEndTokenId ∈ inputIds)⟩

def manager (p : ReasoningParser) : StructuredOutputManager where
  reasoner := some p.isReasoningEnd
  enableInReasoning := false
  maxNumSeqs := 1
  numSpeculativeTokens := none
  grammarBitmask := none

end ReasoningParser

def Request.deltaStart (r : Request) : Nat :=
  let deltaFrom := r.numComputedTokens - r.numOutputPlaceholders
  if 0 ≤ deltaFrom then deltaFrom.toNat else ((r.numTokens : Int) + deltaFrom).toNat

def shouldAdvance (reasoner : Option ReasoningParser) (enableInReasoning : Bool) (r : Request)
    (so : StructuredOutputRequest) : Bool × StructuredOutputRequest :=
  if !r.useStructuredOutput then (false, so)
  else
    match reasoner with
    | none => (true, so)
    | some p =>
      if enableInReasoning then (true, so)
      else if so.reasoningEnded = some true then (true, so)
      else if p.isReasoningEndStreaming (r.allTokenIds.drop r.deltaStart) then
        (false, { so with reasoningEnded := some true })
      else (false, so)

def Grammar.validateAfter (rules : GrammarRules) (accepted : List TokenId) :
    List TokenId → List TokenId
  | [] => []
  | token :: tokens =>
    if rules.allows accepted token then token :: validateAfter rules (accepted ++ [token]) tokens
    else []

def Grammar.validateTokens (g : Grammar) (tokens : List TokenId) : List TokenId :=
  validateAfter g.rules g.tokens tokens

structure Flight where
  /-- The drafts as the scheduler knows them. -/
  drafts : List TokenId
  /-- The drafts that the worker verifies. -/
  held : List TokenId
  chunk : Bool
  /-- The rows of the bitmask wait for the output of the step before. -/
  deferred : Bool
  rows : List MaskRow

/-- One request in the engine. The last three fields are only observed: whether the reasoning had
ended on arrival, the row each output token was sampled under, and whether the grammar has rejected
a token. -/
structure ReasoningRun where
  request : Request
  structured : StructuredOutputRequest
  flights : List Flight
  reasoningEndedAtStart : Option Bool
  sampledUnder : List MaskRow
  rejected : Bool

namespace ReasoningRun

variable (cfg : SchedulerConfig) (p : ReasoningParser)

variable (s : ReasoningRun) (f : Flight)

def getGrammarBitmask : ReasoningRun × Flight :=
  if s.request.isFinished || !s.request.useStructuredOutput || s.request.isPrefillChunk then
    (s, { f with deferred := false })
  else
    match p.manager.fillRequest (fun _ => f.drafts)
      ⟨fun _ => some ⟨s.request.promptTokenIds, s.request.isPrefillChunk, some s.structured⟩,
        List.replicate (f.drafts.length + 1) fullMask, 0⟩ s.request.requestId with
    | .error _ => ({ s with rejected := true }, { f with deferred := false })
    | .ok t =>
      ({ s with
        structured := ((t.requests s.request.requestId).bind
          MaskedRequest.structuredOutputRequest).getD s.structured },
        { f with deferred := false, rows := t.buffer })

variable (r : Request) (drafts : List TokenId)

/-- The end of a scheduling step: the request as `_update_after_schedule` leaves it, and the step in
flight, with its rows unless they have to wait. -/
def dispatch (held : List TokenId) (numNewTokens : Nat) (othersPending : Bool) : ReasoningRun :=
  let r := Scheduler.advance { r with specTokenIds := [] } numNewTokens
  let pending :=
    !r.isPrefillChunk && (r.useStructuredOutput && decide (0 < r.numOutputPlaceholders))
  let deferred := cfg.asyncScheduling && (othersPending || pending)
  let r := if cfg.asyncScheduling then Scheduler.expectTokens cfg drafts.length r else r
  let s := { s with request := r }
  let f : Flight := ⟨drafts, held, r.isPrefillChunk, deferred, []⟩
  if deferred then { s with flights := s.flights ++ [f] }
  else { (getGrammarBitmask p s f).1 with flights := s.flights ++ [(getGrammarBitmask p s f).2] }

def scheduleRunning (numNewTokens : Nat) (held : List TokenId) (othersPending : Bool) :
    ReasoningRun :=
  s.dispatch cfg p s.request (scheduledDrafts s.request numNewTokens) held numNewTokens
    othersPending

def scheduleWaiting (found : FoundTokens) (numNewTokens : Nat) (othersPending : Bool) :
    ReasoningRun :=
  s.dispatch cfg p (startRunning found s.request) [] [] numNewTokens othersPending

variable (specTokenIds : List TokenId)

def updateDraftTokenIdsInOutput : ReasoningRun × Flight :=
  if s.request.isFinished || f.drafts.isEmpty then (s, f)
  else
    let (advances, so) := shouldAdvance (some p) false s.request s.structured
    let specTokenIds := specTokenIds.take f.drafts.length
    let specTokenIds := if advances then so.grammar.validateTokens specTokenIds else specTokenIds
    ({ s with structured := so },
      { f with
        drafts := specTokenIds ++ List.replicate (f.drafts.length - specTokenIds.length) (-1) })

def sampleDeferred (reported : Bool) : ReasoningRun :=
  match s.flights with
  | [f] =>
    let (s, f) := if reported then s.updateDraftTokenIdsInOutput p f f.held else (s, f)
    { (s.getGrammarBitmask p f).1 with flights := [(s.getGrammarBitmask p f).2] }
  | _ => s

variable (newTokenIds : List TokenId)

def updateRequestWithOutput : Except PyError (Request × List TokenId) :=
  if cfg.asyncScheduling then
    if r.discardLatestAsyncTokens then .ok ({ r with discardLatestAsyncTokens := false }, [])
    else do
      let (r, appended, _) ← appendUntilStop cfg.hasher cfg.maxModelLen r newTokenIds
      let r := { r with numOutputPlaceholders := r.numOutputPlaceholders - appended.length }
      assertThat (decide ((0 : Int) ≤ r.numOutputPlaceholders))
        "request.num_output_placeholders >= 0"
      pure (r, appended)
  else do
    let (r, appended, _) ← appendUntilStop cfg.hasher cfg.maxModelLen r newTokenIds
    pure (r, appended)

variable (generated : List TokenId)

def takeTokens : Except PyError (Request × List TokenId) :=
  if generated = [] then .ok (r, [])
  else
    updateRequestWithOutput cfg
      (if drafts = [] then r
        else Scheduler.rejectDrafts ((drafts.length : Int) - ((generated.length : Int) - 1)) r)
      generated

def advanceGrammar : ReasoningRun :=
  if newTokenIds = [] then s
  else
    let (advances, so) := shouldAdvance (some p) false s.request s.structured
    if advances then
      { s with
        structured := { so with grammar := (so.grammar.acceptTokens newTokenIds).2 }
        rejected := s.rejected || !(so.grammar.acceptTokens newTokenIds).1 }
    else { s with structured := so }

def updateFromOutput : Except PyError ReasoningRun :=
  match s.flights with
  | [] => .ok s
  | f :: flights =>
    if s.request.isFinished then .ok { s with flights := flights }
    else do
      let (r, appended) ← takeTokens cfg s.request f.drafts generated
      return { s with
        request := r
        flights := flights
        sampledUnder := s.sampledUnder ++ f.rows.take appended.length }.advanceGrammar p appended

def updateDraftTokenIds : ReasoningRun :=
  if s.request.isFinished then s
  else if s.request.isPrefillChunk then { s with request := { s.request with specTokenIds := [] } }
  else
    let (advances, so) := shouldAdvance (some p) false s.request s.structured
    { s with
      request := { s.request with
        specTokenIds := if advances then so.grammar.validateTokens specTokenIds else specTokenIds }
      structured := so }

end ReasoningRun

inductive ReasoningEvent
  | scheduleRunning (numNewTokens : Nat) (held : List TokenId) (othersPending : Bool)
  | scheduleWaiting (found : FoundTokens) (numNewTokens : Nat) (othersPending : Bool)
  | sampleDeferred (reported : Bool)
  | output (generated : List TokenId)
  | drafts (specTokenIds : List TokenId)
  | preempt

namespace ReasoningRun

def exec (cfg : SchedulerConfig) (p : ReasoningParser) (s : ReasoningRun) :
    ReasoningEvent → Except PyError ReasoningRun
  | .scheduleRunning n held othersPending => .ok (s.scheduleRunning cfg p n held othersPending)
  | .scheduleWaiting found n othersPending => .ok (s.scheduleWaiting cfg p found n othersPending)
  | .sampleDeferred reported => .ok (s.sampleDeferred p reported)
  | .output generated => s.updateFromOutput cfg p generated
  | .drafts specTokenIds => .ok (s.updateDraftTokenIds p specTokenIds)
  | .preempt => .ok { s with request := Scheduler.preempted s.request }

end ReasoningRun

end VllmEcho
