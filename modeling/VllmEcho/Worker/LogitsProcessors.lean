import VllmEcho.Worker.BatchUpdate

/-!
# The built-in logits processors

`update_state` of the four built-in processors.  They keep their state by row and follow the batch
through the `BatchUpdate` of each step: first the added requests, then the removed rows, then the
moves.  The tensors that are derived from the state are left out.
-/

namespace VllmEcho

open Lib Function

/-! ## Min-p -/

structure MinPLogitsProcessor where
  minPCpu : Nat → ℚ
  minPCount : Int

namespace MinPLogitsProcessor

def init : MinPLogitsProcessor := ⟨fun _ => 0, 0⟩

variable (s : MinPLogitsProcessor) (toFloat32 : ℚ → ℚ)

/-- An added request. The array holds single-precision numbers.  NumPy 1 compares an entry with the
parameter in double precision, and whether the request uses min-p is asked of the parameter. -/
def add (s : MinPLogitsProcessor) (index : Nat) (minP : ℚ) : MinPLogitsProcessor :=
  let minPBefore := s.minPCpu index
  if minPBefore ≠ minP then
    { minPCpu := update s.minPCpu index (toFloat32 minP)
      minPCount :=
        if minP ≠ 0 ∧ minPBefore = 0 then s.minPCount + 1
        else if minP = 0 ∧ minPBefore ≠ 0 then s.minPCount - 1
        else s.minPCount }
  else s

def remove (index : Nat) : MinPLogitsProcessor :=
  if s.minPCpu index ≠ 0 then
    ⟨update s.minPCpu index 0, s.minPCount - 1⟩
  else s

def move (m : Move) : MinPLogitsProcessor :=
  let minPA := s.minPCpu m.src
  let minPB := s.minPCpu m.dst
  let cpu :=
    if minPA ≠ minPB then
      match m.direction with
      | .swap => update (update s.minPCpu m.dst minPA) m.src minPB
      | .unidirectional => update s.minPCpu m.dst minPA
    else s.minPCpu
  match m.direction with
  | .swap => ⟨cpu, s.minPCount⟩
  | .unidirectional =>
    ⟨if minPA ≠ 0 then update cpu m.src 0 else cpu,
      if minPB ≠ 0 then s.minPCount - 1 else s.minPCount⟩

def updateState (s : MinPLogitsProcessor) : Option BatchUpdate → MinPLogitsProcessor
  | none => s
  | some u =>
    let s := u.added.foldl (fun s a => s.add toFloat32 a.1 a.2.params.minP) s
    if s.minPCount ≠ 0 then u.moved.foldl move (u.removed.foldl remove s)
    else s

end MinPLogitsProcessor

/-! ## Processors with a dictionary -/

section DictUpdates

variable {T : Type}

def setOrPop (entries : Dict Nat T) (index : Nat) : Option T → Dict Nat T
  | some state => entries.set index state
  | none => entries.erase index

def moveEntry (reqEntries : Dict Nat T) (m : Move) : Dict Nat T :=
  let aEntry := reqEntries.get? m.src
  let popped := reqEntries.erase m.src
  let bEntry := popped.get? m.dst
  let popped := popped.erase m.dst
  let moved := match aEntry with
    | some a => popped.set m.dst a
    | none => popped
  match bEntry, m.direction with
  | some b, .swap => moved.set m.src b
  | _, _ => moved

def processDictUpdates (reqEntries : Dict Nat T) (newState : NewRequest → Option T) :
    Option BatchUpdate → Dict Nat T
  | none => reqEntries
  | some u =>
    let reqEntries := u.added.foldl (fun d a => setOrPop d a.1 (newState a.2)) reqEntries
    if reqEntries.entries.isEmpty then reqEntries
    else u.moved.foldl moveEntry (u.removed.foldl Dict.erase reqEntries)

end DictUpdates

def logitBiasOf (params : LogitsParams) : Option (List (TokenId × ℚ)) :=
  params.logitBias.filter fun bias => !bias.isEmpty

def LogitBias.updateState (biases : Dict Nat (List (TokenId × ℚ))) (update : Option BatchUpdate) :
    Dict Nat (List (TokenId × ℚ)) :=
  processDictUpdates biases (fun q => logitBiasOf q.params) update

structure MinTokens where
  minTokens : Nat
  outputTokIds : ReqId
  stopTokenIds : List TokenId
  deriving DecidableEq

variable (outputs : ReqId → List TokenId)

namespace MinTokens

def addRequest (q : NewRequest) : Option MinTokens :=
  if q.params.minTokens = 0 ∨ q.params.minTokens ≤ (outputs q.reqId).length then none
  else some ⟨q.params.minTokens, q.reqId, q.params.allStopTokenIds⟩

def pending (e : MinTokens) : Bool :=
  decide ((outputs e.outputTokIds).length < e.minTokens)

def updateState (outputs : ReqId → List TokenId) (minToks : Dict Nat MinTokens)
    (update : Option BatchUpdate) : Dict Nat MinTokens :=
  let minToks := processDictUpdates minToks (addRequest outputs) update
  let toRemove := (minToks.entries.filter fun e => !e.2.pending outputs).map Prod.fst
  toRemove.foldl Dict.erase minToks

end MinTokens

/-! ## The thinking budget -/

structure ThinkingConfig where
  isEnabled : Bool
  reasoningStartTokenIds : List TokenId
  reasoningEndTokenIds : List TokenId

structure ThinkState where
  inThink : Bool
  inEnd : Bool
  checkCountDown : Int
  thinkCount : Int
  endCount : Nat
  outputTokIds : ReqId
  thinkingTokenBudget : Int
  prevOutputLength : Nat
  deriving DecidableEq

def findLastSequenceIndex (target tokenIds : List TokenId) : Int :=
  if tokenIds.isEmpty then -1
  else
    match (List.range (target.length + 1 - tokenIds.length)).reverse.find? fun i =>
      (target.drop i).take tokenIds.length == tokenIds with
    | some i => i
    | none => -1

namespace ThinkState

variable (cfg : ThinkingConfig)

def initStateEntry (promptTokIds : Option (List TokenId)) (ref : ReqId) (budget : Int) :
    ThinkState :=
  let (inThink, thinkCount) := match promptTokIds with
    | none => (false, 0)
    | some prompt =>
      let lastStart := findLastSequenceIndex prompt cfg.reasoningStartTokenIds
      let lastEnd := findLastSequenceIndex prompt cfg.reasoningEndTokenIds
      if lastEnd < lastStart then
        (true, (prompt.length : Int) - (lastStart + cfg.reasoningStartTokenIds.length))
      else (false, 0)
  { inThink := inThink
    inEnd := inThink && decide (budget = 0)
    checkCountDown := budget
    thinkCount := thinkCount
    endCount := 0
    outputTokIds := ref
    thinkingTokenBudget := budget
    prevOutputLength := 0 }

variable (s : ThinkState)

def scanMarkers (output : List TokenId) (prevLength : Nat) : ThinkState :=
  let startLen := cfg.reasoningStartTokenIds.length
  let checkStartIdx := prevLength + 1 - max startLen cfg.reasoningEndTokenIds.length
  let recentTokens := output.drop checkStartIdx
  let recentStartPos := findLastSequenceIndex recentTokens cfg.reasoningStartTokenIds
  let recentEndPos := findLastSequenceIndex recentTokens cfg.reasoningEndTokenIds
  let newThinkCount := (output.length : Int) - (checkStartIdx + recentStartPos + startLen)
  if 0 ≤ recentStartPos ∧ recentEndPos < recentStartPos then
    { s with inThink := true, thinkCount := newThinkCount }
  else if 0 ≤ recentEndPos then { s with inThink := false, thinkCount := 0 }
  else if s.inThink then { s with thinkCount := s.thinkCount + (output.length - prevLength) }
  else s

def countDown : ThinkState :=
  if s.inThink then
    if s.thinkingTokenBudget ≤ s.thinkCount then
      { s with
        inThink := false
        inEnd := true
        endCount := 0
        checkCountDown := s.thinkingTokenBudget }
    else
      { s with checkCountDown := max 0 (max 0 (s.thinkingTokenBudget - s.thinkCount) - 1) }
  else { s with checkCountDown := s.thinkingTokenBudget }

def forceEnd : ThinkState :=
  if cfg.reasoningEndTokenIds.length ≤ s.endCount + 1 then
    { s with inEnd := false, endCount := 0, checkCountDown := s.thinkingTokenBudget }
  else { s with endCount := s.endCount + 1 }

def update (outputs : ReqId → List TokenId) (s : ThinkState) : ThinkState :=
  if s.inEnd = false ∧ 0 < s.checkCountDown then
    { s with checkCountDown := s.checkCountDown - 1 }
  else
    let output := outputs s.outputTokIds
    if output.length ≤ s.prevOutputLength then s
    else
      let next := { s with prevOutputLength := output.length }
      if s.inEnd then next.forceEnd cfg
      else (next.scanMarkers cfg output s.prevOutputLength).countDown

end ThinkState

namespace ThinkingBudget

variable (cfg : ThinkingConfig)

def newState (q : NewRequest) : Option ThinkState :=
  q.params.thinkingTokenBudget.map (ThinkState.initStateEntry cfg q.promptTokenIds q.reqId)

variable (states : Dict Nat ThinkState)

/-- The move of a state; the row that a one-way move goes to is not popped first. -/
def moveState (m : Move) : Dict Nat ThinkState :=
  match m.direction with
  | .swap =>
    let state1 := states.get? m.src
    let popped := states.erase m.src
    let state2 := popped.get? m.dst
    let popped := popped.erase m.dst
    let moved := match state1 with
      | some s => popped.set m.dst s
      | none => popped
    match state2 with
    | some s => moved.set m.src s
    | none => moved
  | .unidirectional =>
    match states.get? m.src with
    | some s => (states.erase m.src).set m.dst s
    | none => states.erase m.src

def followBatch : Option BatchUpdate → Dict Nat ThinkState
  | none => states
  | some u =>
    let states := u.added.foldl (fun d a => setOrPop d a.1 (newState cfg a.2)) states
    u.moved.foldl moveState (u.removed.foldl Dict.erase states)

def advance (outputs : ReqId → List TokenId) (states : Dict Nat ThinkState) :
    Dict Nat ThinkState where
  entries := states.entries.map fun e => (e.1, e.2.update cfg outputs)
  nodup := by
    rw [List.map_map]
    exact states.nodup

def updateState (outputs : ReqId → List TokenId) (states : Dict Nat ThinkState)
    (update : Option BatchUpdate) : Dict Nat ThinkState :=
  if cfg.isEnabled then advance cfg outputs (followBatch cfg states update)
  else states

end ThinkingBudget

end VllmEcho
