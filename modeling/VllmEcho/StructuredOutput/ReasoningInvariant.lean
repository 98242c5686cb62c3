import VllmEcho.Sched.Engine
import VllmEcho.StructuredOutput.ReasoningSteps

/-!
# The invariant of a structured-output request

What a run promises of its grammar, and what it keeps to deliver it: the counters, the steps in
flight with the masks and drafts they were given, and how far the grammar has come.
-/

namespace VllmEcho

open Lib List ValidDrafts Scheduler

variable {fs : List Flight} {f : Flight} {r r' : Request} {generated appended : List TokenId}
  {drafts output : List TokenId} {e : ReasoningEvent} {ts : List TokenId} {sampled : Bool}
  (g : Grammar) {n : Nat}

namespace ReasoningRun

variable (cfg : SchedulerConfig) (p : ReasoningParser) (s : ReasoningRun)

def endedAtStart : Bool :=
  s.reasoningEndedAtStart.getD (p.isReasoningEnd (s.request.promptTokenIds.getD []))

def part : Option (List TokenId) :=
  structuredPart (s.endedAtStart p) p.endTokenId s.request.outputTokenIds

/-- The grammar has consumed the tokens behind the reasoning, and each of them was sampled under the
mask the grammar gives after those before it. -/
structure Enforced : Prop where
  consumed : s.structured.grammar.tokens = (s.part p).getD []
  accepted : s.rejected = false
  masked : ∀ ts, s.part p = some ts →
    s.sampledUnder.drop (s.request.outputTokenIds.length - ts.length) =
      (range ts.length).map fun k => s.structured.grammar.rules.allows (ts.take k)
  conforms : ∀ ts, s.part p = some ts → ∀ k t, ts[k]? = some t →
    s.structured.grammar.rules.allows (ts.take k) t = true

/-! ## Runs -/

structure Initial : Prop where
  structured : s.request.useStructuredOutput = true
  status : s.request.status ≠ .running ∧ s.request.isFinished = false
  output : s.request.outputTokenIds = []
  tokens : 0 < s.request.numTokens
  computed : s.request.numComputedTokens = 0
  placeholders : s.request.numOutputPlaceholders = 0
  kept : s.request.discardLatestAsyncTokens = false
  drafts : s.request.specTokenIds = []
  grammar : s.structured.grammar.tokens = []
  reasoning : s.structured.reasoningEnded = s.reasoningEndedAtStart
  flights : s.flights = []
  sampled : s.sampledUnder = []
  accepted : s.rejected = false

/-- What the engine and the worker may do. A step is done before the next one is scheduled, or with
async scheduling before the one after that; a batch that waits with sampling gets its rows before
the next one is scheduled. -/
def Allowed : ReasoningEvent → Prop
  | .scheduleRunning n held _ =>
    s.request.status = .running ∧ (∀ f ∈ s.flights, f.deferred = false) ∧
      s.flights.length ≤ (if cfg.asyncScheduling then 1 else 0) ∧ 0 < n ∧
      (n : Int) ≤ s.request.numTokensWithSpec + s.request.numOutputPlaceholders
        - s.request.numComputedTokens ∧
      (cfg.asyncScheduling = false → held = scheduledDrafts s.request n)
  | .scheduleWaiting found n _ =>
    s.request.isFinished = false ∧ s.request.status ≠ .running ∧ s.flights = [] ∧ 0 < n ∧
      found.numComputedTokens + n ≤ s.request.numTokens
  | .sampleDeferred _ => s.flights.length = 1 ∧ ∀ f ∈ s.flights, f.deferred = true
  | .output generated =>
    s.flights ≠ [] ∧ ∀ f ∈ s.flights.head?, f.deferred = false ∧
      (s.request.isFinished = false → f.Samples generated)
  | .drafts _ => cfg.asyncScheduling = false ∧ s.flights = [] ∧ s.request.status = .running
  | .preempt =>
    s.request.status = .running ∧ (∀ f ∈ s.flights, f.deferred = false) ∧
      (cfg.asyncScheduling = false → s.flights = [])

def Step (e : ReasoningEvent) (s' : ReasoningRun) : Prop :=
  s.Allowed cfg e ∧ s.exec cfg p e = .ok s'

@[mk_iff]
structure TidyOutput (f : Flight) (emitted : List TokenId) : Prop where
  /-- Nothing follows the marker in its step. -/
  marker : s.structured.reasoningEnded = some true ∨ p.endTokenId ∉ emitted.dropLast
  /-- Nothing follows the end of the grammar. -/
  unterminated : s.structured.reasoningEnded = some true → ∀ i < emitted.length,
    s.structured.grammar.rules.terminates (s.structured.grammar.tokens ++ emitted.take i) = false
  /-- No draft is accepted that the scheduler has a placeholder for. -/
  known : s.structured.reasoningEnded = some true → f.drafts.head? = some (-1) → emitted.length ≤ 1
  /-- A request that was preempted during its step has no earlier marker. -/
  preempted : s.request.status ≠ .running →
    s.structured.reasoningEnded = some true ∨ p.endTokenId ∉ s.request.allTokenIds

def Tidy : ReasoningEvent → Prop
  | .output generated => s.request.isFinished = false →
    ∀ f ∈ s.flights.head?, s.TidyOutput p f (upToStop cfg.maxModelLen s.request generated)
  | _ => True

/-! ## The invariant -/

def expected : List Flight → Nat
  | [] => 0
  | f :: fs => (if f.chunk then 0 else 1 + f.drafts.length) + expected fs

theorem expected_append :
    expected (fs ++ [f]) = expected fs + if f.chunk then 0 else 1 + f.drafts.length := by
  induction fs with
  | nil => simp [expected]
  | cons g fs ih =>
    rw [cons_append, expected, expected]
    omega

theorem expected_pos (hf : f ∈ fs) (hchunk : f.chunk = false) : 0 < expected fs := by
  induction fs with
  | nil => cases hf
  | cons g fs ih =>
    rw [expected]
    rcases mem_cons.mp hf with rfl | hmem
    · rw [hchunk, if_neg Bool.false_ne_true]
      omega
    · have := ih hmem
      omega

def DraftsFollow : Bool → List Flight → Prop
  | _, [] => True
  | sampled, f :: fs => (f.drafts ≠ [] → sampled = true) ∧ DraftsFollow (sampled || !f.chunk) fs

theorem DraftsFollow.append (h : DraftsFollow sampled fs)
    (hf : f.drafts ≠ [] → sampled = true ∨ ∃ g ∈ fs, g.chunk = false) :
    DraftsFollow sampled (fs ++ [f]) := by
  induction fs generalizing sampled with
  | nil =>
    refine ⟨fun hne => ?_, trivial⟩
    rcases hf hne with htrue | ⟨g, hg, _⟩
    · exact htrue
    · cases hg
  | cons g fs ih =>
    refine ⟨h.1, ih h.2 fun hne => ?_⟩
    rcases hf hne with htrue | ⟨g', hg', hchunk⟩
    · exact Or.inl (by rw [htrue, Bool.true_or])
    · rcases mem_cons.mp hg' with rfl | hmem
      · exact Or.inl (by rw [hchunk, Bool.not_false, Bool.or_true])
      · exact Or.inr ⟨g', hmem, hchunk⟩

theorem DraftsFollow.mono {sampled' : Bool} (h : DraftsFollow sampled fs)
    (hle : sampled = true → sampled' = true) : DraftsFollow sampled' fs := by
  induction fs generalizing sampled sampled' with
  | nil => trivial
  | cons f fs ih =>
    refine ⟨fun hne => hle (h.1 hne), ih h.2 fun hor => ?_⟩
    rw [Bool.or_eq_true] at hor ⊢
    exact hor.imp hle id

structure Counters : Prop where
  kept : s.request.discardLatestAsyncTokens = false
  tokens : 0 < s.request.numTokens
  placeholders : s.request.numOutputPlaceholders =
    if cfg.asyncScheduling then (expected s.flights : Int) else 0
  chunk : s.request.status = .running → s.request.isPrefillChunk = true →
    s.request.numComputedTokens < s.request.numTokens ∧ expected s.flights = 0
  decode : s.request.status = .running → s.request.isPrefillChunk = false →
    s.request.numComputedTokens = s.request.numTokens + expected s.flights - 1
  waiting : s.request.status ≠ .running → s.request.numComputedTokens = 0

structure NextDrafts : Prop where
  decoding : s.request.specTokenIds ≠ [] →
    s.request.status = .running ∧ s.request.isPrefillChunk = false
  unknown : cfg.asyncScheduling = true → ∀ t ∈ s.request.specTokenIds, t = -1
  sent : cfg.asyncScheduling = false → s.flights ≠ [] → s.request.specTokenIds = []
  valid : ValidDrafts (s.fills p) s.structured.grammar s.request.specTokenIds

structure InFlight : Prop where
  single : cfg.asyncScheduling = false → s.flights.length ≤ 1
  ordered : s.flights.Pairwise fun f g => f.chunk = false → g.deferred = true ∨ g.chunk = true
  follow : DraftsFollow (!s.request.outputTokenIds.isEmpty) s.flights
  chunk : ∀ f ∈ s.flights, f.chunk = true → f.drafts = []
  deferred : ∀ f ∈ s.flights, f.deferred = true → cfg.asyncScheduling = true ∧
    s.request.status = .running ∧ f.chunk = s.request.isPrefillChunk ∧ ∀ t ∈ f.drafts, t = -1
  masked : ∀ f ∈ s.flights, f.deferred = false → f.chunk = false →
    s.structured.reasoningEnded.isSome ∧ f.Masked (s.fills p) s.structured.grammar

structure Live : Prop where
  counters : s.Counters cfg
  drafts : s.NextDrafts cfg p
  inFlight : s.InFlight cfg p
  reasoning : s.fills p = (s.part p).isSome
  answered : s.request.outputTokenIds ≠ [] → s.structured.reasoningEnded.isSome
  sampled : s.request.status = .running → s.request.isPrefillChunk = false →
    s.request.outputTokenIds ≠ [] ∨ ∃ f ∈ s.flights, f.chunk = false

structure Inv : Prop where
  structured : s.request.useStructuredOutput = true
  output : s.request.outputTokenIds <:+ s.request.allTokenIds
  enforced : s.Enforced p
  length : s.sampledUnder.length = s.request.outputTokenIds.length
  live : s.request.isFinished = false → s.Live cfg p

variable {cfg p s} {s' : ReasoningRun}

theorem Inv.init (h : s.Initial) : s.Inv cfg p := by
  have hpart : s.part p = if s.endedAtStart p then some [] else none := by
    unfold part structuredPart
    rw [h.output]
    simp
  have hgetD : (s.part p).getD [] = [] := by
    rw [hpart]
    split <;> rfl
  constructor
  case structured => exact h.structured
  case output =>
    rw [h.output]
    exact nil_suffix
  case enforced =>
    refine ⟨by rw [h.grammar, hgetD], h.accepted, ?_, ?_⟩
    · intro ts hts
      rw [hts, Option.getD_some] at hgetD
      rw [hgetD, h.sampled, drop_nil]
      rfl
    · intro ts hts k t ht
      rw [hts, Option.getD_some] at hgetD
      rw [hgetD] at ht
      cases ht
  case length =>
    rw [h.sampled, h.output]
    rfl
  case live =>
    intro _
    have hexp : expected s.flights = 0 := by rw [h.flights]; rfl
    constructor
    case counters =>
      refine ⟨h.kept, h.tokens, ?_, fun hrun => absurd hrun h.status.1,
        fun hrun => absurd hrun h.status.1, fun _ => h.computed⟩
      rw [h.placeholders, hexp]
      split <;> rfl
    case drafts =>
      refine ⟨fun hne => absurd h.drafts hne, fun _ t ht => ?_, fun _ _ => h.drafts,
        fun k t ht => ?_⟩
      · rw [h.drafts] at ht
        cases ht
      · rw [h.drafts] at ht
        cases ht
    case inFlight =>
      constructor <;> rw [h.flights]
      · exact fun _ => Nat.zero_le 1
      · exact List.Pairwise.nil
      · trivial
      · exact nofun
      · exact nofun
      · exact nofun
    case reasoning =>
      rw [hpart]
      show s.structured.reasoningEnded.getD _ = _
      rw [h.reasoning]
      show s.endedAtStart p = _
      cases s.endedAtStart p <;> rfl
    case answered => exact fun hne => absurd h.output hne
    case sampled => exact fun hrun => absurd hrun h.status.1

end ReasoningRun

end VllmEcho
