import VllmEcho.StructuredOutput.ReasoningInvariant

/-!
# Scheduling a structured-output request

A scheduled step gets the masks and drafts that fit the grammar at that point, and preemption keeps
them.
-/

namespace VllmEcho

open Lib List ValidDrafts Scheduler

variable {f : Flight} {r : Request} {drafts : List TokenId} {n : Nat}

namespace ReasoningRun

variable {cfg : SchedulerConfig} {p : ReasoningParser} {s s' : ReasoningRun}

structure Dispatchable (cfg : SchedulerConfig) (p : ReasoningParser) (s : ReasoningRun)
    (computed : Int) (drafts held : List TokenId) (n : Nat) : Prop where
  positive : 0 < n
  settled : ∀ f ∈ s.flights, f.deferred = false
  sync : cfg.asyncScheduling = false → s.flights = []
  placeholders : s.request.numOutputPlaceholders = expected s.flights
  ahead : expected s.flights = 0 ∨ s.request.numTokens + expected s.flights ≤ computed + 1
  length :
    drafts.length = (n + computed - s.request.numTokens - s.request.numOutputPlaceholders).toNat
  follow : drafts ≠ [] → s.request.outputTokenIds ≠ [] ∨ ∃ f ∈ s.flights, f.chunk = false
  valid : ValidDrafts (s.fills p) s.structured.grammar drafts
  sent : cfg.asyncScheduling = false → held = drafts
  unknown : cfg.asyncScheduling = true → ∀ t ∈ drafts, t = -1

def scheduled (cfg : SchedulerConfig) (r : Request) (drafts : List TokenId) (n : Nat) : Request :=
  if cfg.asyncScheduling then
    expectTokens cfg drafts.length (advance { r with specTokenIds := [] } n)
  else advance { r with specTokenIds := [] } n

theorem scheduled_fields (cfg : SchedulerConfig) (r : Request) (drafts : List TokenId) (n : Nat) :
    scheduled cfg r drafts n =
      { r with
        numComputedTokens := r.numComputedTokens + n
        isPrefillChunk :=
          decide (r.numComputedTokens + n < (r.numTokens : Int) + r.numOutputPlaceholders)
        numOutputPlaceholders := r.numOutputPlaceholders +
          if cfg.asyncScheduling ∧
              ¬ r.numComputedTokens + n < (r.numTokens : Int) + r.numOutputPlaceholders then
            1 + (drafts.length : Int) else 0
        specTokenIds :=
          if cfg.asyncScheduling ∧
              ¬ r.numComputedTokens + n < (r.numTokens : Int) + r.numOutputPlaceholders then
            replicate cfg.numSpecTokens (-1) else [] } := by
  unfold scheduled expectTokens advance Request.numTokens
  by_cases hasync : cfg.asyncScheduling = true
  · by_cases hchunk : r.numComputedTokens + n < (r.allTokenIds.length : Int) +
      r.numOutputPlaceholders
    · simp [hasync, hchunk]
    · simp [hasync, hchunk]
  · simp [hasync]

theorem fills_eq (h : s'.structured.reasoningEnded = s.structured.reasoningEnded ∨
      s'.structured.reasoningEnded = some (s.fills p))
    (hprompt : s'.request.promptTokenIds = s.request.promptTokenIds) : s'.fills p = s.fills p := by
  unfold fills at *
  rw [hprompt]
  rcases h with h | h <;> rw [h]
  rfl

theorem isSome_of_reasoning {old new : Option Bool} {b : Bool} (h : new = old ∨ new = some b)
    (hsome : old.isSome) : new.isSome := by
  rcases h with rfl | rfl
  · exact hsome
  · rfl

/-- Placeholders say nothing about the drafts of the worker. -/
theorem knows_unknown {P : Nat → TokenId → Prop} (h : ∀ t ∈ drafts, t = -1) :
    drafts.head? = some (-1) ∨ ∀ i t, i < drafts.length → P i t := by
  cases drafts with
  | nil => exact Or.inr fun i t hi => absurd hi (Nat.not_lt_zero i)
  | cons t ts => exact Or.inl (congrArg some (h t mem_cons_self))

structure Dispatched (cfg : SchedulerConfig) (p : ReasoningParser) (s : ReasoningRun) (r : Request)
    (drafts held : List TokenId) (n : Nat) (so : StructuredOutputRequest) (f : Flight) : Prop where
  grammar : so.grammar = s.structured.grammar
  reasoning : so.reasoningEnded = s.structured.reasoningEnded ∨ so.reasoningEnded = some (s.fills p)
  flight : f.drafts = drafts ∧ f.held = held ∧ f.chunk = (scheduled cfg r drafts n).isPrefillChunk
  deferred : f.deferred = true → cfg.asyncScheduling = true
  pending : cfg.asyncScheduling = true → f.chunk = false → 0 < r.numOutputPlaceholders →
    f.deferred = true
  masked : f.deferred = false → f.chunk = false → so.reasoningEnded = some (s.fills p) ∧
    f.rows = (range (drafts.length + 1)).map (expectedMask (s.fills p) s.structured.grammar drafts)

theorem scheduled_isPrefillChunk {cfg : SchedulerConfig} :
    (scheduled cfg r drafts n).isPrefillChunk =
      (advance { r with specTokenIds := [] } n).isPrefillChunk := by
  rw [scheduled_fields]
  rfl

theorem dispatched {cfg : SchedulerConfig} (held : List TokenId) {othersPending : Bool}
    (huse : r.useStructuredOutput = true) (hlive : r.isFinished = false)
    (hprompt : r.promptTokenIds = s.request.promptTokenIds)
    (hvalid : ValidDrafts (s.fills p) s.structured.grammar drafts) :
    ∃ so f, Dispatched cfg p s r drafts held n so f ∧
      s.dispatch cfg p r drafts held n othersPending =
        { s with
          request := scheduled cfg r drafts n, structured := so, flights := s.flights ++ [f] } := by
  set r' := scheduled cfg r drafts n with hr'
  set deferred := cfg.asyncScheduling && (othersPending ||
    (!r'.isPrefillChunk && (r.useStructuredOutput && decide (0 < r.numOutputPlaceholders))))
    with hdef
  have hdef' : deferred = (cfg.asyncScheduling && (othersPending ||
      (!(advance { r with specTokenIds := [] } n).isPrefillChunk &&
        (r.useStructuredOutput && decide (0 < r.numOutputPlaceholders))))) := by
    rw [hdef, scheduled_isPrefillChunk]
  have hrun : s.dispatch cfg p r drafts held n othersPending =
      if deferred then
        { s with request := r', flights := s.flights ++
          [⟨drafts, held, r'.isPrefillChunk, deferred, []⟩] }
      else
        { (getGrammarBitmask p { s with request := r' }
            ⟨drafts, held, r'.isPrefillChunk, deferred, []⟩).1 with
          flights := s.flights ++ [(getGrammarBitmask p { s with request := r' }
            ⟨drafts, held, r'.isPrefillChunk, deferred, []⟩).2] } := by
    rw [hdef']
    rfl
  have hpending : cfg.asyncScheduling = true → r'.isPrefillChunk = false →
      0 < r.numOutputPlaceholders → deferred = true := by
    intro hasync hfull hpos
    rw [hdef, hasync, hfull, huse, decide_eq_true hpos]
    simp
  have hfields := scheduled_fields cfg r drafts n
  rw [← hr'] at hfields
  rw [hrun]
  by_cases hwait : deferred = true
  · refine ⟨s.structured, ⟨drafts, held, r'.isPrefillChunk, deferred, []⟩, ⟨rfl, Or.inl rfl,
      ⟨rfl, rfl, rfl⟩, fun _ => ?_, hpending, fun hno => nomatch hno.symm.trans hwait⟩,
      if_pos hwait⟩
    rw [Bool.and_eq_true] at hwait
    exact hwait.1
  rw [if_neg hwait]
  rw [Bool.not_eq_true] at hwait
  cases hpart : r'.isPrefillChunk with
  | true =>
    rw [getGrammarBitmask_chunk hpart]
    refine ⟨s.structured, _, ?_, rfl⟩
    exact ⟨rfl, Or.inl rfl, ⟨rfl, rfl, hpart.symm⟩, nofun, nofun, nofun⟩
  | false =>
    have hfill : fills p { s with request := r' } = s.fills p := by
      apply fills_eq
      · exact Or.inl rfl
      · show r'.promptTokenIds = _
        rw [hfields]
        exact hprompt
    rw [hpart] at hpending
    rw [getGrammarBitmask_eq
      (by rw [hfields]; exact hlive) (by rw [hfields]; exact huse) hpart
        (by rw [hfill]; exact hvalid)]
    refine ⟨_, _, ?_, rfl⟩
    refine ⟨rfl, Or.inr (congrArg some hfill), ⟨rfl, rfl, hpart.symm⟩, nofun, ?_, ?_⟩
    · intro hasync _ hpos
      exact hwait.symm.trans (hpending hasync rfl hpos)
    · rw [hfill]
      exact fun _ _ => ⟨rfl, rfl⟩

theorem Enforced.congr (h : s.Enforced p) (hpart : s'.part p = s.part p)
    (houtput : s'.request.outputTokenIds = s.request.outputTokenIds)
    (hgrammar : s'.structured.grammar = s.structured.grammar)
    (hsampled : s'.sampledUnder = s.sampledUnder) (haccepted : s'.rejected = s.rejected) :
    s'.Enforced p := by
  constructor
  · rw [hgrammar, hpart]
    exact h.consumed
  · rw [haccepted]
    exact h.accepted
  · rw [hgrammar, hpart, houtput, hsampled]
    exact h.masked
  · rw [hgrammar, hpart]
    exact h.conforms

/-- The part that both schedule calls share. -/
theorem Inv.dispatch {c k : Int} {held : List TokenId} {so : StructuredOutputRequest}
    (h : s.Inv cfg p) (hlive : s.request.isFinished = false) (hr : r = { s.request with
      status := .running, numComputedTokens := c, numCachedTokens := k })
    (hd : Dispatchable cfg p s c drafts held n) (hs' : Dispatched cfg p s r drafts held n so f) :
    ({ s with
      request := scheduled cfg r drafts n
      structured := so
      flights := s.flights ++ [f] } : ReasoningRun).Inv cfg p := by
  subst hr
  have hl := h.live hlive
  have hchunk := hs'.flight.2.2
  have hnum : Request.numTokens { s.request with
      status := .running, numComputedTokens := c,
      numCachedTokens := k } = s.request.numTokens := rfl
  rw [scheduled_fields] at hchunk ⊢
  rw [hnum] at hchunk ⊢
  dsimp only at hchunk ⊢
  set s' : ReasoningRun := { s with request := _, structured := so, flights := s.flights ++ [f] }
  have hfills : s'.fills p = s.fills p := fills_eq hs'.reasoning rfl
  have hpos := hd.positive
  have hplace := hd.placeholders
  have hlen := hd.length
  have hahead := hd.ahead
  have hexp : expected s'.flights = expected s.flights + if f.chunk then 0 else
      1 + drafts.length := by
    rw [expected_append, hs'.flight.1]
  -- a step behind others in flight is not part of the prompt
  have hfull : f.chunk = true → expected s.flights = 0 := by
    intro hf
    rw [hf, eq_comm, decide_eq_true_eq] at hchunk
    omega
  have hnone : f.chunk = true → drafts = [] := by
    intro hf
    rw [hf, eq_comm, decide_eq_true_eq] at hchunk
    rw [← length_eq_zero_iff]
    omega
  refine ⟨h.structured, h.output, h.enforced.congr rfl rfl hs'.grammar rfl rfl, h.length,
    fun _ => ?_⟩
  constructor
  case counters =>
    constructor
    case kept => exact hl.counters.kept
    case tokens => exact hl.counters.tokens
    case placeholders =>
      rw [hexp]
      show s.request.numOutputPlaceholders + (if _ then _ else _) = _
      rw [hplace]
      by_cases hasync : cfg.asyncScheduling = true
      · rw [if_pos hasync]
        cases hf : f.chunk with
        | true =>
          rw [hf, eq_comm, decide_eq_true_eq, hplace] at hchunk
          rw [if_neg (fun hno => hno.2 hchunk), if_pos rfl]
          omega
        | false =>
          rw [hf, eq_comm, decide_eq_false_iff_not, hplace] at hchunk
          rw [if_pos ⟨hasync, hchunk⟩, if_neg Bool.false_ne_true]
          omega
      · have hzero := hl.counters.placeholders
        rw [if_neg hasync, hplace] at hzero
        rw [if_neg hasync, if_neg (fun hno => hasync hno.1), hzero]
        rfl
    case chunk =>
      intro _ hf
      replace hf := hchunk.trans hf
      rw [hexp, hfull hf]
      rw [hf, eq_comm, decide_eq_true_eq] at hchunk
      refine ⟨?_, by rw [hf]; rfl⟩
      show c + n < (s.request.numTokens : Int)
      omega
    case decode =>
      intro _ hf
      replace hf := hchunk.trans hf
      rw [hexp, hf, if_neg Bool.false_ne_true]
      rw [hf, eq_comm, decide_eq_false_iff_not] at hchunk
      show c + n = (s.request.numTokens : Int) + _ - 1
      omega
    case waiting => exact fun hno => absurd rfl hno
  case drafts =>
    constructor
    case decoding =>
      intro hne
      refine ⟨rfl, ?_⟩
      replace hne : (if _ then _ else _) ≠ _ := hne
      split at hne
      · rename_i hcond
        exact decide_eq_false hcond.2
      · exact absurd rfl hne
    case unknown =>
      intro _ t ht
      replace ht : t ∈ (if _ then _ else _) := ht
      split at ht
      · exact eq_of_mem_replicate ht
      · cases ht
    case sent =>
      intro hsync _
      exact if_neg fun hcond => Bool.false_ne_true (hsync.symm.trans hcond.1)
    case valid =>
      show ValidDrafts _ _ (if _ then _ else _)
      split
      · exact validDrafts_unknown fun t ht => eq_of_mem_replicate ht
      · exact nil _ _
  case inFlight =>
    constructor
    case single =>
      intro hsync
      show (s.flights ++ [f]).length ≤ 1
      rw [hd.sync hsync]
      exact Nat.le_refl 1
    case ordered =>
      refine pairwise_append.mpr ⟨hl.inFlight.ordered, pairwise_singleton _ _, ?_⟩
      intro g hg f' hf' hgchunk
      obtain rfl := mem_singleton.mp hf'
      have hin := expected_pos hg hgchunk
      cases hf : f'.chunk with
      | true => exact Or.inr rfl
      | false =>
        -- the outputs in flight are waited for
        have hasync : cfg.asyncScheduling = true := by
          by_contra hno
          have hzero := hl.counters.placeholders
          rw [if_neg hno] at hzero
          omega
        exact Or.inl (hs'.pending hasync hf (by show 0 < s.request.numOutputPlaceholders; omega))
    case follow =>
      apply hl.inFlight.follow.append
      rw [hs'.flight.1]
      intro hne
      refine (hd.follow hne).imp (fun hout => ?_) id
      simpa using hout
    case chunk =>
      intro g hg hgchunk
      rcases mem_append.mp hg with hmem | hmem
      · exact hl.inFlight.chunk g hmem hgchunk
      · obtain rfl := mem_singleton.mp hmem
        rw [hs'.flight.1]
        exact hnone hgchunk
    case deferred =>
      intro g hg hgdef
      rcases mem_append.mp hg with hmem | hmem
      · exact nomatch hgdef.symm.trans (hd.settled g hmem)
      · obtain rfl := mem_singleton.mp hmem
        refine ⟨hs'.deferred hgdef, rfl, hchunk, ?_⟩
        rw [hs'.flight.1]
        exact hd.unknown (hs'.deferred hgdef)
    case masked =>
      rw [hfills, hs'.grammar]
      intro g hg hgdef hgchunk
      rcases mem_append.mp hg with hmem | hmem
      · obtain ⟨hsome, hmasked⟩ := hl.inFlight.masked g hmem hgdef hgchunk
        exact ⟨isSome_of_reasoning hs'.reasoning hsome, hmasked⟩
      obtain rfl := mem_singleton.mp hmem
      obtain ⟨hended, hrows⟩ := hs'.masked hgdef hgchunk
      refine ⟨by rw [hended]; rfl, by rw [hrows, hs'.flight.1], fun _ => ?_⟩
      rw [hs'.flight.1, hs'.flight.2.1]
      by_cases hasync : cfg.asyncScheduling = true
      · exact knows_unknown (hd.unknown hasync)
      · rw [hd.sent (Bool.eq_false_iff.mpr hasync)]
        exact Or.inr fun i t _ ht _ _ => Or.inl ht
  case reasoning =>
    rw [hfills]
    exact hl.reasoning
  case answered => exact fun hne => isSome_of_reasoning hs'.reasoning (hl.answered hne)
  case sampled =>
    exact fun _ hf => Or.inr ⟨f, mem_append_right _ mem_cons_self, hchunk.trans hf⟩

theorem running_isFinished (h : r.status = .running) : r.isFinished = false := by
  unfold Request.isFinished
  rw [h]
  rfl

theorem Inv.scheduleRunning {n : Nat} {held : List TokenId} {othersPending : Bool}
    (h : s.Inv cfg p) (hok : s.Allowed cfg (.scheduleRunning n held othersPending)) :
    (s.scheduleRunning cfg p n held othersPending).Inv cfg p := by
  obtain ⟨hstatus, hsettled, hqueue, hpos, hbound, hsent⟩ := hok
  have hlive := running_isFinished hstatus
  have hl := h.live hlive
  have hempty : cfg.asyncScheduling = false → s.flights = [] := by
    intro hsync
    rwa [hsync, if_neg Bool.false_ne_true, Nat.le_zero, length_eq_zero_iff] at hqueue
  have hplace : s.request.numOutputPlaceholders = expected s.flights := by
    rw [hl.counters.placeholders]
    split
    · rfl
    · rename_i hsync
      rw [hempty (Bool.eq_false_iff.mpr hsync)]
      rfl
  have hvalid := hl.drafts.valid.take
    (n + s.request.numComputedTokens - s.request.numTokens - s.request.numOutputPlaceholders).toNat
  obtain ⟨so, f, hs', hrun⟩ := dispatched held h.structured hlive rfl hvalid
  unfold ReasoningRun.scheduleRunning
  rw [scheduledDrafts, hrun]
  refine h.dispatch (c := s.request.numComputedTokens) hlive
    (by rw [← hstatus]) ?_ hs'
  have hspec : s.request.numTokensWithSpec = s.request.numTokens + s.request.specTokenIds.length :=
    rfl
  constructor
  case positive => exact hpos
  case settled => exact hsettled
  case sync => exact hempty
  case placeholders => exact hplace
  case ahead =>
    cases hchunk : s.request.isPrefillChunk with
    | true => exact Or.inl (hl.counters.chunk hstatus hchunk).2
    | false =>
      have := hl.counters.decode hstatus hchunk
      omega
  case length =>
    rw [length_take]
    omega
  case follow =>
    intro hne
    have hspec : s.request.specTokenIds ≠ [] := by
      intro hnil
      rw [hnil, take_nil] at hne
      exact hne rfl
    obtain ⟨hrun, hchunk⟩ := hl.drafts.decoding hspec
    exact hl.sampled hrun hchunk
  case valid => exact hvalid
  case sent => exact hsent
  case unknown => exact fun hasync t ht => hl.drafts.unknown hasync t (mem_of_mem_take ht)

theorem Inv.scheduleWaiting {found : FoundTokens} {n : Nat} {othersPending : Bool}
    (h : s.Inv cfg p) (hok : s.Allowed cfg (.scheduleWaiting found n othersPending)) :
    (s.scheduleWaiting cfg p found n othersPending).Inv cfg p := by
  obtain ⟨hlive, _, hflights, hpos, hbound⟩ := hok
  have hl := h.live hlive
  have hexp : expected s.flights = 0 := by rw [hflights]; rfl
  have hplace : s.request.numOutputPlaceholders = expected s.flights := by
    rw [hl.counters.placeholders, hexp]
    split <;> rfl
  obtain ⟨so, f, hs', hrun⟩ := dispatched [] (r := startRunning found s.request)
    h.structured rfl rfl (nil (s.fills p) s.structured.grammar)
  unfold ReasoningRun.scheduleWaiting
  rw [hrun]
  refine h.dispatch hlive rfl ?_ hs'
  constructor
  case positive => exact hpos
  case settled =>
    intro f hf
    rw [hflights] at hf
    cases hf
  case sync => exact fun _ => hflights
  case placeholders => exact hplace
  case ahead => exact Or.inl hexp
  case length =>
    rw [length_nil]
    omega
  case follow => exact fun hne => absurd rfl hne
  case valid => exact nil _ _
  case sent => exact fun _ => rfl
  case unknown => exact nofun

theorem Inv.preempt (h : s.Inv cfg p) (hok : s.Allowed cfg .preempt) :
    ({ s with request := preempted s.request } : ReasoningRun).Inv cfg p := by
  obtain ⟨hstatus, hsettled, _⟩ := hok
  have hl := h.live (running_isFinished hstatus)
  refine ⟨h.structured, h.output, h.enforced.congr rfl rfl rfl rfl rfl, h.length, fun _ => ?_⟩
  constructor
  case counters =>
    exact { hl.counters with chunk := nofun, decode := nofun, waiting := fun _ => rfl }
  case drafts => exact ⟨fun hne => absurd rfl hne, nofun, fun _ _ => rfl, nil _ _⟩
  case inFlight =>
    refine { hl.inFlight with deferred := fun f hf hdef => ?_ }
    exact nomatch hdef.symm.trans (hsettled f hf)
  case reasoning => exact hl.reasoning
  case answered => exact hl.answered
  case sampled => exact nofun

end ReasoningRun

end VllmEcho
