import VllmEcho.StructuredOutput.ReasoningSchedule

/-!
# The drafts of a structured-output request

New drafts are cut to what the grammar accepts, in the scheduler or in a step that waits for them.
-/

namespace VllmEcho

open Lib List ValidDrafts Scheduler

variable {f : Flight} {drafts output : List TokenId} (g : Grammar)

namespace ReasoningRun

variable {cfg : SchedulerConfig} {p : ReasoningParser} {s s' : ReasoningRun}

theorem mem_output_of_mem_last {all : List TokenId} (hsuffix : output <:+ all) (hne : output ≠ [])
    {t : TokenId} (ht : t ∈ all.drop (all.length - 1)) : t ∈ output := by
  obtain ⟨base, rfl⟩ := hsuffix
  have hpos := length_pos_iff.mpr hne
  rw [length_append, drop_append, drop_eq_nil_of_le (by omega)] at ht
  exact mem_of_mem_drop ht

theorem fills_of_ended {b : Bool} (hb : s.structured.reasoningEnded = some b) : s.fills p = b := by
  unfold fills
  rw [hb]
  rfl

theorem Live.part_eq_none (h : s.Live cfg p) (hfills : s.fills p = false) : s.part p = none := by
  rw [← Option.isNone_iff_eq_none, ← Option.not_isSome, ← h.reasoning, hfills]
  rfl

theorem Counters.deltaStart_eq (h : s.Counters cfg) (hstatus : s.request.status = .running)
    (hchunk : s.request.isPrefillChunk = false)
    (hsync : cfg.asyncScheduling = false → s.flights = []) :
    s.request.deltaStart = s.request.numTokens - 1 := by
  have hplace := h.placeholders
  have hdecode := h.decode hstatus hchunk
  apply VllmEcho.deltaStart_eq h.tokens
  split at hplace
  · omega
  · rename_i hno
    rw [hsync (Bool.eq_false_iff.mpr hno)] at hdecode
    have hzero : expected [] = 0 := rfl
    omega

theorem Inv.shouldAdvance_eq (h : s.Inv cfg p) (hstatus : s.request.status = .running)
    (houtput : s.request.outputTokenIds ≠ []) (hchunk : s.request.isPrefillChunk = false)
    (hsync : cfg.asyncScheduling = false → s.flights = []) :
    shouldAdvance (some p) false s.request s.structured = (s.fills p, s.structured) := by
  have hl := h.live (running_isFinished hstatus)
  obtain ⟨b, hb⟩ := Option.isSome_iff_exists.mp (hl.answered houtput)
  have hfills := fills_of_ended (p := p) hb
  rw [hfills]
  cases b with
  | true => exact shouldAdvance_ended h.structured hb
  | false =>
    rw [shouldAdvance_reasoning h.structured (by rw [hb]; simp), if_neg]
    rw [hl.counters.deltaStart_eq hstatus hchunk hsync]
    intro hmem
    exact (structuredPart_eq_none.mp (hl.part_eq_none hfills)).2
      (mem_output_of_mem_last h.output houtput hmem)

theorem validDrafts_validateTokens (tokens : List TokenId) (n : Nat) :
    ValidDrafts true g (g.validateTokens tokens ++ replicate n (-1)) := by
  obtain ⟨v, hv, htake, hall, _⟩ := Grammar.validateAfter_spec g.rules g.tokens tokens
  have hval : g.validateTokens tokens = tokens.take v := htake
  rw [hval]
  intro k t ht _ hnot _
  have hlen : (tokens.take v).length = v := by rw [length_take]; omega
  by_cases hk : k < v
  · rw [getElem?_append_left (by omega), getElem?_take_of_lt hk] at ht
    rw [take_append_of_le_length (by omega), take_take, Nat.min_eq_left (by omega)]
    exact hall k t hk ht
  -- behind them there are placeholders
  rw [getElem?_append_right (by omega)] at ht
  obtain rfl := eq_of_mem_replicate (mem_of_getElem? ht)
  refine absurd ?_ hnot
  rw [take_append, mem_append]
  right
  rw [mem_iff_getElem?]
  exact ⟨k - (tokens.take v).length, by rw [getElem?_take_of_lt (by omega), ht]⟩

theorem Inv.updateDraftTokenIds {specTokenIds : List TokenId} (h : s.Inv cfg p)
    (hok : s.Allowed cfg (.drafts specTokenIds)) :
    (s.updateDraftTokenIds p specTokenIds).Inv cfg p := by
  obtain ⟨hsync, hflights, hstatus⟩ := hok
  have hlive := running_isFinished hstatus
  have hl := h.live hlive
  -- only the drafts of the request change
  have hset : ∀ spec : List TokenId, (spec ≠ [] → s.request.isPrefillChunk = false) →
      ValidDrafts (s.fills p) s.structured.grammar spec →
      ({ s with request := { s.request with specTokenIds := spec } } : ReasoningRun).Inv cfg p := by
    intro spec hchunk hvalid
    refine ⟨h.structured, h.output, h.enforced.congr rfl rfl rfl rfl rfl, h.length, fun _ => ?_⟩
    refine { hl with
      counters := { hl.counters with }, inFlight := { hl.inFlight with }, drafts := ?_ }
    exact ⟨fun hne => ⟨hstatus, hchunk hne⟩,
      fun hasync => absurd (hsync.symm.trans hasync) Bool.false_ne_true,
      fun _ hne => absurd hflights hne, hvalid⟩
  unfold ReasoningRun.updateDraftTokenIds
  rw [hlive, if_neg Bool.false_ne_true]
  split
  · exact hset [] (fun hne => absurd rfl hne) (nil _ _)
  rename_i hchunk
  rw [Bool.not_eq_true] at hchunk
  have houtput : s.request.outputTokenIds ≠ [] := by
    rcases hl.sampled hstatus hchunk with hne | ⟨f, hf, _⟩
    · exact hne
    · rw [hflights] at hf
      cases hf
  rw [h.shouldAdvance_eq hstatus houtput hchunk fun _ => hflights]
  apply hset _ (fun _ => hchunk)
  cases hfill : s.fills p with
  | true =>
    have hvalid := validDrafts_validateTokens s.structured.grammar specTokenIds 0
    rwa [replicate_zero, append_nil] at hvalid
  | false => nofun

def Knows (g : Grammar) (f : Flight) : Prop :=
  ∀ i t, i < f.drafts.length → f.held[i]? = some t → f.drafts.take i = f.held.take i →
    (-1 : TokenId) ∉ f.held.take i →
      f.drafts[i]? = some t ∨ g.rules.allows (g.tokens ++ f.held.take i) t = false

theorem Inv.updateDraftTokenIdsInOutput (h : s.Inv cfg p) (hstatus : s.request.status = .running)
    (hasync : cfg.asyncScheduling = true) (houtput : f.drafts ≠ [] → s.request.outputTokenIds ≠ [])
    (hchunk : f.drafts ≠ [] → s.request.isPrefillChunk = false) :
    ∃ drafts, s.updateDraftTokenIdsInOutput p f f.held = (s, { f with drafts := drafts }) ∧
      drafts.length = f.drafts.length ∧ ValidDrafts (s.fills p) s.structured.grammar drafts ∧
      (s.fills p = true → Knows s.structured.grammar { f with drafts := drafts }) := by
  unfold ReasoningRun.updateDraftTokenIdsInOutput
  by_cases hnil : f.drafts = []
  · refine ⟨[], ?_, by rw [hnil], nil _ _, fun _ i t hi => absurd hi (Nat.not_lt_zero i)⟩
    rw [if_pos (by rw [hnil, isEmpty_nil, Bool.or_true]), ← hnil]
  rw [if_neg (by simp [running_isFinished hstatus, hnil]), h.shouldAdvance_eq hstatus (houtput hnil)
    (hchunk hnil) fun hsync => nomatch hsync.symm.trans hasync]
  cases hfill : s.fills p with
  | false =>
    refine ⟨_, rfl, ?_, nofun, nofun⟩
    rw [if_neg Bool.false_ne_true, length_append, length_replicate, length_take]
    omega
  | true =>
    obtain ⟨v, hv, htake, _, hnext⟩ := Grammar.validateAfter_spec s.structured.grammar.rules
      s.structured.grammar.tokens (f.held.take f.drafts.length)
    have hval : s.structured.grammar.validateTokens (f.held.take f.drafts.length) =
      (f.held.take f.drafts.length).take v := htake
    rw [length_take] at hv
    have hlen : ((f.held.take f.drafts.length).take v).length = v := by
      rw [length_take, length_take]
      omega
    refine ⟨_, rfl, ?_, ?_, fun _ i t hi ht hsame hreal => ?_⟩
    · rw [if_pos rfl, hval, length_append, length_replicate]
      omega
    · exact validDrafts_validateTokens _ _ _
    rw [if_pos rfl, hval] at hi hsame ⊢
    rw [length_append, length_replicate] at hi
    rcases Nat.lt_trichotomy i v with hlt | heq | hgt
    · left
      rw [getElem?_append_left (by omega), getElem?_take_of_lt hlt,
        getElem?_take_of_lt (by omega), ht]
    · -- the first draft that the grammar does not allow
      right
      have hstop := hnext t (by rw [← heq, getElem?_take_of_lt (by omega), ht])
      rwa [take_take, Nat.min_eq_left (by omega), ← heq] at hstop
    · -- behind it the scheduler has a placeholder in place of a token of the worker
      refine absurd ?_ hreal
      rw [← hsame, take_append, mem_append]
      right
      rw [mem_iff_getElem?]
      refine ⟨0, ?_⟩
      rw [getElem?_take_of_lt (by omega), getElem?_replicate, if_pos (by omega)]

theorem Counters.reflight {so : StructuredOutputRequest} (h : s.Counters cfg)
    (hexp : expected fs = expected s.flights) :
    ({ s with structured := so, flights := fs } : ReasoningRun).Counters cfg := by
  refine ⟨h.kept, h.tokens, ?_, ?_, ?_, h.waiting⟩ <;> dsimp only <;> rw [hexp]
  · exact h.placeholders
  · exact h.chunk
  · exact h.decode

theorem Inv.replaceFlight {g : Flight} {so : StructuredOutputRequest} (h : s.Inv cfg p)
    (hlive : s.request.isFinished = false) (hflights : s.flights = [f])
    (hdeferred : f.deferred = true) (hgrammar : so.grammar = s.structured.grammar)
    (hreasoning : so.reasoningEnded = s.structured.reasoningEnded ∨
      so.reasoningEnded = some (s.fills p)) (hchunk : g.chunk = f.chunk)
    (hlen : g.drafts.length = f.drafts.length) (hready : g.deferred = false)
    (hmasked : g.chunk = false → so.reasoningEnded.isSome ∧
      g.Masked (s.fills p) s.structured.grammar) :
    ({ s with structured := so, flights := [g] } : ReasoningRun).Inv cfg p := by
  have hl := h.live hlive
  have hf : f ∈ s.flights := hflights ▸ mem_cons_self
  obtain ⟨hasync, hstatus, hsame, _⟩ := hl.inFlight.deferred f hf hdeferred
  have hnil : f.drafts = [] → g.drafts = [] := by
    intro hnil
    rw [← length_eq_zero_iff, hlen, hnil]
    rfl
  have hexp : expected [g] = expected s.flights := by
    rw [hflights]
    unfold expected
    rw [hchunk, hlen]
  have hfills : fills p { s with structured := so, flights := [g] } = s.fills p :=
    fills_eq hreasoning rfl
  refine ⟨h.structured, h.output, h.enforced.congr rfl rfl hgrammar rfl rfl, h.length, fun _ => ?_⟩
  constructor
  case counters => exact hl.counters.reflight hexp
  case drafts =>
    refine ⟨hl.drafts.decoding, hl.drafts.unknown,
      fun hsync => absurd (hsync.symm.trans hasync) Bool.false_ne_true, ?_⟩
    rw [hfills, hgrammar]
    exact hl.drafts.valid
  case inFlight =>
    constructor
    case single => exact fun _ => Nat.le_refl 1
    case ordered => exact pairwise_singleton _ _
    case follow =>
      have hold := hl.inFlight.follow
      rw [hflights] at hold
      exact ⟨fun hne => hold.1 fun hf' => hne (hnil hf'), trivial⟩
    case chunk =>
      intro g' hg' hpart
      obtain rfl := mem_singleton.mp hg'
      exact hnil (hl.inFlight.chunk f hf (hchunk.symm.trans hpart))
    case deferred =>
      intro g' hg' hno
      obtain rfl := mem_singleton.mp hg'
      exact absurd (hready.symm.trans hno) Bool.false_ne_true
    case masked =>
      intro g' hg' _ hpart
      obtain rfl := mem_singleton.mp hg'
      rw [hfills, hgrammar]
      exact hmasked hpart
  case reasoning =>
    rw [hfills]
    exact hl.reasoning
  case answered => exact fun hne => isSome_of_reasoning hreasoning (hl.answered hne)
  case sampled =>
    intro _ hpart
    exact Or.inr ⟨g, mem_cons_self, by rw [hchunk, hsame]; exact hpart⟩

theorem Inv.deferred_masked {g : Flight} (h : s.Inv cfg p) (hlive : s.request.isFinished = false)
    (hflights : s.flights = [f]) (hdeferred : f.deferred = true) (hchunk : g.chunk = f.chunk)
    (hlen : g.drafts.length = f.drafts.length)
    (hvalid : ValidDrafts (s.fills p) s.structured.grammar g.drafts)
    (hknows : s.fills p = true → g.drafts.head? = some (-1) ∨ Knows s.structured.grammar g) :
    ({ (s.getGrammarBitmask p g).1 with flights := [(s.getGrammarBitmask p g).2] } :
      ReasoningRun).Inv cfg p := by
  have hf : f ∈ s.flights := hflights ▸ mem_cons_self
  have hsame := ((h.live hlive).inFlight.deferred f hf hdeferred).2.2.1
  cases hpart : s.request.isPrefillChunk with
  | true =>
    rw [getGrammarBitmask_chunk hpart]
    refine h.replaceFlight hlive hflights hdeferred rfl (Or.inl rfl) hchunk hlen rfl fun hno => ?_
    rw [hchunk, hsame, hpart] at hno
    cases hno
  | false =>
    rw [getGrammarBitmask_eq hlive h.structured hpart hvalid]
    exact h.replaceFlight hlive hflights hdeferred rfl (Or.inr rfl) hchunk hlen rfl
      fun _ => ⟨rfl, rfl, hknows⟩

theorem Inv.sampleDeferred {reported : Bool} (h : s.Inv cfg p)
    (hok : s.Allowed cfg (.sampleDeferred reported)) : (s.sampleDeferred p reported).Inv cfg p := by
  obtain ⟨hone, hall⟩ := hok
  obtain ⟨f, hflights⟩ := length_eq_one_iff.mp hone
  have hf : f ∈ s.flights := hflights ▸ mem_cons_self
  have hdeferred := hall f hf
  unfold ReasoningRun.sampleDeferred
  rw [hflights]
  dsimp only
  cases hlive : s.request.isFinished with
  | true =>
    -- the output before has finished the request
    have hsame : s.updateDraftTokenIdsInOutput p f f.held = (s, f) := by
      unfold ReasoningRun.updateDraftTokenIdsInOutput
      rw [hlive, Bool.true_or, if_pos rfl]
    rw [hsame, ite_self]
    have hmask : s.getGrammarBitmask p f = (s, { f with deferred := false }) := by
      unfold getGrammarBitmask
      rw [hlive, Bool.true_or, Bool.true_or, if_pos rfl]
    rw [hmask]
    refine ⟨h.structured, h.output, h.enforced.congr rfl rfl rfl rfl rfl, h.length, fun hno => ?_⟩
    exact nomatch hlive.symm.trans hno
  | false =>
    have hl := h.live hlive
    obtain ⟨hasync, hstatus, hchunk, hunknown⟩ := hl.inFlight.deferred f hf hdeferred
    cases reported with
    | false =>
      exact h.deferred_masked hlive hflights hdeferred rfl rfl (validDrafts_unknown hunknown)
        fun _ => knows_unknown hunknown
    | true =>
      have hfollow := hl.inFlight.follow
      rw [hflights] at hfollow
      have hpart : f.drafts ≠ [] → s.request.isPrefillChunk = false := by
        intro hne
        rw [← hchunk]
        cases hpart : f.chunk with
        | false => rfl
        | true => exact absurd (hl.inFlight.chunk f hf hpart) hne
      obtain ⟨drafts, heq, hlen, hvalid, hknows⟩ := h.updateDraftTokenIdsInOutput hstatus hasync
        (fun hne => by simpa using hfollow.1 hne) hpart
      rw [heq]
      exact h.deferred_masked hlive hflights hdeferred rfl hlen hvalid fun hfill =>
        Or.inr (hknows hfill)

end ReasoningRun

end VllmEcho
