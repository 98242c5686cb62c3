import VllmEcho.StructuredOutput.FillTheorems
import VllmEcho.StructuredOutput.Reasoning

/-!
# The calls around `should_advance`

One lemma for each call of the engine about a request with a grammar: where the tokens of a step
start, which of them the masks allow, and what they do to the counters.
-/

namespace VllmEcho

open Lib List

def structuredPart (ended : Bool) (marker : TokenId) (output : List TokenId) :
    Option (List TokenId) :=
  if ended then some output
  else if marker ∈ output then some (output.drop (output.idxOf marker + 1))
  else none

section StructuredPart

variable {ended : Bool} {marker : TokenId} {output ts : List TokenId}

theorem structuredPart_append (h : structuredPart ended marker output = some ts)
    (new : List TokenId) : structuredPart ended marker (output ++ new) = some (ts ++ new) := by
  unfold structuredPart at h ⊢
  split at h
  · rename_i hended
    rw [if_pos hended, Option.some.inj h]
  rename_i hended
  rw [if_neg hended]
  split at h
  · rename_i hmem
    rw [if_pos (mem_append_left new hmem), ← Option.some.inj h,
      idxOf_append_of_mem hmem, drop_append_of_le_length (idxOf_lt_length_of_mem hmem)]
  · cases h

theorem structuredPart_eq_none :
    structuredPart ended marker output = none ↔ ended = false ∧ marker ∉ output := by
  unfold structuredPart
  cases ended
  · by_cases hmem : marker ∈ output <;> simp [hmem]
  · simp

theorem structuredPart_marker (h : structuredPart ended marker output = none) {new : List TokenId}
    (hnew : marker ∉ new) : structuredPart ended marker (output ++ (new ++ [marker])) =
      some [] := by
  obtain ⟨rfl, hout⟩ := structuredPart_eq_none.mp h
  have hfront : marker ∉ output ++ new := by
    rw [mem_append, not_or]
    exact ⟨hout, hnew⟩
  unfold structuredPart
  rw [if_neg Bool.false_ne_true, if_pos (by simp), ← append_assoc,
    idxOf_append_of_notMem hfront, idxOf_cons_self]
  congr 1
  rw [drop_eq_nil_iff, length_append, length_singleton]

end StructuredPart

theorem Grammar.validateAfter_spec (rules : GrammarRules) (accepted tokens : List TokenId) :
    ∃ n ≤ tokens.length, validateAfter rules accepted tokens = tokens.take n ∧
      (∀ i t, i < n → tokens[i]? = some t → rules.allows (accepted ++ tokens.take i) t = true) ∧
      ∀ t, tokens[n]? = some t → rules.allows (accepted ++ tokens.take n) t = false := by
  induction tokens generalizing accepted with
  | nil => exact ⟨0, Nat.le_refl 0, rfl, fun i t hi => absurd hi (Nat.not_lt_zero i), by simp⟩
  | cons token tokens ih =>
    rw [validateAfter]
    split
    · rename_i hallow
      obtain ⟨n, hn, htake, hall, hnext⟩ := ih (accepted ++ [token])
      refine ⟨n + 1, Nat.succ_le_succ hn, by rw [htake, take_succ_cons], ?_, ?_⟩
      · intro i t hi ht
        cases i with
        | zero =>
          obtain rfl : token = t := by simpa using ht
          simpa using hallow
        | succ i => simpa using hall i t (by omega) (by simpa using ht)
      · intro t ht
        simpa using hnext t (by simpa using ht)
    · rename_i hreject
      refine ⟨0, Nat.zero_le _, rfl, fun i t hi => absurd hi (Nat.not_lt_zero i), fun t ht => ?_⟩
      obtain rfl : token = t := by simpa using ht
      simpa using hreject

theorem Grammar.acceptEach_eq {g : Grammar} {tokens : List TokenId}
    (h : ∀ i t, tokens[i]? = some t → g.rules.allows (g.tokens ++ tokens.take i) t = true) :
    g.acceptEach tokens = (true, { g with tokens := g.tokens ++ tokens }) := by
  induction tokens generalizing g with
  | nil => rw [acceptEach, append_nil]
  | cons token tokens ih =>
    have hfirst : g.rules.allows g.tokens token = true := by simpa using h 0 token rfl
    rw [acceptEach, if_pos hfirst, ih]
    · simp
    · intro i t ht
      simpa using h (i + 1) t (by simpa using ht)

/-! ## The end marker in the tokens of a step -/

section ShouldAdvance

variable {p : ReasoningParser} {r : Request} {so : StructuredOutputRequest}

theorem shouldAdvance_ended (huse : r.useStructuredOutput = true)
    (hended : so.reasoningEnded = some true) : shouldAdvance (some p) false r so = (true, so) := by
  unfold shouldAdvance
  rw [huse, Bool.not_true, if_neg Bool.false_ne_true]
  dsimp only
  rw [if_neg Bool.false_ne_true, if_pos hended]

theorem shouldAdvance_reasoning (huse : r.useStructuredOutput = true)
    (hended : so.reasoningEnded ≠ some true) : shouldAdvance (some p) false r so =
      (false, if p.endTokenId ∈ r.allTokenIds.drop r.deltaStart then
        { so with reasoningEnded := some true } else so) := by
  unfold shouldAdvance ReasoningParser.isReasoningEndStreaming
  rw [huse, Bool.not_true, if_neg Bool.false_ne_true]
  dsimp only
  rw [if_neg Bool.false_ne_true, if_neg hended]
  by_cases hmem : p.endTokenId ∈ r.allTokenIds.drop r.deltaStart
  · rw [if_pos (decide_eq_true hmem), if_pos hmem]
  · rw [if_neg (by simpa using hmem), if_neg hmem]

theorem deltaStart_eq (htokens : 0 < r.numTokens)
    (h : r.numComputedTokens - r.numOutputPlaceholders = (r.numTokens : Int) - 1) :
    r.deltaStart = r.numTokens - 1 := by
  unfold Request.deltaStart
  rw [if_pos (by omega)]
  omega

theorem deltaStart_lt (htokens : 0 < r.numTokens) (hcomputed : r.numComputedTokens = 0)
    (h : 0 ≤ r.numOutputPlaceholders) : r.deltaStart < r.numTokens := by
  unfold Request.deltaStart
  dsimp only
  split <;> omega

end ShouldAdvance

/-! ## The tokens that a step samples -/

/-- What the worker may sample in a step: the drafts that it accepted and one more token, each under
the row of its position. -/
@[mk_iff]
structure Flight.Samples (f : Flight) (generated : List TokenId) : Prop where
  chunk : f.chunk = true → generated = []
  drafts : f.chunk = false → generated ≠ [] ∧ generated.dropLast <+: f.held.take f.drafts.length
  real : (-1 : TokenId) ∉ generated
  masked : ∀ q ∈ generated.zip f.rows, q.2 q.1 = true

structure Flight.Masked (f : Flight) (fill : Bool) (g : Grammar) : Prop where
  rows : f.rows = (range (f.drafts.length + 1)).map (expectedMask fill g f.drafts)
  knows : fill = true → f.drafts.head? = some (-1) ∨ ∀ i t, i < f.drafts.length →
    f.held[i]? = some t → f.drafts.take i = f.held.take i → (-1 : TokenId) ∉ f.held.take i →
      f.drafts[i]? = some t ∨ g.rules.allows (g.tokens ++ f.held.take i) t = false

section Sampled

variable {f : Flight} {g : Grammar} {generated emitted : List TokenId}

theorem Flight.Samples.length_le (h : f.Samples generated) (hchunk : f.chunk = false) :
    generated.length ≤ f.drafts.length + 1 := by
  have hle := (h.drafts hchunk).2.length_le
  rw [length_dropLast, length_take] at hle
  omega

theorem Flight.Masked.row (h : f.Masked true g) (hsamples : f.Samples generated)
    (hchunk : f.chunk = false) (hpre : emitted <+: generated)
    (hlive : ∀ i < emitted.length, g.rules.terminates (g.tokens ++ emitted.take i) = false)
    {i : Nat} (hi : i < emitted.length) (htake : f.drafts.take i = emitted.take i) :
    f.rows[i]? = some (g.rules.allows (g.tokens ++ emitted.take i)) := by
  have hlen := hsamples.length_le hchunk
  have hle := hpre.length_le
  rw [h.rows, getElem?_map, getElem?_range (by omega), Option.map_some]
  unfold expectedMask
  rw [if_pos, htake]
  refine ⟨rfl, ?_, ?_⟩
  · rw [htake]
    intro hmem
    exact hsamples.real (hpre.subset (mem_of_mem_take hmem))
  intro j hj
  have hpre : f.drafts.take j = emitted.take j := by
    have hcut := congrArg (List.take j) htake
    rwa [take_take, take_take, Nat.min_eq_left hj] at hcut
  rw [hpre]
  exact hlive j (by omega)

theorem Flight.Samples.allowed (h : f.Samples generated) (hpre : emitted <+: generated) {i : Nat}
    {t : TokenId} {row : MaskRow} (ht : emitted[i]? = some t) (hrow : f.rows[i]? = some row) :
    row t = true := by
  apply h.masked (t, row)
  rw [mem_iff_getElem?]
  refine ⟨i, ?_⟩
  obtain ⟨hi, rfl⟩ := List.getElem?_eq_some_iff.mp ht
  rw [getElem?_zip_eq_some]
  exact ⟨prefix_iff_getElem?.mp hpre i hi, hrow⟩

theorem Flight.Masked.emitted_allowed (h : f.Masked true g) (hsamples : f.Samples generated)
    (hchunk : f.chunk = false) (hpre : emitted <+: generated)
    (hlive : ∀ i < emitted.length, g.rules.terminates (g.tokens ++ emitted.take i) = false)
    (hknown : f.drafts.head? = some (-1) → emitted.length ≤ 1) :
    (∀ i < emitted.length, f.rows[i]? = some (g.rules.allows (g.tokens ++ emitted.take i))) ∧
      ∀ i t, emitted[i]? = some t → g.rules.allows (g.tokens ++ emitted.take i) t = true := by
  have hworker : ∀ j < emitted.length, f.held.take j = emitted.take j ∧ j ≤ f.drafts.length := by
    intro j hj
    have hle := hpre.length_le
    have hbound := hsamples.length_le hchunk
    have hfront : emitted.take j <+: generated.dropLast := by
      refine prefix_of_prefix_length_le (( take_prefix j _).trans hpre) ( dropLast_prefix _) ?_
      rw [length_take, length_dropLast]
      omega
    have heq := prefix_iff_eq_take.mp
      (hfront.trans ((hsamples.drafts hchunk).2.trans ( take_prefix _ _)))
    rw [length_take, Nat.min_eq_left (Nat.le_of_lt hj)] at heq
    exact ⟨heq.symm, by omega⟩
  -- the scheduler knows the drafts in front of every emitted token
  have hdrafts : ∀ i, i < emitted.length → f.drafts.take i = emitted.take i := by
    intro i
    induction i with
    | zero => exact fun _ => rfl
    | succ i ih =>
      intro hi
      have hlt : i < emitted.length := by omega
      have htake := ih hlt
      have hheld := (hworker i hlt).1
      have hallow := hsamples.allowed hpre (getElem?_eq_getElem hlt)
        (h.row hsamples hchunk hpre hlive hlt htake)
      have hdraft : f.held[i]? = some emitted[i] := by
        rw [← getElem?_take_of_lt (Nat.lt_succ_self i), (hworker (i + 1) hi).1,
          getElem?_take_of_lt (Nat.lt_succ_self i), getElem?_eq_getElem hlt]
      cases h.knows rfl with
      | inl hhead =>
        have := hknown hhead
        omega
      | inr hknows =>
        have hreal : (-1 : TokenId) ∉ f.held.take i := by
          rw [hheld]
          exact fun hmem => hsamples.real (hpre.subset (mem_of_mem_take hmem))
        have hsame := hknows i _ (hworker (i + 1) hi).2 hdraft (htake.trans hheld.symm) hreal
        rw [hheld, hallow] at hsame
        rw [take_add_one, take_add_one, htake, hsame.resolve_right Bool.true_eq_false.mp,
          getElem?_eq_getElem hlt]
  constructor
  · intro i hi
    exact h.row hsamples hchunk hpre hlive hi (hdrafts i hi)
  · intro i t ht
    have hi : i < emitted.length := lt_of_getElem? ht
    exact hsamples.allowed hpre ht (h.row hsamples hchunk hpre hlive hi (hdrafts i hi))

end Sampled

structure Taken (cfg : SchedulerConfig) (r r' : Request)
    (drafts generated appended : List TokenId) :
    Prop where
  emitted : appended = upToStop cfg.maxModelLen r generated
  initial : appended <+: generated
  all : r'.isFinished = false → appended = generated
  status : r'.isFinished = false → r'.status = r.status
  computed : r'.numComputedTokens =
    if 0 < r.numComputedTokens then
      r.numComputedTokens - ((drafts.length : Int) - ((generated.length : Int) - 1))
    else r.numComputedTokens
  placeholders : r'.numOutputPlaceholders =
    (if 0 < r.numOutputPlaceholders then
      r.numOutputPlaceholders - ((drafts.length : Int) - ((generated.length : Int) - 1))
    else r.numOutputPlaceholders) - if cfg.asyncScheduling then (appended.length : Int) else 0
  fields : ∃ hashes reason, r' =
    { r with
      outputTokenIds := r.outputTokenIds ++ appended
      allTokenIds := r.allTokenIds ++ appended
      blockHashes := hashes
      status := r'.status
      stopReason := reason
      numComputedTokens := r'.numComputedTokens
      numOutputPlaceholders := r'.numOutputPlaceholders }

section TakeTokens

variable {cfg : SchedulerConfig} {r r' : Request} {drafts generated appended : List TokenId}

theorem upToStop_ne_nil {maxModelLen : Nat} (h : generated ≠ []) :
    upToStop maxModelLen r generated ≠ [] := by
  cases generated with
  | nil => exact absurd rfl h
  | cons t ts =>
    rw [upToStop]
    split
    · exact cons_ne_nil _ _
    · exact cons_ne_nil _ _

theorem rejected_fields (h : drafts = [] → generated.length = 1) : (if drafts = [] then r
      else Scheduler.rejectDrafts ((drafts.length : Int) - ((generated.length : Int) - 1)) r) =
      Scheduler.rejectDrafts ((drafts.length : Int) - ((generated.length : Int) - 1)) r := by
  split
  · rename_i hnil
    have hzero : ((drafts.length : Int) - ((generated.length : Int) - 1)) = 0 := by
      rw [hnil, h hnil]
      rfl
    rw [hzero]
    unfold Scheduler.rejectDrafts
    simp
  · rfl

theorem takeTokens_cases (hkept : r.discardLatestAsyncTokens = false) (hgen : generated ≠ [])
    (hdrafts : drafts = [] → generated.length = 1)
    (h : ReasoningRun.takeTokens cfg r drafts generated = .ok (r', appended)) :
    Taken cfg r r' drafts generated appended := by
  unfold ReasoningRun.takeTokens at h
  rw [if_neg hgen, rejected_fields hdrafts] at h
  set r₀ := Scheduler.rejectDrafts ((drafts.length : Int) - ((generated.length : Int) - 1)) r
  have hsame : SameStops r r₀ := ⟨rfl, rfl, rfl, rfl⟩
  have htaken : ∀ {r₁ stopped k},
      appendUntilStop cfg.hasher cfg.maxModelLen r₀ generated = .ok (r₁, appended, stopped) →
      k = r₁.numOutputPlaceholders - (if cfg.asyncScheduling then (appended.length : Int) else 0) →
      Taken cfg r { r₁ with numOutputPlaceholders := k } drafts generated appended := by
    intro r₁ stopped k happend hk
    have hcases := appendUntilStop_cases happend
    have hup := hcases.emitted.trans (hsame.upToStop generated)
    obtain ⟨hashes, reason, hfields⟩ := hcases.fields
    generalize r₁.status = status at hfields
    subst hfields
    exact ⟨hup, hcases.initial, fun hfin => hcases.all (hcases.not_stopped hfin),
      fun hfin => hcases.status (hcases.not_stopped hfin), rfl, hk, hashes, reason, rfl⟩
  unfold ReasoningRun.updateRequestWithOutput at h
  split at h
  · rename_i hasync
    rw [show r₀.discardLatestAsyncTokens = false from hkept] at h
    obtain ⟨⟨r₁, appended₁, stopped⟩, happend, h⟩ := of_bind h
    obtain ⟨u, -, h⟩ := of_bind h
    obtain ⟨rfl, rfl⟩ := Prod.mk.inj (Except.ok.inj h)
    exact htaken happend (by rw [if_pos hasync])
  · rename_i hsync
    obtain ⟨⟨r₁, appended₁, stopped⟩, happend, h⟩ := of_bind h
    obtain ⟨rfl, rfl⟩ := Prod.mk.inj (Except.ok.inj h)
    exact htaken happend (by rw [if_neg hsync, sub_zero])

end TakeTokens

/-! ## The rows of a step -/

theorem ValidDrafts.nil (fill : Bool) (g : Grammar) : ValidDrafts fill g [] := by
  intro k t ht
  cases ht

theorem validDrafts_unknown {fill : Bool} {g : Grammar} {drafts : List TokenId}
    (h : ∀ t ∈ drafts, t = -1) : ValidDrafts fill g drafts := by
  intro k t ht _ hnot
  refine absurd ?_ hnot
  rw [← h t (mem_of_getElem? ht)]
  rw [mem_iff_getElem?]
  exact ⟨k, by rw [getElem?_take_of_lt (Nat.lt_succ_self k), ht]⟩

theorem ValidDrafts.take {fill : Bool} {g : Grammar} {drafts : List TokenId}
    (h : ValidDrafts fill g drafts) (n : Nat) : ValidDrafts fill g (drafts.take n) := by
  intro k t ht hfill hnot hlive
  have hk : k < n := by
    have := lt_of_getElem? ht
    rw [length_take] at this
    omega
  have hcut : ∀ j ≤ k + 1, (drafts.take n).take j = drafts.take j := by
    intro j hj
    rw [take_take, Nat.min_eq_left (by omega)]
  rw [getElem?_take_of_lt hk] at ht
  rw [hcut _ (Nat.le_refl _)] at hnot
  rw [hcut _ (Nat.le_succ k)]
  refine h k t ht hfill hnot fun j hj => ?_
  rw [← hcut j (by omega)]
  exact hlive j hj

namespace ReasoningRun

variable {p : ReasoningParser} {s : ReasoningRun} {f : Flight}

def fills (p : ReasoningParser) (s : ReasoningRun) : Bool :=
  s.structured.reasoningEnded.getD (p.isReasoningEnd (s.request.promptTokenIds.getD []))

theorem getGrammarBitmask_chunk (h : s.request.isPrefillChunk = true) :
    s.getGrammarBitmask p f = (s, { f with deferred := false }) := by
  unfold getGrammarBitmask
  rw [h, Bool.or_true, if_pos rfl]

theorem getGrammarBitmask_eq (hlive : s.request.isFinished = false)
    (huse : s.request.useStructuredOutput = true) (hchunk : s.request.isPrefillChunk = false)
    (hvalid : ValidDrafts (s.fills p) s.structured.grammar f.drafts) : s.getGrammarBitmask p f =
      ({ s with structured := { s.structured with reasoningEnded := some (s.fills p) } },
        { f with
          deferred := false
          rows := (range (f.drafts.length + 1)).map
            (expectedMask (s.fills p) s.structured.grammar f.drafts) }) := by
  set start : StructuredOutputManager.FillState :=
    ⟨fun _ => some ⟨s.request.promptTokenIds, s.request.isPrefillChunk, some s.structured⟩,
      replicate (f.drafts.length + 1) fullMask, 0⟩ with hstart
  have hlen : start.buffer.length = f.drafts.length + 1 := length_replicate
  obtain ⟨buffer, heq, hbuffer, htake⟩ := StructuredOutputManager.fillRequest_eq (m := p.manager)
    (s := start) (fun _ => f.drafts) rfl rfl hvalid
    (by rw [hlen, Nat.zero_add])
  have hrows : buffer = (range (f.drafts.length + 1)).map
      (expectedMask (s.fills p) s.structured.grammar f.drafts) := by
    rw [take_of_length_le (by rw [hbuffer, hlen, Nat.zero_add])] at htake
    exact htake
  unfold getGrammarBitmask
  rw [hlive, huse, hchunk, if_neg (by decide), ← hchunk, heq]
  dsimp only
  rw [Function.update_self, hrows]
  rfl

end ReasoningRun

end VllmEcho
