import VllmEcho.StructuredOutput.ReasoningDrafts

/-!
# The grammar behind the end marker

In a run in which no step emits tokens behind the marker that it emits, the grammar has consumed the
output tokens behind the marker, and each of them was sampled under the grammar's mask.
-/

namespace VllmEcho

open Lib List ValidDrafts Scheduler

variable {fs : List Flight} {f : Flight} {r r' : Request} {generated appended : List TokenId}
  {drafts output : List TokenId} {e : ReasoningEvent} {ts : List TokenId} {sampled : Bool}
  (g : Grammar) {n : Nat}

namespace ReasoningRun

variable {cfg : SchedulerConfig} {p : ReasoningParser} {s s' : ReasoningRun}

/-! ## Outputs -/

theorem take_rows {g : Grammar} {emitted : List TokenId}
    (h : ∀ i < emitted.length, f.rows[i]? = some (g.rules.allows (g.tokens ++ emitted.take i))) :
    f.rows.take emitted.length =
      (range emitted.length).map fun i => g.rules.allows (g.tokens ++ emitted.take i) := by
  apply ext_getElem?
  intro i
  rw [getElem?_map]
  by_cases hi : i < emitted.length
  · rw [getElem?_take_of_lt hi, h i hi, getElem?_range hi]
    rfl
  · rw [getElem?_eq_none (by rw [length_take]; omega),
      getElem?_eq_none (by rw [length_range]; omega)]
    rfl

theorem range_map_append (new : List TokenId) :
    ((range (ts ++ new).length).map fun k => g.rules.allows ((ts ++ new).take k)) =
      ((range ts.length).map fun k => g.rules.allows (ts.take k)) ++
        (range new.length).map fun i => g.rules.allows (ts ++ new.take i) := by
  rw [length_append, range_add, map_append, map_map]
  congr 1
  · apply map_congr_left
    intro k hk
    rw [take_append_of_le_length (Nat.le_of_lt (mem_range.mp hk))]
  · apply map_congr_left
    intro i _
    show g.rules.allows ((ts ++ new).take (ts.length + i)) = _
    rw [take_append, take_of_length_le (Nat.le_add_right _ i), Nat.add_sub_cancel_left]

theorem Enforced.advance {new : List TokenId} (h : s.Enforced p)
    (hlen : s.sampledUnder.length = s.request.outputTokenIds.length) (hpart : s.part p = some ts)
    (hrows : ∀ i < new.length, f.rows[i]? =
      some (s.structured.grammar.rules.allows (s.structured.grammar.tokens ++ new.take i)))
    (hallowed : ∀ i t, new[i]? = some t →
      s.structured.grammar.rules.allows (s.structured.grammar.tokens ++ new.take i) t = true)
    (hpart' : s'.part p = some (ts ++ new))
    (houtput : s'.request.outputTokenIds = s.request.outputTokenIds ++ new)
    (hgrammar : s'.structured.grammar =
      { s.structured.grammar with tokens := s.structured.grammar.tokens ++ new })
    (hsampled : s'.sampledUnder = s.sampledUnder ++ f.rows.take new.length)
    (haccepted : s'.rejected = false) : s'.Enforced p := by
  have htokens : s.structured.grammar.tokens = ts := by
    rw [h.consumed, hpart]
    rfl
  constructor
  case consumed =>
    rw [hgrammar, hpart']
    show s.structured.grammar.tokens ++ new = _
    rw [htokens]
    rfl
  case accepted => exact haccepted
  case masked =>
    intro ts' hts'
    obtain rfl := Option.some.inj (hpart'.symm.trans hts')
    rw [hgrammar, hsampled, houtput, take_rows hrows, htokens]
    show _ = (range (ts ++ new).length).map fun k =>
      s.structured.grammar.rules.allows ((ts ++ new).take k)
    rw [range_map_append, ← h.masked ts hpart, length_append, length_append,
      show s.request.outputTokenIds.length + new.length - (ts.length + new.length) =
        s.request.outputTokenIds.length - ts.length by omega,
      drop_append_of_le_length (by omega)]
  case conforms =>
    intro ts' hts' k t ht
    obtain rfl := Option.some.inj (hpart'.symm.trans hts')
    rw [hgrammar]
    show s.structured.grammar.rules.allows ((ts ++ new).take k) t = true
    by_cases hk : k < ts.length
    · rw [getElem?_append_left hk] at ht
      rw [take_append_of_le_length (by omega)]
      exact h.conforms ts hpart k t ht
    · rw [getElem?_append_right (by omega)] at ht
      have hnew := hallowed _ t ht
      rw [take_append, take_of_length_le (show ts.length ≤ k by omega)]
      exact htokens ▸ hnew

theorem Enforced.reasoning (h : s.Enforced p) (hpart : s.part p = none)
    (hpart' : s'.part p = none ∨ s'.part p = some [])
    (hlen : s'.sampledUnder.length = s'.request.outputTokenIds.length)
    (hgrammar : s'.structured.grammar = s.structured.grammar)
    (haccepted : s'.rejected = s.rejected) :
    s'.Enforced p := by
  have hnil : ∀ ts, s'.part p = some ts → ts = [] := by
    intro ts hts
    rcases hpart' with hnone | hsome
    · rw [hnone] at hts
      cases hts
    · exact Option.some.inj (hts.symm.trans hsome)
  have htokens : s.structured.grammar.tokens = [] := by
    rw [h.consumed, hpart]
    rfl
  constructor
  case consumed =>
    rw [hgrammar, htokens]
    rcases hpart' with hnone | hsome
    · rw [hnone]
      rfl
    · rw [hsome]
      rfl
  case accepted =>
    rw [haccepted]
    exact h.accepted
  case masked =>
    intro ts hts
    rw [hnil ts hts, length_nil, Nat.sub_zero, ← hlen, drop_length]
    rfl
  case conforms =>
    intro ts hts k t ht
    rw [hnil ts hts] at ht
    cases ht

theorem Counters.take (h : s.Counters cfg) (hflights : s.flights = f :: s'.flights)
    (hchunk : f.chunk = false) (ht : Taken cfg s.request s'.request f.drafts generated appended)
    (hlive : s'.request.isFinished = false) : s'.Counters cfg := by
  have hexp : expected s.flights = 1 + f.drafts.length + expected s'.flights := by
    rw [hflights, expected, hchunk, if_neg Bool.false_ne_true]
  have hall := ht.all hlive
  have hstatus := ht.status hlive
  obtain ⟨hashes, reason, hfields⟩ := ht.fields
  have hnum : s'.request.numTokens = s.request.numTokens + generated.length := by
    rw [hfields]
    show (s.request.allTokenIds ++ appended).length = _
    rw [length_append, hall]
    rfl
  have hpart : s'.request.isPrefillChunk = s.request.isPrefillChunk := by rw [hfields]
  have htokens := h.tokens
  constructor
  case kept =>
    rw [hfields]
    exact h.kept
  case tokens =>
    omega
  case placeholders =>
    have hplace := h.placeholders
    rw [ht.placeholders, hall]
    by_cases hasync : cfg.asyncScheduling = true
    · rw [if_pos hasync] at hplace
      rw [if_pos hasync, if_pos hasync]
      omega
    · rw [if_neg hasync] at hplace
      rw [if_neg hasync, if_neg hasync]
      omega
  case chunk =>
    intro hrun hno
    have := (h.chunk (hstatus.symm.trans hrun) (hpart.symm.trans hno)).2
    omega
  case decode =>
    intro hrun hno
    have hdecode := h.decode (hstatus.symm.trans hrun) (hpart.symm.trans hno)
    rw [ht.computed]
    omega
  case waiting =>
    intro hno
    rw [hstatus] at hno
    rw [ht.computed, h.waiting hno, if_neg (by omega)]

/-- The last token of a step is among those that `should_advance` reads, and behind the reasoning
there is no marker among them that the step did not add. -/
theorem Inv.delta (h : s.Inv cfg p) (hlive : s.request.isFinished = false)
    (hflights : s.flights = f :: fs) (hchunk : f.chunk = false)
    (ht : Taken cfg s.request r' f.drafts generated appended) (hlive' : r'.isFinished = false) :
    r'.deltaStart < r'.numTokens ∧
    (s.request.status = .running → r'.deltaStart = r'.numTokens - 1) := by
  have hl := h.live hlive
  have hc : Counters cfg { s with request := r', flights := fs } :=
    hl.counters.take hflights hchunk ht hlive'
  have htokens : 0 < r'.numTokens := hc.tokens
  have hstatus := ht.status hlive'
  obtain ⟨hashes, reason, hfields⟩ := ht.fields
  have hpart : r'.isPrefillChunk = s.request.isPrefillChunk := by rw [hfields]
  by_cases hrun : s.request.status = .running
  · have hdecode : s.request.isPrefillChunk = false := by
      cases hno : s.request.isPrefillChunk with
      | false => rfl
      | true =>
        have hzero := (hl.counters.chunk hrun hno).2
        have hmem : f ∈ s.flights := hflights ▸ mem_cons_self
        have := expected_pos hmem hchunk
        omega
    have heq : r'.deltaStart = r'.numTokens - 1 := by
      refine hc.deltaStart_eq (hstatus.trans hrun) (hpart.trans hdecode) fun hsync => ?_
      have hsingle := hl.inFlight.single hsync
      rw [hflights, length_cons] at hsingle
      show fs = []
      exact length_eq_zero_iff.mp (by omega)
    exact ⟨by omega, fun _ => heq⟩
  · refine ⟨deltaStart_lt htokens (hc.waiting (by rw [hstatus]; exact hrun)) ?_,
      fun hno => absurd hno hrun⟩
    have hplace := hc.placeholders
    rw [hplace]
    split <;> omega

theorem InFlight.tail (h : s.InFlight cfg p) (hflights : s.flights = f :: s'.flights)
    (hstatus : s'.request.status = s.request.status)
    (hpart : s'.request.isPrefillChunk = s.request.isPrefillChunk)
    (hfollow : DraftsFollow (!s'.request.outputTokenIds.isEmpty) s'.flights)
    (hmasked : ∀ g ∈ s'.flights, g ∈ s.flights → g.deferred = false → g.chunk = false →
      s'.structured.reasoningEnded.isSome ∧ g.Masked (s'.fills p) s'.structured.grammar) :
    s'.InFlight cfg p := by
  have hordered := h.ordered
  rw [hflights, pairwise_cons] at hordered
  have hmem : ∀ g ∈ s'.flights, g ∈ s.flights := fun g hg => hflights ▸ mem_cons_of_mem _ hg
  refine ⟨fun hsync => ?_, hordered.2, hfollow, fun g hg => h.chunk g (hmem g hg), fun g hg => ?_,
    fun g hg => hmasked g hg (hmem g hg)⟩
  · have hle := h.single hsync
    rw [hflights, length_cons] at hle
    omega
  · rw [hstatus, hpart]
    exact h.deferred g (hmem g hg)

theorem Live.take (h : s.Live cfg p) (hflights : s.flights = f :: s'.flights)
    (hchunk : f.chunk = false) (hgen : generated ≠ [])
    (ht : Taken cfg s.request s'.request f.drafts generated appended)
    (hlive : s'.request.isFinished = false) (hreasoning : s'.fills p = (s'.part p).isSome)
    (hsome : s'.structured.reasoningEnded.isSome) : s'.Live cfg p := by
  have hstatus := ht.status hlive
  obtain ⟨hashes, reason, hfields⟩ := ht.fields
  have houtput : s'.request.outputTokenIds ≠ [] := by
    rw [hfields]
    show s.request.outputTokenIds ++ appended ≠ []
    rw [ht.all hlive]
    simp [hgen]
  have hspec : s'.request.specTokenIds = s.request.specTokenIds := by rw [hfields]
  have hpart : s'.request.isPrefillChunk = s.request.isPrefillChunk := by rw [hfields]
  have hne : s.flights ≠ [] := hflights ▸ cons_ne_nil _ _
  constructor
  case counters => exact h.counters.take hflights hchunk ht hlive
  case drafts =>
    constructor <;> rw [hspec]
    · rw [hstatus, hpart]
      exact h.drafts.decoding
    · exact h.drafts.unknown
    · exact fun hsync _ => h.drafts.sent hsync hne
    · by_cases hasync : cfg.asyncScheduling = true
      · exact validDrafts_unknown (h.drafts.unknown hasync)
      · rw [h.drafts.sent (Bool.eq_false_iff.mpr hasync) hne]
        exact nil _ _
  case inFlight =>
    apply h.inFlight.tail hflights hstatus hpart
    · have hfollow := h.inFlight.follow
      rw [hflights] at hfollow
      refine hfollow.2.mono fun _ => ?_
      simpa using houtput
    intro g hg _ hdef hgchunk
    have hordered := h.inFlight.ordered
    rw [hflights, pairwise_cons] at hordered
    rcases hordered.1 g hg hchunk with htrue | htrue
    · exact nomatch hdef.symm.trans htrue
    · exact nomatch hgchunk.symm.trans htrue
  case reasoning => exact hreasoning
  case answered => exact fun _ => hsome
  case sampled => exact fun _ _ => Or.inl houtput

theorem Inv.output_sampled (h : s.Inv cfg p) (hlive : s.request.isFinished = false)
    (hflights : s.flights = f :: fs) (hready : f.deferred = false) (hchunk : f.chunk = false)
    (hsamples : f.Samples generated) (htidy : s.TidyOutput p f appended)
    (ht : Taken cfg s.request r' f.drafts generated appended) :
    ({ s with
      request := r'
      flights := fs
      sampledUnder := s.sampledUnder ++ f.rows.take appended.length }.advanceGrammar p appended).Inv
        cfg p := by
  have hl := h.live hlive
  have hgen := (hsamples.drafts hchunk).1
  have happended : appended ≠ [] := by
    rw [ht.emitted]
    exact upToStop_ne_nil hgen
  have hf : f ∈ s.flights := hflights ▸ mem_cons_self
  obtain ⟨hsome, hmasked⟩ := hl.inFlight.masked f hf hready hchunk
  obtain ⟨b, hb⟩ := Option.isSome_iff_exists.mp hsome
  have hfills := fills_of_ended (p := p) hb
  obtain ⟨hashes, reason, hfields⟩ := ht.fields
  have houtput : r'.outputTokenIds = s.request.outputTokenIds ++ appended := by rw [hfields]
  have hall : r'.allTokenIds = s.request.allTokenIds ++ appended := by rw [hfields]
  have hprompt : r'.promptTokenIds = s.request.promptTokenIds := by rw [hfields]
  have huse : r'.useStructuredOutput = true := by
    rw [hfields]
    exact h.structured
  have hsuffix : r'.outputTokenIds <:+ r'.allTokenIds := by
    obtain ⟨base, hbase⟩ := h.output
    rw [houtput, hall, ← hbase, append_assoc]
    exact suffix_append _ _
  have hlen : (s.sampledUnder ++ f.rows.take appended.length).length =
      r'.outputTokenIds.length := by
    have hrows : f.rows.length = f.drafts.length + 1 := by
      rw [hmasked.rows, length_map, length_range]
    have hle := hsamples.length_le hchunk
    have hle' := ht.initial.length_le
    rw [houtput, length_append, length_append, length_take, h.length]
    omega
  set s₁ : ReasoningRun := { s with
    request := r'
    flights := fs
    sampledUnder := s.sampledUnder ++ f.rows.take appended.length } with hs₁
  unfold advanceGrammar
  rw [if_neg happended]
  cases b with
  | true =>
    -- the reasoning has ended before
    obtain ⟨ts, hpart⟩ := Option.isSome_iff_exists.mp (hl.reasoning.symm.trans hfills)
    rw [hfills] at hmasked
    obtain ⟨hrows, hallowed⟩ := hmasked.emitted_allowed hsamples hchunk ht.initial
      (htidy.unterminated hb) (htidy.known hb)
    have hterm : s.structured.grammar.isTerminated = false := by
      have hzero := htidy.unterminated hb 0 (length_pos_iff.mpr happended)
      rwa [take_zero, append_nil] at hzero
    have haccept : s.structured.grammar.acceptTokens appended = (true,
        { s.structured.grammar with tokens := s.structured.grammar.tokens ++ appended }) := by
      unfold Grammar.acceptTokens
      rw [hterm, if_neg Bool.false_ne_true, Grammar.acceptEach_eq hallowed]
    rw [shouldAdvance_ended huse hb]
    dsimp only
    rw [if_pos rfl, haccept]
    have hpart' : part p { s₁ with
        structured := { s.structured with grammar :=
          { s.structured.grammar with tokens := s.structured.grammar.tokens ++ appended } }
        rejected := s.rejected || !true } = some (ts ++ appended) := by
      unfold part endedAtStart
      rw [hprompt, houtput]
      exact structuredPart_append hpart appended
    refine ⟨huse, hsuffix, ?_, hlen, fun hlive' => ?_⟩
    · refine h.enforced.advance h.length hpart hrows hallowed hpart' houtput rfl rfl ?_
      show (s.rejected || false) = false
      rw [Bool.or_false]
      exact h.enforced.accepted
    · refine hl.take hflights hchunk hgen ht hlive' ?_ hsome
      rw [hpart']
      exact fills_of_ended hb
  | false =>
    have hnone := hl.part_eq_none hfills
    have hended : s.structured.reasoningEnded ≠ some true := by rw [hb]; simp
    have hfront := htidy.marker.resolve_left hended
    rw [shouldAdvance_reasoning huse hended]
    dsimp only
    rw [if_neg Bool.false_ne_true]
    set so := if p.endTokenId ∈ r'.allTokenIds.drop r'.deltaStart then
      ({ s.structured with reasoningEnded := some true } : StructuredOutputRequest) else
        s.structured
      with hso
    have hgrammar : so.grammar = s.structured.grammar := by
      rw [hso]
      split <;> rfl
    have hended' : so.reasoningEnded =
        some (decide (p.endTokenId ∈ r'.allTokenIds.drop r'.deltaStart)) := by
      rw [hso]
      split
      · rename_i hmem
        rw [decide_eq_true hmem]
      · rename_i hmem
        rw [decide_eq_false hmem, hb]
    have hsplit : appended.dropLast ++ [appended.getLast happended] = appended :=
      dropLast_append_getLast happended
    have hpart' : part p { s₁ with structured := so } =
        if p.endTokenId ∈ appended then some [] else none := by
      unfold part endedAtStart
      rw [hprompt, houtput]
      split
      · rename_i hmem
        rw [← hsplit, mem_append, mem_singleton] at hmem
        have hlast := hmem.resolve_left hfront
        conv_lhs => rw [← hsplit, ← hlast]
        exact structuredPart_marker hnone hfront
      · rename_i hmem
        obtain ⟨hstart, hold⟩ := structuredPart_eq_none.mp hnone
        rw [structuredPart_eq_none, mem_append, not_or]
        exact ⟨hstart, hold, hmem⟩
    refine ⟨huse, hsuffix, ?_, hlen, fun hlive' => ?_⟩
    · refine h.enforced.reasoning hnone ?_ hlen hgrammar rfl
      rw [hpart']
      split
      · exact Or.inr rfl
      · exact Or.inl rfl
    refine hl.take hflights hchunk hgen ht hlive' ?_ ?_
    · rw [hpart']
      refine (fills_of_ended hended').trans ?_
      obtain ⟨hdelta, hdecode⟩ := h.delta hlive hflights hchunk ht hlive'
      by_cases hmem : p.endTokenId ∈ appended
      · -- the marker is the last token
        rw [if_pos hmem]
        rw [← hsplit, mem_append, mem_singleton] at hmem
        have hlast := hmem.resolve_left hfront
        apply decide_eq_true
        have hnum : r'.numTokens = r'.allTokenIds.length := rfl
        rw [hall, ← hsplit, ← hlast, ← append_assoc, drop_append_of_le_length]
        · exact mem_append_right _ mem_cons_self
        · rw [hnum, hall, ← hsplit, ← append_assoc, length_append,
            length_singleton] at hdelta
          omega
      rw [if_neg hmem]
      apply decide_eq_false
      intro hread
      by_cases hrun : s.request.status = .running
      · rw [hdecode hrun] at hread
        have hout := mem_output_of_mem_last hsuffix (by rw [houtput]; simp [happended]) hread
        rw [houtput, mem_append] at hout
        exact hout.elim (structuredPart_eq_none.mp hnone).2 hmem
      · have hread' := mem_of_mem_drop hread
        rw [hall, mem_append] at hread'
        exact hread'.elim ((htidy.preempted hrun).resolve_left hended) hmem
    · rw [hended']
      rfl

/-- An output that meets the condition keeps the invariant. -/
theorem Inv.updateFromOutput (h : s.Inv cfg p) (hok : s.Allowed cfg (.output generated))
    (htidy : s.Tidy cfg p (.output generated))
    (hexec : s.updateFromOutput cfg p generated = .ok s') : s'.Inv cfg p := by
  obtain ⟨hne, hhead⟩ := hok
  obtain ⟨f, fs, hflights⟩ := exists_cons_of_ne_nil hne
  have hmem : f ∈ s.flights.head? := by
    rw [hflights]
    rfl
  obtain ⟨hready, hsamples⟩ := hhead f hmem
  unfold ReasoningRun.updateFromOutput at hexec
  rw [hflights] at hexec
  dsimp only at hexec
  split at hexec
  · -- the request was finished meanwhile
    rename_i hdone
    cases hexec
    refine ⟨h.structured, h.output, h.enforced.congr rfl rfl rfl rfl rfl, h.length, fun hlive => ?_⟩
    exact nomatch hlive.symm.trans hdone
  rename_i hlive
  rw [Bool.not_eq_true] at hlive
  have hl := h.live hlive
  replace hsamples := hsamples hlive
  obtain ⟨⟨r', appended⟩, htake, hexec⟩ := of_bind hexec
  cases hexec
  cases hchunk : f.chunk with
  | false =>
    have hgen := (hsamples.drafts hchunk).1
    have hdrafts : f.drafts = [] → generated.length = 1 := by
      intro hnil
      have hle := hsamples.length_le hchunk
      have hpos := length_pos_iff.mpr hgen
      rw [hnil, length_nil] at hle
      omega
    have ht := takeTokens_cases hl.counters.kept hgen hdrafts htake
    have htidy' := htidy hlive f hmem
    rw [← ht.emitted] at htidy'
    exact h.output_sampled hlive hflights hready hchunk hsamples htidy' ht
  | true =>
    -- a part of the prompt gives no token
    rw [hsamples.chunk hchunk, takeTokens] at htake
    cases htake
    unfold advanceGrammar
    rw [length_nil, take_zero, append_nil]
    have hexp : expected fs = expected s.flights := by
      rw [hflights, expected, hchunk, if_pos rfl, Nat.zero_add]
    have hfollow := hl.inFlight.follow
    rw [hflights, DraftsFollow, hchunk, Bool.not_true, Bool.or_false] at hfollow
    refine ⟨h.structured, h.output, h.enforced.congr rfl rfl rfl rfl rfl, h.length, fun _ => ?_⟩
    constructor
    case counters => exact hl.counters.reflight hexp
    case drafts =>
      exact { hl.drafts with sent := fun hsync _ => hl.drafts.sent hsync hne }
    case inFlight =>
      exact hl.inFlight.tail hflights rfl rfl hfollow.2 fun g _ hg => hl.inFlight.masked g hg
    case reasoning => exact hl.reasoning
    case answered => exact hl.answered
    case sampled =>
      intro hrun hpart
      refine (hl.sampled hrun hpart).imp id ?_
      rintro ⟨g, hg, hgchunk⟩
      rw [hflights] at hg
      rcases mem_cons.mp hg with rfl | htail
      · exact nomatch hgchunk.symm.trans hchunk
      · exact ⟨g, htail, hgchunk⟩

theorem Inv.step (h : s.Inv cfg p) (htidy : s.Tidy cfg p e) (hstep : s.Step cfg p e s') :
    s'.Inv cfg p := by
  obtain ⟨hok, hexec⟩ := hstep
  cases e with
  | scheduleRunning n held othersPending =>
    cases hexec
    exact h.scheduleRunning hok
  | scheduleWaiting found n othersPending =>
    cases hexec
    exact h.scheduleWaiting hok
  | sampleDeferred reported =>
    cases hexec
    exact h.sampleDeferred hok
  | output generated => exact h.updateFromOutput hok htidy hexec
  | drafts specTokenIds =>
    cases hexec
    exact h.updateDraftTokenIds hok
  | preempt =>
    cases hexec
    exact h.preempt hok

/-- In every run whose outputs meet the condition, structured output is enforced from the first
token behind the reasoning. -/
theorem structuredOutput_enforced (cfg : SchedulerConfig) (p : ReasoningParser) (s : ReasoningRun)
    (h : Reaches Initial (Step cfg p) (fun s e => s.Tidy cfg p e) s) : s.Enforced p := by
  have hinv : s.Inv cfg p := by
    apply h.invariant
    · exact fun s hs => Inv.init hs
    · exact fun s e s' hs htidy hstep => hs.step htidy hstep
  exact hinv.enforced

/-! ## Runs of one request -/

instance (f : Flight) (generated : List TokenId) : Decidable (f.Samples generated) :=
  decidable_of_iff' _ (f.samples_iff generated)

instance (cfg : SchedulerConfig) (s : ReasoningRun) (e : ReasoningEvent) :
    Decidable (s.Allowed cfg e) :=
  match e with
  | .scheduleRunning _ _ _ => inferInstanceAs (Decidable (_ ∧ _ ∧ _ ∧ _ ∧ _ ∧ _))
  | .scheduleWaiting _ _ _ => inferInstanceAs (Decidable (_ ∧ _ ∧ _ ∧ _ ∧ _))
  | .sampleDeferred _ => inferInstanceAs (Decidable (_ ∧ _))
  | .output _ => inferInstanceAs (Decidable (_ ∧ _))
  | .drafts _ => inferInstanceAs (Decidable (_ ∧ _ ∧ _))
  | .preempt => inferInstanceAs (Decidable (_ ∧ _ ∧ _))

instance (p : ReasoningParser) (s : ReasoningRun) (f : Flight) (emitted : List TokenId) :
    Decidable (s.TidyOutput p f emitted) :=
  decidable_of_iff' _ (tidyOutput_iff p s f emitted)

instance (cfg : SchedulerConfig) (p : ReasoningParser) (s : ReasoningRun) (e : ReasoningEvent) :
    Decidable (s.Tidy cfg p e) :=
  match e with
  | .scheduleRunning _ _ _ => .isTrue trivial
  | .scheduleWaiting _ _ _ => .isTrue trivial
  | .sampleDeferred _ => .isTrue trivial
  | .output _ => inferInstanceAs (Decidable (_ → ∀ f ∈ _, TidyOutput p s f _))
  | .drafts _ => .isTrue trivial
  | .preempt => .isTrue trivial

def tryStep (cfg : SchedulerConfig) (p : ReasoningParser) (s : ReasoningRun) (e : ReasoningEvent) :
    Option ReasoningRun :=
  if s.Allowed cfg e then (s.exec cfg p e).toOption else none

theorem tryStep_step (h : s.tryStep cfg p e = some s') : s.Step cfg p e s' := by
  unfold tryStep at h
  split at h
  · rename_i hok
    exact ⟨hok, toOption_eq_some h⟩
  · cases h

def thinking : ReasoningParser := .baseThinking 8 9

def fives : ReasoningRun where
  request := Request.unhashed { smallRequest 0 [1] 20 with
    samplingParams := some { smallParams 20 with structuredOutputs := true } } 20 .waiting 1
  structured := ⟨⟨⟨fun _ t => decide (t = 5), fun _ => false⟩, []⟩, none⟩
  flights := []
  reasoningEndedAtStart := none
  sampledUnder := []
  rejected := false

theorem initial_fives : fives.Initial := by
  constructor <;> decide

def thinkThen (drafts generated : List TokenId) : List ReasoningEvent :=
  [.scheduleWaiting ⟨[], 0, 0, false, 0⟩ 1 false, .output [3], .drafts drafts,
    .scheduleRunning 3 drafts false, .output generated]

/-- The marker is the last token of its step, and the drafts behind it are all accepted. -/
theorem enforced_after_marker :
    ∃ s, Reaches Initial (Step (smallScheduler .fcfs false 100 2) thinking)
        (fun s e => s.Tidy (smallScheduler .fcfs false 100 2) thinking e) s ∧
      s.request.outputTokenIds = [3, 4, 9, 5, 5, 5] ∧ s.structured.grammar.tokens = [5, 5, 5] ∧
      s.Enforced thinking := by
  have hrun : ∃ s ∈ Reaches.replay (tryStep (smallScheduler .fcfs false 100 2) thinking)
      (fun s e => decide (s.Tidy (smallScheduler .fcfs false 100 2) thinking e)) fives
      (thinkThen [4, 7] [4, 9] ++
        [.drafts [5, 5], .scheduleRunning 3 [5, 5] false, .output [5, 5, 5]]),
      s.request.outputTokenIds = [3, 4, 9, 5, 5, 5] ∧ s.structured.grammar.tokens = [5, 5, 5] := by
    decide +kernel
  obtain ⟨s, hs, houtput, hgrammar⟩ := hrun
  have hreach : Reaches Initial (Step (smallScheduler .fcfs false 100 2) thinking)
      (fun s e => s.Tidy (smallScheduler .fcfs false 100 2) thinking e) s :=
    Reaches.replay_reaches (fun _ _ _ h => tryStep_step h) (fun _ _ h => of_decide_eq_true h) _
      (.start initial_fives) hs
  exact ⟨s, hreach, houtput, hgrammar, structuredOutput_enforced _ _ s hreach⟩

/-- The marker is an accepted draft: the tokens behind it in the step were free and the grammar
never sees them. -/
theorem marker_inside_step :
    ∃ s, Reaches Initial (Step (smallScheduler .fcfs false 100 2) thinking) (fun _ _ => True) s ∧
      ¬ s.Enforced thinking := by
  have hrun : ∃ s ∈ Reaches.replay (tryStep (smallScheduler .fcfs false 100 2) thinking)
      (fun _ _ => true) fives (thinkThen [9, 7] [9, 7, 6]),
      s.part thinking = some [7, 6] ∧ s.structured.grammar.tokens = [] := by decide +kernel
  obtain ⟨s, hs, hpart, hgrammar⟩ := hrun
  refine ⟨s, Reaches.replay_reaches (fun _ _ _ h => tryStep_step h) (fun _ _ _ => trivial) _
    (.start initial_fives) hs, fun henforced => ?_⟩
  have hconsumed := henforced.consumed
  rw [hgrammar, hpart] at hconsumed
  cases hconsumed

end ReasoningRun

end VllmEcho
