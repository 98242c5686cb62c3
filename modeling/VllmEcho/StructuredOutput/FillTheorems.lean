import VllmEcho.Lib.FlatArrays
import VllmEcho.StructuredOutput.Bitmask

/-!
# What the packed bitmask holds

`grammar_bitmask` packs, for each request, the rows that its grammar gives after 0, 1, … of its
drafts, and leaves the grammars as they were.
-/

namespace VllmEcho

open Lib List StructuredOutputManager Grammar

/-- The row after `k` drafts: what the grammar allows there, and no mask once it has terminated,
after a `-1`, or while the request is not to be masked. -/
def expectedMask (fill : Bool) (g : Grammar) (drafts : List TokenId) (k : Nat) : MaskRow :=
  if fill = true ∧ (-1 : TokenId) ∉ drafts.take k ∧
      ∀ j ≤ k, g.rules.terminates (g.tokens ++ drafts.take j) = false then
    g.rules.allows (g.tokens ++ drafts.take k)
  else fullMask

/-- The drafts were validated: the grammar accepts them one after the other, up to a `-1` or its
end. -/
def ValidDrafts (fill : Bool) (g : Grammar) (drafts : List TokenId) : Prop :=
  ∀ k t, drafts[k]? = some t → fill = true → (-1 : TokenId) ∉ drafts.take (k + 1) →
    (∀ j ≤ k, g.rules.terminates (g.tokens ++ drafts.take j) = false) →
      g.rules.allows (g.tokens ++ drafts.take k) t = true

theorem take_set_succ {buffer : List MaskRow} {idx : Nat} (hidx : idx < buffer.length)
    (row : MaskRow) : (buffer.set idx row).take (idx + 1) = buffer.take idx ++ [row] := by
  rw [take_add_one, take_set_of_le (Nat.le_refl idx), getElem?_set_self hidx]
  rfl

section Drafts

variable {g : Grammar} {fill : Bool} {t : TokenId} {drafts : List TokenId}

def Grammar.push (g : Grammar) (t : TokenId) : Grammar := { g with tokens := g.tokens ++ [t] }

theorem expectedMask_zero : expectedMask fill g drafts 0 =
      if fill && !g.isTerminated then g.fillBitmask else fullMask := by
  unfold expectedMask isTerminated fillBitmask
  cases fill <;> cases hterm : g.rules.terminates g.tokens <;> simp [hterm]

variable {k : Nat}

theorem forall_le_succ_terminates :
    (∀ j ≤ k + 1, g.rules.terminates (g.tokens ++ (t :: drafts).take j) = false) ↔
      g.isTerminated = false ∧
        ∀ j ≤ k, (g.push t).rules.terminates ((g.push t).tokens ++ drafts.take j) = false := by
  unfold isTerminated push
  constructor
  · intro h
    refine ⟨by simpa using h 0 (Nat.zero_le _), fun j hj => ?_⟩
    simpa using h (j + 1) (by omega)
  · rintro ⟨h0, hs⟩ j hj
    cases j with
    | zero => simpa using h0
    | succ j => simpa using hs j (by omega)

theorem expectedMask_live (hlive : (fill && decide (t ≠ -1)) = true)
    (hterm : g.isTerminated = false) : expectedMask fill g (t :: drafts) (k + 1) =
      expectedMask (fill && decide (t ≠ -1)) (g.push t) drafts k := by
  have htokens : g.tokens ++ (t :: drafts).take (k + 1) = (g.push t).tokens ++ drafts.take k := by
    simp [push]
  have hfill : fill = true := (Bool.and_eq_true_iff.mp hlive).1
  have hne : ¬ (-1 : TokenId) = t := by
    intro heq
    rw [← heq] at hlive
    simp at hlive
  apply if_congr _ (by rw [htokens]; rfl) rfl
  rw [forall_le_succ_terminates, hlive, hfill, hterm, take_succ_cons, mem_cons, not_or]
  exact ⟨fun h => ⟨rfl, h.2.1.2, h.2.2.2⟩, fun h => ⟨rfl, ⟨hne, h.2.1⟩, rfl, h.2.2⟩⟩

theorem expectedMask_stop (hstop : (fill && decide (t ≠ -1)) = false ∨ g.isTerminated = true) :
    expectedMask fill g (t :: drafts) (k + 1) = fullMask := by
  unfold expectedMask
  rw [if_neg]
  rintro ⟨hfill, hnot, hterm⟩
  cases hstop with
  | inl hfalse =>
    rw [hfill, Bool.true_and, decide_eq_false_iff_not, not_not] at hfalse
    exact hnot (by rw [hfalse]; exact mem_cons_self)
  | inr htrue =>
    rw [forall_le_succ_terminates, htrue] at hterm
    cases hterm.1

theorem ValidDrafts.tail (h : ValidDrafts fill g (t :: drafts))
    (hlive : (fill && decide (t ≠ -1)) = true) (hterm : g.isTerminated = false) :
    ValidDrafts (fill && decide (t ≠ -1)) (g.push t) drafts := by
  intro k t' ht' _ hnot hterms
  simp only [Bool.and_eq_true, decide_eq_true_eq] at hlive
  have hnext := h (k + 1) t' ht' hlive.1
    (by
      rw [take_succ_cons, mem_cons, not_or]
      exact ⟨fun heq => hlive.2 heq.symm, hnot⟩)
    ((forall_le_succ_terminates).mpr ⟨hterm, hterms⟩)
  have htokens : g.tokens ++ (t :: drafts).take (k + 1) = (g.push t).tokens ++ drafts.take k := by
    simp [push]
  rw [htokens] at hnext
  exact hnext

theorem acceptTokens_eq (h : ValidDrafts fill g (t :: drafts))
    (hlive : (fill && decide (t ≠ -1)) = true) (hterm : g.isTerminated = false) :
    g.acceptTokens [t] = (true, g.push t) := by
  simp only [Bool.and_eq_true, decide_eq_true_eq] at hlive
  have hallow : g.rules.allows g.tokens t = true := by
    have hzero := h 0 t rfl hlive.1 (by simpa using Ne.symm hlive.2)
      (by
        intro j hj
        obtain rfl : j = 0 := by omega
        simpa [isTerminated] using hterm)
    simpa using hzero
  unfold acceptTokens
  rw [hterm, acceptEach, if_pos hallow]
  rfl

theorem not_live (hdead : (fill && !g.isTerminated) = false) (hfill : fill = true)
    (hterms : ∀ j ≤ k, g.rules.terminates (g.tokens ++ drafts.take j) = false) : False := by
  have hhere := hterms 0 (Nat.zero_le k)
  rw [take_zero, append_nil] at hhere
  rw [hfill, isTerminated, hhere] at hdead
  cases hdead

/-- One row for each draft and one for the bonus token. -/
theorem fillDrafts_spec (hvalid : ValidDrafts fill g drafts) (adv : Nat) (buffer : List MaskRow)
    (idx : Nat) (hcap : idx + (drafts.length + 1) ≤ buffer.length) :
    ∃ n buffer', fillDrafts (drafts ++ [-1]) g fill adv buffer idx =
        .ok ({ g with tokens := g.tokens ++ drafts.take n }, adv + n, buffer',
          idx + (drafts.length + 1)) ∧ n ≤ drafts.length ∧
      ((fill && !g.isTerminated) = false → n = 0) ∧ buffer'.length = buffer.length ∧
      buffer'.take (idx + (drafts.length + 1)) =
        buffer.take idx ++ (range (drafts.length + 1)).map (expectedMask fill g drafts) := by
  induction drafts generalizing fill g adv buffer idx with
  | nil =>
    have hlt : idx < buffer.length := hcap
    refine ⟨0, buffer.set idx (expectedMask fill g [] 0), ?_, Nat.le_refl 0, fun _ => rfl,
      length_set, ?_⟩
    · rw [nil_append, fillDrafts, fillBitmasks,
        if_pos hlt, expectedMask_zero]
      simp [fillDrafts]
    · exact take_set_succ hlt _
  | cons t drafts ih =>
    rw [length_cons] at hcap
    have hlt : idx < buffer.length := by omega
    have hrange : (range (drafts.length + 1 + 1)).map (expectedMask fill g (t :: drafts)) =
        expectedMask fill g (t :: drafts) 0 ::
          (range (drafts.length + 1)).map fun k => expectedMask fill g (t :: drafts) (k + 1) := by
      rw [range_succ_eq_map, map_cons, map_map]
      rfl
    have hidx : idx + (drafts.length + 1 + 1) = idx + 1 + (drafts.length + 1) := by omega
    rw [cons_append, fillDrafts, fillBitmasks,
      if_pos hlt, ok_bind, ← expectedMask_zero, length_cons, hrange, hidx]
    dsimp only
    have hlen : (buffer.set idx (expectedMask fill g (t :: drafts) 0)).length = buffer.length :=
      length_set
    by_cases hlive : (fill && decide (t ≠ -1)) = true ∧ g.isTerminated = false
    · -- the grammar takes the draft
      obtain ⟨n, buffer', hfill, hn, -, hlen', htake⟩ := ih (hvalid.tail hlive.1 hlive.2) (adv + 1)
        (buffer.set idx (expectedMask fill g (t :: drafts) 0)) (idx + 1)
        (by omega)
      refine ⟨n + 1, buffer', ?_, Nat.succ_le_succ hn, fun hdead => ?_, hlen'.trans hlen, ?_⟩
      · rw [acceptTokens_eq hvalid hlive.1 hlive.2, if_pos (by rw [hlive.1, hlive.2]; rfl)]
        show (assertThat true "" >>= fun _ => _) = _
        rw [show assertThat true "" = .ok () from rfl, ok_bind, hfill]
        simp only [push, append_assoc, singleton_append, take_succ_cons]
        congr 3
        omega
      · rw [(Bool.and_eq_true_iff.mp hlive.1).1, hlive.2] at hdead
        cases hdead
      · rw [htake, take_set_succ hlt, append_assoc]
        simp only [expectedMask_live hlive.1 hlive.2]
        rfl
    · -- it stays where it is for the remaining drafts
      have hstop : (fill && decide (t ≠ -1)) = false ∨ g.isTerminated = true := by
        by_cases hfill : (fill && decide (t ≠ -1)) = true
        · exact Or.inr (by simpa using fun hterm => hlive ⟨hfill, hterm⟩)
        · exact Or.inl (by simpa using hfill)
      have hoff : ((fill && decide (t ≠ -1)) && !g.isTerminated) = false := by
        cases hstop with
        | inl hfalse => rw [hfalse, Bool.false_and]
        | inr htrue => rw [htrue, Bool.not_true, Bool.and_false]
      obtain ⟨n, buffer', hfill, -, hzero, hlen', htake⟩ := ih
        (fun k t' _ hfill _ hterms => (not_live hoff hfill hterms).elim) adv
        (buffer.set idx (expectedMask fill g (t :: drafts) 0)) (idx + 1) (by omega)
      obtain rfl := hzero hoff
      refine ⟨0, buffer', ?_, Nat.zero_le _, fun _ => rfl, hlen'.trans hlen, ?_⟩
      · rw [hoff, hfill]
        rfl
      · have hdead : expectedMask (fill && decide (t ≠ -1)) g drafts = fun _ => fullMask :=
          funext fun k => if_neg fun hmask => not_live hoff hmask.1 hmask.2.2
        rw [htake, take_set_succ hlt, append_assoc, hdead]
        simp only [expectedMask_stop hstop]
        rfl

end Drafts

/-! ## All requests -/

def maskOf (m : StructuredOutputManager) (requests : ReqId → Option MaskedRequest)
    (drafts : List TokenId) (r : ReqId) (k : Nat) : MaskRow :=
  match requests r with
  | none => fullMask
  | some q =>
    match q.structuredOutputRequest with
    | none => fullMask
    | some so => expectedMask (m.shouldFillBitmask q.promptTokenIds so).1 so.grammar drafts k

def grammarOf (requests : ReqId → Option MaskedRequest) (r : ReqId) : Option Grammar :=
  ((requests r).bind MaskedRequest.structuredOutputRequest).map StructuredOutputRequest.grammar

def Ready (m : StructuredOutputManager) (requests : ReqId → Option MaskedRequest)
    (drafts : List TokenId) (r : ReqId) : Prop :=
  ∃ q so, requests r = some q ∧ q.structuredOutputRequest = some so ∧
    ValidDrafts (m.shouldFillBitmask q.promptTokenIds so).1 so.grammar drafts

namespace StructuredOutputManager

variable {m : StructuredOutputManager} {drafts : ReqId → List TokenId} {s : FillState} {r : ReqId}

theorem shouldFillBitmask_grammar (prompt : Option (List TokenId)) (so : StructuredOutputRequest) :
    (m.shouldFillBitmask prompt so).2.grammar = so.grammar := by
  unfold shouldFillBitmask
  split
  · rfl
  · split <;> rfl

def rowsFor (m : StructuredOutputManager) (requests : ReqId → Option MaskedRequest)
    (drafts : ReqId → List TokenId) (r : ReqId) : List MaskRow :=
  (range ((drafts r).length + 1)).map (maskOf m requests (drafts r) r)

theorem length_rowsFor (requests : ReqId → Option MaskedRequest) :
    (m.rowsFor requests drafts r).length = (drafts r).length + 1 := by
  unfold rowsFor
  rw [length_map, length_range]

theorem fillRequest_eq (drafts : ReqId → List TokenId) {q : MaskedRequest}
    {so : StructuredOutputRequest} (hq : s.requests r = some q)
    (hso : q.structuredOutputRequest = some so)
    (hvalid : ValidDrafts (m.shouldFillBitmask q.promptTokenIds so).1 so.grammar (drafts r))
    (hcap : s.cumulativeIndex + ((drafts r).length + 1) ≤ s.buffer.length) :
    ∃ buffer, m.fillRequest drafts s r = .ok ⟨Function.update s.requests r (some { q with
          structuredOutputRequest := some (m.shouldFillBitmask q.promptTokenIds so).2 }),
          buffer, s.cumulativeIndex + ((drafts r).length + 1)⟩ ∧
      buffer.length = s.buffer.length ∧
      buffer.take (s.cumulativeIndex + ((drafts r).length + 1)) =
        s.buffer.take s.cumulativeIndex ++ (range ((drafts r).length + 1)).map
          (expectedMask (m.shouldFillBitmask q.promptTokenIds so).1 so.grammar (drafts r)) := by
  obtain ⟨n, buffer, hfill, hn, -, hlen, htake⟩ := fillDrafts_spec hvalid 0 _ _ hcap
  have hlookup : lookup s.requests r = .ok (q, so) := by
    unfold lookup
    rw [hq]
    dsimp only
    rw [hso]
  -- the drafts that were taken are rolled back
  have hback : (if 0 < 0 + n then
      ({ so.grammar with tokens := so.grammar.tokens ++ (drafts r).take n } : Grammar).rollback
        (0 + n)
      else { so.grammar with tokens := so.grammar.tokens ++ (drafts r).take n }) = so.grammar := by
    have hlength : ((drafts r).take n).length = n := by rw [length_take]; omega
    have hroll := so.grammar.rollback_append ((drafts r).take n)
    rw [hlength] at hroll
    by_cases hpos : 0 < n
    · rw [Nat.zero_add, if_pos hpos, hroll]
    · obtain rfl : n = 0 := by omega
      simp
  have hkeep : ({ (m.shouldFillBitmask q.promptTokenIds so).2 with grammar := so.grammar } :
      StructuredOutputRequest) = (m.shouldFillBitmask q.promptTokenIds so).2 := by
    rw [← shouldFillBitmask_grammar q.promptTokenIds so]
  refine ⟨buffer, ?_, hlen, htake⟩
  unfold fillRequest
  rw [hlookup, ok_bind]
  dsimp only
  rw [shouldFillBitmask_grammar, hfill, ok_bind]
  rw [hback, hkeep]
  rfl

theorem fillRequest_spec (hready : Ready m s.requests (drafts r) r)
    (hcap : s.cumulativeIndex + ((drafts r).length + 1) ≤ s.buffer.length) :
    ∃ s', m.fillRequest drafts s r = .ok s' ∧ s'.buffer.length = s.buffer.length ∧
      s'.cumulativeIndex = s.cumulativeIndex + ((drafts r).length + 1) ∧
      s'.buffer.take s'.cumulativeIndex =
        s.buffer.take s.cumulativeIndex ++ m.rowsFor s.requests drafts r ∧
      (∀ r', grammarOf s'.requests r' = grammarOf s.requests r') ∧
      ∀ r' ≠ r, s'.requests r' = s.requests r' := by
  obtain ⟨q, so, hq, hso, hvalid⟩ := hready
  obtain ⟨buffer, hfill, hlen, htake⟩ := fillRequest_eq drafts hq hso hvalid hcap
  refine ⟨_, hfill, hlen, rfl, ?_, ?_, ?_⟩
  · rw [htake]
    congr 1
    apply map_congr_left
    intro k _
    unfold maskOf
    rw [hq]
    dsimp only
    rw [hso]
  · intro r'
    unfold grammarOf
    dsimp only
    rw [Function.update_apply]
    split
    · rename_i heq
      rw [heq, hq, Option.bind_some, Option.bind_some, hso, Option.map_some, Option.map_some,
        shouldFillBitmask_grammar]
    · rfl
  · intro r' hne
    dsimp only
    rw [Function.update_of_ne hne]

variable {ids : List ReqId}

theorem fillRequests_spec (hnodup : ids.Nodup) (hready : ∀ r ∈ ids, Ready m s.requests (drafts r) r)
    (hcap : s.cumulativeIndex + (ids.map fun r => (drafts r).length + 1).sum ≤ s.buffer.length) :
    ∃ s', ids.foldlM (m.fillRequest drafts) s = .ok s' ∧ s'.buffer.length = s.buffer.length ∧
      s'.buffer.take s'.cumulativeIndex =
        s.buffer.take s.cumulativeIndex ++ ids.flatMap (m.rowsFor s.requests drafts) ∧
      ∀ r', grammarOf s'.requests r' = grammarOf s.requests r' := by
  induction ids generalizing s with
  | nil => exact ⟨s, rfl, rfl, by simp, fun r' => rfl⟩
  | cons r ids ih =>
    rw [nodup_cons] at hnodup
    rw [map_cons, sum_cons] at hcap
    obtain ⟨s₁, hs₁, hlen₁, hidx₁, htake₁, hgram₁, hother₁⟩ :=
      fillRequest_spec (hready r mem_cons_self) (by omega)
    have hsame : ∀ r' ∈ ids, s₁.requests r' = s.requests r' := by
      intro r' hr'
      exact hother₁ r' fun heq => hnodup.1 (heq ▸ hr')
    have hready₁ : ∀ r' ∈ ids, Ready m s₁.requests (drafts r') r' := by
      intro r' hr'
      unfold Ready
      rw [hsame r' hr']
      exact hready r' (mem_cons_of_mem _ hr')
    obtain ⟨s', hs', hlen, htake, hgram⟩ := ih hnodup.2 hready₁ (by omega)
    refine ⟨s', ?_, hlen.trans hlen₁, ?_, fun r' => (hgram r').trans (hgram₁ r')⟩
    · exact bind_eq_ok.mpr ⟨s₁, hs₁, hs'⟩
    rw [htake, htake₁, append_assoc]
    congr 2
    apply flatMap_congr
    intro r' hr'
    unfold rowsFor maskOf
    rw [hsame r' hr']

theorem fillParallel_eq : m.fillParallel s r = m.fillRequest (fun _ => []) s r := by
  unfold fillParallel fillRequest
  cases hlookup : lookup s.requests r with
  | error e => rfl
  | ok x =>
    rw [ok_bind, ok_bind]
    dsimp only
    rw [nil_append, fillDrafts]
    cases fillBitmasks s.buffer (m.shouldFillBitmask x.1.promptTokenIds x.2).2.grammar
      s.cumulativeIndex
      (m.shouldFillBitmask x.1.promptTokenIds x.2).1 with
    | error e => rfl
    | ok buffer =>
      simp [fillDrafts]

theorem fillRows_eq (hdrafts : ∀ r ∈ ids, (drafts r).length ≤ m.numSpeculativeTokens.getD 0) :
    m.fillRows ids drafts s = ids.foldlM (m.fillRequest drafts) s := by
  unfold fillRows
  split
  · -- without speculative tokens there are no drafts
    rename_i hpar
    have hstep : ∀ r ∈ ids, ∀ s, m.fillParallel s r = m.fillRequest drafts s r := by
      intro r hr s
      have hnil : drafts r = [] := by
        have hle := hdrafts r hr
        rw [hpar.2] at hle
        exact length_eq_zero_iff.mp (Nat.le_zero.mp hle)
      rw [fillParallel_eq]
      unfold fillRequest
      rw [hnil]
    clear hdrafts hpar
    induction ids generalizing s with
    | nil => rfl
    | cons r ids ih =>
      rw [foldlM_cons, hstep r mem_cons_self]
      congr 1
      funext s₁
      exact ih fun r' hr' => hstep r' (mem_cons_of_mem _ hr')
  · rfl

end StructuredOutputManager

/-- The rows of all requests, one request after the other. -/
theorem getGrammarBitmask_spec (m : StructuredOutputManager)
    (requests : ReqId → Option MaskedRequest) (out : SchedulerOutput)
    (hready : ∀ r ∈ structuredOutputRequestIds requests out, Ready m requests (out.drafts r) r)
    (hdrafts : ∀ r ∈ structuredOutputRequestIds requests out,
      (out.drafts r).length ≤ m.numSpeculativeTokens.getD 0)
    (hseqs : (structuredOutputRequestIds requests out).length ≤ m.maxNumSeqs)
    (hbuffer : ∀ b, m.grammarBitmask = some b → b.length = m.numRows) :
    ∃ m' requests', getGrammarBitmask m requests out =
        .ok (if structuredOutputRequestIds requests out = [] then none else
          some ⟨structuredOutputRequestIds requests out,
            (structuredOutputRequestIds requests out).flatMap (m.rowsFor requests out.drafts)⟩,
          m', requests') ∧ ∀ r, grammarOf requests' r = grammarOf requests r := by
  have hnodup : (structuredOutputRequestIds requests out).Nodup :=
    out.numScheduledTokens.nodup.filter _
  unfold getGrammarBitmask
  generalize structuredOutputRequestIds requests out = ids at *
  cases ids with
  | nil => exact ⟨m, requests, rfl, fun r => rfl⟩
  | cons r rs =>
    have hsize : ((m.grammarBitmask.getD (replicate m.numRows fullMask))).length = m.numRows := by
      cases hb : m.grammarBitmask with
      | none => rw [Option.getD_none, length_replicate]
      | some b => rw [Option.getD_some, hbuffer b hb]
    have hsum : ((r :: rs).map fun r => (out.drafts r).length + 1).sum ≤ m.numRows := by
      have hle : ∀ x ∈ (r :: rs).map fun r => (out.drafts r).length + 1,
          x ≤ 1 + m.numSpeculativeTokens.getD 0 := by
        intro x hx
        obtain ⟨r', hr', rfl⟩ := mem_map.mp hx
        have := hdrafts r' hr'
        omega
      have hbound := sum_le_card_nsmul _ _ hle
      rw [length_map, nsmul_eq_mul] at hbound
      exact hbound.trans (Nat.mul_le_mul_right _ hseqs)
    obtain ⟨s', hs', _, htake, hgram⟩ := fillRequests_spec
      (s := ⟨requests, m.grammarBitmask.getD (replicate m.numRows fullMask), 0⟩) hnodup hready
      (by rw [hsize, Nat.zero_add]; exact hsum)
    refine ⟨{ m with grammarBitmask := some s'.buffer }, s'.requests, ?_, hgram⟩
    unfold grammarBitmaskOf
    rw [if_neg (by simp), fillRows_eq hdrafts, hs', ok_bind, htake, take_zero]
    rfl

end VllmEcho
