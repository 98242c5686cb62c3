import VllmEcho.Sampling.RandomSample

/-!
# The samplers without Triton

Without Triton the two rejection samplers run on padded matrices: masks stand for the loops over
the drafts of a request, and flat indices are clamped or scattered.
-/

namespace VllmEcho

open Lib List

variable {𝕜 : Type} (b : SampleBatch 𝕜) {β : Type}

namespace SampleBatch

/-! ## Random requests -/

section Random

variable [Field 𝕜] [LinearOrder 𝕜] (i : Nat) (k : Nat)

def acceptanceCondition : Bool :=
  b.acceptsDraft (b.globalTokenIndex i k)

def firstRejection : Bool :=
  !b.acceptanceCondition i k && decide (k < b.numDrafts i)

def firstRejectPos : Nat :=
  (range b.maxSpecLen).findIdx (b.firstRejection i)

def maskedRow (row : Nat → Int) (c : Nat) : Int :=
  let validMask := decide (c < b.numDrafts i)
  let shouldSkip := decide (b.firstRejectPos i ≤ c) && validMask
  let finalAcceptance := b.acceptanceCondition i c && !shouldSkip
  let updateMask := !b.isGreedy i && validMask && !shouldSkip
  let firstRejectMask := decide (c = b.firstRejectPos i) && validMask && !b.isGreedy i
  let finalTokens : Int :=
    if firstRejectMask then b.recoveredTokenIds (b.globalTokenIndex i c)
    else if finalAcceptance then b.draftTokenIds (b.globalTokenIndex i c)
    else row c
  let written := if c < b.maxSpecLen ∧ (updateMask || firstRejectMask) then finalTokens else row c
  let shouldAddBonus := !b.isGreedy i && decide (b.numDrafts i ≤ b.firstRejectPos i)
  let finalBonusMask := shouldAddBonus && decide (b.numDrafts i < b.maxSpecLen + 1)
  if c < b.maxSpecLen + 1 ∧ c = b.numDrafts i ∧ finalBonusMask then b.bonusTokenIds i else written

/-- Without a draft token there is nothing to gather, or no column to take `argmax` over. -/
def rejectionRandomSamplePytorch (out : OutputRows) : Except PyError OutputRows :=
  if b.maxSpecLen = 0 ∨ b.numTokens = 0 then .error .indexError
  else .ok fun i => if i < b.batchSize then b.maskedRow i (out i) else out i

variable {b : SampleBatch 𝕜} {i : Nat}

theorem firstRejectPos_cases (hi : i < b.batchSize) (hmax : b.numDrafts i ≤ b.maxSpecLen) :
    (b.acceptedPrefix i = b.numDrafts i ∧ b.firstRejectPos i = b.maxSpecLen) ∨
      (b.acceptedPrefix i < b.numDrafts i ∧ b.firstRejectPos i = b.acceptedPrefix i) := by
  have hle : b.acceptedPrefix i ≤ b.numDrafts i := leadingAccepted_le _ _
  have hown : ∀ k < b.numDrafts i,
      b.firstRejection i k = !b.acceptsDraft (b.startIdx i + k) := fun k hk => by
    rw [firstRejection, acceptanceCondition, globalTokenIndex_eq hi hk, decide_eq_true hk,
      Bool.and_true]
  have hbefore : ∀ k < b.acceptedPrefix i, b.firstRejection i k = false := fun k hk => by
    rw [hown k (by omega), (le_leadingAccepted_iff _ hle).mp (Nat.le_refl _) k hk]
    rfl
  rw [firstRejectPos]
  rcases Nat.eq_or_lt_of_le hle with hall | hlt
  · refine Or.inl ⟨hall, ?_⟩
    rw [findIdx_eq_length.mpr, length_range]
    intro k _
    by_cases hk : k < b.numDrafts i
    · exact hbefore k (by omega)
    · rw [firstRejection, decide_eq_false hk, Bool.and_false]
  refine Or.inr ⟨hlt, ?_⟩
  have hrej := ((leadingAccepted_eq_iff hlt).mp rfl).2
  rw [findIdx_eq (by rw [length_range]; omega)]
  refine ⟨?_, fun k hk => ?_⟩
  · rw [getElem_range, hown _ hlt, hrej]
    rfl
  · rw [getElem_range, hbefore k hk]

/-- The masks write the row that the loop writes. -/
theorem maskedRow_eq (hi : i < b.batchSize) (hmax : b.numDrafts i ≤ b.maxSpecLen)
    (hgreedy : b.isGreedy i = false) (row : Nat → Int) : b.maskedRow i row = b.randomRow i row := by
  funext c
  have hfirst := firstRejectPos_cases hi hmax
  have hacc : ∀ k < b.acceptedPrefix i, b.acceptanceCondition i k = true := fun k hk => by
    rw [acceptanceCondition, globalTokenIndex_eq hi (by omega)]
    exact (le_leadingAccepted_iff _ (leadingAccepted_le _ _)).mp (Nat.le_refl _) k hk
  rw [randomRow_eq, verdictRow, maskedRow]
  simp only [hgreedy, Bool.not_false, Bool.true_and, Bool.and_true, Bool.and_eq_true,
    Bool.or_eq_true, Bool.not_eq_true', Bool.and_eq_false_iff, decide_eq_true_eq,
    decide_eq_false_iff_not]
  by_cases hlt : c < b.acceptedPrefix i
  · rw [if_neg (by omega), if_pos (by omega), if_neg (by omega), if_pos ⟨hacc c hlt, by omega⟩,
      if_pos hlt, globalTokenIndex_eq hi (by omega)]
  by_cases hc : c = b.acceptedPrefix i
  · by_cases hall : b.acceptedPrefix i = b.numDrafts i
    · rw [if_pos (by omega), if_neg hlt, if_pos hc, if_pos hall]
    · rw [if_neg (by omega), if_pos (by omega), if_pos (by omega), if_neg hlt, if_pos hc,
        if_neg hall, globalTokenIndex_eq hi (by omega), hc]
  · rw [if_neg (by omega), if_neg (by omega), if_neg hlt, if_neg hc]

theorem maskedRow_greedy (hgreedy : b.isGreedy i = true) (row : Nat → Int) :
    b.maskedRow i row = row := by
  funext c
  simp [maskedRow, hgreedy]

/-- The masks do what the loop does exactly when there is a draft token. -/
theorem rejectionRandomSamplePytorch_eq_iff (b : SampleBatch 𝕜)
    (hmax : ∀ n ∈ b.numDraftTokens, n ≤ b.maxSpecLen) (out : OutputRows) :
    (b.rejectionRandomSamplePytorch out = .ok (fun i =>
        if i < b.batchSize ∧ b.isGreedy i = false then b.randomRow i (out i) else out i) ∧
      ∀ i < b.batchSize, ∀ k < b.numDrafts i, b.globalTokenIndex i k = b.startIdx i + k) ↔
      ∃ n ∈ b.numDraftTokens, 0 < n := by
  have hpos : (∃ n ∈ b.numDraftTokens, 0 < n) ↔ ¬ (b.maxSpecLen = 0 ∨ b.numTokens = 0) := by
    rw [numTokens, sum_eq_zero_iff]
    constructor
    · rintro ⟨n, hn, h0⟩ (hzero | hzero)
      · have := hmax n hn
        omega
      · exact absurd (hzero n hn) (by omega)
    · intro h
      by_contra hnone
      exact h (Or.inr fun n hn => by_contra fun h0 => hnone ⟨n, hn, Nat.pos_of_ne_zero h0⟩)
  rw [hpos, rejectionRandomSamplePytorch]
  split
  · rename_i hzero
    exact ⟨fun h => (by cases h.1), fun h => absurd hzero h⟩
  rename_i hsome
  refine ⟨fun _ => hsome, fun _ => ⟨?_, fun i hi k hk => globalTokenIndex_eq hi hk⟩⟩
  congr 1
  funext i
  by_cases hi : i < b.batchSize
  · cases hgreedy : b.isGreedy i
    · rw [if_pos hi, if_pos ⟨hi, rfl⟩, maskedRow_eq hi (numDrafts_le_maxSpecLen hmax hi) hgreedy]
    · rw [if_pos hi, if_neg (by simp), maskedRow_greedy hgreedy]
  · rw [if_neg hi, if_neg fun h => hi h.1]

end Random

def rejectedDrafts (counts : List Nat) : SampleBatch ℚ where
  numDraftTokens := counts
  draftTokenIds _ := 5
  draftProbs := none
  targetProbs _ _ := 1 / 2
  bonusTokenIds _ := 9
  recoveredTokenIds _ := 7
  uniformProbs _ := 3 / 4
  isGreedy _ := false
  maxSpecLen := 1
  vocabSize := 10

/-- The request without drafts gets its bonus token if another request has one. -/
theorem rejectionRandomSamplePytorch_one_draft : ∃ out,
    (rejectedDrafts [0, 1]).rejectionRandomSamplePytorch (fun _ _ => placeholderTokenId) = .ok out ∧
      out 0 0 = 9 :=
  ⟨_, ((rejectionRandomSamplePytorch_eq_iff (rejectedDrafts [0, 1]) (by decide)
    fun _ _ => placeholderTokenId).mpr ⟨1, by decide, by decide⟩).1, by decide⟩

/-- A request without drafts next to none with drafts: no bonus token, the call raises. -/
theorem rejectionRandomSamplePytorch_no_draft :
    (rejectedDrafts [0]).rejectionRandomSamplePytorch (fun _ _ => placeholderTokenId) =
      .error .indexError ∧ (rejectedDrafts [0]).randomRow 0 (fun _ => placeholderTokenId) 0 = 9 :=
  ⟨rfl, rfl⟩

/-! ## Greedy requests -/

section Greedy

variable (b : SampleBatch 𝕜) (targetArgmax : Nat → Nat) (i : Nat)

def draftTokensPerReq : Nat := b.numDraftTokens.getD i 0

def startIndices : Nat := b.cuNumDraftTokens i - b.draftTokensPerReq i

def tokenPlace (t : Nat) : Nat × Nat :=
  let req := (repeatEach (range b.batchSize) b.numDraftTokens).getD t 0
  (req, t - b.startIndices req)

variable (values : Nat → β) (matrix : Nat × Nat → β)

def scatterTokens : Nat × Nat → β :=
  scatter ((range b.numTokens).map fun t => (b.tokenPlace t, values t)) matrix

def mismatchGlobal (t : Nat) : Bool := b.draftTokenIds t != targetArgmax t

def firstMismatchPos : Int :=
  if b.maxSpecLen = 0 then 0
  else
    let posMatrix := b.scatterTokens (fun t => ((b.tokenPlace t).2 : Int)) fun _ => -1
    let mismatchMatrix := b.scatterTokens (b.mismatchGlobal targetArgmax) fun _ => false
    let mismatchPositions := (range b.maxSpecLen).map fun k =>
      if mismatchMatrix (i, k) then posMatrix (i, k) else b.maxSpecLen * 2
    let first := mismatchPositions.min?.getD 0
    if first = b.maxSpecLen * 2 then b.draftTokensPerReq i else first

def greedyMaskedRow (row : Nat → Int) (c : Nat) : Int :=
  let copyLen := min (b.firstMismatchPos targetArgmax i + 1) (b.draftTokensPerReq i)
  if c = b.draftTokensPerReq i ∧ b.draftTokensPerReq i ≤ b.firstMismatchPos targetArgmax i then
    b.bonusTokenIds i
  else if c < b.maxSpecLen + 1 ∧ c < copyLen then targetArgmax (b.startIndices i + c)
  else row c

/-- The counts of an empty batch are a float tensor, which `repeat_interleave` refuses. -/
def rejectionGreedySamplePytorch (isGreedy : Option (Nat → Bool)) (out : OutputRows) :
    Except PyError OutputRows :=
  if b.numDraftTokens = [] then .error (.runtimeError "repeats has to be Long or Int tensor")
  else .ok fun i =>
    if i < b.batchSize ∧ isGreedy.getD (fun _ => true) i then
      b.greedyMaskedRow targetArgmax i (out i)
    else out i

def rejectionGreedySampleSpecLen1Pytorch (out : OutputRows) : Except PyError OutputRows := do
  assertThat (b.batchSize = b.numTokens) ""
  pure fun i c =>
    if i < b.batchSize ∧ c = 0 then targetArgmax i
    else if i < b.batchSize ∧ c = 1 ∧ b.draftTokenIds i = targetArgmax i then b.bonusTokenIds i
    else out i c

def greedyRow : (Nat → Int) → Nat → Int :=
  verdictRow (fun k => targetArgmax (b.startIdx i + k)) (fun k => targetArgmax (b.startIdx i + k))
    (b.bonusTokenIds i) (b.numDrafts i) (leadingAccepted
      (fun k => b.draftTokenIds (b.startIdx i + k) == targetArgmax (b.startIdx i + k))
        (b.numDrafts i))

abbrev agrees (k : Nat) : Bool :=
  b.draftTokenIds (b.startIdx i + k) == targetArgmax (b.startIdx i + k)

variable {b targetArgmax} {i k : Nat}

theorem draftTokensPerReq_eq (hi : i < b.batchSize) : b.draftTokensPerReq i = b.numDrafts i := by
  rw [numDrafts_eq b hi, draftTokensPerReq, getD_eq_getElem _ _ hi]

theorem startIndices_eq (hi : i < b.batchSize) : b.startIndices i = b.startIdx i := by
  rw [startIndices, draftTokensPerReq_eq hi, numDrafts, startIdx_eq, cuNumDraftTokens,
    sum_take_succ _ _ hi]
  omega

theorem tokenPlace_eq (hi : i < b.batchSize) (hk : k < b.numDrafts i) :
    b.tokenPlace (b.startIdx i + k) = (i, k) := by
  rw [numDrafts_eq b hi] at hk
  have hreq := getElem?_repeatEach_range b.numDraftTokens (getElem?_eq_getElem hi) hk
  rw [tokenPlace, startIdx_eq, batchSize, getD_eq_getElem?_getD, hreq]
  dsimp only [Option.getD_some]
  rw [startIndices_eq hi, startIdx_eq, Nat.add_sub_cancel_left]

theorem exists_tokenPlace {t : Nat} (ht : t < b.numTokens) :
    ∃ i k, i < b.batchSize ∧ k < b.numDrafts i ∧ t = b.startIdx i + k := by
  obtain ⟨n, s, k, hmem, hk, ht⟩ := exists_block b.numDraftTokens id 0 t (Nat.zero_le t)
    (by rw [map_id, Nat.zero_add]; exact ht)
  obtain ⟨i, hi⟩ := mem_iff_getElem?.mp hmem
  rw [map_id, getElem?_zip_eq_some] at hi
  obtain ⟨hlt, rfl⟩ := List.getElem?_eq_some_iff.mp hi.1
  rw [getElem?_startsFrom 0 hlt, Nat.zero_add, Option.some.injEq, ← startIdx_eq] at hi
  exact ⟨i, k, hlt, by rw [numDrafts_eq b hlt]; exact hk, by rw [hi.2]; exact ht⟩

theorem scatterTokens_apply (hi : i < b.batchSize) : b.scatterTokens values matrix (i, k) =
      if k < b.numDrafts i then values (b.startIdx i + k) else matrix (i, k) := by
  have hplace : ∀ t < b.numTokens, b.tokenPlace t = (i, k) →
      k < b.numDrafts i ∧ t = b.startIdx i + k := by
    intro t ht hplace
    obtain ⟨j, l, hj, hl, rfl⟩ := exists_tokenPlace ht
    rw [tokenPlace_eq hj hl] at hplace
    obtain ⟨rfl, rfl⟩ := hplace
    exact ⟨hl, rfl⟩
  have hmem : (i, k) ∈ ((range b.numTokens).map fun t =>
      (b.tokenPlace t, values t)).map Prod.fst ↔ k < b.numDrafts i := by
    rw [map_map, mem_map]
    constructor
    · rintro ⟨t, ht, heq⟩
      exact (hplace t (mem_range.mp ht) heq).1
    · intro hk
      have := b.startIdx_add_numDrafts_le hi
      exact ⟨b.startIdx i + k, mem_range.mpr (by omega), tokenPlace_eq hi hk⟩
  rw [scatterTokens, scatter_apply (v := values (b.startIdx i + k))]
  · simp only [hmem]
  · intro w hw heq
    obtain ⟨t, ht, rfl⟩ := mem_map.mp hw
    exact congrArg values (hplace t (mem_range.mp ht) heq).2

theorem min?_firstRejected {accept : Nat → Bool} {n m : Nat} (hn : n ≤ m) (hm : m ≠ 0) :
    ((range m).map fun k => if k < n ∧ accept k = false then (k : Int) else m * 2).min? =
      some (if leadingAccepted accept n < n then (leadingAccepted accept n : Int) else m * 2) := by
  have hle := leadingAccepted_le accept n
  have hacc : ∀ k < leadingAccepted accept n, accept k = true :=
    (le_leadingAccepted_iff accept hle).mp (Nat.le_refl _)
  rw [min?_eq_some_iff]
  by_cases hlt : leadingAccepted accept n < n
  · rw [if_pos hlt]
    refine ⟨mem_map.mpr ⟨_, mem_range.mpr (by omega),
      if_pos ⟨hlt, ((leadingAccepted_eq_iff hlt).mp rfl).2⟩⟩, ?_⟩
    intro x hx
    obtain ⟨k, hk, rfl⟩ := mem_map.mp hx
    split
    · rename_i hrej
      have : ¬ k < leadingAccepted accept n := fun h => by simp [hacc k h] at hrej
      omega
    · omega
  · -- everything is accepted, so every column holds the sentinel
    have hall : ∀ k, ¬ (k < n ∧ accept k = false) := fun k hk => by
      simp [hacc k (by omega)] at hk
    rw [if_neg hlt]
    simp only [if_neg (hall _)]
    refine ⟨mem_map.mpr ⟨0, mem_range.mpr (by omega), rfl⟩, fun x hx => ?_⟩
    obtain ⟨k, _, rfl⟩ := mem_map.mp hx
    exact Int.le_refl _

theorem firstMismatchPos_eq (hi : i < b.batchSize) (hmax : b.numDrafts i ≤ b.maxSpecLen) :
    b.firstMismatchPos targetArgmax i =
      leadingAccepted (b.agrees targetArgmax i) (b.numDrafts i) := by
  have hle := leadingAccepted_le (b.agrees targetArgmax i) (b.numDrafts i)
  rw [firstMismatchPos]
  split
  · omega
  rename_i hne
  have hpos : ∀ k, (if b.scatterTokens (b.mismatchGlobal targetArgmax) (fun _ => false) (i, k) then
        b.scatterTokens (fun t => ((b.tokenPlace t).2 : Int)) (fun _ => -1) (i, k)
      else b.maxSpecLen * 2) = if k < b.numDrafts i ∧ b.agrees targetArgmax i k = false then
        (k : Int) else b.maxSpecLen * 2 := by
    intro k
    rw [scatterTokens_apply _ _ hi, scatterTokens_apply _ _ hi]
    by_cases hk : k < b.numDrafts i
    · rw [tokenPlace_eq hi hk]
      simp [mismatchGlobal, hk]
    · simp [hk]
  simp only [hpos, draftTokensPerReq_eq hi]
  rw [min?_firstRejected hmax hne, Option.getD_some]
  split <;> split <;> omega

theorem greedyMaskedRow_eq (hi : i < b.batchSize) (hmax : b.numDrafts i ≤ b.maxSpecLen)
    (row : Nat → Int) : b.greedyMaskedRow targetArgmax i row = b.greedyRow targetArgmax i row := by
  funext c
  rw [greedyMaskedRow, greedyRow, verdictRow, firstMismatchPos_eq hi hmax, draftTokensPerReq_eq hi,
    startIndices_eq hi]
  have hle := leadingAccepted_le (b.agrees targetArgmax i) (b.numDrafts i)
  set L := leadingAccepted (b.agrees targetArgmax i) (b.numDrafts i)
  by_cases hlt : c < L
  · rw [if_neg (by omega), if_pos (by omega), if_pos hlt]
  · by_cases hc : c = L
    · by_cases hall : L = b.numDrafts i
      · rw [if_pos (by omega), if_neg hlt, if_pos hc, if_pos hall]
      · rw [if_neg (by omega), if_pos (by omega), if_neg hlt, if_pos hc, if_neg hall, hc]
    · rw [if_neg (by omega), if_neg (by omega), if_neg hlt, if_neg hc]

/-- The padded matrices give the sequential rows; the shortcut for one draft each gives the same
when every request is greedy. -/
theorem rejectionGreedySamplePytorch_eq (b : SampleBatch 𝕜) (targetArgmax : Nat → Nat)
    (isGreedy : Option (Nat → Bool)) (out : OutputRows) (hne : b.numDraftTokens ≠ [])
    (hmax : ∀ n ∈ b.numDraftTokens, n ≤ b.maxSpecLen) :
    b.rejectionGreedySamplePytorch targetArgmax isGreedy out = .ok (fun i =>
        if i < b.batchSize ∧ isGreedy.getD (fun _ => true) i then b.greedyRow targetArgmax i (out i)
        else out i) ∧
      ((∀ n ∈ b.numDraftTokens, n = 1) → (∀ i < b.batchSize, isGreedy.getD (fun _ => true) i) →
        b.rejectionGreedySampleSpecLen1Pytorch targetArgmax out =
          b.rejectionGreedySamplePytorch targetArgmax isGreedy out) := by
  have hrows : b.rejectionGreedySamplePytorch targetArgmax isGreedy out = .ok (fun i =>
      if i < b.batchSize ∧ isGreedy.getD (fun _ => true) i then b.greedyRow targetArgmax i (out i)
      else out i) := by
    rw [rejectionGreedySamplePytorch, if_neg hne]
    congr 1
    funext i
    split
    · rename_i hi
      exact greedyMaskedRow_eq hi.1 (numDrafts_le_maxSpecLen hmax hi.1) (out i)
    · rfl
  refine ⟨hrows, fun hones hgreedy => ?_⟩
  have hcounts : b.numDraftTokens = replicate b.batchSize 1 := eq_replicate_of_mem hones
  have hsum : b.batchSize = b.numTokens := by
    rw [numTokens, hcounts, sum_replicate_nat, Nat.mul_one]
  rw [hrows, rejectionGreedySampleSpecLen1Pytorch, decide_eq_true hsum, assertThat_true, ok_bind]
  congr 1
  funext i c
  by_cases hi : i < b.batchSize
  · have hn : b.numDrafts i = 1 := by
      rw [numDrafts_eq b hi]
      exact hones _ (getElem_mem hi)
    have hstart : b.startIdx i = i := by
      rw [startIdx_eq, hcounts, take_replicate, sum_replicate_nat]
      omega
    have hactive : i < b.batchSize ∧ isGreedy.getD (fun _ => true) i := ⟨hi, hgreedy i hi⟩
    rw [if_pos hactive, greedyRow, verdictRow, hn, hstart]
    by_cases heq : b.draftTokenIds i = targetArgmax i
    · rcases c with _ | _ | c <;> simp [leadingAccepted, hi, heq]
    · rcases c with _ | _ | c <;> simp [leadingAccepted, hi, heq]
  · rw [if_neg fun h => hi h.1, if_neg fun h => hi h.1, if_neg fun h => hi h.1]

/-- The bonus token follows the accepted draft. -/
theorem rejectionGreedySamplePytorch_two : ∃ out',
    (rejectedDrafts [0, 1]).rejectionGreedySamplePytorch (fun _ => 5) none (fun _ _ => -1) =
      .ok out' ∧ out' 1 1 = 9 :=
  ⟨_, (rejectionGreedySamplePytorch_eq (rejectedDrafts [0, 1]) (fun _ => 5) none (fun _ _ => -1)
    (by decide) (by decide)).1, by decide⟩

/-- The shortcut has no greedy mask: it writes the row of a random request. -/
theorem rejectionGreedySampleSpecLen1Pytorch_random : ∃ out out',
    (rejectedDrafts [1]).rejectionGreedySampleSpecLen1Pytorch (fun _ => 5) (fun _ _ => -1) =
      .ok out ∧ (rejectedDrafts [1]).rejectionGreedySamplePytorch (fun _ => 5) (some fun _ => false)
      (fun _ _ => -1) = .ok out' ∧ out 0 0 = 5 ∧ out' 0 0 = -1 :=
  ⟨_, _, rfl, rfl, rfl, rfl⟩

end Greedy

end SampleBatch

end VllmEcho
