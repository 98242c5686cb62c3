import VllmEcho.Sampling.Batch

/-!
# The two block-verify samplers

`rejection_random_sample_block_verify_kernel` walks the drafts of each request in turn;
`rejection_random_sample_block_verify_pytorch` computes the same quantities on padded grids.  Both
reduce to one row, determined by an acceptance threshold for each position, and differ in the
position whose distributions enter the threshold.
-/

namespace VllmEcho

open Function List

variable {n : Nat} {accept : Nat → Bool} {k subBlock : Nat}

variable {𝕜 : Type} [Field 𝕜] [LinearOrder 𝕜]

namespace SampleBatch

/-! ## The kernel -/

variable (b : SampleBatch 𝕜)

def kernelPrefix (tokenIdx : Nat) (prefixProb : 𝕜) : 𝕜 :=
  if 0 < b.draftProb tokenIdx then min (prefixProb * b.targetProb tokenIdx / b.draftProb tokenIdx) 1
  else 0

def maskedLoad (probs : Nat → Nat → 𝕜) (tokenIdx vocabOffset : Nat) : 𝕜 :=
  if vocabOffset < b.vocabSize then probs tokenIdx vocabOffset else 0

def kernelResidual (subBlock nextTokenIdx : Nat) (prefixProb : 𝕜) : 𝕜 :=
  match b.draftProbs with
  | none => prefixProb * (1 - b.targetProb nextTokenIdx)
  | some q =>
    (range ((b.vocabSize + subBlock - 1) / subBlock)).foldl (fun residualMass loopI =>
      residualMass + ((range subBlock).map fun j =>
        max (prefixProb * b.maskedLoad b.targetProbs nextTokenIdx (loopI * subBlock + j) -
          b.maskedLoad q nextTokenIdx (loopI * subBlock + j)) 0).sum) 0

variable (i : Nat)

def kernelThreshold (subBlock i pos : Nat) (prefixProb : 𝕜) : 𝕜 :=
  if pos = b.numDrafts i - 1 then prefixProb
  else
    let residualMass := b.kernelResidual subBlock (b.startIdx i + pos + 1) prefixProb
    let denom := residualMass + 1 - prefixProb
    if 0 < denom then residualMass / denom else 0

def kernelStep (subBlock i : Nat) (st : Nat × 𝕜) (pos : Nat) : Nat × 𝕜 :=
  let prefixProb := b.kernelPrefix (b.startIdx i + pos) st.2
  let acceptedLen :=
    if b.uniformProbs (b.startIdx i + pos) ≤ b.kernelThreshold subBlock i pos prefixProb then
      pos + 1
    else st.1
  (acceptedLen, prefixProb)

def kernelRow (subBlock i : Nat) (row : Nat → Int) : Nat → Int :=
  if b.numDrafts i = 0 then update row 0 (b.bonusTokenIds i : Int)
  else
    let acceptedLen := ((range (b.numDrafts i)).foldl (b.kernelStep subBlock i) (0, 1)).1
    let row := storeTokens (fun pos => b.draftTokenIds (b.startIdx i + pos)) acceptedLen row
    if acceptedLen = b.numDrafts i then
      update row (b.numDrafts i) (b.bonusTokenIds i : Int)
    else update row acceptedLen (b.recoveredTokenIds (b.startIdx i + acceptedLen) : Int)

def blockVerifyKernel (grid blockSize subBlock : Nat) (out : OutputRows) : OutputRows :=
  launch grid blockSize (fun i => decide (i < b.batchSize) && !b.isGreedy i) (b.kernelRow subBlock)
    out

/-! ## The grids -/

def globalTokenIndex (k : Nat) : Nat :=
  min (b.startIdx i + k) (b.numTokens - 1)

def gridRatio (k : Nat) : 𝕜 :=
  if 0 < b.draftProb (b.globalTokenIndex i k) then
    b.targetProb (b.globalTokenIndex i k) / b.draftProb (b.globalTokenIndex i k)
  else 0

def pPrefix (b : SampleBatch 𝕜) (i : Nat) : Nat → 𝕜
  | 0 => 1
  | k + 1 => min (b.pPrefix i k * b.gridRatio i k) 1

def intermediate (k : Nat) : Bool := decide (k + 1 < b.numDrafts i)

def anyIntermediate : Bool :=
  (range b.batchSize).any fun i => (range b.maxSpecLen).any fun k => b.intermediate i k

def gridResidual (k : Nat) : 𝕜 :=
  if b.intermediate i k then
    match b.draftProbs with
    | none => b.pPrefix i (k + 1) * (1 - b.targetProb (b.globalTokenIndex i k))
    | some q =>
      ((range b.vocabSize).map fun v =>
        max (b.pPrefix i (k + 1) * b.targetProbs (b.globalTokenIndex i k) v -
          q (b.globalTokenIndex i k) v) 0).sum
  else 0

def hBlock (k : Nat) : 𝕜 :=
  if k = b.numDrafts i - 1 then b.pPrefix i (min (b.numDrafts i) b.maxSpecLen)
  else if b.anyIntermediate && b.intermediate i k then
    let denom := b.gridResidual i k + (1 - b.pPrefix i (k + 1))
    if 0 < denom then b.gridResidual i k / denom else 0
  else 0

def validMask (k : Nat) : Bool := decide (k + 1 ≤ b.numDrafts i)

def acceptedMask (k : Nat) : Bool :=
  b.validMask i k && decide (b.uniformProbs (b.globalTokenIndex i k) ≤ b.hBlock i k) &&
    !b.isGreedy i

def lastAcceptI : Nat :=
  ((range b.maxSpecLen).map fun k => if b.acceptedMask i k then k + 1 else 0).foldl max 0

def gridRow (row : Nat → Int) (c : Nat) : Int :=
  let last := b.lastAcceptI i
  let accepted : Nat → Int := fun c =>
    if c < b.maxSpecLen ∧ c + 1 ≤ last ∧ b.validMask i c ∧ !b.isGreedy i then
      (b.draftTokenIds (b.globalTokenIndex i c) : Int)
    else row c
  let recovered : Nat → Int := fun c =>
    if c < b.maxSpecLen ∧ c + 1 = last + 1 ∧ b.validMask i c ∧ !b.isGreedy i then
      (b.recoveredTokenIds (b.globalTokenIndex i c) : Int)
    else accepted c
  if c < b.maxSpecLen + 1 ∧ b.numDrafts i ≤ last ∧ !b.isGreedy i ∧ c = b.numDrafts i then
    (b.bonusTokenIds i : Int)
  else recovered c

/-- `rejection_random_sample_block_verify_pytorch`.  Without a draft token in the batch there is
nothing to gather, or no column to reduce over, and the indexing raises. -/
def blockVerifyPytorch (out : OutputRows) : Except PyError OutputRows :=
  if b.numTokens = 0 then .error .indexError
  else .ok fun i => if i < b.batchSize then b.gridRow i (out i) else out i

end SampleBatch

/-! ## Thresholds -/

theorem foldl_subBlocks {R : Type} [AddCommMonoid R] (g : Nat → R) (m : Nat) :
    (range m).foldl (fun mass loopI =>
      mass + ((range subBlock).map fun j => g (loopI * subBlock + j)).sum) 0 =
      ((range (m * subBlock)).map g).sum := by
  induction m with
  | zero => simp
  | succ m ih =>
    rw [range_succ, foldl_append, foldl_cons, ih, Nat.succ_mul,
      range_add, map_append, sum_append, map_map]
    rfl

theorem sum_range_of_le {R : Type} [AddCommMonoid R] {g : Nat → R} {m : Nat} (hnm : n ≤ m)
    (hzero : ∀ v, n ≤ v → g v = 0) : ((range m).map g).sum = ((range n).map g).sum := by
  obtain ⟨d, rfl⟩ := Nat.exists_eq_add_of_le hnm
  rw [range_add, map_append, sum_append, map_map]
  have htail : ((range d).map (g ∘ fun x => n + x)).sum = 0 := by
    apply sum_eq_zero
    intro x hx
    obtain ⟨v, _, rfl⟩ := mem_map.mp hx
    exact hzero _ (Nat.le_add_right n v)
  rw [htail, add_zero]

def lastAccepted (accept : Nat → Bool) : Nat → Nat
  | 0 => 0
  | n + 1 => if accept n then n + 1 else lastAccepted accept n

theorem lastAccepted_le (accept : Nat → Bool) (n : Nat) : lastAccepted accept n ≤ n := by
  induction n with
  | zero => exact Nat.le_refl 0
  | succ n ih =>
    rw [lastAccepted]
    split <;> omega

theorem accept_lastAccepted :
    lastAccepted accept n = 0 ∨ accept (lastAccepted accept n - 1) = true := by
  induction n with
  | zero => exact Or.inl rfl
  | succ n ih =>
    rw [lastAccepted]
    split
    · rename_i hacc
      exact Or.inr hacc
    · exact ih

theorem not_accept_of_lastAccepted_le (hk : lastAccepted accept n ≤ k) (hn : k < n) :
    accept k = false := by
  induction n with
  | zero => omega
  | succ n ih =>
    rw [lastAccepted] at hk
    split at hk
    · omega
    · rename_i hacc
      by_cases hkn : k = n
      · rw [hkn]
        exact Bool.eq_false_iff.mpr hacc
      · exact ih hk (by omega)

theorem lastAccepted_congr {accept' : Nat → Bool} {m : Nat}
    (hm : m = 0 ∨ (accept (m - 1) = true ∧ accept' (m - 1) = true))
    (hsame : ∀ k, m ≤ k → k < n → accept k = accept' k) (hmn : m ≤ n) :
    lastAccepted accept n = lastAccepted accept' n := by
  induction n with
  | zero => rfl
  | succ n ih =>
    rw [lastAccepted, lastAccepted]
    by_cases hlast : m = n + 1
    · rcases hm with hm | ⟨h1, h2⟩
      · omega
      · rw [hlast, Nat.add_sub_cancel] at h1 h2
        rw [if_pos h1, if_pos h2]
    · rw [hsame n (by omega) (Nat.lt_succ_self n),
        ih (fun k hk hkn => hsame k hk (by omega)) (by omega)]

theorem lastAccepted_gt_iff (hkn : k < n) (hnone : ∀ j, k < j → j < n → accept j = false) :
    k < lastAccepted accept n ↔ accept k = true := by
  induction n with
  | zero => omega
  | succ n ih =>
    rw [lastAccepted]
    by_cases hk : k = n
    · subst hk
      have := lastAccepted_le accept k
      split
      · rename_i h
        exact ⟨fun _ => h, fun _ => Nat.lt_succ_self k⟩
      · rename_i h
        exact ⟨fun hlt => by omega, fun hacc => absurd hacc h⟩
    · rw [hnone n (by omega) (Nat.lt_succ_self n)]
      exact ih (by omega) fun j hkj hjn => hnone j hkj (by omega)

theorem foldl_max_eq_lastAccepted :
    ((range n).map fun k => if accept k then k + 1 else 0).foldl max 0 = lastAccepted accept n := by
  induction n with
  | zero => rfl
  | succ n ih =>
    rw [range_succ, map_append, foldl_append, map_singleton,
      foldl_cons, foldl_nil, lastAccepted]
    have := lastAccepted_le accept n
    split <;> omega

theorem lastAccepted_of_le {m : Nat} (hnm : n ≤ m) (hout : ∀ k, n ≤ k → accept k = false) :
    lastAccepted accept m = lastAccepted accept n := by
  induction m with
  | zero =>
    obtain rfl : n = 0 := by omega
    rfl
  | succ m ih =>
    by_cases hn : n = m + 1
    · rw [hn]
    · rw [lastAccepted, hout m (by omega), if_neg (by decide), ih (by omega)]

namespace SampleBatch

def cappedRatio (b : SampleBatch 𝕜) (i : Nat) : Nat → 𝕜
  | 0 => 1
  | k + 1 => b.kernelPrefix (b.startIdx i + k) (b.cappedRatio i k)

def residualMass (b : SampleBatch 𝕜) (tokenIdx : Nat) (P : 𝕜) : 𝕜 :=
  match b.draftProbs with
  | none => P * (1 - b.targetProb tokenIdx)
  | some q =>
    ((range b.vocabSize).map fun v => max (P * b.targetProbs tokenIdx v - q tokenIdx v) 0).sum

end SampleBatch

def stopChance (R P : 𝕜) : 𝕜 :=
  if 0 < R + 1 - P then R / (R + 1 - P) else 0

namespace SampleBatch

variable (b : SampleBatch 𝕜) (shift i : Nat)

def threshold (k : Nat) : 𝕜 :=
  if k + 1 = b.numDrafts i then b.cappedRatio i (k + 1)
  else stopChance (b.residualMass (b.startIdx i + k + shift) (b.cappedRatio i (k + 1)))
    (b.cappedRatio i (k + 1))

def acceptedLen : Nat :=
  lastAccepted (fun k => decide (b.uniformProbs (b.startIdx i + k) ≤ b.threshold shift i k))
    (b.numDrafts i)

def thresholdRow (row : Nat → Int) : Nat → Int :=
  verdictRow (fun pos => b.draftTokenIds (b.startIdx i + pos))
    (fun pos => b.recoveredTokenIds (b.startIdx i + pos)) (b.bonusTokenIds i) (b.numDrafts i)
    (b.acceptedLen shift i) row

/-! ## The kernel computes the row with the next token's distributions -/

theorem kernelResidual_eq (hsub : 0 < subBlock) (tokenIdx : Nat) (P : 𝕜) :
    b.kernelResidual subBlock tokenIdx P = b.residualMass tokenIdx P := by
  rw [kernelResidual, residualMass]
  cases b.draftProbs with
  | none => rfl
  | some q =>
    dsimp only
    rw [foldl_subBlocks (fun v => max (P * b.maskedLoad b.targetProbs tokenIdx v -
      b.maskedLoad q tokenIdx v) 0)]
    have hle : b.vocabSize ≤ (b.vocabSize + subBlock - 1) / subBlock * subBlock :=
      cdiv_mul_ge _ hsub
    rw [sum_range_of_le hle]
    · congr 1
      apply map_congr_left
      intro v hv
      rw [maskedLoad, maskedLoad, if_pos (mem_range.mp hv), if_pos (mem_range.mp hv)]
    · intro v hv
      rw [maskedLoad, maskedLoad, if_neg (Nat.not_lt.mpr hv), if_neg (Nat.not_lt.mpr hv), mul_zero,
        sub_zero, max_self]

theorem kernelThreshold_eq {i pos : Nat} (hsub : 0 < subBlock) (hpos : pos < b.numDrafts i) :
    b.kernelThreshold subBlock i pos (b.cappedRatio i (pos + 1)) = b.threshold 1 i pos := by
  have hlast : pos = b.numDrafts i - 1 ↔ pos + 1 = b.numDrafts i := by omega
  rw [kernelThreshold, kernelResidual_eq b hsub]
  simp only [hlast]
  rfl

theorem kernelStep_foldl {i : Nat} (hsub : 0 < subBlock) (hn : n ≤ b.numDrafts i) :
    (range n).foldl (b.kernelStep subBlock i) (0, 1) =
      (lastAccepted (fun k => decide (b.uniformProbs (b.startIdx i + k) ≤ b.threshold 1 i k)) n,
        b.cappedRatio i n) := by
  induction n with
  | zero => rfl
  | succ n ih =>
    rw [range_succ, foldl_append, ih (by omega), foldl_cons, foldl_nil,
      kernelStep]
    have hthreshold := kernelThreshold_eq b hsub (Nat.lt_of_succ_le hn)
    rw [cappedRatio] at hthreshold
    rw [hthreshold, lastAccepted, cappedRatio]
    simp only [decide_eq_true_eq]

/-- The kernel takes the residual mass at the next position. -/
theorem kernelRow_eq (hsub : 0 < subBlock) (i : Nat) (row : Nat → Int) :
    b.kernelRow subBlock i row = b.thresholdRow 1 i row := by
  funext c
  have hlen := lastAccepted_le
    (fun k => decide (b.uniformProbs (b.startIdx i + k) ≤ b.threshold 1 i k)) (b.numDrafts i)
  rw [kernelRow, thresholdRow, verdictRow, acceptedLen, kernelStep_foldl b hsub (Nat.le_refl _)]
  set L := lastAccepted (fun k => decide (b.uniformProbs (b.startIdx i + k) ≤ b.threshold 1 i k))
    (b.numDrafts i)
  by_cases hzero : b.numDrafts i = 0
  · obtain hL : L = 0 := by omega
    rw [if_pos hzero, hL, hzero, update_apply]
    rfl
  rw [if_neg hzero]
  by_cases hall : L = b.numDrafts i
  · rw [if_pos hall, update_apply, storeTokens_apply, ← hall]
    by_cases hc : c = L
    · rw [if_pos hc, if_neg (by omega), if_pos hc, if_pos rfl]
    · rw [if_neg hc, if_neg hc]
  · rw [if_neg hall, update_apply, storeTokens_apply]
    by_cases hc : c = L
    · rw [if_pos hc, if_neg (by omega), if_pos hc, if_neg hall]
    · rw [if_neg hc, if_neg hc]

/-! ## The grids compute the row with the same token's distributions -/

section Grid

variable [IsStrictOrderedRing 𝕜] {b : SampleBatch 𝕜} {i : Nat}

omit [Field 𝕜] [LinearOrder 𝕜] [IsStrictOrderedRing 𝕜] in
theorem globalTokenIndex_eq (hi : i < b.batchSize) (hk : k < b.numDrafts i) :
    b.globalTokenIndex i k = b.startIdx i + k := by
  have := b.startIdx_add_numDrafts_le hi
  rw [globalTokenIndex]
  omega

theorem pPrefix_eq (hi : i < b.batchSize) (hk : k ≤ b.numDrafts i) :
    b.pPrefix i k = b.cappedRatio i k := by
  induction k with
  | zero => rfl
  | succ k ih =>
    rw [pPrefix, ih (by omega), gridRatio, globalTokenIndex_eq hi (by omega), cappedRatio,
      kernelPrefix]
    split
    · rw [mul_div_assoc]
    · rw [mul_zero, min_eq_left zero_le_one]

theorem gridResidual_eq (hi : i < b.batchSize) (hk : k + 1 < b.numDrafts i) :
    b.gridResidual i k = b.residualMass (b.startIdx i + k) (b.cappedRatio i (k + 1)) := by
  rw [gridResidual, intermediate, decide_eq_true hk, if_pos rfl, pPrefix_eq hi (by omega),
    globalTokenIndex_eq hi (by omega), residualMass]

theorem hBlock_eq (hi : i < b.batchSize) (hmax : b.numDrafts i ≤ b.maxSpecLen)
    (hk : k < b.numDrafts i) : b.hBlock i k = b.threshold 0 i k := by
  have hlast : k = b.numDrafts i - 1 ↔ k + 1 = b.numDrafts i := by omega
  rw [hBlock, threshold]
  simp only [hlast]
  split
  · rename_i heq
    rw [Nat.min_eq_left hmax, pPrefix_eq hi (Nat.le_refl _), heq]
  have hint : b.intermediate i k = true := decide_eq_true (by omega)
  have hany : b.anyIntermediate = true := by
    rw [anyIntermediate, any_eq_true]
    refine ⟨i, mem_range.mpr hi, ?_⟩
    rw [any_eq_true]
    exact ⟨k, mem_range.mpr (by omega), hint⟩
  rw [hany, hint, gridResidual_eq hi (by omega), pPrefix_eq hi (by omega),
    stopChance, add_sub_assoc]
  rfl

theorem lastAcceptI_eq (hi : i < b.batchSize) (hmax : b.numDrafts i ≤ b.maxSpecLen)
    (hgreedy : b.isGreedy i = false) : b.lastAcceptI i = b.acceptedLen 0 i := by
  rw [lastAcceptI, foldl_max_eq_lastAccepted, lastAccepted_of_le hmax]
  · apply lastAccepted_congr (Or.inl rfl) _ (Nat.zero_le _)
    intro k _ hk
    rw [acceptedMask, validMask, hgreedy, decide_eq_true (Nat.succ_le_of_lt hk),
      hBlock_eq hi hmax hk, globalTokenIndex_eq hi hk]
    simp
  · intro k hk
    rw [acceptedMask, validMask, decide_eq_false (by omega)]
    rfl

theorem gridRow_eq (hi : i < b.batchSize) (hmax : b.numDrafts i ≤ b.maxSpecLen)
    (hgreedy : b.isGreedy i = false) (row : Nat → Int) :
    b.gridRow i row = b.thresholdRow 0 i row := by
  funext c
  have hlen : b.acceptedLen 0 i ≤ b.numDrafts i := lastAccepted_le _ _
  rw [gridRow, thresholdRow, verdictRow, lastAcceptI_eq hi hmax hgreedy]
  simp only [hgreedy, validMask, Bool.not_false, decide_eq_true_eq, and_true, true_and]
  by_cases hlt : c < b.acceptedLen 0 i
  · rw [if_neg (by omega), if_neg (by omega), if_pos (by omega), if_pos hlt,
      globalTokenIndex_eq hi (by omega)]
  by_cases hc : c = b.acceptedLen 0 i
  · by_cases hall : b.acceptedLen 0 i = b.numDrafts i
    · rw [if_pos (by omega), if_neg hlt, if_pos hc, if_pos hall]
    · rw [if_neg (by omega), if_pos (by omega), if_neg hlt, if_pos hc, if_neg hall,
        globalTokenIndex_eq hi (by omega), hc]
  · rw [if_neg (by omega), if_neg (by omega), if_neg (by omega), if_neg hlt, if_neg hc]

omit [IsStrictOrderedRing 𝕜] in
theorem gridRow_greedy (hgreedy : b.isGreedy i = true) (row : Nat → Int) :
    b.gridRow i row = row := by
  funext c
  simp [gridRow, hgreedy]

end Grid

end SampleBatch

end VllmEcho
