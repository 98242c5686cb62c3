import VllmEcho.Sampling.BlockVerify

/-!
# When the two block-verify samplers agree

For given drafts and distributions the two samplers write the same rows for all uniform samples,
recovered and bonus tokens exactly when, up to the last position that is accepted for certain, the
residual mass is the same whether it is taken at a position or at the next one.
-/

namespace VllmEcho

open List

/-! ## The chance to stop -/

section StopChance

variable {R R' P : ℚ}

theorem stopChance_nonneg (hR : 0 ≤ R) : 0 ≤ stopChance R P := by
  rw [stopChance]
  split
  · rename_i hpos
    exact div_nonneg hR (le_of_lt hpos)
  · exact le_refl 0

theorem stopChance_le_one (hP : P ≤ 1) : stopChance R P ≤ 1 := by
  rw [stopChance]
  split
  · rename_i hpos
    rw [div_le_one hpos]
    linarith
  · exact zero_le_one

theorem stopChance_one : stopChance R 1 = if 0 < R then 1 else 0 := by
  rw [stopChance, add_sub_cancel_right]
  split
  · rename_i hpos
    exact div_self (ne_of_gt hpos)
  · rfl

theorem stopChance_eq_one_iff (hP : P ≤ 1) : stopChance R P = 1 ↔ P = 1 ∧ 0 < R := by
  constructor
  · intro h
    rw [stopChance] at h
    split at h
    · rename_i hpos
      rw [div_eq_one_iff_eq (ne_of_gt hpos)] at h
      have hP1 : P = 1 := by linarith
      refine ⟨hP1, ?_⟩
      linarith
    · exact absurd h zero_ne_one
  · rintro ⟨rfl, hpos⟩
    rw [stopChance_one, if_pos hpos]

theorem stopChance_eq_iff (hR : 0 ≤ R) (hR' : 0 ≤ R') (hP : P ≤ 1) :
    stopChance R P = stopChance R' P ↔ if P = 1 then (0 < R ↔ 0 < R') else R = R' := by
  split
  · rename_i hone
    subst hone
    rw [stopChance_one, stopChance_one]
    by_cases h : 0 < R <;> by_cases h' : 0 < R' <;> simp [h, h']
  rename_i hne
  have hlt : P < 1 := lt_of_le_of_ne hP hne
  have hpos : 0 < R + 1 - P := by linarith
  have hpos' : 0 < R' + 1 - P := by linarith
  rw [stopChance, stopChance, if_pos hpos, if_pos hpos',
    div_eq_div_iff (ne_of_gt hpos) (ne_of_gt hpos')]
  constructor
  · intro h
    have hmul : (R - R') * (1 - P) = 0 := by linear_combination h
    rcases mul_eq_zero.mp hmul with h0 | h0
    · linarith
    · linarith
  · rintro rfl
    rfl

end StopChance

/-! ## Well-formed batches -/

variable {k shift : Nat}

namespace SampleBatch

variable (b : SampleBatch ℚ)

/-- The batches the samplers are given: draft counts within the grid, tokens of the vocabulary,
and distributions. -/
structure WellFormed : Prop where
  counts : ∀ n ∈ b.numDraftTokens, n ≤ b.maxSpecLen
  tokens : ∀ idx < b.numTokens, b.draftTokenIds idx < b.vocabSize
  target : ∀ idx < b.numTokens, IsDistribution b.vocabSize (b.targetProbs idx)
  draft : ∀ q, b.draftProbs = some q → ∀ idx < b.numTokens, IsDistribution b.vocabSize (q idx)

section

variable {b : SampleBatch ℚ} {i : Nat}

theorem targetProb_nonneg (hb : b.WellFormed) {idx : Nat} (hidx : idx < b.numTokens) :
    0 ≤ b.targetProb idx :=
  (hb.target idx hidx).nonneg _ (hb.tokens idx hidx)

theorem cappedRatio_mem (hb : b.WellFormed) (hi : i < b.batchSize) (hk : k ≤ b.numDrafts i) :
    0 ≤ b.cappedRatio i k ∧ b.cappedRatio i k ≤ 1 := by
  induction k with
  | zero => exact ⟨zero_le_one, le_refl 1⟩
  | succ k ih =>
    have hidx : b.startIdx i + k < b.numTokens := by
      have := b.startIdx_add_numDrafts_le hi
      omega
    rw [cappedRatio, kernelPrefix]
    split
    · rename_i hpos
      refine ⟨le_min ?_ zero_le_one, min_le_right ..⟩
      exact div_nonneg (mul_nonneg (ih (by omega)).1 (targetProb_nonneg hb hidx)) (le_of_lt hpos)
    · exact ⟨le_refl 0, zero_le_one⟩

theorem residualMass_nonneg (hb : b.WellFormed) {idx : Nat} (hidx : idx < b.numTokens) {P : ℚ}
    (hP : 0 ≤ P) : 0 ≤ b.residualMass idx P := by
  rw [residualMass]
  cases b.draftProbs with
  | none =>
    have := (hb.target idx hidx).le_one (hb.tokens idx hidx)
    apply mul_nonneg hP
    rw [targetProb]
    linarith
  | some q =>
    apply sum_nonneg
    intro x hx
    obtain ⟨v, _, rfl⟩ := mem_map.mp hx
    exact le_max_right ..

end

/-! ## The condition -/

def Certain (i k : Nat) : Prop :=
  b.cappedRatio i (k + 1) = 1 ∧
    (k + 1 = b.numDrafts i ∨
      0 < b.residualMass (b.startIdx i + k + 1) (b.cappedRatio i (k + 1)))

instance (b : SampleBatch ℚ) (i k : Nat) : Decidable (b.Certain i k) :=
  inferInstanceAs (Decidable (_ ∧ _))

/-- The residual mass after position `k` is the same with the distributions of `k` and of the next
position; when the capped ratio is 1 it only matters whether there is any. -/
def SameResidual (i k : Nat) : Prop :=
  if b.cappedRatio i (k + 1) = 1 then
    (0 < b.residualMass (b.startIdx i + k) (b.cappedRatio i (k + 1)) ↔
      0 < b.residualMass (b.startIdx i + k + 1) (b.cappedRatio i (k + 1)))
  else
    b.residualMass (b.startIdx i + k) (b.cappedRatio i (k + 1)) =
      b.residualMass (b.startIdx i + k + 1) (b.cappedRatio i (k + 1))

/-- There is a draft token, and the residual masses of every sampled request agree from the last
position on that is accepted for certain. -/
def ResidualsAgree : Prop :=
  0 < b.numTokens ∧ ∀ i < b.batchSize, b.isGreedy i = false → ∀ k, k + 1 < b.numDrafts i →
    (∀ j, k < j → j < b.numDrafts i → ¬ b.Certain i j) → b.SameResidual i k

section

variable {b : SampleBatch ℚ} {i : Nat} (hb : b.WellFormed) (hi : i < b.batchSize)

include hb hi

theorem threshold_mem (hk : k < b.numDrafts i) (hshift : shift ≤ 1) :
    0 ≤ b.threshold shift i k ∧ b.threshold shift i k ≤ 1 := by
  have hcap := cappedRatio_mem hb hi (Nat.succ_le_of_lt hk)
  rw [threshold]
  split
  · exact hcap
  · have := b.startIdx_add_numDrafts_le hi
    exact ⟨stopChance_nonneg (residualMass_nonneg hb (by omega) hcap.1), stopChance_le_one hcap.2⟩

theorem certain_iff (hk : k < b.numDrafts i) : b.Certain i k ↔ b.threshold 1 i k = 1 := by
  have hcap := cappedRatio_mem hb hi (Nat.succ_le_of_lt hk)
  rw [threshold]
  split
  · rename_i hlast
    exact ⟨fun h => h.1, fun h => ⟨h, Or.inl hlast⟩⟩
  · rename_i hlast
    rw [stopChance_eq_one_iff hcap.2]
    exact ⟨fun h => ⟨h.1, h.2.resolve_left hlast⟩, fun h => ⟨h.1, Or.inr h.2⟩⟩

theorem sameResidual_iff (hk : k + 1 < b.numDrafts i) :
    b.SameResidual i k ↔ b.threshold 0 i k = b.threshold 1 i k := by
  have hcap := cappedRatio_mem hb hi (Nat.le_of_lt hk)
  have := b.startIdx_add_numDrafts_le hi
  rw [threshold, threshold, if_neg (by omega), if_neg (by omega),
    stopChance_eq_iff (residualMass_nonneg hb (by omega) hcap.1)
      (residualMass_nonneg hb (by omega) hcap.1) hcap.2]
  rfl

theorem threshold_eq_of_agree (hagree : ∀ k, k + 1 < b.numDrafts i →
      (∀ j, k < j → j < b.numDrafts i → ¬ b.Certain i j) → b.SameResidual i k)
    (hk : k < b.numDrafts i) (hlater : ∀ j, k < j → j < b.numDrafts i → ¬ b.Certain i j) :
    b.threshold 0 i k = b.threshold 1 i k := by
  by_cases hlast : k + 1 = b.numDrafts i
  · rw [threshold, threshold, if_pos hlast, if_pos hlast]
  · exact (sameResidual_iff hb hi (by omega)).mp (hagree k (by omega) hlater)

theorem acceptedLen_eq_of_agree (hu : ∀ idx, b.uniformProbs idx < 1)
    (hagree : ∀ k, k + 1 < b.numDrafts i →
      (∀ j, k < j → j < b.numDrafts i → ¬ b.Certain i j) → b.SameResidual i k) :
    b.acceptedLen 0 i = b.acceptedLen 1 i := by
  let certain : Nat → Bool := fun k => decide (b.Certain i k)
  have hle := lastAccepted_le certain (b.numDrafts i)
  -- nothing from the last certain position on is certain
  have hnone : ∀ k, lastAccepted certain (b.numDrafts i) ≤ k → k < b.numDrafts i →
      ¬ b.Certain i k :=
    fun k hk hkn => of_decide_eq_false (not_accept_of_lastAccepted_le hk hkn)
  apply lastAccepted_congr _ _ hle
  · by_cases hzero : lastAccepted certain (b.numDrafts i) = 0
    · exact Or.inl hzero
    right
    have hacc := (accept_lastAccepted).resolve_left hzero
    have hk : lastAccepted certain (b.numDrafts i) - 1 < b.numDrafts i := by omega
    have hone := (certain_iff hb hi hk).mp (of_decide_eq_true hacc)
    have heq := threshold_eq_of_agree hb hi hagree hk fun j hj hjn => hnone j (by omega) hjn
    rw [decide_eq_true_iff, decide_eq_true_iff, heq, hone]
    exact ⟨le_of_lt (hu _), le_of_lt (hu _)⟩
  · intro k hk hkn
    rw [threshold_eq_of_agree hb hi hagree hkn fun j hj hjn => hnone j (by omega) hjn]

end

/-! ## Samples that tell the two apart -/

def withSamples (uniform : Nat → ℚ) (recovered bonus : Nat → Nat) : SampleBatch ℚ :=
  { b with uniformProbs := uniform, recoveredTokenIds := recovered, bonusTokenIds := bonus }

section

variable (b : SampleBatch ℚ) (uniform : Nat → ℚ) (recovered bonus : Nat → Nat) (i : Nat)

theorem withSamples_cappedRatio :
    (b.withSamples uniform recovered bonus).cappedRatio i k = b.cappedRatio i k := by
  induction k with
  | zero => rfl
  | succ k ih =>
    rw [cappedRatio, ih]
    rfl

theorem withSamples_threshold (i : Nat) :
    (b.withSamples uniform recovered bonus).threshold shift i k = b.threshold shift i k := by
  rw [threshold, withSamples_cappedRatio]
  rfl

theorem withSamples_acceptedLen (i : Nat) :
    (b.withSamples uniform recovered bonus).acceptedLen shift i =
      lastAccepted (fun k => decide (uniform (b.startIdx i + k) ≤ b.threshold shift i k))
        (b.numDrafts i) := by
  rw [acceptedLen]
  simp only [withSamples_threshold]
  rfl

theorem withSamples_wellFormed (hb : b.WellFormed) :
    (b.withSamples uniform recovered bonus).WellFormed :=
  ⟨hb.counts, hb.tokens, hb.target, hb.draft⟩

theorem withSamples_certain :
    (b.withSamples uniform recovered bonus).Certain i k ↔ b.Certain i k := by
  rw [Certain, withSamples_cappedRatio]
  rfl

theorem withSamples_sameResidual :
    (b.withSamples uniform recovered bonus).SameResidual i k ↔ b.SameResidual i k := by
  rw [SameResidual, withSamples_cappedRatio]
  rfl

end

def separating (i k idx : Nat) : ℚ :=
  if idx = b.startIdx i + k then (b.threshold 0 i k + b.threshold 1 i k) / 2
  else if b.startIdx i + k < idx ∧ idx < b.startIdx i + b.numDrafts i then
    (b.threshold 1 i (idx - b.startIdx i) + 1) / 2
  else 0

section

variable {b : SampleBatch ℚ} {i k : Nat} (hb : b.WellFormed) (hi : i < b.batchSize)
  (hk : k < b.numDrafts i) (hne : b.threshold 0 i k ≠ b.threshold 1 i k)
  (hlater : ∀ j, k < j → j < b.numDrafts i → ¬ b.Certain i j)

include hb hi hlater

include hk hne in
theorem separating_mem (idx : Nat) : 0 ≤ b.separating i k idx ∧ b.separating i k idx < 1 := by
  rw [separating]
  split
  · obtain ⟨h0, h1⟩ := threshold_mem hb hi hk (Nat.zero_le 1)
    obtain ⟨h0', h1'⟩ := threshold_mem hb hi hk (Nat.le_refl 1)
    rcases lt_or_gt_of_ne hne with hlt | hlt
    · constructor <;> linarith
    · constructor <;> linarith
  split
  · rename_i hidx
    have hj : idx - b.startIdx i < b.numDrafts i := by omega
    obtain ⟨h0, h1⟩ := threshold_mem hb hi hj (Nat.le_refl 1)
    have hlt := lt_of_le_of_ne h1 fun h => hlater _ (by omega) hj ((certain_iff hb hi hj).mpr h)
    constructor <;> linarith
  · exact ⟨le_refl 0, zero_lt_one⟩

theorem separating_above (hsame : ∀ j, k < j → j < b.numDrafts i →
      b.threshold 0 i j = b.threshold 1 i j) {j : Nat} (hshift : shift = 0 ∨ shift = 1) (hj : k < j)
    (hjn : j < b.numDrafts i) : ¬ b.separating i k (b.startIdx i + j) ≤ b.threshold shift i j := by
  have h1 := (threshold_mem hb hi hjn (Nat.le_refl 1)).2
  have hlt := lt_of_le_of_ne h1 fun h => hlater j hj hjn ((certain_iff hb hi hjn).mpr h)
  have heq : b.threshold shift i j = b.threshold 1 i j := by
    rcases hshift with rfl | rfl
    · exact hsame j hj hjn
    · rfl
  rw [separating, if_neg (by omega), if_pos ⟨by omega, by omega⟩, Nat.add_sub_cancel_left]
  linarith

end

end SampleBatch

theorem verdictRow_inj {drafts recovered : Nat → Nat} {bonus n L L' : Nat} {row : Nat → Int}
    (hdiff : ∀ c, recovered c ≠ drafts c) (hL : L ≤ n) (hL' : L' ≤ n)
    (heq : verdictRow drafts recovered bonus n L row = verdictRow drafts recovered bonus n L' row) :
    L = L' := by
  -- at the end of the shorter one, one row has the recovered token and the other the draft
  have hshort : ∀ {M M' : Nat}, M' ≤ n → M < M' →
      verdictRow drafts recovered bonus n M row = verdictRow drafts recovered bonus n M' row →
      False := by
    intro M M' hM' hlt h
    have hc := congrFun h M
    rw [verdictRow, verdictRow, if_neg (Nat.lt_irrefl M), if_pos rfl, if_neg (by omega),
      if_pos hlt] at hc
    exact hdiff M (Int.ofNat.inj hc)
  rcases Nat.lt_trichotomy L L' with hlt | h | hlt
  · exact absurd heq (fun h => hshort hL' hlt h)
  · exact h
  · exact absurd heq.symm (fun h => hshort hL hlt h)

namespace SampleBatch

section

variable {b : SampleBatch ℚ} {vectorcoreNum subBlock : Nat}

def blockVerifyTriton (b : SampleBatch ℚ) (vectorcoreNum subBlock : Nat) (out : OutputRows) :
    OutputRows :=
  b.blockVerifyKernel (calGridAndBlockSize vectorcoreNum b.batchSize).1
    (calGridAndBlockSize vectorcoreNum b.batchSize).2 subBlock out

theorem blockVerifyTriton_apply (hcore : 0 < vectorcoreNum) (hsub : 0 < subBlock)
    (out : OutputRows) (i : Nat) : b.blockVerifyTriton vectorcoreNum subBlock out i =
      if i < b.batchSize ∧ b.isGreedy i = false then b.thresholdRow 1 i (out i) else out i := by
  have hcover := le_calGridAndBlockSize hcore b.batchSize
  rw [blockVerifyTriton, blockVerifyKernel, launch_apply, kernelRow_eq b hsub]
  have hactive : (i < (calGridAndBlockSize vectorcoreNum b.batchSize).1 *
      (calGridAndBlockSize vectorcoreNum b.batchSize).2 ∧
      (decide (i < b.batchSize) && !b.isGreedy i) = true) ↔
      (i < b.batchSize ∧ b.isGreedy i = false) := by
    rw [Bool.and_eq_true, decide_eq_true_iff, Bool.not_eq_true']
    constructor
    · exact fun h => h.2
    · exact fun h => ⟨by omega, h⟩
  simp only [hactive]

theorem blockVerifyPytorch_apply (hb : b.WellFormed) (hpos : 0 < b.numTokens) (out : OutputRows) :
    b.blockVerifyPytorch out = .ok fun i =>
      if i < b.batchSize ∧ b.isGreedy i = false then b.thresholdRow 0 i (out i) else out i := by
  rw [blockVerifyPytorch, if_neg (by omega)]
  congr 1
  funext i
  by_cases hi : i < b.batchSize
  · rw [if_pos hi]
    have hmax := numDrafts_le_maxSpecLen hb.counts hi
    cases hgreedy : b.isGreedy i with
    | true => rw [gridRow_greedy hgreedy, if_neg (by simp)]
    | false => rw [gridRow_eq hi hmax hgreedy, if_pos ⟨hi, rfl⟩]
  · rw [if_neg hi, if_neg (fun h => hi h.1)]

end

theorem threshold_eq_of_rows {b : SampleBatch ℚ} {i : Nat} (hb : b.WellFormed)
    (hi : i < b.batchSize) (hrows : ∀ (uniform : Nat → ℚ) (recovered bonus : Nat → Nat),
      (∀ idx, 0 ≤ uniform idx ∧ uniform idx < 1) → ∀ row : Nat → Int,
        (b.withSamples uniform recovered bonus).thresholdRow 0 i row =
          (b.withSamples uniform recovered bonus).thresholdRow 1 i row) (hk : k < b.numDrafts i)
    (hlater : ∀ j, k < j → j < b.numDrafts i → ¬ b.Certain i j) :
    b.threshold 0 i k = b.threshold 1 i k := by
  -- from the last position down: later thresholds are known to agree
  induction hd : b.numDrafts i - k using Nat.strong_induction_on generalizing k with
  | _ d ih =>
    have hsame : ∀ j, k < j → j < b.numDrafts i → b.threshold 0 i j = b.threshold 1 i j :=
      fun j hj hjn => ih (b.numDrafts i - j) (by omega) hjn
        (fun j' hj' hjn' => hlater j' (by omega) hjn') rfl
    by_contra hne
    have hrow := hrows (b.separating i k) (fun idx => b.draftTokenIds idx + 1) (fun _ => 0)
      (separating_mem hb hi hk hne hlater) (fun _ => placeholderTokenId)
    have hlen : acceptedLen _ 0 i = acceptedLen _ 1 i :=
      verdictRow_inj (fun c => Nat.succ_ne_self _) (lastAccepted_le _ _) (lastAccepted_le _ _) hrow
    have hpass : ∀ shift, shift = 0 ∨ shift = 1 →
        (k < (b.withSamples (b.separating i k) (fun idx => b.draftTokenIds idx + 1)
          (fun _ => 0)).acceptedLen shift i ↔
          b.separating i k (b.startIdx i + k) ≤ b.threshold shift i k) := by
      intro shift hshift
      rw [withSamples_acceptedLen, lastAccepted_gt_iff hk, decide_eq_true_iff]
      · intro j hj hjn
        rw [decide_eq_false_iff_not]
        exact separating_above hb hi hlater hsame hshift hj hjn
    have hiff := (hpass 0 (Or.inl rfl)).symm.trans
      ((iff_of_eq (congrArg (fun L => k < L) hlen)).trans (hpass 1 (Or.inr rfl)))
    rw [separating, if_pos rfl] at hiff
    rcases lt_or_gt_of_ne hne with hlt | hlt
    · have := hiff.mpr (by linarith)
      linarith
    · have := hiff.mp (by linarith)
      linarith

/-- The grid version and the kernel write the same rows, for all samples and tokens, exactly when
there is a draft and the residual masses agree. -/
theorem blockVerifyPytorch_eq_triton_iff {b : SampleBatch ℚ} (hb : b.WellFormed)
    {vectorcoreNum subBlock : Nat} (hcore : 0 < vectorcoreNum) (hsub : 0 < subBlock) :
    (∀ (uniform : Nat → ℚ) (recovered bonus : Nat → Nat),
      (∀ idx, 0 ≤ uniform idx ∧ uniform idx < 1) → ∀ out : OutputRows,
        (b.withSamples uniform recovered bonus).blockVerifyPytorch out =
          .ok ((b.withSamples uniform recovered bonus).blockVerifyTriton vectorcoreNum subBlock
            out)) ↔ b.ResidualsAgree := by
  constructor
  · intro hall
    have hpos : 0 < b.numTokens := by
      apply Nat.pos_of_ne_zero
      intro hzero
      have hok := hall (fun _ => 0) b.recoveredTokenIds b.bonusTokenIds
        (fun _ => ⟨le_refl 0, zero_lt_one⟩) fun _ _ => placeholderTokenId
      have herr :
        (b.withSamples (fun _ => 0) b.recoveredTokenIds b.bonusTokenIds).blockVerifyPytorch
          (fun _ _ => placeholderTokenId) = .error .indexError := if_pos hzero
      rw [herr] at hok
      cases hok
    refine ⟨hpos, fun i hi hgreedy k hk hlater => (sameResidual_iff hb hi hk).mpr ?_⟩
    apply threshold_eq_of_rows hb hi _ (by omega) hlater
    intro uniform recovered bonus hu row
    have hout := hall uniform recovered bonus hu fun _ => row
    rw [blockVerifyPytorch_apply (withSamples_wellFormed b uniform recovered bonus hb) hpos] at hout
    have hrow := congrFun (Except.ok.inj hout) i
    rw [blockVerifyTriton_apply hcore hsub] at hrow
    have hactive : i < (b.withSamples uniform recovered bonus).batchSize ∧
        (b.withSamples uniform recovered bonus).isGreedy i = false := ⟨hi, hgreedy⟩
    rwa [if_pos hactive, if_pos hactive] at hrow
  · rintro ⟨hpos, hagree⟩ uniform recovered bonus hu out
    rw [blockVerifyPytorch_apply (withSamples_wellFormed b uniform recovered bonus hb) hpos]
    congr 1
    funext i
    rw [blockVerifyTriton_apply hcore hsub]
    split
    · rename_i hactive
      have hlen := acceptedLen_eq_of_agree (withSamples_wellFormed b uniform recovered bonus hb)
        hactive.1 (fun idx => (hu idx).2) fun k hk hlater =>
          (withSamples_sameResidual b _ _ _ i).mpr (hagree i hactive.1 hactive.2 k hk
            fun j hj hjn hcert => hlater j hj hjn ((withSamples_certain b _ _ _ i).mpr hcert))
      rw [thresholdRow, thresholdRow, hlen]
    · rfl

def threeDrafts (rows : List (Nat × (ℚ × ℚ) × ℚ × ℚ)) (uniform : List ℚ) : SampleBatch ℚ where
  numDraftTokens := [3]
  draftTokenIds := fun idx => (rows.getD idx (0, (0, 0), 0, 0)).1
  draftProbs := some fun idx v =>
    if v = 0 then (rows.getD idx (0, (0, 0), 0, 0)).2.2.1 else
      (rows.getD idx (0, (0, 0), 0, 0)).2.2.2
  targetProbs := fun idx v =>
    if v = 0 then (rows.getD idx (0, (0, 0), 0, 0)).2.1.1 else
      (rows.getD idx (0, (0, 0), 0, 0)).2.1.2
  bonusTokenIds := fun _ => 1
  recoveredTokenIds := fun idx => 1 - (rows.getD idx (0, (0, 0), 0, 0)).1
  uniformProbs := fun idx => uniform.getD idx 0
  isGreedy := fun _ => false
  maxSpecLen := 3
  vocabSize := 2

theorem threeDrafts_wellFormed {rows : List (Nat × (ℚ × ℚ) × ℚ × ℚ)} {uniform : List ℚ}
    (htokens : ∀ idx < 3, (threeDrafts rows uniform).draftTokenIds idx < 2)
    (htarget : ∀ idx < 3, IsDistribution 2 ((threeDrafts rows uniform).targetProbs idx))
    (hdraft : ∀ idx < 3, IsDistribution 2 fun v =>
      if v = 0 then (rows.getD idx (0, (0, 0), 0, 0)).2.2.1
      else (rows.getD idx (0, (0, 0), 0, 0)).2.2.2) : (threeDrafts rows uniform).WellFormed where
  counts := by
    intro n hn
    rw [mem_singleton.mp hn]
    exact Nat.le_refl 3
  tokens := htokens
  target := htarget
  draft := by
    rintro q hq
    cases hq
    exact hdraft

/-- The distributions do not change along the drafts, so neither do the residual masses. -/
theorem blockVerifyPytorch_eq_triton_constant :
    (threeDrafts (replicate 3 (0, (1 / 4, 3 / 4), 1 / 2, 1 / 2)) []).WellFormed ∧
      ∀ (uniform : Nat → ℚ) (recovered bonus : Nat → Nat),
        (∀ idx, 0 ≤ uniform idx ∧ uniform idx < 1) → ∀ out : OutputRows,
          ((threeDrafts (replicate 3 (0, (1 / 4, 3 / 4), 1 / 2, 1 / 2)) []).withSamples uniform
            recovered bonus).blockVerifyPytorch out =
            .ok (((threeDrafts (replicate 3 (0, (1 / 4, 3 / 4), 1 / 2, 1 / 2)) []).withSamples
              uniform recovered bonus).blockVerifyTriton 8 (4 * 1024) out) := by
  have hwf : (threeDrafts (replicate 3 (0, (1 / 4, 3 / 4), 1 / 2, 1 / 2)) []).WellFormed :=
    threeDrafts_wellFormed (by decide) (by decide +kernel) (by decide +kernel)
  refine ⟨hwf, (blockVerifyPytorch_eq_triton_iff hwf (by decide) (by decide)).mpr ⟨by decide, ?_⟩⟩
  intro i hi _ k hk _
  obtain rfl : i = 0 := Nat.lt_one_iff.mp hi
  have hk2 : k < 2 := Nat.lt_of_succ_lt_succ hk
  rw [SameResidual]
  interval_cases k <;> decide +kernel

/-- The target exceeds the draft distribution only at the second position, which the kernel looks at
for the first threshold and the grid version does not. -/
theorem blockVerifyPytorch_ne_triton :
    (threeDrafts [(0, (1 / 4, 3 / 4), 1 / 2, 1 / 2), (1, (1 / 2, 1 / 2), 1 / 8, 7 / 8),
        (0, (1 / 2, 1 / 2), 1 / 2, 1 / 2)] [1 / 10, 9 / 10, 9 / 10]).WellFormed ∧
      ((threeDrafts [(0, (1 / 4, 3 / 4), 1 / 2, 1 / 2), (1, (1 / 2, 1 / 2), 1 / 8, 7 / 8),
        (0, (1 / 2, 1 / 2), 1 / 2, 1 / 2)] [1 / 10, 9 / 10, 9 / 10]).blockVerifyPytorch
          fun _ _ => placeholderTokenId).map (fun out => (range 4).map (out 0)) =
        .ok [1, -1, -1, -1] ∧ (range 4).map ((threeDrafts [(0, (1 / 4, 3 / 4), 1 / 2, 1 / 2),
        (1, (1 / 2, 1 / 2), 1 / 8, 7 / 8), (0, (1 / 2, 1 / 2), 1 / 2, 1 / 2)]
        [1 / 10, 9 / 10, 9 / 10]).blockVerifyTriton 8 (4 * 1024)
          (fun _ _ => placeholderTokenId) 0) = [0, 0, -1, -1] := by
  refine ⟨threeDrafts_wellFormed (by decide) (by decide +kernel) (by decide +kernel), ?_, ?_⟩
  · decide +kernel
  · rw [blockVerifyTriton_apply (by decide) (by decide)]
    decide +kernel

end SampleBatch

end VllmEcho
