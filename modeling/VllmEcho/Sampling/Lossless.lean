import VllmEcho.Lib.UniformTrials
import VllmEcho.Sampling.RandomSample

/-!
# Speculative decoding with deterministic drafts is lossless

A target model gives the distribution of the next token after a context.  One step verifies the
drafts that were kept for the context and emits the accepted ones and one more token.  What is
emitted is the target's own autoregressive continuation, stopped after the first token that leaves
the drafts, or one token past them.
-/

namespace VllmEcho

open Lib Finset List MeasureTheory ProbabilityTheory Option SampleBatch

variable {j : Nat} {x : List Nat} {y : Nat}

theorem IsDistribution.eq_zero_of_eq_one {vocabSize : Nat} {p : Nat → ℚ}
    (hp : IsDistribution vocabSize p) {d v : Nat} (hd : d < vocabSize) (hv : v < vocabSize)
    (hne : v ≠ d) (hone : p d = 1) : p v = 0 := by
  have hsub : ({v, d} : Finset Nat) ⊆ range vocabSize := by
    intro w hw
    rcases mem_insert.mp hw with rfl | hw
    · exact Finset.mem_range.mpr hv
    · rw [Finset.mem_singleton.mp hw]
      exact Finset.mem_range.mpr hd
  have hle : ∑ w ∈ ({v, d} : Finset Nat), p w ≤ ∑ w ∈ range vocabSize, p w :=
    Finset.sum_le_sum_of_subset_of_nonneg hsub fun w hw _ => hp.nonneg w (Finset.mem_range.mp hw)
  have htotal : ∑ w ∈ range vocabSize, p w = 1 := hp.total
  rw [sum_pair hne] at hle
  have := hp.nonneg v hv
  linarith

structure TargetModel (vocabSize : Nat) where
  prob : List Nat → Nat → ℚ
  distribution : ∀ ctx, IsDistribution vocabSize (prob ctx)

namespace TargetModel

variable {V : Nat} (m : TargetModel V)

def autoregressive : List Nat → List Nat → ℚ
  | _, [] => 1
  | ctx, t :: ts => m.prob ctx t * autoregressive (ctx ++ [t]) ts

variable (ctx : List Nat)

theorem autoregressive_append (xs ys : List Nat) :
    m.autoregressive ctx (xs ++ ys) =
      m.autoregressive ctx xs * m.autoregressive (ctx ++ xs) ys := by
  induction xs generalizing ctx with
  | nil => simp [autoregressive]
  | cons t ts ih =>
    rw [cons_append, autoregressive, ih, autoregressive, append_assoc, cons_append,
      nil_append, mul_assoc]

theorem autoregressive_singleton (t : Nat) : m.autoregressive ctx [t] = m.prob ctx t := by
  rw [autoregressive, autoregressive, mul_one]

def draftChance (kept : List Nat) (k : Nat) : ℚ :=
  m.prob (ctx ++ kept.take k) (kept.getD k 0)

theorem autoregressive_take (kept : List Nat) (hj : j ≤ kept.length) :
    m.autoregressive ctx (kept.take j) = ∏ k ∈ range j, m.draftChance ctx kept k := by
  induction j with
  | zero => rfl
  | succ j ih =>
    rw [Finset.prod_range_succ, ← ih (by omega), draftChance,
      take_succ_eq_append_getElem (Nat.lt_of_succ_le hj), autoregressive_append,
      autoregressive_singleton, getD_eq_getElem _ _ (Nat.lt_of_succ_le hj)]

end TargetModel

/-- The drafts of a step: the drafter's tokens with their draft probabilities, of which a rule that
sees nothing else keeps a beginning. -/
def keptDrafts (drafter : List Nat → List (Nat × ℚ)) (keep : List (Nat × ℚ) → Nat)
    (ctx : List Nat) : List Nat :=
  ((drafter ctx).take (keep (drafter ctx))).map Prod.fst

structure Verifies {V : Nat} (m : TargetModel V) (ctx kept : List Nat) (b : SampleBatch ℝ)
    (i : Nat) : Prop where
  row : i < b.batchSize
  random : b.isGreedy i = false
  noDraftProbs : b.draftProbs = none
  vocab : b.vocabSize = V
  count : b.numDrafts i = kept.length
  fits : kept.length ≤ b.maxSpecLen
  drafts : ∀ k < kept.length, b.draftTokenIds (b.startIdx i + k) = kept.getD k 0
  target : ∀ k < kept.length, ∀ v < V,
    b.targetProbs (b.startIdx i + k) v = (m.prob (ctx ++ kept.take k) v : ℝ)

section

variable {Ω : Type} [MeasurableSpace Ω]

/-- The uniform samples of the row are independent, a recovered token follows the target
distribution with the draft removed and renormalised, the bonus token follows the target
distribution, and both are independent of the uniform samples. -/
structure RandomStep {V : Nat} (m : TargetModel V) (ctx kept : List Nat) (μ : Measure Ω)
    (b : Ω → SampleBatch ℝ) (i : Nat) : Prop where
  verifies : ∀ ω, Verifies m ctx kept (b ω) i
  drafts_lt : ∀ t ∈ kept, t < V
  trials : UniformTrials μ (fun k ω => (b ω).uniformProbs ((b ω).startIdx i + k)) kept.length
  recovered_lt : ∀ ω, ∀ k < kept.length, (b ω).recoveredTokenIds ((b ω).startIdx i + k) < V
  recovered_indep : ∀ k < kept.length,
    IndepFun (fun ω (k : Fin kept.length) => (b ω).uniformProbs ((b ω).startIdx i + k))
      (fun ω => (b ω).recoveredTokenIds ((b ω).startIdx i + k)) μ
  recovered_law : ∀ k < kept.length, m.draftChance ctx kept k < 1 → ∀ v < V,
    μ.real {ω | (b ω).recoveredTokenIds ((b ω).startIdx i + k) = v} =
      if v = kept.getD k 0 then 0
      else (m.prob (ctx ++ kept.take k) v / (1 - m.draftChance ctx kept k) : ℝ)
  bonus_lt : ∀ ω, (b ω).bonusTokenIds i < V
  bonus_indep :
    IndepFun (fun ω (k : Fin kept.length) => (b ω).uniformProbs ((b ω).startIdx i + k))
      (fun ω => (b ω).bonusTokenIds i) μ
  bonus_law : ∀ v < V, μ.real {ω | (b ω).bonusTokenIds i = v} = (m.prob (ctx ++ kept) v : ℝ)

end

/-! ## What is emitted -/

variable {k : Nat}

section

variable {V : Nat} {m : TargetModel V} {ctx kept : List Nat} {b : SampleBatch ℝ} {i : Nat}

theorem getD_lt (hlt : ∀ t ∈ kept, t < V) (hk : k < kept.length) : kept.getD k 0 < V := by
  rw [getD_eq_getElem _ _ hk]
  exact hlt _ (getElem_mem hk)

theorem Verifies.acceptsDraft_iff (h : Verifies m ctx kept b i) (hlt : ∀ t ∈ kept, t < V)
    (hk : k < kept.length) : b.acceptsDraft (b.startIdx i + k) = true ↔
      b.uniformProbs (b.startIdx i + k) ≤ (m.draftChance ctx kept k : ℝ) := by
  rw [acceptsDraft, draftProb, h.noDraftProbs, targetProb,
    h.drafts k hk, h.target k hk _ (getD_lt hlt hk), Bool.and_eq_true, decide_eq_true_iff,
    decide_eq_true_iff, div_one]
  exact ⟨fun hacc => hacc.2, fun hle => ⟨zero_lt_one, hle⟩⟩

theorem Verifies.emitted_eq (h : Verifies m ctx kept b i) (hlt : ∀ t ∈ kept, t < V)
    (hrec : ∀ k < kept.length, b.recoveredTokenIds (b.startIdx i + k) < V)
    (hbonus : b.bonusTokenIds i < V) {vectorcoreNum : Nat} (hcore : 0 < vectorcoreNum) :
    b.emitted vectorcoreNum i = kept.take (b.acceptedPrefix i) ++
      [if b.acceptedPrefix i = kept.length then b.bonusTokenIds i
        else b.recoveredTokenIds (b.startIdx i + b.acceptedPrefix i)] := by
  have hle : b.acceptedPrefix i ≤ b.numDrafts i := leadingAccepted_le _ _
  have hcount := h.count
  have hdrafts : ∀ c < kept.length, b.draftTokenIds (b.startIdx i + c) < V := by
    intro c hc
    rw [h.drafts c hc]
    exact getD_lt hlt hc
  rw [emitted,
    rejectionSample_apply hcore h.noDraftProbs h.row h.random,
    randomRow_eq, parseOutput_verdictRow hle (hcount ▸ h.fits)
      (h.vocab ▸ hcount ▸ hdrafts) (h.vocab ▸ hcount ▸ hrec) (h.vocab ▸ hbonus), hcount]
  congr 1
  apply ext_getElem
  · rw [length_map, length_range, length_take]
    omega
  · intro c hc _
    have hlt' : c < b.acceptedPrefix i := by simpa using hc
    rw [getElem_map, getElem_range, getElem_take, h.drafts c (by omega),
      getD_eq_getElem _ _ (by omega)]

end

theorem prefix_take_append_iff {kept : List Nat} {L t : Nat} (hL : L ≤ kept.length)
    (hx : x <+: kept) : x ++ [y] <+: kept.take L ++ [t] ↔
      (x.length < L ∧ y = kept.getD x.length 0) ∨ (x.length = L ∧ y = t) := by
  have hxtake := prefix_iff_eq_take.mp hx
  rw [prefix_iff_eq_take, length_append, length_singleton]
  rcases Nat.lt_trichotomy x.length L with hlt | heq | hgt
  · have hget : x.length < kept.length := by omega
    rw [take_append_of_le_length (by rw [length_take]; omega), take_take,
      Nat.min_eq_left (by omega), take_succ_eq_append_getElem hget, ← hxtake,
      getD_eq_getElem _ _ hget]
    simp [hlt, Nat.ne_of_lt hlt]
  · subst heq
    rw [← hxtake, take_of_length_le (by simp)]
    simp
  · constructor
    · intro h
      have := congrArg List.length h
      simp only [length_append, length_singleton, length_take] at this
      omega
    · rintro (h | h) <;> omega

theorem prefix_of_prefix_take_append {kept : List Nat} {L t : Nat}
    (h : x ++ [y] <+: kept.take L ++ [t]) : x <+: kept := by
  have hx : x <+: kept.take L := by
    apply prefix_of_prefix_length_le ((prefix_append x [y]).trans h)
      (prefix_append _ _)
    have := h.length_le
    simp only [length_append, length_singleton] at this
    omega
  exact hx.trans ( take_prefix L kept)

/-! ## The law of what is emitted -/

namespace RandomStep

variable {Ω : Type} [MeasurableSpace Ω] {μ : Measure Ω} {V : Nat} {m : TargetModel V}
  {ctx kept : List Nat} {b : Ω → SampleBatch ℝ} {i vectorcoreNum : Nat}

abbrev samples (b : Ω → SampleBatch ℝ) (i k : Nat) (ω : Ω) : ℝ :=
  (b ω).uniformProbs ((b ω).startIdx i + k)

abbrev recovered (b : Ω → SampleBatch ℝ) (i k : Nat) (ω : Ω) : Nat :=
  (b ω).recoveredTokenIds ((b ω).startIdx i + k)

abbrev chance (m : TargetModel V) (ctx kept : List Nat) (k : Nat) : ℝ := m.draftChance ctx kept k

section

variable (h : RandomStep m ctx kept μ b i)

include h

theorem chance_mem (hk : k < kept.length) : 0 ≤ chance m ctx kept k ∧ chance m ctx kept k ≤ 1 := by
  have hlt := getD_lt h.drafts_lt hk
  have hd := m.distribution (ctx ++ kept.take k)
  exact ⟨by exact_mod_cast hd.nonneg _ hlt, by exact_mod_cast hd.le_one hlt⟩

theorem le_acceptedPrefix_iff (hj : j ≤ kept.length) (ω : Ω) :
    j ≤ (b ω).acceptedPrefix i ↔ ω ∈ Succeed (samples b i) (chance m ctx kept) j := by
  rw [acceptedPrefix, (h.verifies ω).count, le_leadingAccepted_iff _ hj]
  constructor
  · intro hacc k hk
    exact ((h.verifies ω).acceptsDraft_iff h.drafts_lt (by omega)).mp (hacc k hk)
  · intro hacc k hk
    exact ((h.verifies ω).acceptsDraft_iff h.drafts_lt (by omega)).mpr (hacc k hk)

theorem acceptedPrefix_eq_iff (hj : j < kept.length) (ω : Ω) :
    (b ω).acceptedPrefix i = j ↔ ω ∈ FailAt (samples b i) (chance m ctx kept) j := by
  rw [failAt_eq, Set.mem_sdiff, ← h.le_acceptedPrefix_iff hj.le, ← h.le_acceptedPrefix_iff hj]
  omega

theorem acceptedPrefix_le (ω : Ω) : (b ω).acceptedPrefix i ≤ kept.length := by
  rw [← (h.verifies ω).count]
  exact leadingAccepted_le _ _

variable (hcore : 0 < vectorcoreNum)

include hcore

theorem emitted_eq (ω : Ω) : (b ω).emitted vectorcoreNum i = kept.take ((b ω).acceptedPrefix i) ++
      [if (b ω).acceptedPrefix i = kept.length then (b ω).bonusTokenIds i
        else recovered b i ((b ω).acceptedPrefix i) ω] :=
  (h.verifies ω).emitted_eq h.drafts_lt (h.recovered_lt ω) (h.bonus_lt ω) hcore

theorem prefixEvent_lt (hx : x <+: kept) (hlt : x.length < kept.length) :
    {ω | x ++ [y] <+: (b ω).emitted vectorcoreNum i} =
      (FailAt (samples b i) (chance m ctx kept) x.length ∩ {ω | recovered b i x.length ω = y}) ∪
        (if y = kept.getD x.length 0 then
          Succeed (samples b i) (chance m ctx kept) (x.length + 1) else ∅) := by
  ext ω
  rw [Set.mem_ofPred_eq, h.emitted_eq hcore ω, prefix_take_append_iff (h.acceptedPrefix_le ω) hx,
    Set.mem_union, Set.mem_inter_iff, ← h.acceptedPrefix_eq_iff hlt]
  have hnext := h.le_acceptedPrefix_iff (Nat.succ_le_of_lt hlt) ω
  constructor
  · rintro (⟨hL, rfl⟩ | ⟨hL, hy⟩)
    · right
      rw [if_pos rfl]
      exact hnext.mp hL
    · left
      rw [if_neg (by omega), ← hL] at hy
      exact ⟨hL.symm, hy.symm⟩
  · rintro (⟨hL, hy⟩ | hy)
    · right
      rw [if_neg (by omega), hL]
      exact ⟨rfl, hy.symm⟩
    · left
      split at hy
      · rename_i hyd
        exact ⟨hnext.mpr hy, hyd⟩
      · cases hy

theorem prefixEvent_eq (y : Nat) : {ω | kept ++ [y] <+: (b ω).emitted vectorcoreNum i} =
      Succeed (samples b i) (chance m ctx kept) kept.length ∩ {ω | (b ω).bonusTokenIds i = y} := by
  ext ω
  have hle := h.acceptedPrefix_le ω
  rw [Set.mem_ofPred_eq, h.emitted_eq hcore ω,
    prefix_take_append_iff (h.acceptedPrefix_le ω) (prefix_refl kept), Set.mem_inter_iff,
    ← h.le_acceptedPrefix_iff (Nat.le_refl _)]
  constructor
  · rintro (⟨hL, _⟩ | ⟨hL, hy⟩)
    · omega
    · rw [if_pos hL.symm] at hy
      exact ⟨by omega, hy.symm⟩
  · rintro ⟨hL, hy⟩
    have hL' : (b ω).acceptedPrefix i = kept.length := by omega
    rw [if_pos hL']
    exact Or.inr ⟨hL'.symm, hy.symm⟩

end

variable [IsProbabilityMeasure μ] (h : RandomStep m ctx kept μ b i) (hcore : 0 < vectorcoreNum)

include h

theorem real_recovered_draft (hj : j < kept.length) :
    μ.real (FailAt (samples b i) (chance m ctx kept) j ∩
      {ω | recovered b i j ω = kept.getD j 0}) = 0 := by
  rw [h.trials.real_failAt_inter (h.recovered_indep j hj) (fun k hk => h.chance_mem hk) hj]
  by_cases hone : m.draftChance ctx kept j < 1
  · rw [h.recovered_law j hj hone _ (getD_lt h.drafts_lt hj), if_pos rfl, mul_zero]
  · have heq : chance m ctx kept j = 1 :=
      le_antisymm (h.chance_mem hj).2 (by exact_mod_cast not_lt.mp hone)
    rw [heq, sub_self, mul_zero, zero_mul]

theorem real_recovered_other (hj : j < kept.length) (hy : y < V) (hne : y ≠ kept.getD j 0) :
    μ.real (FailAt (samples b i) (chance m ctx kept) j ∩ {ω | recovered b i j ω = y}) =
      (∏ k ∈ range j, chance m ctx kept k) * (m.prob (ctx ++ kept.take j) y : ℝ) := by
  rw [h.trials.real_failAt_inter (h.recovered_indep j hj) (fun k hk => h.chance_mem hk) hj]
  by_cases hone : m.draftChance ctx kept j < 1
  · rw [h.recovered_law j hj hone y hy, if_neg hne, mul_assoc]
    have hpos : (1 - chance m ctx kept j) ≠ 0 := by
      have : chance m ctx kept j < 1 := by exact_mod_cast hone
      linarith
    rw [mul_div_cancel₀ _ hpos]
  · have heq : m.draftChance ctx kept j = 1 :=
      le_antisymm ((m.distribution _).le_one (getD_lt h.drafts_lt hj)) (not_lt.mp hone)
    have hzero := (m.distribution (ctx ++ kept.take j)).eq_zero_of_eq_one
      (getD_lt h.drafts_lt hj) hy hne heq
    rw [hzero, chance, heq]
    simp

omit h [IsProbabilityMeasure μ] in
theorem prod_chance (hj : j ≤ kept.length) :
    ∏ k ∈ range j, chance m ctx kept k = (m.autoregressive ctx (kept.take j) : ℝ) := by
  rw [m.autoregressive_take ctx kept hj, Rat.cast_prod]

include hcore

/-- The emitted tokens have the target's probabilities. -/
theorem real_prefix (hx : x <+: kept) (hy : y < V) :
    μ.real {ω | x ++ [y] <+: (b ω).emitted vectorcoreNum i} =
      (m.autoregressive ctx (x ++ [y]) : ℝ) := by
  have hxtake := prefix_iff_eq_take.mp hx
  have hp := fun k hk => h.chance_mem (k := k) hk
  rw [m.autoregressive_append, m.autoregressive_singleton, Rat.cast_mul]
  rcases Nat.lt_or_ge x.length kept.length with hlt | hge
  · rw [h.prefixEvent_lt hcore hx hlt]
    by_cases hyd : y = kept.getD x.length 0
    · -- the draft itself: accepted, or recovered with probability zero
      rw [if_pos hyd]
      have hdisj : Disjoint (FailAt (samples b i) (chance m ctx kept) x.length ∩
          {ω | recovered b i x.length ω = y})
          (Succeed (samples b i) (chance m ctx kept) (x.length + 1)) :=
        Set.disjoint_left.mpr fun ω hfail hsucc =>
          absurd (hsucc x.length (Nat.lt_succ_self _)) (not_le.mpr hfail.1.2)
      rw [measureReal_union hdisj (h.trials.measurableSet_succeed (by omega)), hyd,
        h.real_recovered_draft hlt, zero_add, h.trials.real_succeed hp (by omega),
        Finset.prod_range_succ, prod_chance (by omega), chance, TargetModel.draftChance,
        ← hxtake]
    · rw [if_neg hyd, Set.union_empty, h.real_recovered_other hlt hy hyd, prod_chance (by omega),
        ← hxtake]
  · have heq : x = kept := hx.eq_of_length (by have := hx.length_le; omega)
    rw [heq, h.prefixEvent_eq hcore, h.trials.real_succeed_inter h.bonus_indep hp (Nat.le_refl _),
      h.bonus_law y hy, prod_chance (Nat.le_refl _), take_length]

omit [IsProbabilityMeasure μ] in
theorem real_length (hk : 0 < k) : μ.real {ω | k ≤ ((b ω).emitted vectorcoreNum i).length} =
      if k ≤ kept.length + 1 then (m.autoregressive ctx (kept.take (k - 1)) : ℝ) else 0 := by
  have hlen : ∀ ω, ((b ω).emitted vectorcoreNum i).length = (b ω).acceptedPrefix i + 1 := by
    intro ω
    have := h.acceptedPrefix_le ω
    rw [h.emitted_eq hcore ω, length_append, length_take, length_singleton]
    omega
  split
  · rename_i hle
    have heq : {ω | k ≤ ((b ω).emitted vectorcoreNum i).length} =
        Succeed (samples b i) (chance m ctx kept) (k - 1) := by
      ext ω
      rw [Set.mem_ofPred_eq, hlen, ← h.le_acceptedPrefix_iff (by omega)]
      omega
    rw [heq, h.trials.real_succeed (fun k hk => h.chance_mem hk) (by omega), prod_chance (by omega)]
  · have heq : {ω | k ≤ ((b ω).emitted vectorcoreNum i).length} = ∅ := by
      ext ω
      have := h.acceptedPrefix_le ω
      rw [Set.mem_ofPred_eq, hlen]
      simp only [Set.mem_empty_iff_false, iff_false]
      omega
    rw [heq, measureReal_empty]

end RandomStep

/-- One step continues the context as the target model does, whatever is drafted and kept: the
chance that the emitted tokens begin with `x` is the product of the target's probabilities, if the
run does not leave the drafts before the end of `x`; and given how many tokens are emitted, they are
distributed as in the target's run. -/
theorem rejectionSample_lossless {V : Nat} (m : TargetModel V)
    (drafter : List Nat → List (Nat × ℚ)) (keep : List (Nat × ℚ) → Nat) (ctx : List Nat)
    {Ω : Type} [MeasurableSpace Ω] {μ : Measure Ω} [IsProbabilityMeasure μ]
    {b : Ω → SampleBatch ℝ} {i vectorcoreNum : Nat} (hcore : 0 < vectorcoreNum)
    (h : RandomStep m ctx (keptDrafts drafter keep ctx) μ b i) {x : List Nat} (hne : x ≠ [])
    (hx : ∀ t ∈ x, t < V) : μ.real {ω | x <+: (b ω).emitted vectorcoreNum i} =
        (if x.dropLast <+: keptDrafts drafter keep ctx then (m.autoregressive ctx x : ℝ) else 0) ∧
      μ.real {ω | x.length ≤ ((b ω).emitted vectorcoreNum i).length} =
        (if x.length ≤ (keptDrafts drafter keep ctx).length + 1 then
          (m.autoregressive ctx ((keptDrafts drafter keep ctx).take (x.length - 1)) : ℝ) else 0) ∧
      μ.real {ω | x <+: (b ω).emitted vectorcoreNum i} /
          μ.real {ω | x.length ≤ ((b ω).emitted vectorcoreNum i).length} =
        (if x.dropLast <+: keptDrafts drafter keep ctx then
          (m.autoregressive ctx x / m.autoregressive ctx x.dropLast : ℝ) else 0) := by
  set kept := keptDrafts drafter keep ctx
  have hlast := dropLast_append_getLast hne
  have hxlen : x.length - 1 = x.dropLast.length := by rw [length_dropLast]
  have hpos : 0 < x.length := length_pos_iff.mpr hne
  have hjoint : μ.real {ω | x <+: (b ω).emitted vectorcoreNum i} =
      if x.dropLast <+: kept then (m.autoregressive ctx x : ℝ) else 0 := by
    split
    · rename_i hpre
      have := h.real_prefix hcore hpre (hx _ (getLast_mem hne))
      rwa [hlast] at this
    rename_i hpre
    have hempty : {ω | x <+: (b ω).emitted vectorcoreNum i} = ∅ := by
      ext ω
      simp only [Set.mem_ofPred_eq, Set.mem_empty_iff_false, iff_false]
      intro hω
      rw [h.emitted_eq hcore ω, ← hlast] at hω
      exact hpre (prefix_of_prefix_take_append hω)
    rw [hempty, measureReal_empty]
  refine ⟨hjoint, h.real_length hcore hpos, ?_⟩
  rw [hjoint]
  split
  · rename_i hpre
    have hle := hpre.length_le
    rw [h.real_length hcore hpos, if_pos (by omega), hxlen, ← prefix_iff_eq_take.mp hpre]
  · rw [zero_div]

def coinModel : TargetModel 2 where
  prob ctx v := if ctx = [] then 1 / 2 else if v = 1 then 1 else 0
  distribution ctx := by
    by_cases hctx : ctx = []
    · simp only [hctx, if_true]
      decide +kernel
    · simp only [hctx, if_false]
      decide +kernel

def coinBatch (u : ℝ) : SampleBatch ℝ where
  numDraftTokens := [1]
  draftTokenIds := fun _ => 0
  draftProbs := none
  targetProbs := fun _ _ => ((1 / 2 : ℚ) : ℝ)
  bonusTokenIds := fun _ => 1
  recoveredTokenIds := fun _ => 1
  uniformProbs := fun _ => u
  isGreedy := fun _ => false
  maxSpecLen := 1
  vocabSize := 2

noncomputable def unitLaw : Measure ℝ := volume.restrict (Set.Icc 0 1)

instance : IsProbabilityMeasure unitLaw := ⟨by simp [unitLaw]⟩

theorem unitLaw_real_le {t : ℝ} (h0 : 0 ≤ t) (h1 : t ≤ 1) : unitLaw.real {u | u ≤ t} = t := by
  have hset : Set.Iic t ∩ Set.Icc 0 1 = Set.Icc 0 t := by
    ext u
    constructor
    · rintro ⟨hut, hu0, _⟩
      exact ⟨hu0, hut⟩
    · rintro ⟨hu0, hut⟩
      exact ⟨hut, hu0, hut.trans h1⟩
  show unitLaw.real (Set.Iic t) = t
  rw [unitLaw, measureReal_restrict_apply measurableSet_Iic, hset, Real.volume_real_Icc_of_le h0,
    sub_zero]

theorem coinBatch_randomStep : RandomStep coinModel [] [0] unitLaw coinBatch 0 where
  verifies u := by
    refine ⟨Nat.lt_succ_self 0, rfl, rfl, rfl, rfl, Nat.le_refl 1, ?_, ?_⟩
    · intro k hk
      obtain rfl : k = 0 := Nat.lt_one_iff.mp hk
      rfl
    · intro k hk v _
      obtain rfl : k = 0 := Nat.lt_one_iff.mp hk
      rfl
  drafts_lt := by decide
  trials := ⟨fun _ _ => measurable_id, fun _ _ t h0 h1 => unitLaw_real_le h0 h1,
    haveI : Subsingleton (Fin [0].length) := inferInstanceAs (Subsingleton (Fin 1))
    iIndepFun.of_subsingleton⟩
  recovered_lt _ _ _ := Nat.lt_succ_self 1
  recovered_indep _ _ := indepFun_const_right _ _
  recovered_law k hk _ v hv := by
    obtain rfl : k = 0 := Nat.lt_one_iff.mp hk
    interval_cases v
    · simp [coinBatch]
    · simp [coinBatch, coinModel, TargetModel.draftChance]
      norm_num
  bonus_lt _ := Nat.lt_succ_self 1
  bonus_indep := indepFun_const_right _ _
  bonus_law v hv := by
    interval_cases v
    · simp [coinBatch, coinModel]
    · simp [coinBatch, coinModel]

/-- The draft is accepted and followed by the bonus token with probability one half, which is
certain once two tokens are emitted. -/
theorem rejectionSample_lossless_coin :
    RandomStep coinModel [] (keptDrafts (fun _ => [(0, 1)]) (fun _ => 1) []) unitLaw coinBatch 0 ∧
      unitLaw.real {u | [0, 1] <+: (coinBatch u).emitted 8 0} = 1 / 2 ∧
      unitLaw.real {u | [0, 1] <+: (coinBatch u).emitted 8 0} /
        unitLaw.real {u | 2 ≤ ((coinBatch u).emitted 8 0).length} = 1 := by
  have hstep : RandomStep coinModel [] (keptDrafts (fun _ => [(0, 1)]) (fun _ => 1) []) unitLaw
      coinBatch 0 := coinBatch_randomStep
  obtain ⟨hjoint, -, hcond⟩ := rejectionSample_lossless coinModel (fun _ => [(0, 1)])
    (fun _ => 1) []
    (by decide : 0 < 8) hstep (by decide : [0, 1] ≠ []) (by decide)
  have hpre : [0, 1].dropLast <+: keptDrafts (fun _ => [(0, (1 : ℚ))]) (fun _ => 1) [] :=
    prefix_refl [0]
  have hauto : coinModel.autoregressive [] [0, 1] = 1 / 2 := by decide +kernel
  have hauto' : coinModel.autoregressive [] [0, 1].dropLast = 1 / 2 := by decide +kernel
  rw [if_pos hpre, hauto] at hjoint
  rw [if_pos hpre, hauto, hauto'] at hcond
  refine ⟨hstep, ?_, ?_⟩
  · rw [hjoint]
    norm_num
  · refine Eq.trans hcond ?_
    norm_num

end VllmEcho
