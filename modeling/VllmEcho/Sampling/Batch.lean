import VllmEcho.KVCache.Basic
import VllmEcho.Lib.FlatArrays

/-!
# Batches of the rejection sampler

The arguments the rejection kernels share: per request a run of draft tokens in flat arrays,
addressed through the cumulative counts.  A kernel is launched as a grid of programs, each of
which handles a block of requests and writes their rows of the output.
-/

namespace VllmEcho

open Lib Function List

abbrev OutputRows := Nat → Nat → Int

def placeholderTokenId : Int := -1

/-- The arguments of the random rejection kernels; `draftProbs` is `None` for suffix and n-gram
drafts.  Numbers are exact. -/
structure SampleBatch (𝕜 : Type) where
  numDraftTokens : List Nat
  draftTokenIds : Nat → Nat
  draftProbs : Option (Nat → Nat → 𝕜)
  targetProbs : Nat → Nat → 𝕜
  bonusTokenIds : Nat → Nat
  recoveredTokenIds : Nat → Nat
  uniformProbs : Nat → 𝕜
  isGreedy : Nat → Bool
  maxSpecLen : Nat
  vocabSize : Nat

namespace SampleBatch

variable {𝕜 : Type}

variable (b : SampleBatch 𝕜)

def batchSize : Nat := b.numDraftTokens.length

def numTokens : Nat := b.numDraftTokens.sum

variable (i : Nat)

def cuNumDraftTokens : Nat := (b.numDraftTokens.take (i + 1)).sum

def startIdx : Nat :=
  if i = 0 then 0 else b.cuNumDraftTokens (i - 1)

def numDrafts : Nat := b.cuNumDraftTokens i - b.startIdx i

def draftProb [One 𝕜] (idx : Nat) : 𝕜 :=
  match b.draftProbs with
  | none => 1
  | some q => q idx (b.draftTokenIds idx)

def targetProb (idx : Nat) : 𝕜 := b.targetProbs idx (b.draftTokenIds idx)

theorem startIdx_eq : b.startIdx i = (b.numDraftTokens.take i).sum := by
  rw [startIdx]
  split
  · rename_i hi
    rw [hi]
    rfl
  · rename_i hi
    rw [cuNumDraftTokens, Nat.sub_add_cancel (Nat.pos_of_ne_zero hi)]

theorem numDrafts_eq {i : Nat} (hi : i < b.batchSize) : b.numDrafts i = b.numDraftTokens[i] := by
  rw [numDrafts, startIdx_eq, cuNumDraftTokens, sum_take_succ _ _ hi]
  omega

theorem startIdx_add_numDrafts_le {i : Nat} (hi : i < b.batchSize) :
    b.startIdx i + b.numDrafts i ≤ b.numTokens := by
  rw [numDrafts_eq b hi, startIdx_eq, ← sum_take_succ _ _ hi, numTokens]
  conv_rhs => rw [← take_append_drop (i + 1) b.numDraftTokens, sum_append]
  exact Nat.le_add_right ..

theorem numDrafts_le_maxSpecLen {b : SampleBatch 𝕜}
    (hmax : ∀ n ∈ b.numDraftTokens, n ≤ b.maxSpecLen)
    {i : Nat} (hi : i < b.batchSize) : b.numDrafts i ≤ b.maxSpecLen := by
  rw [numDrafts_eq b hi]
  exact hmax _ (getElem_mem hi)

end SampleBatch

/-! ## Launching a kernel -/

def nextPowerOf2 (n : Nat) : Nat := 2 ^ Nat.clog 2 n

def calGridAndBlockSize (vectorcoreNum batchSize : Nat) : Nat × Nat :=
  if batchSize ≤ vectorcoreNum then (batchSize, 1)
  else (vectorcoreNum, nextPowerOf2 (cdiv batchSize vectorcoreNum))

/-- A launch: program `block` runs `for req_i in range(BLOCK_SIZE)` over its requests.  A request
is skipped when the mask `offsets < vec_len`, or its greedy flag, says so. -/
def launch (grid blockSize : Nat) (active : Nat → Bool) (row : Nat → (Nat → Int) → Nat → Int)
    (out : OutputRows) : OutputRows :=
  (range grid).foldl (fun out block =>
    (range blockSize).foldl (fun out reqI =>
      let reqIdx := block * blockSize + reqI
      if active reqIdx then update out reqIdx (row reqIdx (out reqIdx)) else out) out) out

theorem block_foldl (active : Nat → Bool) (row : Nat → (Nat → Int) → Nat → Int) (base n : Nat)
    (out : OutputRows) (r : Nat) : (range n).foldl (fun out reqI =>
      let reqIdx := base + reqI
      if active reqIdx then update out reqIdx (row reqIdx (out reqIdx)) else out) out r =
      if base ≤ r ∧ r < base + n ∧ active r = true then row r (out r) else out r := by
  induction n with
  | zero =>
    rw [range_zero, foldl_nil, if_neg]
    omega
  | succ n ih =>
    rw [range_succ, foldl_append, foldl_cons, foldl_nil]
    by_cases hr : r = base + n
    · -- the row this turn writes was left alone by the earlier ones
      subst hr
      rw [if_neg (by omega)] at ih
      by_cases hact : active (base + n) = true
      · rw [if_pos hact, update_self, ih, if_pos ⟨by omega, by omega, hact⟩]
      · rw [if_neg hact, ih, if_neg (fun h => hact h.2.2)]
    · have hlt : r < base + (n + 1) ↔ r < base + n := by omega
      simp only [hlt]
      split
      · rw [update_of_ne hr, ih]
      · exact ih

theorem launch_apply (grid blockSize : Nat) (active : Nat → Bool)
    (row : Nat → (Nat → Int) → Nat → Int) (out : OutputRows) (r : Nat) :
    launch grid blockSize active row out r =
      if r < grid * blockSize ∧ active r = true then row r (out r) else out r := by
  rw [launch]
  induction grid with
  | zero =>
    rw [range_zero, foldl_nil, if_neg]
    omega
  | succ grid ih =>
    rw [range_succ, foldl_append, foldl_cons, foldl_nil, block_foldl,
      Nat.succ_mul]
    by_cases hr : grid * blockSize ≤ r
    · rw [if_neg (by omega)] at ih
      rw [ih]
      simp [hr]
    · rw [if_neg (fun h => hr h.1), ih]
      have hlt : r < grid * blockSize ↔ r < grid * blockSize + blockSize := by omega
      simp only [hlt]

theorem le_calGridAndBlockSize {vectorcoreNum : Nat} (hcore : 0 < vectorcoreNum) (batchSize : Nat) :
    batchSize ≤ (calGridAndBlockSize vectorcoreNum batchSize).1 *
      (calGridAndBlockSize vectorcoreNum batchSize).2 := by
  rw [calGridAndBlockSize]
  split
  · omega
  · calc batchSize ≤ cdiv batchSize vectorcoreNum * vectorcoreNum := cdiv_mul_ge _ hcore
      _ = vectorcoreNum * cdiv batchSize vectorcoreNum := Nat.mul_comm ..
      _ ≤ vectorcoreNum * nextPowerOf2 (cdiv batchSize vectorcoreNum) :=
        Nat.mul_le_mul_left _ (Nat.le_pow_clog (by decide) _)

/-! ## Rows -/

variable (tokens : Nat → Nat) (n : Nat) (row : Nat → Int)

def storeTokens : Nat → Int :=
  (range n).foldl (fun row pos => update row pos (tokens pos : Int)) row

theorem storeTokens_apply (c : Nat) :
    storeTokens tokens n row c = if c < n then (tokens c : Int) else row c := by
  have hstore : storeTokens tokens n row =
      scatter ((range n).map fun pos => (pos, (tokens pos : Int))) row := by
    rw [storeTokens, scatter, foldl_map]
  rw [hstore, scatter_apply (v := (tokens c : Int)) (by simp +contextual)]
  simp

/-- The row of a request whose first `accepted` of `n` drafts stand: the drafts, then the bonus
token after all of them or the recovered token of the first rejected one. -/
def verdictRow (drafts recovered : Nat → Nat) (bonus n accepted : Nat) (row : Nat → Int)
    (c : Nat) : Int :=
  if c < accepted then (drafts c : Int)
  else if c = accepted then (if accepted = n then (bonus : Int) else (recovered accepted : Int))
  else row c

/-! ## Distributions -/

@[mk_iff]
structure IsDistribution (vocabSize : Nat) (p : Nat → ℚ) : Prop where
  nonneg : ∀ v < vocabSize, 0 ≤ p v
  total : ((range vocabSize).map p).sum = 1

instance (vocabSize : Nat) (p : Nat → ℚ) : Decidable (IsDistribution vocabSize p) :=
  decidable_of_iff' _ (isDistribution_iff vocabSize p)

theorem IsDistribution.le_one {vocabSize : Nat} {p : Nat → ℚ} (hp : IsDistribution vocabSize p)
    {v : Nat} (hv : v < vocabSize) : p v ≤ 1 := by
  rw [← hp.total]
  apply single_le_sum
  · intro x hx
    obtain ⟨w, hw, rfl⟩ := mem_map.mp hx
    exact hp.nonneg w (mem_range.mp hw)
  · exact mem_map_of_mem (mem_range.mpr hv)

end VllmEcho
