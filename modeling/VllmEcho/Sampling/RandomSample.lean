import VllmEcho.Sampling.BlockVerify

/-!
# Token-by-token rejection sampling

`rejection_random_sample_kernel` accepts drafts one by one until the first rejection.  The choice
of the verifier is `rejection_sample`'s, and `parse_output` reads the emitted tokens off the row.
-/

namespace VllmEcho

open Function List

variable {𝕜 : Type} [Field 𝕜] [LinearOrder 𝕜]

namespace SampleBatch

variable (b : SampleBatch 𝕜)

def acceptsDraft (idx : Nat) : Bool :=
  decide (0 < b.draftProb idx) && decide (b.uniformProbs idx ≤ b.targetProb idx / b.draftProb idx)

def randomStep (i : Nat) (st : Bool × (Nat → Int)) (pos : Nat) : Bool × (Nat → Int) :=
  if st.1 then st
  else if b.acceptsDraft (b.startIdx i + pos) then
    (false, update st.2 pos (b.draftTokenIds (b.startIdx i + pos) : Int))
  else (true, update st.2 pos (b.recoveredTokenIds (b.startIdx i + pos) : Int))

def randomRow (i : Nat) (row : Nat → Int) : Nat → Int :=
  let st := (range (b.numDrafts i)).foldl (b.randomStep i) (false, row)
  if st.1 then st.2 else update st.2 (b.numDrafts i) (b.bonusTokenIds i : Int)

def randomSampleKernel (grid blockSize : Nat) (out : OutputRows) : OutputRows :=
  launch grid blockSize (fun i => decide (i < b.batchSize) && !b.isGreedy i) b.randomRow out

def usingBlockVerify : Bool :=
  decide (3 ≤ b.maxSpecLen) && b.draftProbs.isSome

variable (vectorcoreNum : Nat)

def rejectionSample (out : OutputRows) : OutputRows :=
  let grid := (calGridAndBlockSize vectorcoreNum b.batchSize).1
  let blockSize := (calGridAndBlockSize vectorcoreNum b.batchSize).2
  if b.usingBlockVerify then b.blockVerifyKernel grid blockSize (4 * 1024) out
  else b.randomSampleKernel grid blockSize out

def parseOutput (row : Nat → Int) : List Nat :=
  (((range (b.maxSpecLen + 1)).map row).filter fun t =>
    decide (t ≠ placeholderTokenId) && decide (t < b.vocabSize)).map Int.toNat

def emitted (i : Nat) : List Nat :=
  b.parseOutput (b.rejectionSample vectorcoreNum (fun _ _ => placeholderTokenId) i)

end SampleBatch

def leadingAccepted (accept : Nat → Bool) : Nat → Nat
  | 0 => 0
  | n + 1 =>
    if leadingAccepted accept n = n ∧ accept n then n + 1 else leadingAccepted accept n

variable (accept : Nat → Bool)

theorem leadingAccepted_le (n : Nat) : leadingAccepted accept n ≤ n := by
  induction n with
  | zero => exact Nat.le_refl 0
  | succ n ih =>
    rw [leadingAccepted]
    split <;> omega

variable {n j : Nat}

theorem le_leadingAccepted_iff (hj : j ≤ n) :
    j ≤ leadingAccepted accept n ↔ ∀ k < j, accept k = true := by
  induction n generalizing j with
  | zero =>
    obtain rfl : j = 0 := by omega
    exact ⟨fun _ k hk => by omega, fun _ => Nat.le_refl 0⟩
  | succ n ih =>
    have hle := leadingAccepted_le accept n
    rw [leadingAccepted]
    by_cases hjn : j = n + 1
    · subst hjn
      have hall := ih (Nat.le_refl n)
      constructor
      · intro h k hk
        split at h
        · rename_i hacc
          by_cases hkn : k = n
          · rw [hkn]
            exact hacc.2
          · exact hall.mp (by omega) k (by omega)
        · omega
      · intro h
        rw [if_pos ⟨by have := hall.mpr fun k hk => h k (by omega); omega, h n (by omega)⟩]
    · rw [← ih (by omega : j ≤ n)]
      split <;> omega

theorem leadingAccepted_eq_iff {accept : Nat → Bool} (hj : j < n) :
    leadingAccepted accept n = j ↔ (∀ k < j, accept k = true) ∧ accept j = false := by
  rw [← le_leadingAccepted_iff accept (Nat.le_of_lt hj)]
  have hnext := le_leadingAccepted_iff accept (Nat.succ_le_of_lt hj)
  have hthis := le_leadingAccepted_iff accept (Nat.le_of_lt hj)
  constructor
  · intro h
    refine ⟨by omega, Bool.eq_false_iff.mpr fun hacc => ?_⟩
    have : j + 1 ≤ leadingAccepted accept n := hnext.mpr fun k hk => by
      by_cases hkj : k = j
      · rw [hkj]
        exact hacc
      · exact hthis.mp (by omega) k (by omega)
    omega
  · rintro ⟨hle, hrej⟩
    by_contra hne
    have := hnext.mp (by omega) j (Nat.lt_succ_self j)
    rw [hrej] at this
    cases this

variable (b : SampleBatch 𝕜) (i : Nat)

namespace SampleBatch

def acceptedPrefix : Nat :=
  leadingAccepted (fun pos => b.acceptsDraft (b.startIdx i + pos)) (b.numDrafts i)

theorem randomStep_foldl (n : Nat) (row : Nat → Int) :
    let L := leadingAccepted (fun pos => b.acceptsDraft (b.startIdx i + pos)) n
    (range n).foldl (b.randomStep i) (false, row) =
      (decide (L ≠ n), fun c =>
        if c < L then (b.draftTokenIds (b.startIdx i + c) : Int)
        else if c = L ∧ L ≠ n then (b.recoveredTokenIds (b.startIdx i + L) : Int) else row c) := by
  induction n with
  | zero => simp [leadingAccepted]
  | succ n ih =>
    have hle := leadingAccepted_le (fun pos => b.acceptsDraft (b.startIdx i + pos)) n
    rw [range_succ, foldl_append, ih, foldl_cons, foldl_nil, randomStep,
      leadingAccepted]
    set L := leadingAccepted (fun pos => b.acceptsDraft (b.startIdx i + pos)) n
    by_cases hL : L = n
    · -- nothing was rejected so far: this draft decides
      simp only [hL, ne_eq, not_true_eq_false, decide_false, Bool.false_eq_true, if_false,
        and_false, true_and]
      by_cases hacc : b.acceptsDraft (b.startIdx i + n) = true
      · rw [if_pos hacc, if_pos hacc, Prod.mk.injEq]
        refine ⟨by simp, ?_⟩
        funext c
        rw [update_apply]
        by_cases hc : c = n
        · rw [if_pos hc, if_pos (by omega), hc]
        · have hlt : c < n + 1 ↔ c < n := by omega
          simp [hc, hlt]
      · rw [if_neg hacc, if_neg hacc, Prod.mk.injEq]
        refine ⟨by simp, ?_⟩
        funext c
        rw [update_apply]
        by_cases hc : c = n
        · rw [if_pos hc, if_neg (by omega), if_pos ⟨hc, by omega⟩]
        · simp [hc]
    · have hne : L ≠ n + 1 := by omega
      simp [hL, hne]

theorem randomRow_eq {i : Nat} (row : Nat → Int) : b.randomRow i row =
      verdictRow (fun pos => b.draftTokenIds (b.startIdx i + pos))
        (fun pos => b.recoveredTokenIds (b.startIdx i + pos)) (b.bonusTokenIds i) (b.numDrafts i)
        (b.acceptedPrefix i) row := by
  funext c
  have hloop := b.randomStep_foldl i (b.numDrafts i) row
  rw [randomRow, hloop, verdictRow, acceptedPrefix]
  set L := leadingAccepted (fun pos => b.acceptsDraft (b.startIdx i + pos)) (b.numDrafts i)
  by_cases hL : L = b.numDrafts i
  · simp only [hL, ne_eq, not_true_eq_false, decide_false, Bool.false_eq_true, if_false, and_false,
      if_true]
    rw [update_apply]
    by_cases hc : c = b.numDrafts i
    · rw [if_pos hc, if_neg (by omega), if_pos hc]
    · rw [if_neg hc, if_neg hc]
  · simp only [hL, ne_eq, not_false_eq_true, decide_true, if_true, and_true, if_false]

theorem rejectionSample_apply {b : SampleBatch 𝕜} {vectorcoreNum i : Nat}
    (hcore : 0 < vectorcoreNum) (hnone : b.draftProbs = none) (hi : i < b.batchSize)
    (hgreedy : b.isGreedy i = false) (out : OutputRows) :
    b.rejectionSample vectorcoreNum out i = b.randomRow i (out i) := by
  have hcover := le_calGridAndBlockSize hcore b.batchSize
  rw [rejectionSample, usingBlockVerify, hnone, Option.isSome_none, Bool.and_false,
    if_neg (by decide), randomSampleKernel, launch_apply, if_pos]
  refine ⟨by omega, ?_⟩
  rw [decide_eq_true hi, hgreedy]
  rfl

omit [Field 𝕜] [LinearOrder 𝕜] in
theorem parseOutput_verdictRow {b : SampleBatch 𝕜} {drafts recovered : Nat → Nat} {bonus L : Nat}
    (hL : L ≤ n) (hn : n ≤ b.maxSpecLen) (hdrafts : ∀ c < n, drafts c < b.vocabSize)
    (hrecovered : ∀ c < n, recovered c < b.vocabSize) (hbonus : bonus < b.vocabSize) :
    b.parseOutput (verdictRow drafts recovered bonus n L fun _ => placeholderTokenId) =
      (range L).map drafts ++ [if L = n then bonus else recovered L] := by
  obtain ⟨d, hd⟩ := Nat.exists_eq_add_of_le (show L + 1 ≤ b.maxSpecLen + 1 by omega)
  set last := if L = n then bonus else recovered L with hlast
  have hlastlt : last < b.vocabSize := by
    rw [hlast]
    split
    · exact hbonus
    · exact hrecovered L (by omega)
  -- the columns split into accepted drafts, the last token and placeholders
  have hrow : (range (b.maxSpecLen + 1)).map
      (verdictRow drafts recovered bonus n L fun _ => placeholderTokenId) =
      (range L).map (fun c => (drafts c : Int)) ++ [(last : Int)] ++
        replicate d placeholderTokenId := by
    rw [hd, range_add, range_succ, map_append, map_append, map_map]
    congr 1
    · congr 1
      · apply map_congr_left
        intro c hc
        rw [verdictRow, if_pos (mem_range.mp hc)]
      · rw [map_singleton, verdictRow, if_neg (Nat.lt_irrefl L), if_pos rfl, hlast]
        split <;> rfl
    · apply ext_getElem (by simp)
      intro k _ _
      rw [getElem_map, getElem_range, getElem_replicate, comp_apply,
        verdictRow, if_neg (by omega), if_neg (by omega)]
  have hkeep : ∀ t : Nat, t < b.vocabSize →
      (decide ((t : Int) ≠ placeholderTokenId) && decide ((t : Int) < b.vocabSize)) = true := by
    intro t ht
    rw [Bool.and_eq_true, decide_eq_true_iff, decide_eq_true_iff]
    refine ⟨?_, by omega⟩
    show (t : Int) ≠ -1
    omega
  rw [parseOutput, hrow, filter_append, filter_append, filter_eq_self.mpr,
    filter_eq_self.mpr, filter_eq_nil_iff.mpr, append_nil, map_append,
    map_map]
  · rfl
  · intro t ht
    rw [(mem_replicate.mp ht).2]
    simp
  · intro t ht
    rw [mem_singleton.mp ht]
    exact hkeep _ hlastlt
  · intro t ht
    obtain ⟨c, hc, rfl⟩ := mem_map.mp ht
    have := mem_range.mp hc
    exact hkeep _ (hdrafts c (by omega))

end SampleBatch

end VllmEcho
