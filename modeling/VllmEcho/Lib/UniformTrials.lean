import Mathlib

/-!
# Independent uniform trials

`U 0, U 1, …` are independent and uniform on the unit interval; trial `k` succeeds when
`U k ≤ p k`.  The chance that the first `j` trials succeed is the product of their `p`, and what
happens in the trials is independent of a variable that is independent of the samples.
-/

namespace VllmEcho.Lib

open Finset MeasureTheory ProbabilityTheory

variable {Ω : Type} [MeasurableSpace Ω] (U : Nat → Ω → ℝ)

structure UniformTrials (μ : Measure Ω) (U : Nat → Ω → ℝ) (n : Nat) : Prop where
  measurable : ∀ k < n, Measurable (U k)
  uniform : ∀ k < n, ∀ t, 0 ≤ t → t ≤ 1 → μ.real {ω | U k ω ≤ t} = t
  independent : iIndepFun (fun (k : Fin n) ω => U k ω) μ

variable (p : Nat → ℝ) (j : Nat)

def Succeed : Set Ω := {ω | ∀ k < j, U k ω ≤ p k}

def FailAt : Set Ω :=
  {ω | (∀ k < j, U k ω ≤ p k) ∧ p j < U j ω}

omit [MeasurableSpace Ω] in
theorem failAt_eq : FailAt U p j = Succeed U p j \ Succeed U p (j + 1) := by
  ext ω
  constructor
  · rintro ⟨hall, hlt⟩
    exact ⟨hall, fun hnext => absurd (hnext j (Nat.lt_succ_self j)) (not_le.mpr hlt)⟩
  · rintro ⟨hall, hnot⟩
    refine ⟨hall, not_le.mp fun hle => hnot fun k hk => ?_⟩
    rcases Nat.lt_succ_iff_lt_or_eq.mp hk with hlt | rfl
    · exact hall k hlt
    · exact hle

namespace UniformTrials

variable {μ : Measure Ω} {U : Nat → Ω → ℝ} {n : Nat} {p : Nat → ℝ} {j : Nat}

theorem measurableSet_succeed (h : UniformTrials μ U n) (hj : j ≤ n) :
    MeasurableSet (Succeed U p j) := by
  have heq : Succeed U p j = ⋂ k ∈ Finset.range j, {ω | U k ω ≤ p k} := by
    ext ω
    simp [Succeed]
  rw [heq]
  apply measurableSet_biInter
  intro k hk
  exact measurableSet_le (h.measurable k (by have := mem_range.mp hk; omega)) measurable_const

/-- The first `j` trials all succeed with the product of their probabilities. -/
theorem real_succeed (h : UniformTrials μ U n) (hp : ∀ k < n, 0 ≤ p k ∧ p k ≤ 1) (hj : j ≤ n) :
    μ.real (Succeed U p j) = ∏ k ∈ Finset.range j, p k := by
  -- independence is stated over `Fin n`
  let S : Finset (Fin n) := Finset.univ.filter fun k => k.val < j
  have heq : Succeed U p j =
      ⋂ k ∈ S, Set.preimage (fun ω => U k.val ω) (Set.Iic (p k.val)) := by
    ext ω
    simp only [Succeed, Set.mem_ofPred_eq, Set.mem_iInter, Set.mem_preimage, Set.mem_Iic, S,
      mem_filter, mem_univ, true_and]
    exact ⟨fun hω k hk => hω k hk, fun hω k hk => hω ⟨k, by omega⟩ hk⟩
  have hmul : μ (⋂ k ∈ S, Set.preimage (fun ω => U k.val ω) (Set.Iic (p k.val))) =
      ∏ k ∈ S, μ (Set.preimage (fun ω => U k.val ω) (Set.Iic (p k.val))) :=
    h.independent.measure_inter_preimage_eq_mul S fun _ _ => measurableSet_Iic
  rw [heq, measureReal_def, hmul, ENNReal.toReal_prod]
  apply prod_bij fun (k : Fin n) _ => k.val
  · intro k hk
    exact mem_range.mpr (mem_filter.mp hk).2
  · intro k _ k' _ hkk'
    exact Fin.ext hkk'
  · intro k hk
    have := mem_range.mp hk
    exact ⟨⟨k, by omega⟩, mem_filter.mpr ⟨mem_univ _, this⟩, rfl⟩
  · intro k _
    exact h.uniform k.val k.isLt (p k.val) (hp k.val k.isLt).1 (hp k.val k.isLt).2

/-! A variable that is independent of the samples. -/

section

variable {Z : Ω → Nat} (hindep : IndepFun (fun ω (k : Fin n) => U k ω) Z μ)

include hindep

/-- The same, together with an event that is independent of the trials. -/
theorem real_succeed_inter (h : UniformTrials μ U n) (hp : ∀ k < n, 0 ≤ p k ∧ p k ≤ 1) (hj : j ≤ n)
    (z : Nat) : μ.real (Succeed U p j ∩ {ω | Z ω = z}) =
      (∏ k ∈ Finset.range j, p k) * μ.real {ω | Z ω = z} := by
  rw [← h.real_succeed hp hj]
  have heq : Succeed U p j = Set.preimage (fun ω (k : Fin n) => U k ω)
      (⋂ k : Fin n, ⋂ _ : k.val < j, {v | v k ≤ p k.val}) := by
    ext ω
    simp only [Set.mem_preimage, Set.mem_iInter]
    exact ⟨fun hω k hk => hω k.val hk, fun hω k hk => hω ⟨k, by omega⟩ hk⟩
  have hbox : MeasurableSet (⋂ k : Fin n, ⋂ _ : k.val < j, {v : Fin n → ℝ | v k ≤ p k.val}) :=
    MeasurableSet.iInter fun k => MeasurableSet.iInter fun _ =>
      measurableSet_le (measurable_pi_apply k) measurable_const
  have hmul := hindep.measure_inter_preimage_eq_mul _ {z} hbox (measurableSet_singleton z)
  rw [heq, measureReal_def, measureReal_def, measureReal_def, ← ENNReal.toReal_mul]
  exact congrArg ENNReal.toReal hmul

theorem real_failAt_inter [IsProbabilityMeasure μ] (h : UniformTrials μ U n)
    (hp : ∀ k < n, 0 ≤ p k ∧ p k ≤ 1) (hj : j < n) (z : Nat) :
    μ.real (FailAt U p j ∩ {ω | Z ω = z}) =
      (∏ k ∈ Finset.range j, p k) * (1 - p j) * μ.real {ω | Z ω = z} := by
  -- the first `j` trials succeed, and with them the next one or not
  have hsplit := measureReal_inter_add_sdiff (μ := μ) (s := Succeed U p j ∩ {ω | Z ω = z})
    (h.measurableSet_succeed (p := p) (Nat.succ_le_of_lt hj))
  have hnext : Succeed U p j ∩ {ω | Z ω = z} ∩ Succeed U p (j + 1) =
      Succeed U p (j + 1) ∩ {ω | Z ω = z} := by
    ext ω
    exact ⟨fun hω => ⟨hω.2, hω.1.2⟩,
      fun hω => ⟨⟨fun k hk => hω.1 k (Nat.lt_succ_of_lt hk), hω.2⟩, hω.1⟩⟩
  rw [hnext, Set.inter_sdiff_right_comm, ← failAt_eq, real_succeed_inter hindep h hp hj,
    real_succeed_inter hindep h hp hj.le, prod_range_succ] at hsplit
  linarith

end

end UniformTrials

end VllmEcho.Lib
