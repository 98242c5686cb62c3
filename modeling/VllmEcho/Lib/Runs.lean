import Mathlib

/-!
# Runs of a transition system

States reached from an initial state by steps that each meet a condition, the invariant rule for
them, and an executable replay of a list of actions for concrete runs.
-/

namespace VllmEcho.Lib

universe u v

variable {σ : Type u} {ι : Type v}

/-- The states reached by runs whose steps all meet `guard`. -/
inductive Reaches (init : σ → Prop) (step : σ → ι → σ → Prop) (guard : σ → ι → Prop) : σ → Prop
  | start {s : σ} (hinit : init s) : Reaches init step guard s
  | next {s s' : σ} {i : ι} (hrun : Reaches init step guard s) (hguard : guard s i)
      (hstep : step s i s') : Reaches init step guard s'

namespace Reaches

variable {init : σ → Prop} {step : σ → ι → σ → Prop} {guard guard' : σ → ι → Prop} {s : σ}

theorem invariant {I : σ → Prop} (hinit : ∀ s, init s → I s)
    (hstep : ∀ s i s', I s → guard s i → step s i s' → I s') (h : Reaches init step guard s) :
    I s := by
  induction h with
  | start hs => exact hinit _ hs
  | next _ hguard hs ih => exact hstep _ _ _ ih hguard hs

def replay (exec : σ → ι → Option σ) (check : σ → ι → Bool) : σ → List ι → Option σ
  | s, [] => some s
  | s, i :: is => if check s i then (exec s i).bind fun s' => replay exec check s' is else none

theorem replay_reaches {exec : σ → ι → Option σ} {check : σ → ι → Bool}
    (hexec : ∀ s i s', exec s i = some s' → step s i s')
    (hcheck : ∀ s i, check s i = true → guard s i) (is : List ι) {s₀ : σ}
    (h₀ : Reaches init step guard s₀) (hrun : replay exec check s₀ is = some s) :
    Reaches init step guard s := by
  induction is generalizing s₀ with
  | nil =>
    cases hrun
    exact h₀
  | cons i is ih =>
    rw [replay] at hrun
    split at hrun <;> rename_i hc
    · obtain ⟨s₁, h₁, hrest⟩ := Option.bind_eq_some_iff.mp hrun
      exact ih (h₀.next (hcheck _ _ hc) (hexec _ _ _ h₁)) hrest
    · cases hrun

end Reaches

end VllmEcho.Lib
