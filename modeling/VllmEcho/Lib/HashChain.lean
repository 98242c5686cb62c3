import Mathlib

/-!
# Chained digests

A digest chain folds a list of blocks into one digest per block, each computed from the digest
before it.  When the step is injective and never returns the seed, a digest determines its position
and every block up to it.
-/

namespace VllmEcho.Lib

open List

universe u v

variable {δ : Type u} {α : Type v}

def chain (H : δ → α → δ) : δ → List α → List δ
  | _, [] => []
  | d, x :: xs => H d x :: chain H (H d x) xs

variable {H : δ → α → δ} {seed : δ} {xs : List α} {d : δ}

@[simp] theorem chain_length : (chain H d xs).length = xs.length := by
  induction xs generalizing d with
  | nil => rfl
  | cons x xs ih => simp [chain, ih]

theorem chain_append (ys : List α) :
    chain H d (xs ++ ys) = chain H d xs ++ chain H (xs.foldl H d) ys := by
  induction xs generalizing d with
  | nil => rfl
  | cons x xs ih =>
    show H d x :: chain H (H d x) (xs ++ ys) = _
    rw [ih]
    rfl

theorem chain_getElem? (d : δ) (xs : List α) (i : Nat) (hi : i < xs.length) :
    (chain H d xs)[i]? = some ((xs.take (i + 1)).foldl H d) := by
  induction xs generalizing d i with
  | nil => simp at hi
  | cons x xs ih =>
    cases i with
    | zero => simp [chain]
    | succ i =>
      rw [chain, getElem?_cons_succ, ih (H d x) i (by simpa using hi)]
      simp

variable {xs ys : List α}

section

variable (hinj : ∀ d x d' x', H d x = H d' x' → d = d' ∧ x = x')
include hinj

theorem chain_injective (d : δ) (h : chain H d xs = chain H d ys) : xs = ys := by
  induction xs generalizing d ys with
  | nil =>
    cases ys with
    | nil => rfl
    | cons y ys => cases h
  | cons x xs ih =>
    cases ys with
    | nil => cases h
    | cons y ys =>
      obtain ⟨hhead, htail⟩ := List.cons.inj h
      obtain ⟨-, rfl⟩ := hinj _ _ _ _ hhead
      rw [ih _ htail]

theorem foldl_injective (hseed : ∀ d x, H d x ≠ seed) (h : xs.foldl H seed = ys.foldl H seed) :
    xs = ys := by
  -- From the back: the last step gives equal last blocks and equal digests before them.
  induction xs using reverseRecOn generalizing ys with
  | nil =>
    cases ys using reverseRecOn with
    | nil => rfl
    | append_singleton ys y =>
      rw [foldl_concat] at h
      exact absurd h.symm (hseed _ _)
  | append_singleton xs x ih =>
    cases ys using reverseRecOn with
    | nil =>
      rw [foldl_concat] at h
      exact absurd h (hseed _ _)
    | append_singleton ys y =>
      rw [foldl_concat, foldl_concat] at h
      obtain ⟨hd, hx⟩ := hinj _ _ _ _ h
      rw [ih hd, hx]

theorem chain_getElem?_eq_iff (hseed : ∀ d x, H d x ≠ seed) {i j : Nat} (hi : i < xs.length)
    (hj : j < ys.length) : (chain H seed xs)[i]? = (chain H seed ys)[j]? ↔
      i = j ∧ xs.take (i + 1) = ys.take (i + 1) := by
  rw [chain_getElem? seed xs i hi, chain_getElem? seed ys j hj, Option.some_inj]
  constructor
  · intro h
    have htake := foldl_injective hinj hseed h
    have hlen := congrArg List.length htake
    rw [length_take, length_take] at hlen
    have hij : i = j := by omega
    exact ⟨hij, hij ▸ htake⟩
  · rintro ⟨rfl, htake⟩
    rw [htake]

end

end VllmEcho.Lib
