import Mathlib

/-!
# Sorting indices by key

An argsort lists the indices of `keys` in the order of their keys; how it orders equal keys is its
own choice.  `argsort` is the stable one.  If the keys are a permutation of `0 … n - 1`, there is
only one answer, the inverse permutation: selecting with it puts the entry with key `k` at place
`k`. If they are rounded first, every answer does so exactly when rounding keeps the keys apart.
-/

namespace VllmEcho.Lib

open List

variable {α κ : Type} [LinearOrder κ] (keys : List κ)

def sortedPairs : List (κ × Nat) :=
  keys.zipIdx.insertionSort fun a b => a.1 ≤ b.1

def argsort : List Nat :=
  (sortedPairs keys).map Prod.snd

/-- What an argsort that promises nothing about equal keys may answer. -/
structure IsArgsort (idx : List Nat) : Prop where
  perm : idx.Perm (range keys.length)
  sorted : idx.Pairwise fun i j => ∀ k ∈ keys[i]?, ∀ k' ∈ keys[j]?, k ≤ k'

def indexSelect (xs : List α) (idx : List Nat) : Option (List α) :=
  idx.mapM fun i => xs[i]?

theorem sortedPairs_perm : (sortedPairs keys).Perm keys.zipIdx :=
  perm_insertionSort _ _

theorem argsort_perm : (argsort keys).Perm (range keys.length) := by
  have hperm := (sortedPairs_perm keys).map Prod.snd
  rw [zipIdx_map_snd, ← range_eq_range'] at hperm
  exact hperm

theorem sortedPairs_pairwise : (sortedPairs keys).Pairwise fun a b => a.1 ≤ b.1 := by
  exact pairwise_insertionSort _ _

theorem getElem?_of_mem_sortedPairs {keys : List κ} {x : κ × Nat} (hx : x ∈ sortedPairs keys) :
    keys[x.2]? = some x.1 :=
  mk_mem_zipIdx_iff_getElem?.mp ((sortedPairs_perm keys).mem_iff.mp hx)

theorem isArgsort_argsort : IsArgsort keys (argsort keys) where
  perm := argsort_perm keys
  sorted := by
    rw [argsort, pairwise_map]
    refine (sortedPairs_pairwise keys).imp_of_mem fun hx hy hle k hk k' hk' => ?_
    rw [getElem?_of_mem_sortedPairs hx, Option.mem_some] at hk
    rw [getElem?_of_mem_sortedPairs hy, Option.mem_some] at hk'
    rw [← hk, ← hk']
    exact hle

section Inverse

variable {keys : List Nat} {n : Nat}

theorem sortedPairs_map_fst (hkeys : keys.Perm (range n)) :
    (sortedPairs keys).map Prod.fst = range n := by
  apply List.Perm.eq_of_pairwise
  · exact fun a b _ _ => Nat.le_antisymm
  · exact pairwise_map.mpr (sortedPairs_pairwise keys)
  · exact (pairwise_lt_range).imp Nat.le_of_lt
  · have hperm := (sortedPairs_perm keys).map Prod.fst
    rw [zipIdx_map_fst] at hperm
    exact hperm.trans hkeys

/-- Selecting by the argsort of the keys undoes a permutation by the keys. -/
theorem indexSelect_argsort {xs ys : List α} (hkeys : keys.Perm (range ys.length))
    (hxs : ∀ i k : Nat, keys[i]? = some k → xs[i]? = ys[k]?) :
    indexSelect xs (argsort keys) = some ys := by
  have hpairs : ∀ ps : List (Nat × Nat), (∀ p ∈ ps, keys[p.2]? = some p.1) →
      (ps.map Prod.snd).mapM (fun i => xs[i]?) = (ps.map Prod.fst).mapM fun k => ys[k]? := by
    intro ps hps
    induction ps with
    | nil => rfl
    | cons p ps ih =>
      rw [map_cons, map_cons, mapM_cons, mapM_cons,
        hxs p.2 p.1 (hps p mem_cons_self),
        ih fun q hq => hps q (mem_cons_of_mem _ hq)]
  have hall : ∀ zs : List α, (range zs.length).mapM (fun k => zs[k]?) = some zs := by
    intro zs
    induction zs with
    | nil => rfl
    | cons z zs ih =>
      rw [length_cons, range_succ_eq_map, mapM_cons, mapM_map]
      show ((some z).bind fun x => (List.mapM (fun k => zs[k]?) (range zs.length)).bind
        fun xs => some (x :: xs)) = _
      rw [ih]
      rfl
  unfold indexSelect argsort
  rw [hpairs _ fun p hp => getElem?_of_mem_sortedPairs hp, sortedPairs_map_fst hkeys, hall]

theorem perm_range_of_mem (hlen : keys.length = n) (hmem : ∀ k, k < n → k ∈ keys) :
    keys.Perm (range n) := by
  apply List.Perm.symm
  apply (subperm_of_subset nodup_range ?_).perm_of_length_le
  · rw [hlen, length_range]
  · intro k hk
    exact hmem k (mem_range.mp hk)

theorem indexSelect_eq_map {idx : List Nat} (hidx : ∀ i ∈ idx, i < keys.length) :
    indexSelect keys idx = some (idx.map fun i => keys.getD i 0) := by
  unfold indexSelect
  induction idx with
  | nil => rfl
  | cons i idx ih =>
    have hi : keys[i]? = some (keys.getD i 0) := by
      rw [getD_eq_getElem?_getD, getElem?_eq_getElem (hidx i mem_cons_self)]
      rfl
    rw [mapM_cons, hi, ih fun j hj => hidx j (mem_cons_of_mem _ hj)]
    rfl

/-- Indices with equal keys may change places. -/
theorem IsArgsort.swap {keys : List κ} {idx : List Nat} (h : IsArgsort keys idx) {i j : Nat}
    (hi : i < keys.length) (hj : j < keys.length) (hkeys : keys[i]? = keys[j]?) :
    IsArgsort keys (idx.map (Equiv.swap i j)) := by
  have hsame : ∀ m, keys[Equiv.swap i j m]? = keys[m]? := by
    intro m
    rw [Equiv.swap_apply_def]
    split
    · rename_i hm
      rw [hm, hkeys]
    split
    · rename_i hm
      rw [hm, hkeys]
    · rfl
  have hbound : ∀ m < keys.length, Equiv.swap i j m < keys.length := by
    intro m hm
    rw [Equiv.swap_apply_def]
    split
    · exact hj
    · split <;> assumption
  constructor
  · apply perm_range_of_mem
    · rw [length_map, h.perm.length_eq, length_range]
    · intro m hm
      refine mem_map.mpr ⟨Equiv.swap i j m, ?_, Equiv.swap_apply_self ..⟩
      exact h.perm.mem_iff.mpr (mem_range.mpr (hbound m hm))
  · rw [pairwise_map]
    simp only [hsame]
    exact h.sorted

variable {f : Nat → Nat}

/-- Rounding the keys does no harm as long as it keeps them apart. -/
theorem IsArgsort.restores (hf : Monotone f) (hkeys : keys.Perm (range n)) {idx : List Nat}
    (h : IsArgsort (keys.map f) idx) (hinj : ∀ a < n, ∀ b < n, f a = f b → a = b) :
    idx.map (keys.getD · 0) = range n := by
  have hidx := h.perm
  rw [length_map] at hidx
  have hget : ∀ i ∈ idx, keys[i]? = some (keys.getD i 0) ∧ keys.getD i 0 < n := by
    intro i hi
    have hlt : i < keys.length := mem_range.mp (hidx.mem_iff.mp hi)
    rw [getD_eq_getElem?_getD, getElem?_eq_getElem hlt]
    exact ⟨rfl, mem_range.mp (hkeys.mem_iff.mp (getElem_mem hlt))⟩
  apply List.Perm.eq_of_pairwise
  · exact fun a b _ _ => Nat.le_antisymm
  · refine pairwise_map.mpr (h.sorted.imp_of_mem fun {i j} hi hj hle => ?_)
    obtain ⟨hgi, hni⟩ := hget i hi
    obtain ⟨hgj, hnj⟩ := hget j hj
    have hround : f (keys.getD i 0) ≤ f (keys.getD j 0) := by
      apply hle
      · rw [getElem?_map, hgi]
        rfl
      · rw [getElem?_map, hgj]
        rfl
    by_contra hinv
    have hlt := Nat.lt_of_not_le hinv
    exact hlt.ne (hinj _ hnj _ hni (Nat.le_antisymm (hf hlt.le) hround))
  · exact pairwise_lt_range.imp Nat.le_of_lt
  · have hmap := hidx.map (keys.getD · 0)
    have hall : (range keys.length).map (keys.getD · 0) = keys := by
      apply ext_getElem
      · simp
      · intro i h1 h2
        simp [h2]
    rw [hall] at hmap
    exact hmap.trans hkeys

/-- Sorting by a rounded key restores the order of the keys, whatever the order of equal keys,
exactly when rounding keeps the keys apart. -/
theorem indexSelect_restores_iff (hf : Monotone f) (hkeys : keys.Perm (range n)) :
    (∀ sort : List Nat → List Nat, (∀ ks, IsArgsort ks (sort ks)) →
        indexSelect keys (sort (keys.map f)) = some (range n)) ↔
      ∀ a < n, ∀ b < n, f a = f b → a = b := by
  have hselect : ∀ {idx}, IsArgsort (keys.map f) idx →
      indexSelect keys idx = some (idx.map (keys.getD · 0)) := by
    intro idx h
    apply indexSelect_eq_map
    intro i hi
    simpa using h.perm.mem_iff.mp hi
  constructor
  · intro hall a ha b hb hab
    obtain ⟨i, hi⟩ := mem_iff_getElem?.mp (hkeys.mem_iff.mpr (mem_range.mpr ha))
    obtain ⟨j, hj⟩ := mem_iff_getElem?.mp (hkeys.mem_iff.mpr (mem_range.mpr hb))
    have hilt : i < (keys.map f).length := by simpa using (List.getElem?_eq_some_iff.mp hi).1
    have hjlt : j < (keys.map f).length := by simpa using (List.getElem?_eq_some_iff.mp hj).1
    have hstable := isArgsort_argsort (keys.map f)
    have hswap := hstable.swap hilt hjlt (by simp [hi, hj, hab])
    have hother := hall (Function.update argsort (keys.map f) _) fun ks => by
      by_cases hks : ks = keys.map f
      · rw [hks, Function.update_self]
        exact hswap
      · rw [Function.update_of_ne hks]
        exact isArgsort_argsort ks
    rw [Function.update_self] at hother
    -- both answers give the same list, so the two places hold the same key
    have hsame := (hall argsort isArgsort_argsort).trans hother.symm
    rw [hselect hstable, hselect hswap, Option.some.injEq, map_map, map_inj_left] at hsame
    have hat := hsame i (hstable.perm.mem_iff.mpr (mem_range.mpr hilt))
    simpa [hi, hj] using hat
  · intro hinj sort hsort
    rw [hselect (hsort _), (hsort _).restores hf hkeys hinj]

end Inverse

end VllmEcho.Lib
