import VllmEcho.Eplb.DefaultPolicy
import VllmEcho.Lib.Rounding
import VllmEcho.Lib.Slots

/-!
# Handing out redundant copies

After the first step every expert that received a copy is at least half as heavy as any other
expert.  This is what keeps the packing step from running into a corner.
-/

namespace VllmEcho

open List

variable {fl : ℚ → ℚ} (weights : List (Nat × ℚ)) (redundancy : List (List Nat)) {loads : List ℚ}
  {t : Nat × ℚ} (expert : Nat) {item : Nat}

namespace DefaultEplb

/-! ## Sorting -/

theorem sortDescending_perm : (sortDescending weights).Perm weights :=
  (reverse_perm _).trans (perm_insertionSort _ weights)

theorem sortDescending_pairwise : (sortDescending weights).Pairwise fun s t => t.2 ≤ s.2 := by
  unfold sortDescending
  rw [pairwise_reverse]
  exact pairwise_insertionSort _ weights

/-! ## One more copy -/

def copiesOf : Nat :=
  ((redundancy[expert]?).getD []).length

theorem copiesOf_set {redundancy : List (List Nat)} (copies : List Nat)
    (hitem : item < redundancy.length) (expert : Nat) :
    copiesOf (redundancy.set item copies) expert =
      if item = expert then copies.length else copiesOf redundancy expert := by
  unfold copiesOf
  rw [getElem?_set]
  by_cases heq : item = expert
  · rw [if_pos heq, if_pos heq, if_pos hitem]
    rfl
  · rw [if_neg heq, if_neg heq]

/-- The average over one copy more lies between half of the weight and the weight, also after
rounding.  Halving the weight of an expert without copies is exact; later averages have room. -/
theorem average_mem (hfl : Lib.IsRounding fl) {weight : ℚ} (hweight : 0 ≤ weight) {k : Nat}
    (hk : k + 1 ≤ 2 ^ 50) (hexact : k = 0 → fl weight = weight) :
    weight ≤ 2 * fl (fl (weight * (k + 1)) / (k + 1 + 1)) ∧
      fl (fl (weight * (k + 1)) / (k + 1 + 1)) ≤ weight := by
  rcases k.eq_zero_or_pos with rfl | hpos
  · have hfloat := hexact rfl
    rw [Nat.cast_zero, zero_add, mul_one, hfloat, one_add_one_eq_two, hfl.half _ hweight hfloat]
    constructor <;> linarith
  have hk' : (k : ℚ) + 1 ≤ 2 ^ 50 := by exact_mod_cast hk
  have hpos' : (1 : ℚ) ≤ k := by exact_mod_cast hpos
  have hden : (0 : ℚ) < k + 1 + 1 := by positivity
  have hraw := abs_le.mp (hfl.error (weight * (k + 1)) (by positivity))
  generalize fl (weight * (k + 1)) = raw at hraw ⊢
  have hrawNonneg : 0 ≤ raw := by
    linarith
  have havg := abs_le.mp (hfl.error (raw / (k + 1 + 1)) (by positivity))
  generalize fl (raw / (k + 1 + 1)) = avg at havg ⊢
  have hmul : raw / (k + 1 + 1) * (k + 1 + 1) = raw := div_mul_cancel₀ raw hden.ne'
  constructor
  · have hle : weight * (k + 1 + 1) ≤ 2 * avg * (k + 1 + 1) := by nlinarith
    exact le_of_mul_le_mul_right hle hden
  · have hle : avg * (k + 1 + 1) ≤ weight * (k + 1 + 1) := by nlinarith
    exact le_of_mul_le_mul_right hle hden

structure Replicated (fl : ℚ → ℚ) (routeExpertNum n : Nat) (st : Replication) : Prop where
  ids : (st.weights.map Prod.fst).Perm (range routeExpertNum)
  nonneg : ∀ t ∈ st.weights, 0 ≤ t.2
  unsplit : ∀ t ∈ st.weights, copiesOf st.redundancy t.1 = 0 → fl t.2 = t.2
  rows : st.redundancy.length = routeExpertNum
  copies : (st.redundancy.map List.length).sum = n
  -- an expert that was split is at least half as heavy as any other
  heavy : ∀ t ∈ st.weights, copiesOf st.redundancy t.1 ≠ 0 → ∀ u ∈ st.weights, u.2 ≤ 2 * t.2

theorem enumerateWeights_map_fst : (enumerateWeights loads).map Prod.fst = range loads.length := by
  unfold enumerateWeights
  rw [map_map]
  show (loads.zipIdx.map fun t => t.2) = _
  rw [zipIdx_map_snd, range_eq_range']

theorem length_enumerateWeights : (enumerateWeights loads).length = loads.length := by
  simp [enumerateWeights]

theorem snd_mem_of_mem_enumerateWeights (ht : t ∈ enumerateWeights loads) : t.2 ∈ loads := by
  obtain ⟨u, hu, rfl⟩ := mem_map.mp ht
  exact fst_mem_of_mem_zipIdx hu

theorem copiesOf_replicate_nil (n expert : Nat) : copiesOf (List.replicate n []) expert = 0 := by
  unfold copiesOf
  rw [getElem?_replicate]
  split <;> rfl

theorem Replicated.init (hloads : ∀ w ∈ loads, 0 ≤ w) (hfloat : ∀ w ∈ loads, fl w = w) :
    Replicated fl loads.length 0
      ⟨enumerateWeights loads, List.replicate (enumerateWeights loads).length []⟩ where
  ids := by rw [enumerateWeights_map_fst]
  nonneg t ht := hloads t.2 (snd_mem_of_mem_enumerateWeights ht)
  unsplit t ht _ := hfloat t.2 (snd_mem_of_mem_enumerateWeights ht)
  rows := by rw [length_replicate, length_enumerateWeights]
  copies := by simp
  heavy t _ hne := absurd (copiesOf_replicate_nil _ t.1) hne

theorem sum_length_set {redundancy : List (List Nat)} {copies : List Nat}
    (hget : redundancy[item]? = some copies) (x : Nat) :
    ((redundancy.set item (copies ++ [x])).map List.length).sum =
      (redundancy.map List.length).sum + 1 := by
  obtain ⟨rows, rows', rfl, hset⟩ := Lib.exists_set_split hget
  simp [hset]
  omega

/-- One more copy goes to the heaviest expert, which stays at least half as heavy as any other. -/
theorem Replicated.split (hfl : Lib.IsRounding fl) {routeExpertNum n : Nat} {st : Replication}
    (hst : Replicated fl routeExpertNum n st) (hpos : 0 < routeExpertNum) (hn : n + 1 ≤ 2 ^ 50)
    (i : Nat) : ∃ st', st.split fl routeExpertNum i = .ok st' ∧
      Replicated fl routeExpertNum (n + 1) st' := by
  have hperm := sortDescending_perm st.weights
  have hsorted := sortDescending_pairwise st.weights
  have hids := (hperm.map Prod.fst).trans hst.ids
  unfold Replication.split
  match hsort : sortDescending st.weights with
  | [] =>
    rw [hsort] at hids
    have hlen := hids.length_eq
    simp at hlen
    omega
  | (item, weight) :: others =>
    rw [hsort] at hperm hsorted hids
    have hmem : ∀ u, u ∈ st.weights ↔ u ∈ (item, weight) :: others := fun u =>
      hperm.mem_iff.symm
    have hitem : item < st.redundancy.length := by
      rw [hst.rows, ← mem_range]
      exact hids.mem_iff.mp (by simp)
    have htop : ∀ u ∈ st.weights, u.2 ≤ weight := by
      intro u hu
      cases mem_cons.mp ((hmem u).mp hu) with
      | inl heq => exact heq ▸ le_refl _
      | inr hin => exact rel_of_pairwise_cons hsorted hin
    have hweight : 0 ≤ weight := hst.nonneg (item, weight) ((hmem _).mpr mem_cons_self)
    have hget := getElem?_eq_getElem hitem
    simp only [hget]
    refine ⟨_, rfl, ?_⟩
    generalize st.redundancy[item] = copies at hget
    have hcopies : copiesOf st.redundancy item = copies.length := by rw [copiesOf, hget]; rfl
    have hfew : copies.length ≤ n := by
      rw [← hst.copies]
      exact le_sum_of_mem (mem_map_of_mem (mem_of_getElem? hget))
    have havg := average_mem hfl hweight (show copies.length + 1 ≤ 2 ^ 50 by omega)
      fun hzero => hst.unsplit (item, weight) ((hmem _).mpr mem_cons_self) (hcopies.trans hzero)
    simp only [length_append, length_singleton, Nat.cast_add, Nat.cast_one]
    generalize fl (fl (weight * (copies.length + 1)) / (copies.length + 1 + 1)) = avg at havg
    have hold : ∀ u ∈ (item, avg) :: others, u.2 ≤ weight := by
      intro u hu
      cases mem_cons.mp hu with
      | inl heq => exact heq ▸ havg.2
      | inr hin => exact htop u ((hmem u).mpr (mem_cons_of_mem _ hin))
    have hother : ∀ t ∈ others, item ≠ t.1 := by
      intro t hin heq
      have hnodup := hids.nodup_iff.mpr nodup_range
      rw [map_cons, nodup_cons] at hnodup
      apply hnodup.1
      show item ∈ _
      rw [heq]
      exact mem_map_of_mem hin
    exact {
      ids := hids
      nonneg := by
        intro u hu
        cases mem_cons.mp hu with
        | inl heq => subst heq; show 0 ≤ avg; linarith
        | inr hin => exact hst.nonneg u ((hmem u).mpr (mem_cons_of_mem _ hin))
      unsplit := by
        intro t ht hzero
        rw [copiesOf_set _ hitem] at hzero
        cases mem_cons.mp ht with
        | inl heq =>
          rw [if_pos (congrArg Prod.fst heq).symm, length_append] at hzero
          cases hzero
        | inr hin =>
          rw [if_neg (hother t hin)] at hzero
          exact hst.unsplit t ((hmem t).mpr (mem_cons_of_mem _ hin)) hzero
      rows := by rw [length_set]; exact hst.rows
      copies := by rw [sum_length_set hget, hst.copies]
      heavy := by
        intro t ht hne u hu
        cases mem_cons.mp ht with
        | inl heq => subst heq; exact (hold u hu).trans havg.1
        | inr hin =>
          -- another expert was split before, and nothing became heavier since
          rw [copiesOf_set _ hitem, if_neg (hother t hin)] at hne
          have hall := hst.heavy t ((hmem t).mpr (mem_cons_of_mem _ hin)) hne
          exact (hold u hu).trans (hall (item, weight) ((hmem _).mpr (by simp))) }

theorem Replicated.foldlM (hfl : Lib.IsRounding fl) {routeExpertNum : Nat} (steps : List Nat)
    (hpos : steps ≠ [] → 0 < routeExpertNum) :
    ∀ {n : Nat} {st : Replication}, Replicated fl routeExpertNum n st →
      n + steps.length ≤ 2 ^ 50 →
      ∃ st', steps.foldlM (fun st i => Replication.split fl routeExpertNum i st) st = .ok st' ∧
        Replicated fl routeExpertNum (n + steps.length) st' := by
  induction steps with
  | nil => exact fun hst _ => ⟨_, rfl, hst⟩
  | cons i steps ih =>
    intro n st hst hn
    rw [length_cons, Nat.add_comm steps.length 1, ← Nat.add_assoc] at hn ⊢
    have hpos' := hpos (cons_ne_nil i steps)
    obtain ⟨mid, hmid, hinv⟩ := hst.split hfl hpos' (by omega) i
    obtain ⟨st', hrun, hst'⟩ := ih (fun _ => hpos') hinv hn
    refine ⟨st', ?_, hst'⟩
    rw [foldlM_cons, hmid, ok_bind, hrun]

theorem replicate_spec (hfl : Lib.IsRounding fl) (hloads : ∀ w ∈ loads, 0 ≤ w)
    (hfloat : ∀ w ∈ loads, fl w = w) {numRedundancyExpert : Nat}
    (hpos : numRedundancyExpert ≠ 0 → 0 < loads.length) (hfew : numRedundancyExpert ≤ 2 ^ 50) :
    ∃ rep, replicate fl (enumerateWeights loads) numRedundancyExpert = .ok rep ∧
      Replicated fl loads.length numRedundancyExpert rep := by
  obtain ⟨rep, hrun, hrep⟩ :=
    (Replicated.init hloads hfloat).foldlM hfl (range numRedundancyExpert)
      (fun hne => hpos (by simpa using hne)) (by simpa using hfew)
  rw [length_range, Nat.zero_add] at hrep
  refine ⟨rep, ?_, hrep⟩
  unfold replicate
  rw [length_enumerateWeights] at hrun ⊢
  exact hrun

/-! ## The redundant boxes -/

theorem count_redundantItems :
    (redundantItems redundancy).count expert = copiesOf redundancy expert := by
  unfold redundantItems
  rw [count_flatMap, sum_map_eq_nsmul_single expert]
  · show _ • List.count expert (List.replicate (copiesOf redundancy expert) expert) = _
    rw [count_replicate_self]
    by_cases hlt : expert < redundancy.length
    · rw [nodup_range.count, if_pos (mem_range.mpr hlt), one_nsmul]
    · have hzero : copiesOf redundancy expert = 0 := by
        unfold copiesOf
        rw [getElem?_eq_none (by omega)]
        rfl
      rw [hzero, nsmul_zero]
  · intro i hne _
    show List.count expert (List.replicate _ i) = 0
    rw [count_replicate, if_neg (by simpa using hne)]

theorem length_redundantItems :
    (redundantItems redundancy).length = (redundancy.map List.length).sum := by
  unfold redundantItems
  rw [length_flatMap]
  congr 1
  apply ext_getElem
  · simp
  · intro i h₁ h₂
    simp only [length_map, length_range] at h₁
    simp [getElem?_eq_getElem h₁]

def redundantBox (fl : ℚ → ℚ) (weights : List (Nat × ℚ)) (item : Nat) : Box :=
  Box.empty.add fl item (curWeight weights item)

theorem placeRedundant_spec (items : List Nat) :
    ∀ (filled : List Box) (free : Nat), items.length ≤ free →
      placeRedundant fl weights items filled.length (filled ++ List.replicate free Box.empty) =
        .ok (filled ++ items.map (redundantBox fl weights) ++
          List.replicate (free - items.length) Box.empty) := by
  induction items with
  | nil => intro filled free _; simp [placeRedundant]
  | cons item items ih =>
    intro filled free hfree
    obtain ⟨free, rfl⟩ : ∃ m, free = m + 1 := ⟨free - 1, by simp at hfree; omega⟩
    have hadd : addToBox fl (filled ++ List.replicate (free + 1) Box.empty) filled.length item
        (curWeight weights item) =
        .ok ((filled ++ [redundantBox fl weights item]) ++ List.replicate free Box.empty) := by
      unfold addToBox
      rw [replicate_succ]
      simp [redundantBox]
    have hnext := ih (filled ++ [redundantBox fl weights item]) free (by simp at hfree; omega)
    rw [length_append, length_singleton] at hnext
    rw [placeRedundant, hadd, ok_bind, hnext]
    simp [Nat.add_sub_add_right]

theorem curWeight_eq {weights : List (Nat × ℚ)} (hnodup : (weights.map Prod.fst).Nodup)
    (ht : t ∈ weights) : curWeight weights t.1 = t.2 := by
  have hkeep : ∀ (ws : List (Nat × ℚ)) (cur : ℚ), t.1 ∉ ws.map Prod.fst →
      ws.foldl (fun cur u => if u.1 = t.1 then u.2 else cur) cur = cur := by
    intro ws
    induction ws with
    | nil => intro cur _; rfl
    | cons u ws ih =>
      intro cur hnot
      rw [map_cons, mem_cons, not_or] at hnot
      rw [foldl_cons, if_neg fun heq => hnot.1 heq.symm, ih cur hnot.2]
  have hfind : ∀ (ws : List (Nat × ℚ)) (cur : ℚ), (ws.map Prod.fst).Nodup → t ∈ ws →
      ws.foldl (fun cur u => if u.1 = t.1 then u.2 else cur) cur = t.2 := by
    intro ws
    induction ws with
    | nil => intro cur _ hmem; cases hmem
    | cons u ws ih =>
      intro cur hnd hmem
      rw [map_cons, nodup_cons] at hnd
      rw [foldl_cons]
      cases mem_cons.mp hmem with
      | inl heq => subst heq; rw [if_pos rfl, hkeep ws _ hnd.1]
      | inr hin => exact ih _ hnd.2 hin
  exact hfind weights 0 hnodup ht

end DefaultEplb

end VllmEcho
