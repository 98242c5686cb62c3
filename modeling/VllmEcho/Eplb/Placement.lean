import VllmEcho.Eplb.Worker

/-!
# The initial placement of the experts

`generate_global_placement` splits the experts over the ranks and then hands out the redundant ones,
from the last rank to the first and around again.  A rank gets the expert behind its last one, or,
if it has none, its own number counted from the last rank.
-/

namespace VllmEcho

namespace Eplb

open List Function

variable (n parts i nExpert j : Nat) (group : List Nat) {e : Nat}

def splitSize : Nat := n / parts + if i < n % parts then 1 else 0

def splitStart : Nat := i * (n / parts) + min i (n % parts)

def arraySplit : List (List Nat) :=
  (range parts).map fun i => range' (splitStart n parts i) (splitSize n parts i)

/-- The next expert of the group `groups[-j]`; a remainder by zero is zero in NumPy. -/
def nextExpert : Nat :=
  match group.getLast? with
  | none => j
  | some last => if nExpert = 0 then 0 else (last + 1) % nExpert

def addExpert : List Nat :=
  group ++ [nextExpert nExpert j group]

def addRedundant (nExpert epSize nRedundant : Nat) : List (List Nat) :=
  (range nRedundant).foldl
    (fun groups i => groups.modify (epSize - (i % epSize + 1)) (addExpert nExpert (i % epSize + 1)))
    (arraySplit nExpert epSize)

def generateGlobalPlacement (nExpert epSize nRedundant numSharedExperts : Nat) :
    Except PyError (List (List Nat)) :=
  let nExpert := nExpert - numSharedExperts
  if epSize = 0 then .error .zeroDivisionError
  else if (nExpert + nRedundant) % epSize ≠ 0 then
    .error (.valueError "(n_expert + n_redundant) % ep_size must be 0")
  else
    let groups := addRedundant nExpert epSize nRedundant
    .ok (if numSharedExperts = 0 then groups
      else groups.zipIdx.map fun x => x.1 ++ [nExpert + x.2 % numSharedExperts])

/-- `expert_map[local_placement] = arange(...)` for each rank: a later slot overwrites an
earlier. -/
def globalExpertMap (groups : List (List Nat)) {G E K : Nat} : LayerMap G E K := fun g e =>
  (finRange K).reverse.find? fun slot => (groups.getD g [])[slot.val]? == some e.val

variable {G E K n ep r g start len : Nat} {groups : List (List Nat)}

/-- Every rank holds the same number of distinct experts, and every expert is on some rank. -/
structure Placed (E G K : Nat) (groups : List (List Nat)) : Prop where
  ranks : groups.length = G
  slots : ∀ group ∈ groups, group.length = K
  distinct : ∀ group ∈ groups, group.Nodup
  bounded : ∀ group ∈ groups, ∀ e ∈ group, e < E
  covered : ∀ e < E, ∃ group ∈ groups, e ∈ group

/-- Each rank finds each expert on the rank and in the slot that its physical id names. -/
def Located (E G K : Nat) (groups : List (List Nat)) : Prop :=
  ∀ (rank : Fin G) (e : Fin E), ∃ (rank' : Fin G) (slot : Fin K),
    generateLog2phyMap (globalExpertMap groups : LayerMap G E K) rank e = rank' * K + slot ∧
      (groups.getD rank' [])[slot.val]? = some e.val

/-! ## The physical ids -/

namespace Placed

theorem group_mem (h : Placed E G K groups) (g : Fin G) : groups.getD g [] ∈ groups := by
  rw [getD_eq_getElem _ _ (by rw [h.ranks]; exact g.isLt)]
  exact getElem_mem _

theorem isSome_iff (h : Placed E G K groups) {g : Fin G} {e : Fin E} :
    (globalExpertMap groups g e : Option (Fin K)).isSome ↔ e.val ∈ groups.getD g [] := by
  unfold globalExpertMap
  rw [find?_isSome]
  constructor
  · rintro ⟨slot, _, hslot⟩
    exact mem_of_getElem? (beq_iff_eq.mp hslot)
  · intro hmem
    obtain ⟨slot, hslot⟩ := mem_iff_getElem?.mp hmem
    have hlt := lt_of_getElem? hslot
    rw [h.slots _ (h.group_mem g)] at hlt
    exact ⟨⟨slot, hlt⟩, by simp, beq_iff_eq.mpr hslot⟩

/-- `valid_count` is the number of slots. -/
theorem validCount (h : Placed E G K groups) (g : Fin G) :
    ((finRange E).filter fun e => (globalExpertMap groups g e : Option (Fin K)).isSome).length =
      K := by
  have hgroup := h.group_mem g
  rw [← length_map]
  refine Eq.trans (Perm.length_eq ?_) (h.slots _ hgroup)
  rw [perm_ext_iff_of_nodup (((nodup_finRange E).filter _).map Fin.val_injective)
    (h.distinct _ hgroup)]
  intro e
  rw [mem_map]
  constructor
  · rintro ⟨e, he, rfl⟩
    exact h.isSome_iff.mp (mem_filter.mp he).2
  · intro he
    exact ⟨⟨e, h.bounded _ hgroup e he⟩, mem_filter.mpr ⟨mem_finRange _, h.isSome_iff.mpr he⟩, rfl⟩

/-- On a valid placement the physical ids point where the experts are. -/
theorem located (h : Placed E G K groups) : Located E G K groups := by
  intro rank e
  set map : LayerMap G E K := globalExpertMap groups with hmap
  have hne : physicalIds map e ≠ [] := by
    obtain ⟨group, hgroup, he⟩ := h.covered e e.isLt
    obtain ⟨g, hg, rfl⟩ := getElem_of_mem hgroup
    rw [← getD_eq_getElem _ [] hg] at he
    obtain ⟨slot, hslot⟩ := Option.isSome_iff_exists.mp
      ((h.isSome_iff (g := ⟨g, by rwa [← h.ranks]⟩)).mpr he)
    exact ne_nil_of_mem
      (mem_filterMap.mpr ⟨_, mem_finRange _, Option.map_eq_some_iff.mpr ⟨slot, hslot, rfl⟩⟩)
  have hlt := Nat.mod_lt rank.val (length_pos_iff.mpr hne)
  obtain ⟨g, _, hg⟩ := mem_filterMap.mp (getElem_mem hlt)
  obtain ⟨slot, hslot, hx⟩ := Option.map_eq_some_iff.mp hg
  refine ⟨g, slot, ?_, by simpa using find?_some hslot⟩
  unfold generateLog2phyMap
  rw [getElem?_eq_getElem hlt, ← hx]
  cases hhead : (finRange G).head? with
  | none =>
    rw [head?_eq_none_iff] at hhead
    exact absurd (mem_finRange g) (by rw [hhead]; exact not_mem_nil)
  | some first =>
    show slot.val + g.val * (filter _ _).length = _
    rw [h.validCount first, Nat.add_comm]

end Placed

/-! ## The groups -/

theorem splitStart_succ :
    splitStart n parts (i + 1) = splitStart n parts i + splitSize n parts i := by
  unfold splitStart splitSize
  rw [Nat.succ_mul]
  split <;> omega

theorem splitStart_self (hep : 0 < ep) : splitStart n ep ep = n := by
  unfold splitStart
  rw [Nat.min_eq_right (Nat.mod_lt n hep).le, Nat.div_add_mod]

theorem split_le (hg : g < ep) : splitStart n ep g + splitSize n ep g ≤ n := by
  have hmono : Monotone (splitStart n ep) := by
    apply monotone_nat_of_le_succ
    intro i
    rw [splitStart_succ]
    exact Nat.le_add_right _ _
  rw [← splitStart_succ]
  exact (hmono hg).trans_eq (splitStart_self (by omega))

theorem exists_split (hep : 0 < ep) (he : e < n) :
    ∃ g < ep, e ∈ range' (splitStart n ep g) (splitSize n ep g) := by
  -- the first part that ends behind the id
  have hlast : e < splitStart n ep (ep - 1 + 1) := by
    rwa [Nat.sub_add_cancel hep, splitStart_self hep]
  have hex : ∃ i, e < splitStart n ep (i + 1) := ⟨_, hlast⟩
  refine ⟨Nat.find hex, (Nat.find_min' hex hlast).trans_lt (by omega), ?_⟩
  rw [mem_range'_1, ← splitStart_succ]
  refine ⟨?_, Nat.find_spec hex⟩
  cases hi : Nat.find hex with
  | zero => simp [splitStart]
  | succ i => exact not_lt.mp (Nat.find_min hex (by omega))

def rankGroup (n ep r g : Nat) : List Nat :=
  (addExpert n (ep - g))^[Nat.count (· ≡ ep - 1 - g [MOD ep]) r]
    (range' (splitStart n ep g) (splitSize n ep g))

theorem addRedundant_eq (hep : 0 < ep) :
    addRedundant n ep r = (range ep).map (rankGroup n ep r) := by
  induction r with
  | zero => rfl
  | succ r ih =>
    unfold addRedundant at ih ⊢
    rw [range_succ, foldl_append, ih, foldl_cons, foldl_nil]
    apply ext_getElem?
    intro g
    have hr := Nat.mod_lt r hep
    rw [getElem?_modify, getElem?_map, getElem?_map]
    by_cases hg : g < ep
    · rw [getElem?_range hg]
      show some (ite _ _ _) = some (rankGroup n ep (r + 1) g)
      unfold rankGroup
      have hiff : r ≡ ep - 1 - g [MOD ep] ↔ r % ep = ep - 1 - g := by
        rw [Nat.ModEq, Nat.mod_eq_of_lt (show ep - 1 - g < ep by omega)]
      rw [Nat.count_succ]
      by_cases hnext : r % ep = ep - 1 - g
      · rw [if_pos (by omega), if_pos (hiff.mpr hnext), iterate_succ_apply',
          show r % ep + 1 = ep - g by omega]
      · rw [if_neg (by omega), if_neg (mt hiff.mp hnext)]
        rfl
    · rw [getElem?_eq_none (by rw [length_range]; omega)]
      rfl

theorem length_iterate_addExpert (c : Nat) (group : List Nat) :
    ((addExpert n j)^[c] group).length = group.length + c := by
  induction c with
  | zero => rfl
  | succ c ih =>
    rw [iterate_succ_apply', addExpert, length_append, ih]
    rfl

theorem mem_iterate_addExpert {j : Nat} {group : List Nat} (h : e ∈ group) (c : Nat) :
    e ∈ (addExpert n j)^[c] group := by
  induction c with
  | zero => exact h
  | succ c ih =>
    rw [iterate_succ_apply']
    exact mem_append_left _ ih

/-- Where the split gave a rank one expert more, it gets one redundant expert less. -/
theorem length_rankGroup (hg : g < ep) (hdvd : ep ∣ n + r) :
    (rankGroup n ep r g).length = (n + r) / ep := by
  have hep : 0 < ep := by omega
  have hn := Nat.mod_lt n hep
  have hr := Nat.mod_lt r hep
  have hsum := Nat.mod_eq_zero_of_dvd hdvd
  rw [Nat.add_mod] at hsum
  unfold rankGroup splitSize
  rw [length_iterate_addExpert, length_range', Nat.count_modEq_card _ hep, Nat.add_div hep,
    Nat.mod_eq_of_lt (show ep - 1 - g < ep by omega)]
  by_cases hle : ep ≤ n % ep + r % ep
  · rw [Nat.mod_eq_sub_mod hle, Nat.mod_eq_of_lt (by omega)] at hsum
    split <;> split <;> omega
  · rw [Nat.mod_eq_of_lt (not_le.mp hle)] at hsum
    rw [if_neg hle, if_neg (by omega), if_neg (by omega)]
    rfl

def window (n start len : Nat) : List Nat := (range len).map fun i => (start + i) % n

theorem addExpert_window (hn : 0 < n) (j c : Nat) :
    (addExpert n j)^[c] (window n start (len + 1)) = window n start (len + 1 + c) := by
  induction c with
  | zero => rfl
  | succ c ih =>
    have hnext : nextExpert n j (window n start (len + 1 + c)) = (start + (len + 1 + c)) % n := by
      rw [Nat.add_right_comm, window, range_succ, map_append]
      unfold nextExpert
      simp only [map_cons, map_nil, getLast?_concat]
      rw [if_neg hn.ne', Nat.mod_add_mod, Nat.add_assoc]
    rw [iterate_succ_apply', ih, addExpert, hnext]
    show _ = map _ (range (len + 1 + c + 1))
    rw [range_succ, map_append]
    rfl

theorem window_eq_range' (h : start + len ≤ n) : window n start len = range' start len := by
  rw [range'_eq_map_range]
  apply map_congr_left
  intro i hi
  rw [mem_range] at hi
  exact Nat.mod_eq_of_lt (by omega)

theorem nodup_window (hlen : len ≤ n) : (window n start len).Nodup := by
  apply Nodup.map_on _ nodup_range
  intro i hi k hk heq
  rw [mem_range] at hi hk
  exact Nat.ModEq.eq_of_lt_of_lt (Nat.ModEq.add_left_cancel' start heq) (by omega) (by omega)

theorem rankGroup_eq_window (hn : 0 < n) (hep : ep < 2 * n) (hg : g < ep) :
    ∃ start len, rankGroup n ep r g = window n start len := by
  have hle := @split_le n ep g hg
  unfold rankGroup
  cases hsize : splitSize n ep g with
  | zero =>
    cases Nat.count (· ≡ ep - 1 - g [MOD ep]) r with
    | zero => exact ⟨0, 0, rfl⟩
    | succ c =>
      -- the ranks without experts are the last `ep - n`
      have hj : ep - g + 1 ≤ n := by
        unfold splitSize at hsize
        have hlt := (Nat.div_eq_zero_iff_lt (by omega)).mp (Nat.eq_zero_of_add_eq_zero_right hsize)
        rw [Nat.div_eq_of_lt hlt, Nat.mod_eq_of_lt hlt] at hsize
        split at hsize <;> omega
      have hone : addExpert n (ep - g) (range' (splitStart n ep g) 0) = window n (ep - g) (0 + 1) :=
        (window_eq_range' hj).symm
      rw [iterate_succ_apply, hone, addExpert_window hn]
      exact ⟨_, _, rfl⟩
  | succ m =>
    rw [← @window_eq_range' n _ (m + 1) (by omega), addExpert_window hn]
    exact ⟨_, _, rfl⟩

/-! ## The placement -/

theorem generateGlobalPlacement_eq (h : generateGlobalPlacement n ep r 0 = .ok groups) :
    0 < ep ∧ ep ∣ n + r ∧ groups = (range ep).map (rankGroup n ep r) := by
  unfold generateGlobalPlacement at h
  dsimp only at h
  split at h
  · cases h
  rename_i hep
  split at h
  · cases h
  rename_i hmod
  refine ⟨Nat.pos_of_ne_zero hep, Nat.dvd_of_mod_eq_zero (not_not.mp hmod), ?_⟩
  rw [← addRedundant_eq (Nat.pos_of_ne_zero hep)]
  exact (Except.ok.inj h).symm

/-- The placement is valid, and its map finds every expert, exactly for these three sizes. -/
theorem generateGlobalPlacement_valid_iff (h : generateGlobalPlacement n ep r 0 = .ok groups) :
    (∃ slots, Placed n ep slots groups ∧ Located n ep slots groups) ↔
      (n = 0 ∨ ep < 2 * n) ∧ n + r ≤ n * ep := by
  obtain ⟨hep, hdvd, rfl⟩ := generateGlobalPlacement_eq h
  have hlen : ∀ g < ep, (rankGroup n ep r g).length = (n + r) / ep :=
    fun g hg => length_rankGroup hg hdvd
  rw [← Nat.div_mul_cancel hdvd, Nat.mul_le_mul_right_iff hep]
  constructor
  · rintro ⟨slots, hplaced, _⟩
    have hmem : ∀ g < ep, rankGroup n ep r g ∈ (range ep).map (rankGroup n ep r) :=
      fun g hg => mem_map_of_mem (mem_range.mpr hg)
    constructor
    · by_contra hno
      -- the first rank without experts gets the id `ep - n`
      have hlt : n < ep := by omega
      have hzero : splitSize n ep n = 0 := by
        unfold splitSize
        rw [Nat.div_eq_of_lt hlt, Nat.mod_eq_of_lt hlt, if_neg (lt_irrefl _)]
      have hpos := Nat.div_pos (Nat.le_of_dvd (by omega) hdvd) hep
      have hgroup := hlen n hlt
      have hbound := hplaced.bounded _ (hmem n hlt) (ep - n)
      unfold rankGroup at hgroup hbound
      rw [hzero] at hgroup hbound
      cases hc : Nat.count (· ≡ ep - 1 - n [MOD ep]) r with
      | zero =>
        rw [hc] at hgroup
        exact absurd hgroup hpos.ne
      | succ c =>
        rw [hc] at hbound
        have := hbound (mem_iterate_addExpert mem_cons_self c)
        omega
    · -- a rank has no more distinct ids than there are experts
      have hsub := (hplaced.distinct _ (hmem 0 hep)).subperm fun e he =>
        mem_range.mpr (hplaced.bounded _ (hmem 0 hep) e he)
      have hle := hsub.length_le
      rwa [hlen 0 hep, length_range] at hle
  · rintro ⟨hbound, hle⟩
    suffices hplaced : Placed n ep ((n + r) / ep) ((range ep).map (rankGroup n ep r)) from
      ⟨_, hplaced, hplaced.located⟩
    have hwindow : ∀ g < ep, ∃ start, rankGroup n ep r g = window n start ((n + r) / ep) := by
      intro g hg
      rcases Nat.eq_zero_or_pos n with rfl | hn
      · have hnil := hlen g hg
        rw [Nat.le_zero.mp hle] at hnil ⊢
        exact ⟨0, length_eq_zero_iff.mp hnil⟩
      · obtain ⟨start, len, heq⟩ := @rankGroup_eq_window n ep r g hn (by omega) hg
        have hsame := hlen g hg
        rw [heq, window, length_map, length_range] at hsame
        exact ⟨start, by rw [heq, hsame]⟩
    constructor
    case ranks => rw [length_map, length_range]
    case slots =>
      intro group hgroup
      obtain ⟨g, hg, rfl⟩ := mem_map.mp hgroup
      exact hlen g (mem_range.mp hg)
    case distinct =>
      intro group hgroup
      obtain ⟨g, hg, rfl⟩ := mem_map.mp hgroup
      obtain ⟨start, heq⟩ := hwindow g (mem_range.mp hg)
      rw [heq]
      exact nodup_window hle
    case bounded =>
      intro group hgroup e he
      obtain ⟨g, hg, rfl⟩ := mem_map.mp hgroup
      obtain ⟨start, heq⟩ := hwindow g (mem_range.mp hg)
      rw [heq] at he
      obtain ⟨i, hi, rfl⟩ := mem_map.mp he
      exact Nat.mod_lt _ ((Nat.zero_le i).trans_lt ((mem_range.mp hi).trans_le hle))
    case covered =>
      intro e he
      obtain ⟨g, hg, hmem⟩ := exists_split hep he
      exact ⟨_, mem_map_of_mem (mem_range.mpr hg), mem_iterate_addExpert hmem _⟩

/-- Four experts and two redundant ones on two ranks. -/
theorem generateGlobalPlacement_valid_fourExperts :
    (∃ slots, Placed 4 2 slots [[0, 1, 2], [2, 3, 0]] ∧ Located 4 2 slots [[0, 1, 2], [2, 3, 0]]) ↔
      (4 = 0 ∨ 2 < 2 * 4) ∧ 4 + 2 ≤ 4 * 2 :=
  generateGlobalPlacement_valid_iff (show generateGlobalPlacement 4 2 2 0 = .ok _ by decide)

/-- With two experts on four ranks, the third rank gets the id of no expert. -/
theorem generateGlobalPlacement_twoExperts :
    generateGlobalPlacement 2 4 2 0 = .ok [[0], [1], [2], [1]] ∧
      ¬ ∃ slots, Placed 2 4 slots [[0], [1], [2], [1]] ∧
        Located 2 4 slots [[0], [1], [2], [1]] := by
  refine ⟨by decide, ?_⟩
  rintro ⟨slots, hplaced, _⟩
  exact absurd (hplaced.bounded [2] (by decide) 2 (by decide)) (by decide)

end Eplb

end VllmEcho
