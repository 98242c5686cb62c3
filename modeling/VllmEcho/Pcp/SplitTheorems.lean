import VllmEcho.Pcp.Blocks

/-!
# Splitting and restoring a batch

Restoring the gathered outputs of the ranks gives, request by request, the padded sequence of a
prefill request and the repeated tokens of a decode request.
-/

namespace VllmEcho

variable {rank : Nat}

namespace PCPManager

open Lib List Req

variable {α : Type}

/-! ## Blocks of any requests -/

section Blocks

variable {w : Nat} (rs : List (Req α))

theorem padded_div (hw : 0 < w) :
    (rs.map (padded w)).map (· / w) = rs.map (localCount w) := by
  rw [map_map]
  apply map_congr_left
  intro q _
  exact Nat.mul_div_cancel _ hw

abbrev starts (w : Nat) : List Nat := startsFrom 0 (rs.map (padded w))

def gatherKeys (w : Nat) : List Nat :=
  (range w).flatMap fun rank =>
    (rs.zip (starts rs w)).flatMap fun b => b.1.positions w rank b.2

theorem flatMap_zip_starts {β : Type} (f : Req α → List β) :
    (rs.zip (starts rs w)).flatMap (fun b => f b.1) = rs.flatMap f := by
  rw [← flatMap_map, map_fst_zip (by rw [length_startsFrom, length_map])]

theorem length_restored_all (hw : 0 < w) :
    (rs.flatMap (restored w)).length = (rs.map (padded w)).sum := by
  rw [length_flatMap]
  congr 1
  apply map_congr_left
  intro q _
  exact length_restored hw

/-- The gathered positions of all ranks are a permutation. -/
theorem gatherKeys_perm (hw : 0 < w) :
    (gatherKeys rs w).Perm (range (rs.flatMap (restored w)).length) := by
  rw [length_restored_all rs hw]
  apply perm_range_of_mem
  · unfold gatherKeys
    have hrank : ∀ rank, ((rs.zip (starts rs w)).flatMap fun b => b.1.positions w rank b.2).length =
        (rs.map (localCount w)).sum := by
      intro rank
      rw [length_flatMap]
      have hlocal := flatMap_zip_starts (w := w) rs
        fun q => replicate (q.localCount w) ()
      have hlen := congrArg List.length hlocal
      simp only [length_flatMap, length_replicate] at hlen
      simp only [length_positions]
      exact hlen
    rw [length_flatMap]
    simp only [hrank]
    rw [map_const', sum_replicate_nat, length_range, Nat.mul_comm]
    exact (sum_map_mul_right _ _ w).symm
  · intro k hk
    obtain ⟨q, s, o, hmem, ho, hko⟩ := exists_block rs (padded w) 0 k
      (Nat.zero_le k) (by rw [Nat.zero_add]; exact hk)
    obtain ⟨rank, hrank, hpos⟩ := exists_position s ho
    unfold gatherKeys
    rw [mem_flatMap]
    refine ⟨rank, mem_range.mpr hrank, ?_⟩
    rw [mem_flatMap]
    refine ⟨(q, s), hmem, ?_⟩
    rw [hko]
    exact hpos

theorem gathered_eq (hw : 0 < w) : ((range w).flatMap fun rank =>
        rs.flatMap fun q => q.onRank w rank).map some = (gatherKeys rs w).map
        fun k => (rs.flatMap (restored w))[k]? := by
  unfold gatherKeys
  rw [map_flatMap, map_flatMap]
  apply flatMap_congr
  intro rank hrank
  rw [← flatMap_zip_starts, map_flatMap, map_flatMap]
  apply flatMap_congr
  intro b hb
  have hblock := getElem?_flatMap_starts rs (restored w)
    (padded w) (fun q _ => length_restored hw) 0 b.1 b.2 hb
  rw [positions_start, map_map, ← map_restored_positions (mem_range.mp hrank)]
  apply map_congr_left
  intro p hp
  have hget := hblock.2 p (position_lt (mem_range.mp hrank) hp)
  exact hget.symm

theorem restoreHiddenStates_eq (hw : 0 < w) : restoreHiddenStates ((range w).map fun rank =>
        rs.flatMap fun q => q.onRank w rank) (argsort (gatherKeys rs w)) =
      .ok (rs.flatMap (restored w)) := by
  have hgathered := gathered_eq rs hw
  have hselect : indexSelect ((range w).flatMap fun rank =>
      rs.flatMap fun q => q.onRank w rank)
      (argsort (gatherKeys rs w)) =
      some (rs.flatMap (restored w)) := by
    apply indexSelect_argsort (gatherKeys_perm rs hw)
    intro i k hk
    have hi := congrArg (fun l => l[i]?) hgathered
    simp only [getElem?_map, hk, Option.map_some] at hi
    obtain ⟨x, hx, hxk⟩ := Option.map_eq_some_iff.mp hi
    rw [hx, hxk]
  unfold restoreHiddenStates
  rw [← flatMap_def, hselect]

/-- The logits index of a request is the place of its last token. -/
theorem getLogitsIndices_eq (hw : 0 < w) (hpos : ∀ q ∈ rs, q.tokens ≠ []) :
    getLogitsIndices w (cumsumFrom 0 (rs.map (localCount w)))
        (rs.map fun q => q.padded w - q.count) =
      (rs.zip (starts rs w)).map fun b => ((b.2 + (b.1.count - 1) : Nat) : Int) := by
  have hstarts : starts rs w = (startsFrom 0 (rs.map (localCount w))).map (· * w) := by
    have hmul := startsFrom_mul w 0 (rs.map (localCount w))
    rw [Nat.zero_mul, map_map] at hmul
    exact hmul
  unfold getLogitsIndices
  rw [cumsumFrom_eq_zipWith, hstarts]
  apply ext_getElem
  · simp [length_startsFrom]
  intro i h1 h2
  have hi : i < rs.length := by simpa [length_startsFrom] using h2
  have hs : i < (startsFrom 0 (rs.map (localCount w))).length := by
    simpa [length_startsFrom] using hi
  have hcount : 0 < (rs[i]).count := length_pos_iff.mpr (hpos _ (getElem_mem hi))
  have hle := count_le_padded (q := rs[i]) hw
  simp only [getElem_zipWith, getElem_map, getElem_zip]
  have hmul : (startsFrom 0 (rs.map (localCount w)))[i] * w + padded w rs[i] =
      ((startsFrom 0 (rs.map (localCount w)))[i] + localCount w rs[i]) * w := by
    rw [Nat.add_mul]
    rfl
  omega

theorem getElem?_logitsIndices (hw : 0 < w) (hpos : ∀ q ∈ rs, q.tokens ≠ []) {i : Nat} {q : Req α}
    (hq : rs[i]? = some q) :
    ∃ k : Nat, (getLogitsIndices w (cumsumFrom 0 (rs.map (localCount w)))
        (rs.map fun q => q.padded w - q.count))[i]? = some (k : Int) ∧
      (rs.flatMap (restored w))[k]? = some q.tokens.getLast? := by
  have hs : i < (starts rs w).length := by
    rw [length_startsFrom, length_map]
    exact lt_of_getElem? hq
  let s := (starts rs w)[i]
  have hzip : (rs.zip (starts rs w))[i]? = some (q, s) := by
    rw [getElem?_zip_eq_some]
    exact ⟨hq, getElem?_eq_getElem hs⟩
  have hne := hpos q (mem_of_getElem? hq)
  have hcount : 0 < q.count := length_pos_iff.mpr hne
  have hle := q.count_le_padded hw
  refine ⟨s + (q.count - 1), ?_, ?_⟩
  · rw [getLogitsIndices_eq rs hw hpos, getElem?_map, hzip]
    rfl
  · have hblock := getElem?_flatMap_starts rs (restored w)
      (padded w) (fun q _ => length_restored hw) 0 q s (mem_of_getElem? hzip)
    have hlast := hblock.2 (q.count - 1) (by omega)
    rw [Nat.sub_zero] at hlast
    rw [hlast, getElem?_restored_last hw hne]

theorem zipWith_padded_eq (hw : 0 < w) : zipWith (fun a n => decide (a < n))
      ((rs.map (padded w)).flatMap range) (repeatEach (rs.map count) (rs.map (padded w))) =
    rs.flatMap (unpadMask w) := by
  rw [repeatEach_map, flatMap_map, zipWith_flatMap _ _ _ (by simp)]
  apply flatMap_congr
  intro q _
  have hle := q.count_le_padded hw
  have hsplit := zipWith_lt_replicate q.count (q.padded w - q.count)
  rw [Nat.add_sub_cancel' hle] at hsplit
  exact hsplit

theorem localTokens_eq : localTokens (rs.map tokens) (rs.map (localCount w))
      (rs.flatMap fun q => q.ownPositions w rank) = rs.flatMap fun q => q.onRank w rank := by
  have hselect : (range (rs.map tokens).length).map (fun i => (rs.map tokens)[i]?) =
      rs.map fun q => some q.tokens := by
    apply ext_getElem
    · simp
    · intro i h1 h2
      simp at h2
      simp [h2]
  have hmap : localTokens (rs.map tokens) (rs.map (localCount w))
        (rs.flatMap fun q => q.ownPositions w rank) =
      zipWith (fun r p => r.bind fun tokens : List α => tokens[p]?)
        ((repeatEach (range (rs.map tokens).length) (rs.map (localCount w))).map
          fun i => (rs.map tokens)[i]?)
        (rs.flatMap fun q => q.ownPositions w rank) := by
    rw [zipWith_map_left]
    rfl
  rw [hmap, map_repeatEach, hselect, repeatEach_map, zipWith_flatMap]
  · apply flatMap_congr
    intro q _
    unfold onRank
    apply ext_getElem
    · simp [length_ownPositions]
    · intro i h1 h2
      simp
  · intro q _
    rw [length_replicate, length_ownPositions]

end Blocks

/-! ## The whole batch -/

section Batch

variable {w : Nat} (decodes prefills : List (List α))

theorem requests_tokens : (requests decodes prefills).map tokens = decodes ++ prefills := by
  unfold requests
  simp [Function.comp_def]

theorem length_requests : (requests decodes prefills).length = (decodes ++ prefills).length := by
  rw [← requests_tokens decodes prefills, length_map]

theorem requests_count :
    (decodes ++ prefills).map List.length = (requests decodes prefills).map count := by
  rw [← requests_tokens, map_map]
  rfl

theorem requests_padded :
    (((decodes ++ prefills).map List.length).take decodes.length).map (· * w) ++
        (((decodes ++ prefills).map List.length).drop decodes.length).map
          (fun n => cdiv n (2 * w) * (2 * w)) = (requests decodes prefills).map (padded w) := by
  unfold requests
  rw [map_append, take_left' (by simp), drop_left' (by simp), map_append]
  simp only [map_map]
  congr 1
  apply map_congr_left
  intro tokens _
  show _ = padded w ⟨tokens, false⟩
  rw [padded_of_prefill rfl]
  rfl

theorem chunkSizes_eq (hw : 0 < w) (hpos : ∀ tokens ∈ prefills, tokens ≠ []) :
    ((requests decodes prefills).map (localCount w)).take decodes.length ++
        (((requests decodes prefills).map (localCount w)).drop decodes.length).map
          (fun t => max (t / 2) 1) = (requests decodes prefills).map (chunk w) := by
  unfold requests
  rw [map_append, take_left' (by simp), drop_left' (by simp), map_append]
  simp only [map_map]
  congr 1
  apply map_congr_left
  intro tokens hmem
  have hlen : 0 < tokens.length := length_pos_iff.mpr (hpos tokens hmem)
  have hchunk := Req.cdiv_pos hw hlen
  show max (localCount w ⟨tokens, false⟩ / 2) 1 = chunk w ⟨tokens, false⟩
  show max ((cdiv tokens.length (2 * w) + cdiv tokens.length (2 * w)) / 2) 1 =
    cdiv tokens.length (2 * w)
  omega

/-- The positions that a rank computes, request by request. -/
theorem rankPositions_eq (hne : decodes ++ prefills ≠ []) {starts : List Nat}
    (hlen : starts.length = (decodes ++ prefills).length) (rank : Nat) :
    currentRankPositions w (decodes.map List.length).sum
        ((requests decodes prefills).map (localCount w))
        ((requests decodes prefills).map (chunk w)) starts rank =
      .ok (((requests decodes prefills).zip starts).flatMap fun b => b.1.positions w rank b.2) := by
  let ds : List (Req α) := decodes.map (⟨·, true⟩)
  let ps : List (Req α) := prefills.map (⟨·, false⟩)
  rw [length_append] at hlen
  have hds : ds.length = (starts.take decodes.length).length := by
    rw [length_map, length_take]; omega
  have hzip : (requests decodes prefills).zip starts =
      ds.zip (starts.take decodes.length) ++ ps.zip (starts.drop decodes.length) := by
    conv_lhs => rw [← take_append_drop decodes.length starts]
    exact zip_append hds
  have hreqs : ((requests decodes prefills).zip starts).map Prod.fst =
      requests decodes prefills := by
    apply map_fst_zip
    rw [length_requests, length_append]
    omega
  have hstarts : ((requests decodes prefills).zip starts).map Prod.snd = starts := by
    apply map_snd_zip
    rw [length_requests, length_append]
    omega
  have hcounts : ((ds.zip (starts.take decodes.length)).map fun b => b.1.count) =
      decodes.map List.length := by
    have hfst := map_fst_zip (Nat.le_of_eq hds)
    have hmap := congrArg (List.map count) hfst
    rw [map_map, map_map] at hmap
    exact hmap
  have hpositions := currentRankPositions_eq (w := w) (ds.zip (starts.take decodes.length))
    (ps.zip (starts.drop decodes.length)) ?_ ?_ ?_ rank
  · rw [hcounts, ← hzip, hstarts] at hpositions
    have hlocal := congrArg (List.map (localCount w)) hreqs
    have hchunk := congrArg (List.map (chunk w)) hreqs
    rw [map_map] at hlocal hchunk
    rw [← hlocal, ← hchunk]
    exact hpositions
  · intro b hb
    obtain ⟨tokens, _, htokens⟩ := mem_map.mp (of_mem_zip hb).1
    rw [← htokens]
  · intro b hb
    obtain ⟨tokens, _, htokens⟩ := mem_map.mp (of_mem_zip hb).1
    rw [← htokens]
  · rw [← hzip]
    intro hnil
    have hzero := congrArg List.length hnil
    rw [length_zip, length_requests, length_append, length_nil] at hzero
    have hpos := length_pos_iff.mpr hne
    rw [length_append] at hpos
    omega

theorem length_flatMap_decodes {β : Type} {f : Req α → List β} {n : Nat}
    (hf : ∀ tokens, (f ⟨tokens, true⟩).length = tokens.length * n) :
    ((decodes.map (⟨·, true⟩ : List α → Req α)).flatMap f).length =
      (decodes.map List.length).sum * n := by
  induction decodes with
  | nil => simp
  | cons tokens decodes ih =>
    rw [map_cons, flatMap_cons, length_append, hf, ih, map_cons, sum_cons, Nat.add_mul]

def unpadMaskOf (w : Nat) : List Bool :=
  (replicate (decodes.map List.length).sum (true :: replicate (w - 1) false)).flatten ++
    (prefills.map (⟨·, false⟩ : List α → Req α)).flatMap (unpadMask w)

theorem unpadMask_eq (hw : 0 < w) :
    ((requests decodes prefills).flatMap (unpadMask w)).drop ((decodes.map List.length).sum * w) =
      (prefills.map (⟨·, false⟩ : List α → Req α)).flatMap (unpadMask w) := by
  have hlen := length_flatMap_decodes decodes (f := unpadMask w) fun _ => length_unpadMask hw
  unfold requests
  rw [flatMap_append, drop_left' hlen]

theorem overwriteDecodePositions_eq :
    overwriteDecodePositions decodes.length ((decodes ++ prefills).map List.length)
        ((requests decodes prefills).flatMap fun q => q.positions w rank 0) =
      .ok ((requests decodes prefills).flatMap fun q => q.ownPositions w rank) := by
  have hlen := length_flatMap_decodes decodes (f := fun q => q.positions w rank 0) (n := 1)
    fun _ => (length_positions ..).trans (Nat.mul_one _).symm
  rw [Nat.mul_one] at hlen
  have hown : (requests decodes prefills).flatMap (fun q => q.ownPositions w rank) =
      (decodes.map List.length).flatMap range ++
        (prefills.map (⟨·, false⟩ : List α → Req α)).flatMap fun q => q.positions w rank 0 := by
    unfold requests
    rw [flatMap_append, flatMap_map, flatMap_map, flatMap_map,
      flatMap_map]
    rfl
  unfold overwriteDecodePositions
  rw [map_append, take_left' (by simp), hown]
  unfold requests
  rw [flatMap_append]
  cases decodes with
  | nil => rfl
  | cons tokens decodes =>
    rw [if_pos (by simp), getCumsumAndArange_eq (by simp), ok_bind]
    rw [drop_left' hlen]

def splitOf (w rank : Nat) : Split where
  pcpTokens := (requests decodes prefills).map (localCount w)
  positions := (requests decodes prefills).flatMap fun q => q.ownPositions w rank
  numPcpPads := (requests decodes prefills).map fun q => q.padded w - q.count
  pcpUnpadMask := unpadMaskOf decodes prefills w
  pcpAllgatherRestoreIdx := argsort (gatherKeys (requests decodes prefills) w)

/-- The arrays of `update_tokens_for_pcp` in closed form. -/
theorem updateTokensForPcp_eq (hw : 0 < w) (hne : decodes ++ prefills ≠ [])
    (hpos : ∀ tokens ∈ prefills, tokens ≠ []) :
    updateTokensForPcp w rank decodes.length ((decodes ++ prefills).map List.length) =
      .ok (splitOf decodes prefills w rank) := by
  have hlength := length_requests decodes prefills
  have hreqs : requests decodes prefills ≠ [] := by
    intro hnil
    rw [hnil] at hlength
    exact hne (length_eq_zero_iff.mp hlength.symm)
  have hdecodes : ((decodes ++ prefills).map List.length).take decodes.length =
      decodes.map List.length := by
    rw [map_append, take_left' (by simp)]
  have hzero : ((requests decodes prefills).zip
      (replicate ((decodes ++ prefills).map List.length).length 0)).flatMap
        (fun b => b.1.positions w rank b.2) =
      (requests decodes prefills).flatMap fun q => q.positions w rank 0 := by
    rw [length_map, ← hlength, ← map_const', ← map_prod_left_eq_zip,
      flatMap_map]
  have hstarts : 0 :: (cumsumFrom 0 ((requests decodes prefills).map (padded w))).dropLast =
      startsFrom 0 ((requests decodes prefills).map (padded w)) := by
    cases hcases : requests decodes prefills with
    | nil => exact absurd hcases hreqs
    | cons q qs => exact cons_dropLast_cumsumFrom 0 _
  have hall := mapM_ok _ (range w) fun rank _ => rankPositions_eq decodes prefills (w := w) hne
    (show (startsFrom 0 ((requests decodes prefills).map (padded w))).length = _ by
      rw [length_startsFrom, length_map, hlength]) rank
  unfold updateTokensForPcp
  dsimp only
  rw [requests_padded, getCumsumAndArange_eq (by simpa using hreqs), ok_bind]
  rw [padded_div _ hw, chunkSizes_eq decodes prefills hw hpos, hdecodes,
    rankPositions_eq decodes prefills hne (by simp) rank, ok_bind, hzero]
  rw [overwriteDecodePositions_eq, ok_bind, hstarts, hall, ok_bind, requests_count,
    zipWith_padded_eq _ hw, unpadMask_eq decodes prefills hw, zipWith_map, zipWith_self]
  unfold splitOf unpadMaskOf gatherKeys
  rw [flatMap_def (f := fun rank => List.flatMap _ _)]

/-! ## Gathering and restoring -/

/-- Removing the padding leaves the tokens of all prefills in order. -/
theorem maskSelect_unpadMask (hw : 0 < w) :
    ∃ kept : List (Option α), kept.length = (decodes.map List.length).sum ∧
      maskSelect (unpadMaskOf decodes prefills w)
        ((requests decodes prefills).flatMap (restored w)) =
        kept ++ prefills.flatten.map some := by
  let rows := (replicate (decodes.map List.length).sum
    (true :: replicate (w - 1) false)).flatten
  let copies := (decodes.map (⟨·, true⟩ : List α → Req α)).flatMap (restored w)
  have hrows : rows.length = copies.length := by
    have hcopies := length_flatMap_decodes decodes (f := restored w) fun _ => length_restored hw
    rw [hcopies, length_flatten, map_replicate, sum_replicate_nat, length_cons, length_replicate,
      Nat.sub_add_cancel hw]
  have hprefills : maskSelect ((prefills.map (⟨·, false⟩ : List α → Req α)).flatMap
        (unpadMask w)) ((prefills.map (⟨·, false⟩ : List α → Req α)).flatMap (restored w)) =
      prefills.flatten.map some := by
    rw [maskSelect_flatMap _ _ fun q _ => by rw [length_unpadMask hw, length_restored hw],
      map_flatten, flatMap_map]
    apply flatMap_congr
    intro tokens _
    exact maskSelect_restored rfl
  refine ⟨maskSelect rows copies, ?_, ?_⟩
  · rw [length_maskSelect hrows, count_flatten, map_replicate,
      count_cons_self, count_replicate]
    simp
  · unfold unpadMaskOf requests
    rw [flatMap_append, maskSelect_append hrows, hprefills]

/-- Splitting a batch over the ranks and restoring their gathered outputs.  All ranks compute the
same counts, mask and restore index; a rank processes `pcpTokens[i]` tokens of request `i`. -/
theorem split_restore_round_trip (hw : 0 < w) (hne : decodes ++ prefills ≠ [])
    (hpos : ∀ tokens ∈ decodes ++ prefills, tokens ≠ []) :
    ∃ (pcpTokens numPcpPads : List Nat) (mask : List Bool) (restoreIdx : List Nat)
      (positions : Nat → List Nat) (restored : List (Option α)), (∀ rank < w,
        updateTokensForPcp w rank decodes.length ((decodes ++ prefills).map List.length) =
          .ok ⟨pcpTokens, positions rank, numPcpPads, mask, restoreIdx⟩ ∧
        (positions rank).length = pcpTokens.sum) ∧ pcpTokens.length = (decodes ++ prefills).length ∧
      restoreHiddenStates ((range w).map fun rank =>
        localTokens (decodes ++ prefills) pcpTokens (positions rank)) restoreIdx = .ok restored ∧
      (∃ kept : List (Option α), kept.length = (decodes.map List.length).sum ∧
        maskSelect mask restored = kept ++ prefills.flatten.map some) ∧
      ∀ (i : Nat) (tokens : List α), (decodes ++ prefills)[i]? = some tokens →
        ∃ k : Nat, (getLogitsIndices w (cumsumFrom 0 pcpTokens) numPcpPads)[i]? = some (k : Int) ∧
          restored[k]? = some tokens.getLast? := by
  let split := splitOf decodes prefills w
  refine ⟨(split 0).pcpTokens, (split 0).numPcpPads, (split 0).pcpUnpadMask,
    (split 0).pcpAllgatherRestoreIdx, fun rank => (split rank).positions,
    (requests decodes prefills).flatMap (restored w),
    ?_, ?_, ?_, maskSelect_unpadMask decodes prefills hw, ?_⟩
  · intro rank _
    refine ⟨updateTokensForPcp_eq decodes prefills hw hne
      (fun tokens hmem => hpos tokens (mem_append_right _ hmem)), ?_⟩
    simp only [split, splitOf, length_flatMap, length_ownPositions]
  · rw [← length_requests]
    exact length_map _
  · simp only [split, splitOf, ← requests_tokens decodes prefills, localTokens_eq]
    exact restoreHiddenStates_eq _ hw
  · intro i tokens hi
    rw [← requests_tokens, getElem?_map, Option.map_eq_some_iff] at hi
    obtain ⟨q, hq, rfl⟩ := hi
    refine getElem?_logitsIndices _ hw (fun q hq => hpos _ ?_) hq
    rw [← requests_tokens]
    exact mem_map_of_mem hq

end Batch

/-- One decode request and two prefill requests on two ranks. -/
theorem split_restore_two_ranks :
    ∃ (pcpTokens numPcpPads : List Nat) (mask : List Bool) (restoreIdx : List Nat)
      (positions : Nat → List Nat) (restored : List (Option Nat)),
      (∀ rank < 2, updateTokensForPcp 2 rank 1 [1, 5, 8] =
          .ok ⟨pcpTokens, positions rank, numPcpPads, mask, restoreIdx⟩ ∧
        (positions rank).length = pcpTokens.sum) ∧ pcpTokens.length = 3 ∧
      restoreHiddenStates ((range 2).map fun rank =>
        localTokens [[7], [0, 1, 2, 3, 4], [0, 1, 2, 3, 4, 5, 6, 7]] pcpTokens (positions rank))
        restoreIdx = .ok restored ∧ (∃ kept : List (Option Nat), kept.length = 1 ∧
        maskSelect mask restored = kept ++ [0, 1, 2, 3, 4, 0, 1, 2, 3, 4, 5, 6, 7].map some) ∧
      ∀ (i : Nat) (tokens : List Nat),
        [[7], [0, 1, 2, 3, 4], [0, 1, 2, 3, 4, 5, 6, 7]][i]? = some tokens →
        ∃ k : Nat, (getLogitsIndices 2 (cumsumFrom 0 pcpTokens) numPcpPads)[i]? = some (k : Int) ∧
          restored[k]? = some tokens.getLast? :=
  split_restore_round_trip [[7]] [[0, 1, 2, 3, 4], [0, 1, 2, 3, 4, 5, 6, 7]] (by decide) (by decide)
    (by decide)

end PCPManager

end VllmEcho
