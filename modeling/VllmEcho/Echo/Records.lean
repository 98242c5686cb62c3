import VllmEcho.Echo.Ties

/-!
# The records of the drafts

`_update_states` copies the scheduled drafts into the persistent batch before `_echo_prune_drafts`
rewrites the scheduler output.  The copies agree with the pruned lists, and the other tokens of a
request stay scheduled, exactly when pruning takes nothing away and the request is a plain decode.
-/

namespace VllmEcho

open Lib List Option SchedulerOutput

/-- The drafts in the persistent batch: `spec_token_ids` of each request's row, and each request's
`prev_num_draft_len`. -/
structure DraftRecords where
  specTokenIds : Dict ReqId (List TokenId)
  prevNumDraftLen : Dict ReqId Nat

variable (b : DraftRecords) (out : SchedulerOutput) (rs : List ReqId)

namespace DraftRecords

def updateReqSpecTokenIds (scheduledSpecTokens : Dict ReqId (List TokenId)) (b : DraftRecords)
    (r : ReqId) : DraftRecords :=
  let specTokenIds := (scheduledSpecTokens.get? r).getD []
  { specTokenIds := b.specTokenIds.set r specTokenIds
    prevNumDraftLen := b.prevNumDraftLen.set r specTokenIds.length }

def removeRow (r : ReqId) : DraftRecords :=
  { b with specTokenIds := b.specTokenIds.erase r }

/-- `_update_states`, of the rows and their drafts: finished and unscheduled requests leave, cached
ones with a row are updated, all others are added. -/
def updateStates : DraftRecords :=
  let b := out.finishedReqIds.foldl
    (fun b r => { b.removeRow r with prevNumDraftLen := b.prevNumDraftLen.erase r }) b
  let unscheduled := b.specTokenIds.keys.filter fun r =>
    !out.numScheduledTokens.contains r || out.scheduledResumedReqs.contains r
  let b := unscheduled.foldl removeRow b
  let cached := out.scheduledRunningReqs ++ out.scheduledResumedReqs
  let reqsToAdd := out.scheduledNewReqs ++ cached.filter fun r => !b.specTokenIds.contains r
  let b := (cached.filter b.specTokenIds.contains).foldl
    (updateReqSpecTokenIds out.scheduledSpecDecodeTokens) b
  reqsToAdd.foldl (updateReqSpecTokenIds out.scheduledSpecDecodeTokens) b

theorem get?_foldl_update (b : DraftRecords) (r : ReqId) :
    (rs.foldl (updateReqSpecTokenIds out.scheduledSpecDecodeTokens) b).specTokenIds.get? r =
      if r ∈ rs then some (out.drafts r) else b.specTokenIds.get? r := by
  induction rs generalizing b with
  | nil => rw [if_neg not_mem_nil, foldl_nil]
  | cons q qs ih =>
    rw [foldl_cons, ih, updateReqSpecTokenIds, Dict.get?_set]
    by_cases hqs : r ∈ qs
    · rw [if_pos hqs, if_pos (mem_cons_of_mem q hqs)]
    · by_cases hq : r = q
      · rw [if_neg hqs, if_pos hq, if_pos (hq ▸ mem_cons_self), hq]
        rfl
      · rw [if_neg hqs, if_neg hq, if_neg (not_mem_cons_of_ne_of_not_mem hq hqs)]

end DraftRecords

def SchedulerOutput.scheduledReqs : List ReqId :=
  out.scheduledNewReqs ++ (out.scheduledRunningReqs ++ out.scheduledResumedReqs)

variable {r : ReqId}

theorem DraftRecords.updateStates_get? {out : SchedulerOutput} (hr : r ∈ out.scheduledReqs) :
    (b.updateStates out).specTokenIds.get? r = some (out.drafts r) := by
  rw [updateStates]
  generalize List.foldl removeRow _ _ = b'
  rw [get?_foldl_update, get?_foldl_update]
  by_cases hrow : b'.specTokenIds.contains r = true
  · split
    · rfl
    · rename_i hadd
      rw [mem_append, not_or] at hadd
      have hcached := (mem_append.mp hr).resolve_left hadd.1
      rw [if_pos (mem_filter.mpr ⟨hcached, hrow⟩)]
  have hadd : r ∈ out.scheduledNewReqs ++
      (out.scheduledRunningReqs ++ out.scheduledResumedReqs).filter
        fun r => !b'.specTokenIds.contains r := by
    rw [mem_append, mem_filter]
    exact (mem_append.mp hr).imp id fun hcached => ⟨hcached, by simp [hrow]⟩
  rw [if_pos hadd]

/-! ## The scheduled tokens after pruning -/

variable (d : DrafterOutput) (row : Nat → Bool) (q : ReqId)

section

variable {T : Nat} {mask : Nat → Nat → Bool} {out : SchedulerOutput}

theorem pruneRow_spec_isSome : ((pruneRow T row out q).scheduledSpecDecodeTokens.get? r).isSome =
      (out.scheduledSpecDecodeTokens.get? r).isSome := by
  rw [pruneRow]
  cases hq : out.scheduledSpecDecodeTokens.get? q with
  | none => rfl
  | some full =>
    rw [Dict.get?_set]
    by_cases hrq : r = q
    · rw [if_pos hrq, hrq, hq]
      rfl
    · rw [if_neg hrq]

theorem pruneRow_num : (pruneRow T row out q).numScheduledTokens.get? r =
      if q = r ∧ (out.scheduledSpecDecodeTokens.get? r).isSome then
        some ((((pruneRow T row out q).drafts r).length : Int) + 1)
      else out.numScheduledTokens.get? r := by
  rw [pruneRow_drafts, pruneRow]
  cases hq : out.scheduledSpecDecodeTokens.get? q with
  | none =>
    rw [if_neg]
    rintro ⟨rfl, hsome⟩
    rw [hq] at hsome
    cases hsome
  | some full =>
    rw [Dict.get?_set]
    by_cases hqr : q = r
    · rw [if_pos hqr.symm, if_pos ⟨hqr, by rw [← hqr, hq]; rfl⟩, if_pos hqr,
        drafts, ← hqr, hq]
      rfl
    · rw [if_neg (Ne.symm hqr), if_neg fun h => hqr h.1]

theorem pruneRows_num (i : Nat) : (pruneRows T mask rs i out).numScheduledTokens.get? r =
      if r ∈ rs ∧ (out.scheduledSpecDecodeTokens.get? r).isSome then
        some ((((pruneRows T mask rs i out).drafts r).length : Int) + 1)
      else out.numScheduledTokens.get? r := by
  induction rs generalizing i out with
  | nil => rw [if_neg fun h => not_mem_nil h.1, pruneRows]
  | cons q qs ih =>
    rw [pruneRows, ih, pruneRow_spec_isSome, pruneRow_num]
    by_cases hsome : (out.scheduledSpecDecodeTokens.get? r).isSome = true
    · by_cases hqs : r ∈ qs
      · rw [if_pos ⟨hqs, hsome⟩, if_pos ⟨mem_cons_of_mem q hqs, hsome⟩]
      rw [if_neg fun h => hqs h.1]
      by_cases hq : q = r
      · rw [if_pos ⟨hq, hsome⟩, if_pos ⟨hq ▸ mem_cons_self, hsome⟩, pruneRows_drafts,
          prunedBy_of_not_mem hqs]
      · rw [if_neg fun h => hq h.1, if_neg fun h =>
          not_mem_cons_of_ne_of_not_mem (Ne.symm hq) hqs h.1]
    · rw [if_neg fun h => hsome h.2, if_neg fun h => hsome h.2, if_neg fun h => hsome h.2]

theorem echoPruneDrafts_num (mask : Nat → Nat → Bool) :
    (echoPruneDrafts (some d) mask out).numScheduledTokens.get? r =
      if r ∈ (scheduledRows d out).map Prod.fst ∧ (out.scheduledSpecDecodeTokens.get? r).isSome then
        some ((((echoPruneDrafts (some d) mask out).drafts r).length : Int) + 1)
      else out.numScheduledTokens.get? r := by
  rw [echoPruneDrafts]
  split
  · rename_i hnil
    rw [isEmpty_iff.mp hnil]
    exact (if_neg fun h => not_mem_nil h.1).symm
  · exact pruneRows_num ..

/-! ## Rows that keep everything -/

theorem pruneDrafts_length_eq {row : Nat → Bool} {full : List TokenId}
    (hlen : (pruneDrafts T row full).length = full.length) :
    full.length ≤ T ∧ ∀ t < full.length, row t = true := by
  have hT : full.length ≤ T := by
    have := pruneDrafts_length_le T row full
    omega
  refine ⟨hT, fun t ht => ?_⟩
  rw [pruneDrafts, length_map, Nat.min_eq_left hT] at hlen
  have hzip : (full.zip ((List.range full.length).map row)).length = full.length := by simp
  have hall := length_filter_eq_length_iff.mp (hlen.trans hzip.symm)
  exact hall (full[t], row t) (mem_iff_getElem.mpr ⟨t, by rw [hzip]; exact ht, by simp⟩)

/-- Nothing is taken away exactly if every row of the request selects all its drafts. -/
theorem prunedBy_length_eq_iff (k : Nat) (full : List TokenId) :
    (prunedBy T mask r rs k full).length = full.length ↔
      ∀ j, rs[j]? = some r → full.length ≤ T ∧ ∀ t < full.length, mask (k + j) t = true := by
  constructor
  · intro hlen j hj
    induction rs generalizing j k full with
    | nil => cases hj
    | cons q qs ih =>
      -- nothing was lost at the first row, and nothing after it
      have hle : (prunedBy T mask r qs (k + 1)
          (if q = r then pruneDrafts T (mask k) full else full)).length ≤ _ := prunedBy_length_le ..
      have hfirst : (if q = r then pruneDrafts T (mask k) full else full).length = full.length := by
        apply Nat.le_antisymm _ (hlen ▸ hle)
        split
        · exact (pruneDrafts_length_le ..).trans (Nat.min_le_left ..)
        · exact Nat.le_refl _
      cases j with
      | zero =>
        have hq : q = r := by simpa using hj
        rw [if_pos hq] at hfirst
        exact pruneDrafts_length_eq hfirst
      | succ j =>
        have htail := ih (k + 1) _ (hlen.trans hfirst.symm) j (by simpa using hj)
        rw [hfirst] at htail
        rw [← Nat.add_assoc, Nat.add_right_comm]
        exact htail
  · intro hrows
    apply Nat.le_antisymm (prunedBy_length_le ..)
    apply le_prunedBy_length mask (fun j hj => (hrows j hj).2) (Nat.le_refl _)
    intro hr
    obtain ⟨j, hj⟩ := mem_iff_getElem?.mp hr
    exact (hrows j hj).1

end

/-- The non-draft tokens stay, and the row of a scheduled request has as many drafts as the
scheduler output. -/
def RecordsAgree (out : SchedulerOutput) (mask : Nat → Nat → Bool) : Prop :=
  ∀ r ∈ out.scheduledReqs, ∀ n, out.numScheduledTokens.get? r = some n →
    ∃ n' stored, (echoPruneDrafts (some d) mask out).numScheduledTokens.get? r = some n' ∧
      n' - ((echoPruneDrafts (some d) mask out).drafts r).length = n - (out.drafts r).length ∧
      (b.updateStates out).specTokenIds.get? r = some stored ∧
      stored.length = ((echoPruneDrafts (some d) mask out).drafts r).length

/-- With the rows of its mask, a pruned request keeps its records exactly when it was issued one
token besides its drafts and loses none of them. -/
theorem recordsAgree_iff (out : SchedulerOutput) (mask : Nat → Nat → Bool) :
    RecordsAgree b d out mask ↔
      ∀ i r full, ((scheduledRows d out).map Prod.fst)[i]? = some r → r ∈ out.scheduledReqs →
        out.scheduledSpecDecodeTokens.get? r = some full →
          out.numScheduledTokens.get? r = some ((full.length : Int) + 1) ∧
            full.length ≤ d.totalSteps ∧ ∀ t < full.length, mask i t = true := by
  constructor
  · intro hagree i r full hi hr hfull
    have hmem := mem_of_getElem? hi
    have hdrafts : out.drafts r = full := by rw [drafts, hfull, getD_some]
    obtain ⟨n, hn⟩ := ne_none_iff_exists'.mp fun hnone =>
      (Dict.get?_eq_none_iff _).mp hnone (scheduledRows_mem r hmem)
    obtain ⟨n', stored, hn', hkept, hstored, hlen⟩ := hagree r hr n hn
    rw [echoPruneDrafts_num, if_pos ⟨hmem, by rw [hfull]; rfl⟩, Option.some.injEq] at hn'
    rw [b.updateStates_get? hr, Option.some.injEq] at hstored
    rw [← hstored, echoPruneDrafts_drafts, hdrafts] at hlen
    obtain ⟨hT, hmask⟩ := (prunedBy_length_eq_iff _ 0 full).mp hlen.symm i hi
    rw [Nat.zero_add] at hmask
    rw [hdrafts] at hkept
    refine ⟨hn.trans (congrArg some ?_), hT, hmask⟩
    omega
  intro hrows r hr n hn
  rw [b.updateStates_get? hr, echoPruneDrafts_num]
  by_cases hrow : r ∈ (scheduledRows d out).map Prod.fst ∧
      (out.scheduledSpecDecodeTokens.get? r).isSome
  · obtain ⟨hmem, hsome⟩ := hrow
    obtain ⟨full, hfull⟩ := isSome_iff_exists.mp hsome
    have hdrafts : out.drafts r = full := by rw [drafts, hfull, getD_some]
    have hlen : ((echoPruneDrafts (some d) mask out).drafts r).length = full.length := by
      rw [echoPruneDrafts_drafts, hdrafts, prunedBy_length_eq_iff]
      intro j hj
      rw [Nat.zero_add]
      exact (hrows j r full hj hr hfull).2
    obtain ⟨i, hi⟩ := mem_iff_getElem?.mp hmem
    have hnum := (hrows i r full hi hr hfull).1
    rw [hn, Option.some.injEq] at hnum
    rw [if_pos ⟨hmem, hsome⟩, hlen, hdrafts]
    exact ⟨_, full, rfl, by omega, rfl, rfl⟩
  have hsame : (echoPruneDrafts (some d) mask out).drafts r = out.drafts r := by
    rw [echoPruneDrafts_drafts]
    by_cases hmem : r ∈ (scheduledRows d out).map Prod.fst
    · have hnil : out.drafts r = [] := by
        rw [drafts, not_isSome_iff_eq_none.mp fun h => hrow ⟨hmem, h⟩,
          getD_none]
      rw [hnil]
      exact eq_nil_of_length_eq_zero (Nat.le_zero.mp (prunedBy_length_le ..))
    · rw [prunedBy_of_not_mem hmem]
  rw [if_neg hrow, hsame]
  exact ⟨n, _, hn, rfl, rfl, rfl⟩

/-- The records agree, whatever `torch.topk` answers, exactly when every request with a row and an
entry is a decode of one token whose drafts all are selected and have steps. -/
theorem echoPruneDrafts_records_iff (kMax : Nat) (b : DraftRecords) (d : DrafterOutput)
    (out : SchedulerOutput) : (∀ mask, EchoMask kMax d out mask → RecordsAgree b d out mask) ↔
      ∀ i r full, ((scheduledRows d out).map Prod.fst)[i]? = some r → r ∈ out.scheduledReqs →
        out.scheduledSpecDecodeTokens.get? r = some full →
          out.numScheduledTokens.get? r = some ((full.length : Int) + 1) ∧
            full.length ≤ d.totalSteps ∧ ∀ t < full.length, (atLeast (positionScore d out)
                (positions (scheduledRows d out).length d.totalSteps)
                (positionScore d out (i, t))).card ≤
                  nSelect kMax (scheduledRows d out).length d.totalSteps := by
  have hrow {i t : Nat} {r : ReqId} (hi : ((scheduledRows d out).map Prod.fst)[i]? = some r)
      (ht : t < d.totalSteps) :
      (i, t) ∈ positions (scheduledRows d out).length d.totalSteps := by
    rw [mem_positions, ← length_map Prod.fst]
    exact ⟨(lt_of_getElem? hi), ht⟩
  simp only [recordsAgree_iff]
  constructor
  · intro hall i r full hi hr hfull
    obtain ⟨mask, hmask⟩ := exists_topK
    obtain ⟨hnum, hT, -⟩ := hall mask hmask i r full hi hr hfull
    refine ⟨hnum, hT, fun t ht => ?_⟩
    apply (mem_every_iff (hrow hi (Nat.lt_of_lt_of_le ht hT))).mp
    intro sel htop hcard
    obtain ⟨-, -, hsel⟩ := hall (fun i j => decide ((i, j) ∈ sel))
      (echoMask_iff.mpr (by rw [selected_decide htop.subset]; exact ⟨htop, hcard⟩)) i r full hi hr
      hfull
    exact of_decide_eq_true (hsel t ht)
  · intro hrows mask hmask i r full hi hr hfull
    obtain ⟨hnum, hT, hcut⟩ := hrows i r full hi hr hfull
    refine ⟨hnum, hT, fun t ht => ?_⟩
    obtain ⟨htop, hcard⟩ := echoMask_iff.mp hmask
    exact (mem_selected.mp ((mem_every_iff (hrow hi (Nat.lt_of_lt_of_le ht hT))).mpr (hcut t ht) _
      htop hcard)).2

/-- A budget of two leaves a decode one draft, while its row has two. -/
theorem echoPruneDrafts_stale_row :
    ∃ mask, EchoMask 2 ⟨[0], 2, fun _ _ => -1⟩ (oneRequest 3 [5, 6]) mask ∧
      (echoPruneDrafts (some ⟨[0], 2, fun _ _ => -1⟩) mask (oneRequest 3 [5, 6])).drafts 0 = [5] ∧
      (DraftRecords.updateStates ⟨Dict.empty, Dict.empty⟩
        (oneRequest 3 [5, 6])).specTokenIds.get? 0 = some [5, 6] ∧
      ¬ RecordsAgree ⟨Dict.empty, Dict.empty⟩ ⟨[0], 2, fun _ _ => -1⟩ (oneRequest 3 [5, 6])
        mask := by
  refine ⟨fun i t => decide (i = 0 ∧ t = 0), ⟨by decide, ?_⟩, by decide, by decide, ?_⟩
  · intro i _ t _ i' hi' t' ht' hon _
    obtain ⟨rfl, rfl⟩ := of_decide_eq_true hon
    have hscores : ∀ i' < 1, ∀ t' < 2, cumLogProb ⟨[0], 2, fun _ _ => -1⟩ [(0, 0)] i' t' ≤
        cumLogProb ⟨[0], 2, fun _ _ => -1⟩ [(0, 0)] 0 0 := by decide +kernel
    exact hscores i' hi' t' ht'
  · intro hagree
    obtain ⟨-, -, hall⟩ := (recordsAgree_iff _ _ _ _).mp hagree 0 0 [5, 6] rfl (by decide) rfl
    exact absurd (hall 1 (by decide)) (by decide)

end VllmEcho
