import VllmEcho.Echo.Budget

/-!
# Ties among the cumulative log-probabilities

A draft step of probability one leaves the cumulative sum where it was, and `torch.topk` may then
take the later of two equal sums and leave the earlier one.  The rows keep prefixes, whatever
`torch.topk` answers, exactly when no such tie is cut by the number of selected positions.
-/

namespace VllmEcho

open Lib List

variable (d : DrafterOutput) (out : SchedulerOutput)

def KeptDownward (mask : Nat → Nat → Bool) : Prop :=
  ∀ i r, ((scheduledRows d out).map Prod.fst)[i]? = some r →
    ∀ t' < min (out.drafts r).length d.totalSteps, mask i t' = true → ∀ t < t', mask i t = true

def positionScore (p : Nat × Nat) : ℚ :=
  cumLogProb d (scheduledRows d out) p.1 p.2

/-- The number of selected positions cuts through the positions with the score `v`: all that are
higher are selected, and some but not all with this one. -/
def CutAt (kMax : Nat) (d : DrafterOutput) (out : SchedulerOutput) (v : ℚ) : Prop :=
  (above (positionScore d out) (positions (scheduledRows d out).length d.totalSteps) v).card <
      nSelect kMax (scheduledRows d out).length d.totalSteps ∧
    nSelect kMax (scheduledRows d out).length d.totalSteps <
      (atLeast (positionScore d out) (positions (scheduledRows d out).length d.totalSteps) v).card

variable {row : Nat → Bool} (full : List TokenId) {i t k n T : Nat}

section

variable {kMax : Nat} {d : DrafterOutput} {out : SchedulerOutput} {mask : Nat → Nat → Bool}

theorem echoMask_iff : EchoMask kMax d out mask ↔
    TopSelection (positionScore d out) (positions (scheduledRows d out).length d.totalSteps)
        (selected (scheduledRows d out).length d.totalSteps mask) ∧
      (selected (scheduledRows d out).length d.totalSteps mask).card =
        nSelect kMax (scheduledRows d out).length d.totalSteps :=
  topK_iff

theorem cumLogProb_antitone (hlog : ∀ row t, d.logProb row t ≤ 0) (rows : List (ReqId × Nat))
    (i : Nat) {t' : Nat} (ht : t ≤ t') : cumLogProb d rows i t' ≤ cumLogProb d rows i t := by
  induction t', ht using Nat.le_induction with
  | base => exact le_refl _
  | succ t' _ ih =>
    refine le_trans ?_ ih
    rw [cumLogProb, range_succ, map_append, sum_append,
      map_singleton, sum_singleton]
    exact add_le_of_nonpos_right (hlog _ _)

/-! ## A downward closed row keeps a prefix -/

theorem zipKept_of_false (hrow : ∀ t, k ≤ t → t < k + n → row t = false) :
    (full.zip ((range' k n).map row)).filter Prod.snd = [] := by
  rw [filter_eq_nil_iff]
  intro p hp
  obtain ⟨t, ht, htrow⟩ := mem_map.mp (of_mem_zip hp).2
  rw [mem_range'_1] at ht
  rw [← htrow, hrow t ht.1 ht.2]
  exact Bool.false_ne_true

theorem zipKept_isPrefix
    (hrow : ∀ t', t' < k + n → row t' = true → ∀ t, k ≤ t → t < t' → row t = true) :
    ((full.zip ((range' k n).map row)).filter Prod.snd).map Prod.fst <+: full := by
  induction full generalizing k n with
  | nil => exact prefix_rfl
  | cons x full ih =>
    cases n with
    | zero => exact nil_prefix
    | succ n =>
      rw [range'_succ, map_cons, zip_cons_cons]
      cases hk : row k with
      | true =>
        rw [filter_cons_of_pos rfl, map_cons, cons_prefix_cons]
        exact ⟨rfl, ih fun t' ht' hon t hkt => hrow t' (by omega) hon t (by omega)⟩
      | false =>
        -- the first position is left out, so all that follow are
        have hoff : ∀ t, k + 1 ≤ t → t < k + 1 + n → row t = false := by
          intro t hkt htn
          rw [Bool.eq_false_iff]
          intro hon
          rw [hrow t (by omega) hon k (Nat.le_refl k) (by omega)] at hk
          cases hk
        rw [filter_cons_of_neg Bool.false_ne_true, zipKept_of_false full hoff]
        exact nil_prefix

theorem pruneDrafts_isPrefix {full : List TokenId}
    (hrow : ∀ t' < min full.length T, row t' = true → ∀ t < t', row t = true) :
    pruneDrafts T row full <+: full := by
  rw [pruneDrafts, range_eq_range']
  exact zipKept_isPrefix full fun t' ht' hon t _ htt => hrow t' (by omega) hon t htt

theorem prunedBy_of_nodup {rs : List ReqId} {r : ReqId} (hnd : rs.Nodup) (hi : rs[i]? = some r)
    (k : Nat) (full : List TokenId) :
    prunedBy T mask r rs k full = pruneDrafts T (mask (k + i)) full := by
  induction rs generalizing i k with
  | nil => cases hi
  | cons q qs ih =>
    rw [nodup_cons] at hnd
    cases i with
    | zero =>
      have hq : q = r := by simpa using hi
      rw [prunedBy, if_pos hq, prunedBy_of_not_mem (hq ▸ hnd.1), Nat.add_zero]
    | succ i =>
      have hq : q ≠ r := fun hq => hnd.1 (hq ▸ mem_of_getElem? hi)
      rw [prunedBy, if_neg hq, ih hnd.2 hi, Nat.add_right_comm, Nat.add_assoc]

theorem scheduledRows_nodup (hnd : d.reqIds.Nodup) :
    ((scheduledRows d out).map Prod.fst).Nodup := by
  rw [scheduledRows_map_fst d.reqIds d.totalSteps d.logProb out]
  exact hnd.filter _

theorem KeptDownward.isPrefix (hkept : KeptDownward d out mask) (hnd : d.reqIds.Nodup) (r : ReqId) :
    (echoPruneDrafts (some d) mask out).drafts r <+: out.drafts r := by
  rw [echoPruneDrafts_drafts]
  by_cases hr : r ∈ (scheduledRows d out).map Prod.fst
  · obtain ⟨i, hi⟩ := mem_iff_getElem?.mp hr
    rw [prunedBy_of_nodup (scheduledRows_nodup hnd) hi, Nat.zero_add]
    exact pruneDrafts_isPrefix (hkept i r hi)
  · rw [prunedBy_of_not_mem hr]

end

/-- The rows keep prefixes, whatever `torch.topk` answers, exactly when the number of selected
positions cuts no tie between two drafts of a request. -/
theorem echoPruneDrafts_isPrefix_iff (kMax : Nat) {d : DrafterOutput} (out : SchedulerOutput)
    (hnd : d.reqIds.Nodup) (hlog : ∀ row t, d.logProb row t ≤ 0) :
    (∀ mask, EchoMask kMax d out mask → KeptDownward d out mask ∧
        ∀ r, (echoPruneDrafts (some d) mask out).drafts r <+: out.drafts r) ↔
      ∀ i r, ((scheduledRows d out).map Prod.fst)[i]? = some r →
        ∀ t' < min (out.drafts r).length d.totalSteps, ∀ t < t',
          positionScore d out (i, t') = positionScore d out (i, t) →
            ¬ CutAt kMax d out (positionScore d out (i, t)) := by
  have hrows {i : Nat} {r : ReqId} (hi : ((scheduledRows d out).map Prod.fst)[i]? = some r) :
      i < (scheduledRows d out).length := by
    rw [← length_map Prod.fst]
    exact lt_of_getElem? hi
  constructor
  · intro hall i r hi t' ht' t ht heq hcut
    have hlt := Nat.lt_of_lt_of_le ht' (Nat.min_le_right ..)
    -- a selection with the later position and without the earlier one is a mask
    obtain ⟨sel, htop, hcard, hin, hout⟩ := (exists_separating_iff
      (mem_positions.mpr ⟨hrows hi, ht.trans hlt⟩) (mem_positions.mpr ⟨hrows hi, hlt⟩)
      (fun hp => ht.ne' (congrArg Prod.snd hp)) heq).mpr hcut
    have hkept := (hall (fun i j => decide ((i, j) ∈ sel))
      (echoMask_iff.mpr (by rw [selected_decide htop.subset]; exact ⟨htop, hcard⟩))).1
    exact hout (of_decide_eq_true (hkept i r hi t' ht' (decide_eq_true hin) t ht))
  intro hcuts mask hmask
  obtain ⟨htop, hcard⟩ := echoMask_iff.mp hmask
  have hkept : KeptDownward d out mask := by
    intro i r hi t' ht' hon t ht
    have hlt := Nat.lt_of_lt_of_le ht' (Nat.min_le_right ..)
    have hmem := mem_positions.mpr ⟨hrows hi, ht.trans hlt⟩
    have hmem' := mem_positions.mpr ⟨hrows hi, hlt⟩
    by_contra hoff
    have hin := mem_selected.mpr ⟨⟨hrows hi, hlt⟩, hon⟩
    have hout : (i, t) ∉ selected (scheduledRows d out).length d.totalSteps mask :=
      fun h => hoff (mem_selected.mp h).2
    have heq : positionScore d out (i, t') = positionScore d out (i, t) :=
      le_antisymm (cumLogProb_antitone hlog _ i ht.le) (htop.top _ hin _ hmem hout)
    exact hcuts i r hi t' ht' t ht heq ((exists_separating_iff hmem hmem'
      (fun hp => ht.ne' (congrArg Prod.snd hp)) heq).mp ⟨_, htop, hcard, hin, hout⟩)
  exact ⟨hkept, hkept.isPrefix hnd⟩

def oneRequest (n : Int) (drafts : List TokenId) : SchedulerOutput where
  scheduledNewReqs := []
  scheduledRunningReqs := [0]
  scheduledResumedReqs := []
  newBlockIds := Dict.empty
  numScheduledTokens := Dict.empty.set 0 n
  totalNumScheduledTokens := n
  scheduledSpecDecodeTokens := Dict.empty.set 0 drafts
  scheduledEncoderInputs := Dict.empty
  preemptedReqIds := []
  finishedReqIds := []
  freeEncoderMMHashes := []

/-- A drafter that doubts every draft makes no ties. -/
theorem echoPruneDrafts_isPrefix_doubtful : [0].Nodup ∧ (-1 : ℚ) ≤ 0 ∧
      ∀ mask, EchoMask 2 ⟨[0], 2, fun _ _ => -1⟩ (oneRequest 3 [5, 6]) mask →
        KeptDownward ⟨[0], 2, fun _ _ => -1⟩ (oneRequest 3 [5, 6]) mask ∧
          ∀ r, (echoPruneDrafts (some ⟨[0], 2, fun _ _ => -1⟩) mask
              (oneRequest 3 [5, 6])).drafts r <+: (oneRequest 3 [5, 6]).drafts r := by
  refine ⟨by decide, by decide, ?_⟩
  apply (echoPruneDrafts_isPrefix_iff 2 (oneRequest 3 [5, 6]) (by decide)
    (fun _ _ => show (-1 : ℚ) ≤ 0 by decide)).mpr
  intro i r hi t' ht' t ht heq
  have hrow : i < 1 := lt_of_getElem? hi
  have hstep : t' < 2 := Nat.lt_of_lt_of_le ht' (Nat.min_le_right ..)
  have hstrict : ∀ i < 1, ∀ t' < 2, ∀ t < t',
      positionScore ⟨[0], 2, fun _ _ => -1⟩ (oneRequest 3 [5, 6]) (i, t') ≠
        positionScore ⟨[0], 2, fun _ _ => -1⟩ (oneRequest 3 [5, 6]) (i, t) := by decide +kernel
  exact absurd heq (hstrict i hrow t' hstep t ht)

/-- The second draft is sure: the budget takes it without the first. -/
theorem echoPruneDrafts_tie_not_prefix : ∃ logProb mask, (∀ row t, logProb row t ≤ 0) ∧
      EchoMask 2 ⟨[0], 2, logProb⟩ (oneRequest 3 [5, 6]) mask ∧
      ¬ KeptDownward ⟨[0], 2, logProb⟩ (oneRequest 3 [5, 6]) mask ∧
      (echoPruneDrafts (some ⟨[0], 2, logProb⟩) mask (oneRequest 3 [5, 6])).drafts 0 = [6] := by
  refine ⟨fun _ t => if t = 0 then -1 else 0, fun i t => decide (i = 0 ∧ t = 1), ?_,
    ⟨by decide, ?_⟩, ?_, by decide⟩
  · intro row t
    dsimp only
    split <;> decide
  · intro i _ t _ i' hi' t' ht' hon _
    obtain ⟨rfl, rfl⟩ := of_decide_eq_true hon
    have hscores : ∀ i' < 1, ∀ t' < 2, cumLogProb ⟨[0], 2, fun _ t => if t = 0 then -1 else 0⟩
        [(0, 0)] i' t' ≤ cumLogProb ⟨[0], 2, fun _ t => if t = 0 then -1 else 0⟩ [(0, 0)] 0 1 := by
      decide +kernel
    exact hscores i' hi' t' ht'
  · intro hkept
    exact absurd (hkept 0 0 rfl 1 (by decide) rfl 0 (by decide)) (by decide)

end VllmEcho
