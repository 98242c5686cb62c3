import VllmEcho.Sched.Scheduler

/-!
# ECHO pruning

`NPUModelRunner._echo_prune_drafts`: the drafter's rows that belong to scheduled requests compete
for a budget of `K_MAX` tokens by their cumulative log-probabilities, and the scheduler output is
rewritten in place with the drafts that win.
-/

namespace VllmEcho

open Lib List SchedulerOutput

/-- What the drafter left: the request of each row, `_draft_token_req_ids[:bs_drafter]`, the draft
steps, and the log-probability of each drafted token. -/
structure DrafterOutput where
  reqIds : List ReqId
  totalSteps : Nat
  logProb : Nat → Nat → ℚ

variable (d : DrafterOutput) (out : SchedulerOutput)

def scheduledRows : List (ReqId × Nat) :=
  d.reqIds.zipIdx.filter fun p => out.numScheduledTokens.contains p.1

def cumLogProb (rows : List (ReqId × Nat)) (i t : Nat) : ℚ :=
  ((range (t + 1)).map (d.logProb ((rows.map Prod.snd).getD i 0))).sum

variable (totalSteps kMax : Nat)

def nSelect (actualBs totalSteps : Nat) : Nat :=
  min (kMax - actualBs) (actualBs * totalSteps)

variable (row : Nat → Bool)

def rowCount : Nat :=
  ((range totalSteps).filter row).length

/-- What `torch.topk` promises of the mask built from its indices: `n` positions, none of them
below one that was left out. -/
structure TopK (score : Nat → Nat → ℚ) (rows steps n : Nat) (mask : Nat → Nat → Bool) : Prop where
  count : ((range rows).map fun i => rowCount steps (mask i)).sum = n
  top : ∀ i < rows, ∀ t < steps, ∀ i' < rows, ∀ t' < steps, mask i t = true →
    mask i' t' = false → score i' t' ≤ score i t

variable (full : List TokenId)

def pruneDrafts : List TokenId :=
  ((full.zip ((range (min full.length totalSteps)).map row)).filter Prod.snd).map Prod.fst

/-- One turn of the loop over the selected rows. A request whose selection is empty still counts as
speculative. -/
def pruneRow (out : SchedulerOutput) (r : ReqId) : SchedulerOutput :=
  match out.scheduledSpecDecodeTokens.get? r with
  | none => out
  | some full =>
    { out with
      scheduledSpecDecodeTokens :=
        out.scheduledSpecDecodeTokens.set r (pruneDrafts totalSteps row full)
      numScheduledTokens :=
        out.numScheduledTokens.set r ((pruneDrafts totalSteps row full).length + 1) }

def pruneRows (totalSteps : Nat) (mask : Nat → Nat → Bool) :
    List ReqId → Nat → SchedulerOutput → SchedulerOutput
  | [], _, out => out
  | r :: rs, i, out => pruneRows totalSteps mask rs (i + 1) (pruneRow totalSteps (mask i) out r)

/-- `_echo_prune_drafts` with the mask that `topk` gave; without drafts, drafter logits or a
scheduled row it returns early. -/
def echoPruneDrafts (drafter : Option DrafterOutput) (mask : Nat → Nat → Bool)
    (out : SchedulerOutput) : SchedulerOutput :=
  match drafter with
  | none => out
  | some d =>
    if (scheduledRows d out).isEmpty then out
    else
      let out' := pruneRows d.totalSteps mask ((scheduledRows d out).map Prod.fst) 0 out
      { out' with totalNumScheduledTokens := out'.numScheduledTokens.values.sum }

def EchoMask (d : DrafterOutput) (out : SchedulerOutput) (mask : Nat → Nat → Bool) : Prop :=
  TopK (cumLogProb d (scheduledRows d out)) (scheduledRows d out).length d.totalSteps
    (nSelect kMax (scheduledRows d out).length d.totalSteps) mask

/-! ## One row -/

variable (T : Nat)

theorem pruneDrafts_length_le (row : Nat → Bool) (full : List TokenId) :
    (pruneDrafts T row full).length ≤ min full.length T := by
  rw [pruneDrafts, length_map]
  apply Nat.le_trans (length_filter_le ..)
  rw [length_zip, length_map, length_range]
  exact Nat.min_le_right ..

theorem zipKept_length_le (k n : Nat) : ((full.zip ((range' k n).map row)).filter Prod.snd).length ≤
      ((range' k n).filter row).length := by
  induction full generalizing k n with
  | nil => simp
  | cons x full ih =>
    cases n with
    | zero => simp
    | succ n =>
      rw [range'_succ, map_cons, zip_cons_cons, filter_cons, filter_cons]
      have := ih (k + 1) n
      cases row k <;> simp <;> omega

theorem pruneDrafts_length_le_rowCount {row : Nat → Bool} {full : List TokenId} :
    (pruneDrafts T row full).length ≤ rowCount T row := by
  rw [pruneDrafts, length_map, rowCount, range_eq_range', range_eq_range']
  apply Nat.le_trans (zipKept_length_le row full 0 _)
  apply List.Sublist.length_le
  apply List.Sublist.filter
  exact range'_sublist_right.mpr (Nat.min_le_right ..)

variable {x : Nat}

theorem le_zipKept_length (k n : Nat) (hrow : ∀ t, k ≤ t → t < k + x → row t = true)
    (hx : x ≤ full.length) (hn : x ≤ n) :
    x ≤ ((full.zip ((range' k n).map row)).filter Prod.snd).length := by
  induction x generalizing full k n with
  | zero => exact Nat.zero_le _
  | succ x ih =>
    cases full with
    | nil => simp at hx
    | cons y full =>
      cases n with
      | zero => omega
      | succ n =>
        have hk : row k = true := hrow k (Nat.le_refl k) (by omega)
        have := ih full (k + 1) n (fun t ht htx => hrow t (by omega) (by omega))
          (by simpa using hx) (by omega)
        rw [range'_succ, map_cons, zip_cons_cons, hk, filter_cons_of_pos rfl,
          length_cons]
        omega

theorem le_pruneDrafts_length {T : Nat} {row : Nat → Bool} {full : List TokenId}
    (hrow : ∀ t < x, row t = true) (hx : x ≤ min full.length T) :
    x ≤ (pruneDrafts T row full).length := by
  rw [pruneDrafts, length_map, range_eq_range']
  exact le_zipKept_length row _ _ _ (fun t _ ht => hrow t (by omega)) (by omega) hx

/-! ## All rows -/

def prunedBy (T : Nat) (mask : Nat → Nat → Bool) (r : ReqId) :
    List ReqId → Nat → List TokenId → List TokenId
  | [], _, full => full
  | q :: qs, i, full =>
    prunedBy T mask r qs (i + 1) (if q = r then pruneDrafts T (mask i) full else full)

variable (mask : Nat → Nat → Bool) (rs : List ReqId) {i : Nat}

section

variable {T : Nat} {mask : Nat → Nat → Bool} {r : ReqId} {rs : List ReqId}

theorem prunedBy_of_not_mem (hr : r ∉ rs) {full : List TokenId} :
    prunedBy T mask r rs i full = full := by
  induction rs generalizing i with
  | nil => rfl
  | cons q qs ih =>
    rw [mem_cons, not_or] at hr
    rw [prunedBy, if_neg (Ne.symm hr.1), ih hr.2]

theorem prunedBy_length_le {full : List TokenId} :
    (prunedBy T mask r rs i full).length ≤ full.length := by
  induction rs generalizing i full with
  | nil => exact Nat.le_refl _
  | cons q qs ih =>
    apply Nat.le_trans (ih ..)
    split
    · exact Nat.le_trans (pruneDrafts_length_le ..) (Nat.min_le_left ..)
    · exact Nat.le_refl _

theorem prunedBy_length_le_rowCount {j : Nat} (hj : rs[j]? = some r) :
    (prunedBy T mask r rs i full).length ≤ rowCount T (mask (i + j)) := by
  induction rs generalizing i j full with
  | nil => simp at hj
  | cons q qs ih =>
    rw [prunedBy]
    cases j with
    | zero =>
      have hq : q = r := by simpa using hj
      rw [if_pos hq]
      exact Nat.le_trans (prunedBy_length_le ..) (pruneDrafts_length_le_rowCount ..)
    | succ j =>
      have := ih (i := i + 1) (if q = r then pruneDrafts T (mask i) full else full)
        (by simpa using hj)
      rwa [Nat.add_right_comm] at this

theorem prunedBy_length_le_steps (hr : r ∈ rs) {full : List TokenId} :
    (prunedBy T mask r rs i full).length ≤ min full.length T := by
  apply Nat.le_min.mpr
  refine ⟨prunedBy_length_le .., ?_⟩
  obtain ⟨j, hj⟩ := mem_iff_getElem?.mp hr
  apply Nat.le_trans (prunedBy_length_le_rowCount full hj)
  exact Nat.le_trans (length_filter_le ..) (by simp)

theorem le_prunedBy_length (mask : Nat → Nat → Bool) {full : List TokenId}
    (hrow : ∀ j, rs[j]? = some r → ∀ t < x, mask (i + j) t = true) (hx : x ≤ full.length)
    (hT : r ∈ rs → x ≤ T) : x ≤ (prunedBy T mask r rs i full).length := by
  induction rs generalizing i full with
  | nil => exact hx
  | cons q qs ih =>
    apply ih
    · intro j hj t ht
      have := hrow (j + 1) (by simpa using hj) t ht
      rwa [← Nat.add_assoc, Nat.add_right_comm] at this
    · split
      · rename_i hq
        exact le_pruneDrafts_length (hrow 0 (by simp [hq]))
          (Nat.le_min.mpr ⟨hx, hT (by simp [hq])⟩)
      · exact hx
    · intro hmem
      exact hT (mem_cons_of_mem _ hmem)

end

def Decodes : Prop :=
  ∀ r ∈ out.numScheduledTokens.keys,
    out.numScheduledTokens.get? r = some (1 + ((out.drafts r).length : Int))

section

variable {T : Nat} {row : Nat → Bool} {out : SchedulerOutput} {q : ReqId}

theorem pruneRow_drafts (r : ReqId) : (pruneRow T row out q).drafts r =
      if q = r then pruneDrafts T row (out.drafts r) else out.drafts r := by
  rw [pruneRow]
  cases hq : out.scheduledSpecDecodeTokens.get? q with
  | none =>
    by_cases hqr : q = r
    · rw [if_pos hqr, drafts, ← hqr, hq]
      rfl
    · rw [if_neg hqr]
  | some full =>
    rw [drafts, drafts]
    rw [Dict.get?_set]
    by_cases hqr : q = r
    · rw [if_pos hqr, if_pos hqr.symm, ← hqr, hq]
      rfl
    · rw [if_neg hqr, if_neg (Ne.symm hqr)]

theorem pruneRow_keys (row : Nat → Bool) (hq : q ∈ out.numScheduledTokens.keys) :
    (pruneRow T row out q).numScheduledTokens.keys = out.numScheduledTokens.keys := by
  rw [pruneRow]
  cases out.scheduledSpecDecodeTokens.get? q with
  | none => rfl
  | some full => exact Dict.keys_set_of_mem _ hq

theorem pruneRow_decodes (hq : q ∈ out.numScheduledTokens.keys) (hd : Decodes out) :
    Decodes (pruneRow T row out q) := by
  intro r hr
  rw [pruneRow_keys row hq] at hr
  rw [pruneRow_drafts]
  have hnum := hd r hr
  rw [pruneRow]
  cases hspec : out.scheduledSpecDecodeTokens.get? q with
  | none =>
    rw [hnum]
    split
    · rename_i hqr
      rw [drafts, ← hqr, hspec]
      rfl
    · rfl
  | some full =>
    rw [Dict.get?_set]
    by_cases hqr : q = r
    · rw [if_pos hqr, if_pos hqr.symm, drafts, ← hqr, hspec, Int.add_comm]
      rfl
    · rw [if_neg hqr, if_neg (Ne.symm hqr)]
      exact hnum

end

theorem pruneRows_drafts (i : Nat) {out : SchedulerOutput} (r : ReqId) :
    (pruneRows T mask rs i out).drafts r = prunedBy T mask r rs i (out.drafts r) := by
  induction rs generalizing i out with
  | nil => rfl
  | cons q qs ih =>
    rw [pruneRows, ih, pruneRow_drafts]
    rfl

theorem echoPruneDrafts_drafts {out : SchedulerOutput} (r : ReqId) :
    (echoPruneDrafts (some d) mask out).drafts r =
      prunedBy d.totalSteps mask r ((scheduledRows d out).map Prod.fst) 0 (out.drafts r) := by
  rw [echoPruneDrafts]
  split
  · rename_i hnil
    rw [isEmpty_iff.mp hnil]
    rfl
  · exact pruneRows_drafts ..

theorem pruneRows_spec (i : Nat) (out : SchedulerOutput)
    (hrs : ∀ r ∈ rs, r ∈ out.numScheduledTokens.keys) (hd : Decodes out) :
    (pruneRows T mask rs i out).numScheduledTokens.keys = out.numScheduledTokens.keys ∧
      Decodes (pruneRows T mask rs i out) := by
  induction rs generalizing i out with
  | nil => exact ⟨rfl, hd⟩
  | cons q qs ih =>
    have hq := hrs q mem_cons_self
    have hkeys := pruneRow_keys (T := T) (mask i) hq
    obtain ⟨hk, hdec⟩ := ih (i + 1) (pruneRow T (mask i) out q)
      (fun r hr => by rw [hkeys]; exact hrs r (mem_cons_of_mem _ hr))
      (pruneRow_decodes hq hd)
    exact ⟨hk.trans hkeys, hdec⟩

end VllmEcho
