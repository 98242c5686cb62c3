import VllmEcho.Echo.Prune
import VllmEcho.Lib.TopSelection

/-!
# The token budget of a pruned step

The budget `K_MAX - actual_bs` counts the drafter rows only, while a scheduled request without a
row keeps all its drafts.  The total after pruning is therefore bounded by `K_MAX` (or the number
of requests) exactly when the drafts outside the rows leave room for everything the rows may keep.
-/

namespace VllmEcho

open Lib Function List

variable {d : DrafterOutput} {rs : List ReqId} {rows steps : Nat} {mask : Nat → Nat → Bool}
  {kMax : Nat} (out : SchedulerOutput)

def rowlessDrafts (rs : List ReqId) : Nat :=
  ((out.numScheduledTokens.keys.filter fun r => decide (r ∉ rs)).map
    fun r => (out.drafts r).length).sum

def rowTotal (rs : List ReqId) (x : ReqId → Nat) : Nat :=
  ((out.numScheduledTokens.keys.filter fun r => decide (r ∈ rs)).map x).sum

/-- Numbers of kept drafts a selection of `kMax - rs.length` positions can realise: a request with
several rows needs its positions in each of them. -/
structure Feasible (kMax totalSteps : Nat) (out : SchedulerOutput) (rs : List ReqId)
    (x : ReqId → Nat) : Prop where
  bounded : ∀ r ∈ rs, x r ≤ min (out.drafts r).length totalSteps
  budget : (rs.map x).sum ≤ kMax - rs.length

def BudgetFits (kMax totalSteps : Nat) (out : SchedulerOutput) (rs : List ReqId) : Prop :=
  ∀ x, Feasible kMax totalSteps out rs x →
    rowlessDrafts out rs + rowTotal out rs x ≤ kMax - out.numScheduledTokens.keys.length

/-! ## The total -/

theorem sum_map_filter_split {α : Type} (l : List α) (p : α → Bool) (f : α → Nat) :
    (l.map f).sum = ((l.filter fun a => !p a).map f).sum + ((l.filter p).map f).sum := by
  rw [← ((filter_append_perm p l).map f).sum_eq, map_append, sum_append, Nat.add_comm]

theorem sum_map_one_add {α : Type} (l : List α) (f : α → Nat) :
    (l.map fun a => (1 + (f a : Int))).sum = ((l.length + (l.map f).sum : Nat) : Int) := by
  induction l with
  | nil => rfl
  | cons a l ih =>
    rw [map_cons, sum_cons, length_cons, map_cons, sum_cons]
    omega

variable {out : SchedulerOutput}

theorem Decodes.total (hd : Decodes out) : out.numScheduledTokens.values.sum =
      ((out.numScheduledTokens.keys.length +
        (out.numScheduledTokens.keys.map fun r => (out.drafts r).length).sum : Nat) : Int) := by
  rw [← sum_map_one_add]
  congr 1
  show out.numScheduledTokens.entries.map Prod.snd =
    (out.numScheduledTokens.entries.map Prod.fst).map _
  rw [map_map]
  apply map_congr_left
  intro e he
  have hmem : e.1 ∈ out.numScheduledTokens.keys := mem_map_of_mem he
  have hget := (out.numScheduledTokens.get?_eq_some_iff).mpr he
  rw [hd e.1 hmem] at hget
  exact (Option.some.inj hget).symm

theorem scheduledRows_mem :
    ∀ r ∈ (scheduledRows d out).map Prod.fst, r ∈ out.numScheduledTokens.keys := by
  intro r hr
  obtain ⟨p, hp, rfl⟩ := mem_map.mp hr
  have hc := (mem_filter.mp hp).2
  by_contra hnot
  rw [← Dict.get?_eq_none_iff] at hnot
  rw [Dict.contains, hnot] at hc
  cases hc

/-- The total after pruning: one token for each request, the drafts outside the rows, and what the
rows keep. -/
theorem echoPruneDrafts_total (hd : Decodes out) (hrow : scheduledRows d out ≠ [])
    (hrs : rs = (scheduledRows d out).map Prod.fst) : let out' := echoPruneDrafts (some d) mask out
    out'.totalNumScheduledTokens = out'.numScheduledTokens.values.sum ∧
      out'.totalNumScheduledTokens = ((out.numScheduledTokens.keys.length +
        (rowlessDrafts out rs + rowTotal out rs fun r =>
          (prunedBy d.totalSteps mask r rs 0 (out.drafts r)).length) : Nat) : Int) := by
  intro out'
  have hout' : out' = { pruneRows d.totalSteps mask rs 0 out with
      totalNumScheduledTokens :=
        (pruneRows d.totalSteps mask rs 0 out).numScheduledTokens.values.sum } := by
    show echoPruneDrafts (some d) mask out = _
    rw [echoPruneDrafts, if_neg (by simpa using hrow), hrs]
  obtain ⟨hkeys, hdec⟩ := pruneRows_spec d.totalSteps mask rs 0 out
    (hrs ▸ scheduledRows_mem) hd
  rw [hout']
  refine ⟨rfl, ?_⟩
  show (pruneRows d.totalSteps mask rs 0 out).numScheduledTokens.values.sum = _
  rw [hdec.total, hkeys, sum_map_filter_split _ (fun r => decide (r ∈ rs))]
  congr 3
  · have hcongr : (out.numScheduledTokens.keys.filter fun r => !decide (r ∈ rs)) =
        out.numScheduledTokens.keys.filter fun r => decide (r ∉ rs) := by simp
    rw [hcongr]
    congr 1
    apply map_congr_left
    intro r hr
    have hnot : r ∉ rs := of_decide_eq_true (mem_filter.mp hr).2
    rw [pruneRows_drafts, prunedBy_of_not_mem hnot]
  · congr 1
    apply map_congr_left
    intro r _
    rw [pruneRows_drafts]

/-! ## Masks and selections -/

def positions (rows steps : Nat) : Finset (Nat × Nat) :=
  Finset.range rows ×ˢ Finset.range steps

def selected (rows steps : Nat) (mask : Nat → Nat → Bool) : Finset (Nat × Nat) :=
  (positions rows steps).filter fun p => mask p.1 p.2 = true

theorem selected_subset : selected rows steps mask ⊆ positions rows steps :=
  Finset.filter_subset _ _

variable {i t : Nat}

theorem mem_positions : (i, t) ∈ positions rows steps ↔ i < rows ∧ t < steps := by
  rw [positions, Finset.mem_product, Finset.mem_range, Finset.mem_range]

theorem mem_selected :
    (i, t) ∈ selected rows steps mask ↔ (i < rows ∧ t < steps) ∧ mask i t = true := by
  rw [selected, Finset.mem_filter, mem_positions]

theorem rowCount_eq_card (row : Nat → Bool) :
    rowCount steps row = ((Finset.range steps).filter fun t => row t = true).card := by
  show _ = ((range steps).filter fun t => decide (row t = true)).length
  simp only [Bool.decide_eq_true, rowCount]

theorem card_selected : (selected rows steps mask).card =
      ((range rows).map fun i => rowCount steps (mask i)).sum := by
  rw [selected, positions, Finset.card_filter, Finset.sum_product]
  apply Finset.sum_congr rfl
  intro i _
  rw [rowCount_eq_card, Finset.card_filter]

variable {score : Nat → Nat → ℚ}

theorem topK_iff {n : Nat} : TopK score rows steps n mask ↔
      TopSelection (fun p : Nat × Nat => score p.1 p.2) (positions rows steps)
        (selected rows steps mask) ∧ (selected rows steps mask).card = n := by
  rw [card_selected]
  constructor
  · rintro ⟨hcount, htop⟩
    refine ⟨⟨selected_subset .., ?_⟩, hcount⟩
    rintro ⟨i, t⟩ ha ⟨i', t'⟩ hb hnot
    obtain ⟨⟨hi, ht⟩, hmask⟩ := mem_selected.mp ha
    rw [mem_positions] at hb
    rw [mem_selected, not_and] at hnot
    exact htop i hi t ht i' hb.1 t' hb.2 hmask (Bool.eq_false_iff.mpr (hnot hb))
  · rintro ⟨⟨_, htop⟩, hcount⟩
    refine ⟨hcount, ?_⟩
    intro i hi t ht i' hi' t' ht' hmask hmask'
    apply htop (i, t) (mem_selected.mpr ⟨⟨hi, ht⟩, hmask⟩) (i', t') (mem_positions.mpr ⟨hi', ht'⟩)
    rw [mem_selected, hmask']
    simp

theorem card_positions : (positions rows steps).card = rows * steps := by
  rw [positions, Finset.card_product, Finset.card_range, Finset.card_range]

theorem selected_decide {t : Finset (Nat × Nat)} (ht : t ⊆ positions rows steps) :
    selected rows steps (fun i j => decide ((i, j) ∈ t)) = t := by
  ext ⟨i, j⟩
  rw [mem_selected, decide_eq_true_iff]
  constructor
  · exact fun h => h.2
  · exact fun h => ⟨mem_positions.mp (ht h), h⟩

theorem exists_topK : ∃ mask, TopK score rows steps (nSelect kMax rows steps) mask := by
  obtain ⟨t, htop, hcard⟩ := exists_topSelection (fun p : Nat × Nat => score p.1 p.2)
    (positions rows steps) (n := nSelect kMax rows steps)
    (by rw [card_positions]; exact Nat.min_le_right ..)
  refine ⟨fun i j => decide ((i, j) ∈ t), ?_⟩
  rw [topK_iff, selected_decide htop.subset]
  exact ⟨htop, hcard⟩

/-! ## What the rows keep is feasible -/

variable {x : ReqId → Nat}

theorem sum_map_le_rows (c : Nat → Nat) (i : Nat) (hle : ∀ j r, rs[j]? = some r → x r ≤ c (i + j)) :
    (rs.map x).sum ≤ ((range' i rs.length).map c).sum := by
  induction rs generalizing i with
  | nil => exact Nat.le_refl _
  | cons r rs ih =>
    have hhead := hle 0 r rfl
    have htail := ih (i + 1) fun j q hj => by
      have := hle (j + 1) q (by simpa using hj)
      rwa [← Nat.add_assoc, Nat.add_right_comm] at this
    exact Nat.add_le_add hhead htail

theorem feasible_prunedBy {T : Nat}
    (hmask : TopK score rs.length T (nSelect kMax rs.length T) mask) :
    Feasible kMax T out rs fun r => (prunedBy T mask r rs 0 (out.drafts r)).length := by
  constructor
  · intro r hr
    exact prunedBy_length_le_steps hr
  · apply Nat.le_trans (sum_map_le_rows (fun i => rowCount T (mask i)) 0 ?_)
    · rw [← range_eq_range', hmask.count]
      exact Nat.min_le_left ..
    · intro j r hj
      exact prunedBy_length_le_rowCount _ hj

/-! ## Every feasible choice is forced by some log-probabilities -/

variable (reqIds : List ReqId)

def sureOf (x : ReqId → Nat) (row t : Nat) : ℚ :=
  if t < x (reqIds.getD row 0) then 0 else -1

theorem sum_range_sure (x t : Nat) :
    ((range (t + 1)).map fun s => if s < x then (0 : ℚ) else -1).sum =
      -((t + 1 - x : Nat) : ℚ) := by
  induction t with
  | zero => cases x <;> simp
  | succ t ih =>
    rw [range_succ, map_append, sum_append, ih, map_singleton]
    split
    · have h1 : t + 1 - x = 0 := by omega
      have h2 : t + 1 + 1 - x = 0 := by omega
      rw [h1, h2]
      simp
    · have h1 : t + 1 + 1 - x = t + 1 - x + 1 := by omega
      rw [h1, Nat.cast_add, neg_add]
      simp

section

variable {reqIds : List ReqId} {T : Nat} {out : SchedulerOutput} {x : ReqId → Nat}

theorem scheduledRows_getD (hi : i < (scheduledRows d out).length) :
    d.reqIds.getD (((scheduledRows d out).map Prod.snd).getD i 0) 0 =
      ((scheduledRows d out).map Prod.fst).getD i 0 := by
  have hzip := mem_zipIdx_iff_getElem?.mp (mem_of_mem_filter (getElem_mem hi))
  rw [getD_eq_getElem?_getD, getD_eq_getElem?_getD, getD_eq_getElem?_getD,
    getElem?_map, getElem?_map, getElem?_eq_getElem hi, Option.map_some]
  exact congrArg (fun o : Option ReqId => o.getD 0) hzip

theorem cumLogProb_sureOf (t : Nat)
    (hi : i < (scheduledRows ⟨reqIds, T, sureOf reqIds x⟩ out).length) :
    cumLogProb ⟨reqIds, T, sureOf reqIds x⟩ (scheduledRows ⟨reqIds, T, sureOf reqIds x⟩ out) i t =
      -((t + 1 - x (((scheduledRows ⟨reqIds, T, sureOf reqIds x⟩ out).map Prod.fst).getD i 0) :
        Nat) : ℚ) := by
  rw [← scheduledRows_getD hi, ← sum_range_sure]
  rfl

def sureMask (rs : List ReqId) (x : ReqId → Nat) (i t : Nat) : Bool :=
  decide (t < x (rs.getD i 0))

theorem getD_of_getElem? {r : ReqId} (hi : rs[i]? = some r) : rs.getD i 0 = r := by
  rw [getD_eq_getElem?_getD, hi, Option.getD_some]

theorem card_sureMask (hxT : ∀ r ∈ rs, x r ≤ T) :
    (selected rs.length T (sureMask rs x)).card = (rs.map x).sum := by
  rw [card_selected]
  congr 1
  apply ext_getElem (by simp)
  intro i h1 _
  have hi : i < rs.length := by simpa using h1
  have hx := hxT _ (getElem_mem hi)
  rw [getElem_map, getElem_range, getElem_map, rowCount_eq_card,
    ← Finset.card_range (x rs[i])]
  congr 1
  ext t
  rw [Finset.mem_filter, Finset.mem_range, Finset.mem_range, sureMask, decide_eq_true_iff,
    getD_of_getElem? (getElem?_eq_getElem hi)]
  omega

/-- Log-probabilities that force a given feasible choice. -/
theorem sureOf_selected (hrs : rs = (scheduledRows ⟨reqIds, T, sureOf reqIds x⟩ out).map Prod.fst)
    (hx : Feasible kMax T out rs x) (hmask : EchoMask kMax ⟨reqIds, T, sureOf reqIds x⟩ out mask) :
    ∀ i r, rs[i]? = some r → ∀ t < x r, mask i t = true := by
  have hlen : (scheduledRows ⟨reqIds, T, sureOf reqIds x⟩ out).length = rs.length := by
    rw [hrs, length_map]
  have hxT : ∀ r ∈ rs, x r ≤ T := fun r hr => Nat.le_trans (hx.bounded r hr) (Nat.min_le_right ..)
  obtain ⟨htop, hcard⟩ := topK_iff.mp hmask
  rw [hlen] at htop hcard
  have hsub : selected rs.length T (sureMask rs x) ⊆ selected rs.length T mask := by
    apply htop.contains (selected_subset ..)
    · rw [hcard, card_sureMask hxT]
      apply Nat.le_min.mpr
      refine ⟨hx.budget, ?_⟩
      rw [← length_map x]
      apply sum_le_card_nsmul
      intro n hn
      obtain ⟨r, hr, rfl⟩ := mem_map.mp hn
      exact hxT r hr
    rintro ⟨i, t⟩ ha ⟨i', t'⟩ hb hnot
    obtain ⟨⟨hi, _⟩, hsure⟩ := mem_selected.mp ha
    rw [mem_positions] at hb
    rw [mem_selected, not_and] at hnot
    have hlt : t < x (rs.getD i 0) := of_decide_eq_true hsure
    have hge : ¬ t' < x (rs.getD i' 0) := fun h => hnot hb (decide_eq_true h)
    dsimp only
    rw [cumLogProb_sureOf t' (hlen ▸ hb.1), cumLogProb_sureOf t (hlen ▸ hi), ← hrs,
      neg_lt_neg_iff, Nat.cast_lt]
    omega
  intro i r hi t ht
  have hilt : i < rs.length := lt_of_getElem? hi
  have hmem : (i, t) ∈ selected rs.length T (sureMask rs x) := by
    rw [mem_selected, sureMask, decide_eq_true_iff, getD_of_getElem? hi]
    exact ⟨⟨hilt, Nat.lt_of_lt_of_le ht (hxT r (mem_of_getElem? hi))⟩, ht⟩
  exact (mem_selected.mp (hsub hmem)).2

end

/-! ## The budget -/

theorem rowTotal_mono (out : SchedulerOutput) {y : ReqId → Nat} (hle : ∀ r ∈ rs, x r ≤ y r) :
    rowTotal out rs x ≤ rowTotal out rs y := by
  apply sum_le_sum
  intro r hr
  exact hle r (of_decide_eq_true (mem_filter.mp hr).2)

theorem scheduledRows_map_fst (T : Nat) (logProb : Nat → Nat → ℚ) (out : SchedulerOutput) :
    (scheduledRows ⟨reqIds, T, logProb⟩ out).map Prod.fst =
      reqIds.filter fun r => out.numScheduledTokens.contains r := by
  have hfst : reqIds.zipIdx.map Prod.fst = reqIds := zipIdx_map_fst 0 reqIds
  conv_rhs => rw [← hfst, filter_map]
  rfl

theorem scheduledRows_ne_nil {reqIds : List ReqId}
    (hrow : ∃ r ∈ reqIds, r ∈ out.numScheduledTokens.keys) (T : Nat) (logProb : Nat → Nat → ℚ) :
    scheduledRows ⟨reqIds, T, logProb⟩ out ≠ [] := by
  obtain ⟨r, hr, hkey⟩ := hrow
  intro hnil
  have hmem : r ∈ reqIds.filter fun r => out.numScheduledTokens.contains r := by
    rw [mem_filter]
    refine ⟨hr, ?_⟩
    rw [Dict.contains, Option.isSome_iff_ne_none]
    exact fun hnone => (Dict.get?_eq_none_iff _).mp hnone hkey
  rw [← scheduledRows_map_fst reqIds T logProb, hnil] at hmem
  cases hmem

/-! When no request has two rows the condition is a closed formula. -/

theorem exists_sum_eq (c : ReqId → Nat) (hnd : rs.Nodup) (n : Nat) :
    ∃ x : ReqId → Nat, (∀ r ∈ rs, x r ≤ c r) ∧ (rs.map x).sum = min n (rs.map c).sum := by
  induction rs generalizing n with
  | nil => exact ⟨fun _ => 0, by simp, by simp⟩
  | cons r rs ih =>
    obtain ⟨hr, hnd⟩ := nodup_cons.mp hnd
    obtain ⟨y, hy, hsum⟩ := ih hnd (n - min n (c r))
    have hsame : ∀ q ∈ rs, update y r (min n (c r)) q = y q :=
      fun q hq => update_of_ne (fun heq : q = r => hr (heq ▸ hq)) _ _
    refine ⟨update y r (min n (c r)), ?_, ?_⟩
    · intro q hq
      rcases mem_cons.mp hq with rfl | hq
      · rw [update_self]
        exact Nat.min_le_right ..
      · rw [hsame q hq]
        exact hy q hq
    · rw [map_cons, sum_cons, map_congr_left hsame, update_self,
        map_cons, sum_cons]
      omega

theorem rowTotal_of_nodup (hnd : rs.Nodup) (hrs : ∀ r ∈ rs, r ∈ out.numScheduledTokens.keys) :
    rowTotal out rs x = (rs.map x).sum := by
  apply List.Perm.sum_eq
  apply List.Perm.map
  apply (perm_ext_iff_of_nodup (out.numScheduledTokens.nodup.filter _) hnd).mpr
  intro r
  rw [mem_filter, decide_eq_true_iff]
  exact ⟨fun h => h.2, fun h => ⟨hrs r h, h⟩⟩

theorem budgetFits_iff_of_nodup {T : Nat} (hnd : rs.Nodup)
    (hrs : ∀ r ∈ rs, r ∈ out.numScheduledTokens.keys) : BudgetFits kMax T out rs ↔
      rowlessDrafts out rs +
          min (kMax - rs.length) (rs.map fun r => min (out.drafts r).length T).sum ≤
        kMax - out.numScheduledTokens.keys.length := by
  constructor
  · intro hfits
    obtain ⟨x, hx, hsum⟩ := exists_sum_eq (fun r => min (out.drafts r).length T) hnd
      (kMax - rs.length)
    have := hfits x ⟨hx, hsum ▸ Nat.min_le_left ..⟩
    rwa [rowTotal_of_nodup hnd hrs, hsum] at this
  intro hle x hx
  rw [rowTotal_of_nodup hnd hrs]
  have hsum : (rs.map x).sum ≤ (rs.map fun r => min (out.drafts r).length T).sum :=
    sum_le_sum hx.bounded
  have := hx.budget
  omega

/-- After pruning the total is the sum of the scheduled tokens, at most `K_MAX` or the number of
requests, exactly when the rows' share leaves room for the drafts without a row. -/
theorem echoPruneDrafts_budget_iff (kMax T : Nat) (reqIds : List ReqId) {out : SchedulerOutput}
    (hd : Decodes out) (hrow : ∃ r ∈ reqIds, r ∈ out.numScheduledTokens.keys) :
    (∀ (logProb : Nat → Nat → ℚ) (mask : Nat → Nat → Bool),
      EchoMask kMax ⟨reqIds, T, logProb⟩ out mask →
        let out' := echoPruneDrafts (some ⟨reqIds, T, logProb⟩) mask out
        out'.totalNumScheduledTokens = out'.numScheduledTokens.values.sum ∧
          out'.totalNumScheduledTokens ≤
            (max kMax out.numScheduledTokens.keys.length : Nat)) ↔
      BudgetFits kMax T out (reqIds.filter fun r => out.numScheduledTokens.contains r) := by
  constructor
  · -- log-probabilities that force the rows to keep a given feasible choice
    intro hbound x hx
    have hrs := (scheduledRows_map_fst reqIds T (sureOf reqIds x) out).symm
    have hne := scheduledRows_ne_nil hrow T (sureOf reqIds x)
    obtain ⟨mask, hmask⟩ := exists_topK
    have hsure := sureOf_selected hrs hx hmask
    obtain ⟨-, hle⟩ := hbound _ mask hmask
    obtain ⟨-, htotal⟩ := echoPruneDrafts_total hd hne hrs
    rw [htotal] at hle
    have hkept := rowTotal_mono out fun r hr =>
      le_prunedBy_length mask
        (fun j hj t ht => by rw [Nat.zero_add]; exact hsure j r hj t ht)
        (Nat.le_trans (hx.bounded r hr) (Nat.min_le_left ..))
        (fun hmem => Nat.le_trans (hx.bounded r hmem) (Nat.min_le_right ..))
    dsimp only at hle
    omega
  · intro hfits logProb mask hmask
    have hrs := (scheduledRows_map_fst reqIds T logProb out).symm
    obtain ⟨hsum, htotal⟩ := echoPruneDrafts_total hd
      (scheduledRows_ne_nil hrow T logProb) hrs
    refine ⟨hsum, ?_⟩
    rw [htotal]
    have hlen : (scheduledRows ⟨reqIds, T, logProb⟩ out).length =
        (reqIds.filter fun r => out.numScheduledTokens.contains r).length := by
      rw [hrs, length_map]
    rw [EchoMask, hlen] at hmask
    have hroom := hfits _ (feasible_prunedBy hmask)
    dsimp only at hroom ⊢
    omega

def twoDecodes (n : Nat) : SchedulerOutput where
  scheduledNewReqs := []
  scheduledRunningReqs := [0, 1]
  scheduledResumedReqs := []
  newBlockIds := Dict.empty
  numScheduledTokens := (Dict.empty.set 0 (1 + (n : Int))).set 1 (1 + (n : Int))
  totalNumScheduledTokens := 2 * (1 + (n : Int))
  scheduledSpecDecodeTokens := (Dict.empty.set 0 (replicate n 5)).set 1 (replicate n 6)
  scheduledEncoderInputs := Dict.empty
  preemptedReqIds := []
  finishedReqIds := []
  freeEncoderMMHashes := []

/-- Both requests have a row: two tokens and six of the fourteen drafts. -/
theorem echoPruneDrafts_budget_twoRows :
    Decodes (twoDecodes 7) ∧ (∃ r ∈ [0, 1], r ∈ (twoDecodes 7).numScheduledTokens.keys) ∧
      ∀ (logProb : Nat → Nat → ℚ) (mask : Nat → Nat → Bool),
        EchoMask 8 ⟨[0, 1], 7, logProb⟩ (twoDecodes 7) mask →
          let out' := echoPruneDrafts (some ⟨[0, 1], 7, logProb⟩) mask (twoDecodes 7)
          out'.totalNumScheduledTokens = out'.numScheduledTokens.values.sum ∧
            out'.totalNumScheduledTokens ≤
              (max 8 (twoDecodes 7).numScheduledTokens.keys.length : Nat) := by
  have hd : Decodes (twoDecodes 7) := by unfold Decodes; decide
  have hrow : ∃ r ∈ [0, 1], r ∈ (twoDecodes 7).numScheduledTokens.keys := by decide
  refine ⟨hd, hrow, (echoPruneDrafts_budget_iff 8 7 [0, 1] hd hrow).mpr ?_⟩
  rw [budgetFits_iff_of_nodup (by decide) (by decide)]
  decide

/-- Request 1 was scheduled after the drafter ran and has no row: nothing is pruned, and the total
is twice the budget. -/
theorem echoPruneDrafts_rowless_over_budget :
    ∃ logProb mask, Decodes (twoDecodes 7) ∧ EchoMask 8 ⟨[0], 7, logProb⟩ (twoDecodes 7) mask ∧
      ∃ out', echoPruneDrafts (some ⟨[0], 7, logProb⟩) mask (twoDecodes 7) = out' ∧
        out'.totalNumScheduledTokens = 16 ∧
        (max 8 (twoDecodes 7).numScheduledTokens.keys.length : Nat) = 8 := by
  refine ⟨fun _ _ => 0, fun _ _ => true, by unfold Decodes; decide, ⟨by decide, ?_⟩, _,
    rfl, by decide, by decide⟩
  intro i _ t _ i' _ t' _ _ hmask
  cases hmask

end VllmEcho
