import VllmEcho.KVCache.Basic
import VllmEcho.Lib.FlatArrays

/-!
# Indices of speculative decoding

`_calc_spec_decode_metadata` computes, for the flattened batch, which rows of the logits verify a
draft token and which give the bonus token.
-/

namespace VllmEcho

namespace SpecMetadata

open Lib List

structure SpecDecodeMetadata where
  draftTokenIds : List Nat
  numDraftTokens : List Nat
  cuNumDraftTokens : List Nat
  cuNumSampledTokens : List Nat
  targetLogitsIndices : List Nat
  bonusLogitsIndices : List Nat
  logitsIndices : List Nat

def last (xs : List Nat) : Except PyError Nat :=
  match xs.getLast? with
  | some x => .ok x
  | none => .error .indexError

def gather (xs indices : List Nat) : Except PyError (List Nat) :=
  indices.mapM fun i => match xs[i]? with
    | some x => .ok x
    | none => .error .indexError

def getCumsumAndArange (numTokens : List Nat) : Except PyError (List Nat × List Nat) := do
  let cuNumTokens := cumsumFrom 0 numTokens
  let totalNumTokens ← last cuNumTokens
  let cumsumsOffsets := repeatEach (zipWith (· - ·) cuNumTokens numTokens) numTokens
  pure (cuNumTokens, zipWith (· - ·) (range totalNumTokens) cumsumsOffsets)

def calcSpecDecodeMetadata (pcpSize : Nat) (inputIds numDraftTokens cuNumScheduledTokens
    numPcpPads : List Nat) : Except PyError SpecDecodeMetadata := do
  let numSampledTokens := numDraftTokens.map (· + 1)
  let (cuNumSampledTokens, arangeScratch) ← getCumsumAndArange numSampledTokens
  let indicesFrom cu := zipWith (· + ·)
    (repeatEach (zipWith (· - ·) cu numSampledTokens) numSampledTokens) arangeScratch
  let logitsIndices := indicesFrom cuNumScheduledTokens
  let logitsIndicesPcp := indicesFrom
    (zipWith (· - ·) (cuNumScheduledTokens.map (· * pcpSize)) numPcpPads)
  let cuNumDraftTokens := cumsumFrom 0 numDraftTokens
  let totalNumDraftTokens ← last cuNumDraftTokens
  let cumsumsOffsets :=
    repeatEach (zipWith (· - ·) cuNumDraftTokens numDraftTokens) numDraftTokens
  let arange := zipWith (· - ·) (range totalNumDraftTokens) cumsumsOffsets
  let targetLogitsIndices := zipWith (· + ·)
    (repeatEach (zipWith (· - ·) cuNumSampledTokens numSampledTokens) numDraftTokens) arange
  let draftTokenIds ← gather inputIds logitsIndices
  let draftTokenIds ← gather draftTokenIds (targetLogitsIndices.map (· + 1))
  pure
    { draftTokenIds, numDraftTokens, cuNumDraftTokens, cuNumSampledTokens, targetLogitsIndices
      bonusLogitsIndices := cuNumSampledTokens.map (· - 1)
      logitsIndices := if pcpSize > 1 then logitsIndicesPcp else logitsIndices }

/-! ## Requests with their places -/

structure Row where
  numScheduled : Nat
  numDraft : Nat
  start : Nat
  group : Nat

def rows : Nat → Nat → List (Nat × Nat) → List Row
  | _, _, [] => []
  | start, group, (n, d) :: reqs => ⟨n, d, start, group⟩ :: rows (start + n) (group + (d + 1)) reqs

variable {α : Type} {start group : Nat} {reqs : List (Nat × Nat)}

theorem map_rows {f : Nat × Nat → α} {g : Row → α}
    (h : ∀ n d s k, f (n, d) = g ⟨n, d, s, k⟩) : reqs.map f = (rows start group reqs).map g := by
  induction reqs generalizing start group with
  | nil => rfl
  | cons r reqs ih => rw [map_cons, rows, map_cons, ← h, ih]

theorem cumsumFrom_scheduled : cumsumFrom start (reqs.map Prod.fst) =
    (rows start group reqs).map fun r => r.start + r.numScheduled := by
  induction reqs generalizing start group with
  | nil => rfl
  | cons r reqs ih => rw [map_cons, cumsumFrom, rows, map_cons, ih]

theorem cumsumFrom_sampled : cumsumFrom group (reqs.map (·.2 + 1)) =
    (rows start group reqs).map fun r => r.group + (r.numDraft + 1) := by
  induction reqs generalizing start group with
  | nil => rfl
  | cons r reqs ih => rw [map_cons, cumsumFrom, rows, map_cons, ih]

theorem getCumsumAndArange_eq {ns : List Nat} (hne : ns ≠ []) :
    getCumsumAndArange ns = .ok (cumsumFrom 0 ns, ns.flatMap range) := by
  rw [getCumsumAndArange, last, getLast?_cumsumFrom 0 hne, Nat.zero_add, ← batchedArange_eq]
  rfl

/-- Ranges are what offsets repeated over a batched range amount to. -/
theorem zipWith_repeatEach_range (rs : List Row) (f g : Row → Nat) :
    zipWith (· + ·) (repeatEach (rs.map f) (rs.map g)) ((rs.map g).flatMap range) =
      rs.flatMap fun r => range' (f r) (g r) := by
  rw [repeatEach_map, flatMap_map, zipWith_flatMap _ _ _ (by simp)]
  refine flatMap_congr fun r _ => ext_getElem (by simp) fun i h1 h2 => ?_
  simp

theorem gather_flatMap {xs : List Nat} {rs : List Row} {f g : Row → List Nat}
    (h : ∀ r ∈ rs, gather xs (f r) = .ok (g r)) :
    gather xs (rs.flatMap f) = .ok (rs.flatMap g) := by
  induction rs with
  | nil => rfl
  | cons r rs ih =>
    have hr := h r mem_cons_self
    have hrs := ih fun r' hr' => h r' (mem_cons_of_mem r hr')
    rw [gather] at hr hrs ⊢
    rw [flatMap_cons, mapM_append, hr, hrs]
    rfl

theorem gather_range' {xs : List Nat} {a n : Nat} (h : a + n ≤ xs.length) :
    gather xs (range' a n) = .ok ((xs.drop a).take n) := by
  induction n generalizing a with
  | zero => rfl
  | succ n ih =>
    have hrest := ih (a := a + 1) (by omega)
    rw [gather] at hrest ⊢
    rw [range'_succ, mapM_cons, hrest, getElem?_eq_getElem (by omega),
      drop_eq_getElem_cons (show a < xs.length by omega)]
    rfl

theorem rows_le {r : Row} (hr : r ∈ rows start group reqs) :
    r.start + r.numScheduled ≤ start + (reqs.map Prod.fst).sum := by
  induction reqs generalizing start group with
  | nil => cases hr
  | cons q reqs ih =>
    rw [map_cons, sum_cons]
    rcases mem_cons.mp hr with rfl | hr
    · simp only
      omega
    · have := ih hr
      omega

/-- Of the rows of each request, the drafts stand in all but the first. -/
theorem gather_drafts {x : Row → List Nat} {pre : List Nat}
    (hx : ∀ r ∈ rows start group reqs, (x r).length = r.numDraft + 1) (hpre : pre.length = group) :
    gather (pre ++ (rows start group reqs).flatMap x) ((rows start group reqs).flatMap fun r =>
      (range' r.group r.numDraft).map (· + 1)) =
        .ok ((rows start group reqs).flatMap fun r => (x r).drop 1) := by
  induction reqs generalizing start group pre with
  | nil => rfl
  | cons q reqs ih =>
    subst hpre
    obtain ⟨n, d⟩ := q
    have hlen : (x ⟨n, d, start, pre.length⟩).length = d + 1 := hx _ mem_cons_self
    have hrest := @ih _ _ (pre ++ x ⟨n, d, start, pre.length⟩)
      (fun r hr => hx r (mem_cons_of_mem _ hr)) (by simp only [length_append, hlen])
    have hfirst := @gather_range' (pre ++ (rows start pre.length ((n, d) :: reqs)).flatMap x)
      (pre.length + 1) d (by
        rw [rows, flatMap_cons, length_append, length_append]
        omega)
    rw [rows, flatMap_cons, drop_length_add_append, drop_append_of_le_length
      (by omega), take_left' (by simp [hlen])] at hfirst
    rw [append_assoc] at hrest
    rw [rows, flatMap_cons, flatMap_cons]
    rw [gather] at hfirst hrest ⊢
    simp only [Nat.add_comm _ 1, map_add_range'] at hfirst hrest ⊢
    rw [mapM_append, hfirst, hrest]
    rfl

/-- The drafts of a request verify its first rows and the last one gives the bonus token. -/
theorem targets_bonus_perm : ((rows start group reqs).flatMap (fun r =>
    range' r.group r.numDraft) ++ (rows start group reqs).map fun r => r.group + r.numDraft).Perm
      (range' group (reqs.map (·.2 + 1)).sum) := by
  induction reqs generalizing start group with
  | nil => exact .nil
  | cons q reqs ih =>
    rw [rows, flatMap_cons, map_cons, map_cons, sum_cons,
      ← range'_append_1, range'_1_concat, append_assoc, append_assoc]
    exact (perm_middle.trans (ih.cons _)).append_left _

/-- The index arrays and the draft tokens, request by request. Each logit has one place. -/
theorem calcSpecDecodeMetadata_spec (reqs : List (Nat × Nat)) (inputIds numPcpPads : List Nat)
    (hne : reqs ≠ []) (hdrafts : ∀ r ∈ rows 0 0 reqs, r.numDraft < r.numScheduled)
    (hlen : (reqs.map Prod.fst).sum ≤ inputIds.length) :
    ∃ md, calcSpecDecodeMetadata 1 inputIds (reqs.map Prod.snd) (cumsumFrom 0 (reqs.map Prod.fst))
        numPcpPads = .ok md ∧ md.logitsIndices = (rows 0 0 reqs).flatMap (fun r => range'
        (r.start + r.numScheduled - (r.numDraft + 1)) (r.numDraft + 1)) ∧ md.targetLogitsIndices =
        (rows 0 0 reqs).flatMap (fun r => range' r.group r.numDraft) ∧
      md.bonusLogitsIndices = (rows 0 0 reqs).map (fun r => r.group + r.numDraft) ∧
      (md.targetLogitsIndices ++ md.bonusLogitsIndices).Perm (range md.logitsIndices.length) ∧
      md.draftTokenIds = (rows 0 0 reqs).flatMap fun r =>
        ((inputIds.drop r.start).take r.numScheduled).drop (r.numScheduled - r.numDraft) := by
  have hdraft : reqs.map Prod.snd = (rows 0 0 reqs).map Row.numDraft :=
    map_rows fun _ _ _ _ => rfl
  have hsampled : (reqs.map Prod.snd).map (· + 1) = (rows 0 0 reqs).map (·.numDraft + 1) := by
    rw [hdraft, map_map]
    rfl
  have hcu : cumsumFrom 0 ((reqs.map Prod.snd).map (· + 1)) =
      (rows 0 0 reqs).map fun r => r.group + (r.numDraft + 1) := by
    rw [map_map]
    exact cumsumFrom_sampled
  have hrows : ∀ r ∈ rows 0 0 reqs, r.start + r.numScheduled ≤ inputIds.length := fun r hr =>
    (rows_le hr).trans (by omega)
  have hsum : (reqs.map (·.2 + 1)).sum = ((rows 0 0 reqs).map (·.numDraft + 1)).sum := by
    rw [← hsampled, map_map]
    rfl
  have hperm := @targets_bonus_perm 0 0 reqs
  rw [hsum] at hperm
  have hne' : (reqs.map Prod.snd).map (· + 1) ≠ [] := by simpa using hne
  have hlast : last (cumsumFrom 0 (reqs.map Prod.snd)) = .ok (reqs.map Prod.snd).sum := by
    rw [last, getLast?_cumsumFrom 0 (by simpa using hne), Nat.zero_add]
  have harange := batchedArange_eq (reqs.map Prod.snd)
  unfold batchedArange at harange
  unfold calcSpecDecodeMetadata
  dsimp only
  rw [getCumsumAndArange_eq hne', hcu, hlast, ok_bind]
  rw [ok_bind, harange, hsampled, hdraft, @cumsumFrom_scheduled 0 0]
  simp only [zipWith_map, zipWith_self, zipWith_repeatEach_range]
  rw [gather_flatMap fun r hr => gather_range' (by have := hrows r hr; have := hdrafts r hr; omega),
    ok_bind]
  have htaken := @gather_drafts 0 0 reqs (fun r => ((inputIds.drop
    (r.start + r.numScheduled - (r.numDraft + 1))).take (r.numDraft + 1))) [] (fun r hr => by
      have := hrows r hr
      have := hdrafts r hr
      rw [length_take, length_drop]
      omega) rfl
  rw [nil_append] at htaken
  simp only [Nat.add_sub_cancel, map_flatMap]
  rw [htaken]
  have hbonus : ((rows 0 0 reqs).map fun r => r.group + (r.numDraft + 1)).map (· - 1) =
      (rows 0 0 reqs).map fun r => r.group + r.numDraft := by
    rw [map_map]
    rfl
  rw [hbonus]
  refine ⟨_, rfl, rfl, rfl, rfl, ?_, ?_⟩
  · rw [range_eq_range']
    simpa using hperm
  · refine flatMap_congr fun r hr => ?_
    have := hdrafts r hr
    rw [drop_take, drop_take, drop_drop, drop_drop]
    exact congrArg₂ _ (by omega) (congrArg₂ _ (by omega) rfl)

/-- Two drafts, no draft and one draft. -/
theorem calcSpecDecodeMetadata_three : ∃ md, calcSpecDecodeMetadata 1 [7, 8, 9, 4, 5, 6] [2, 0, 1]
    [3, 4, 6] [] = .ok md ∧ md.draftTokenIds = [8, 9, 6] :=
  have ⟨md, hok, _, _, _, _, hdraft⟩ :=
    calcSpecDecodeMetadata_spec [(3, 2), (1, 0), (2, 1)] [7, 8, 9, 4, 5, 6] [] (by decide)
      (by simp [rows]) (by decide)
  ⟨md, hok, hdraft⟩

end SpecMetadata

end VllmEcho
