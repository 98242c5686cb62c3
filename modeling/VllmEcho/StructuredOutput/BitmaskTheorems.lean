import VllmEcho.Echo.Prune
import VllmEcho.StructuredOutput.FillTheorems

/-!
# Grammar masks and logits

Where the worker's rows of the logits find their masks.  The worker counts through the packed rows
with the drafts it kept, the scheduler packed them with all drafts; the masks line up when these
counts agree in front of every structured-output request of the batch.
-/

namespace VllmEcho

open Lib List Option StructuredOutputManager

variable {j : Nat} {r : ReqId} {logits : List LogitsRow} {m : StructuredOutputManager}
  {requests : ReqId → Option MaskedRequest} {q : ReqId}

def logitsRows (batch : List ReqId) (drafts : ReqId → List TokenId) : List (ReqId × Nat) :=
  batch.flatMap fun r => (range (1 + (drafts r).length)).map fun k => (r, k)

def rowStart (drafts : ReqId → List TokenId) (rs : List ReqId) (j : Nat) : Nat :=
  ((rs.take j).map fun r => 1 + (drafts r).length).sum

variable {i k : Nat}

section Unpack

variable {drafts : ReqId → List TokenId} {ids batch : List ReqId} {bitmask : List MaskRow}

theorem rowStart_cons_succ (rs : List ReqId) :
    rowStart drafts (r :: rs) (j + 1) = 1 + (drafts r).length + rowStart drafts rs j := by
  unfold rowStart
  rw [take_succ_cons, map_cons, sum_cons]

theorem rowStart_add_le (drafts : ReqId → List TokenId) (hr : batch[i]? = some r) (hij : i < j) :
    rowStart drafts batch i + (1 + (drafts r).length) ≤ rowStart drafts batch j := by
  unfold rowStart
  rw [map_take, map_take]
  apply sum_take_add_le _ hij
  rw [getElem?_map, hr]
  rfl

theorem rowStart_apart (drafts : ReqId → List TokenId) {r' : ReqId} (hr : batch[i]? = some r)
    (hr' : batch[j]? = some r') (hne : r ≠ r') :
    rowStart drafts batch i + (1 + (drafts r).length) ≤ rowStart drafts batch j ∨
      rowStart drafts batch j + (1 + (drafts r').length) ≤ rowStart drafts batch i := by
  rcases Nat.lt_trichotomy i j with hlt | rfl | hgt
  · exact Or.inl (rowStart_add_le _ hr hlt)
  · rw [hr] at hr'
    exact absurd (some.inj hr') hne
  · exact Or.inr (rowStart_add_le _ hr' hgt)

theorem structOutReqBatchIndices_spec {rs : List ReqId} (hnodup : rs.Nodup)
    (batchIndex offset : Nat) (indices : Dict ReqId Nat) : (∀ j r, rs[j]? = some r → r ∈ ids →
      (structOutReqBatchIndices drafts ids rs batchIndex offset indices).get? r =
        some (batchIndex + offset + rowStart drafts rs j)) ∧ ∀ r, r ∉ rs ∨ r ∉ ids →
      (structOutReqBatchIndices drafts ids rs batchIndex offset indices).get? r =
          indices.get? r := by
  induction rs generalizing batchIndex offset indices with
  | nil => exact ⟨fun j r hr => by simp at hr, fun r _ => rfl⟩
  | cons c rs ih =>
    rw [nodup_cons] at hnodup
    obtain ⟨hin, hout⟩ := ih hnodup.2 (batchIndex + 1) (offset + (drafts c).length)
      (if c ∈ ids then indices.set c (batchIndex + offset) else indices)
    rw [structOutReqBatchIndices]
    constructor
    · intro j r hr hids
      cases j with
      | zero =>
        obtain rfl : c = r := by simpa using hr
        rw [hout c (Or.inl hnodup.1), if_pos hids, Dict.get?_set_self]
        rfl
      | succ j =>
        rw [hin j r hr hids, rowStart_cons_succ]
        congr 1
        omega
    · intro r hr
      have hrest : r ∉ rs ∨ r ∉ ids := hr.imp (fun h hmem => h (mem_cons_of_mem _ hmem)) id
      rw [hout r hrest]
      split
      · rename_i hc
        rw [Dict.get?_set_ne]
        rintro rfl
        exact hr.elim (fun h => h mem_cons_self) fun h => h hc
      · rfl

theorem copyRows_spec {logitIdx : Option Nat} {n : Nat} (cum : Nat) {s : SortState}
    (hsrc : cum + (1 + n) ≤ bitmask.length)
    (hdst : ∀ start, logitIdx = some start → start + (1 + n) ≤ s.sortedBitmask.length) :
    ∃ s', copyRows bitmask logitIdx cum n s = .ok s' ∧
      s'.sortedBitmask.length = s.sortedBitmask.length ∧
      (∀ start, logitIdx = some start → ∀ k < 1 + n,
        s'.sortedBitmask[start + k]? = bitmask[cum + k]? ∧ start + k ∈ s'.outIndices) ∧
      ∀ x, (∀ start, logitIdx = some start → x < start ∨ start + (1 + n) ≤ x) →
        s'.sortedBitmask[x]? = s.sortedBitmask[x]? ∧ (x ∈ s'.outIndices ↔ x ∈ s.outIndices) := by
  unfold copyRows
  cases logitIdx with
  | none => exact ⟨s, rfl, rfl, fun _ hstart => (nomatch hstart), fun x _ => ⟨rfl, Iff.rfl⟩⟩
  | some start =>
    simp only [some.injEq, forall_eq'] at hdst ⊢
    generalize 1 + n = len at *
    induction len generalizing s with
    | zero => exact ⟨s, rfl, rfl, fun k hk => absurd hk (Nat.not_lt_zero k),
      fun x _ => ⟨rfl, Iff.rfl⟩⟩
    | succ len ih =>
      obtain ⟨s₁, hs₁, hlen, hrows, hother⟩ := ih (s := s) (by omega) (by omega)
      have hlt : cum + len < bitmask.length := by omega
      refine ⟨⟨s₁.sortedBitmask.set (start + len) bitmask[cum + len], s₁.outIndices ++
        [start + len]⟩, ?_, ?_, ?_, ?_⟩
      · rw [range_succ, foldlM_append, hs₁, ok_bind, foldlM_cons, copyRow, getElem?_eq_getElem hlt]
        dsimp only
        rw [if_pos (by omega)]
        rfl
      · rw [length_set, hlen]
      · intro k hk
        by_cases hkl : k = len
        · rw [hkl, getElem?_set_self (by omega), getElem?_eq_getElem hlt]
          exact ⟨rfl, mem_concat_self⟩
        · rw [getElem?_set_ne (by omega)]
          exact (hrows k (by omega)).imp_right (mem_append_left _)
      · intro x hx
        rw [getElem?_set_ne (by omega), mem_append, mem_singleton,
          or_iff_left (by omega : ¬ x = start + len)]
        exact hother x (by omega)

def Apart (drafts : ReqId → List TokenId) (indices : Dict ReqId Nat) (ids : List ReqId) : Prop :=
  ∀ r ∈ ids, ∀ r' ∈ ids, r ≠ r' → ∀ start start', indices.get? r = some start →
    indices.get? r' = some start' →
      start + (1 + (drafts r).length) ≤ start' ∨ start' + (1 + (drafts r').length) ≤ start

theorem sortBitmask_spec {indices : Dict ReqId Nat} (hnodup : ids.Nodup)
    (hapart : Apart drafts indices ids) (cum : Nat) (s : SortState)
    (hsrc : cum + (ids.map fun r => 1 + (drafts r).length).sum ≤ bitmask.length)
    (hdst : ∀ r ∈ ids, ∀ start, indices.get? r = some start →
      start + (1 + (drafts r).length) ≤ s.sortedBitmask.length) :
    ∃ s', sortBitmask drafts indices bitmask ids cum s = .ok s' ∧
      s'.sortedBitmask.length = s.sortedBitmask.length ∧
      (∀ j r start k, ids[j]? = some r → indices.get? r = some start → k < 1 + (drafts r).length →
        s'.sortedBitmask[start + k]? = bitmask[cum + rowStart drafts ids j + k]? ∧
          start + k ∈ s'.outIndices) ∧ ∀ x, (∀ r ∈ ids, ∀ start, indices.get? r = some start →
          x < start ∨ start + (1 + (drafts r).length) ≤ x) →
        s'.sortedBitmask[x]? = s.sortedBitmask[x]? ∧ (x ∈ s'.outIndices ↔ x ∈ s.outIndices) := by
  induction ids generalizing cum s with
  | nil => exact ⟨s, rfl, rfl, fun j r start k hr => (by simp at hr), fun x _ => ⟨rfl, Iff.rfl⟩⟩
  | cons c rs ih =>
    rw [nodup_cons] at hnodup
    rw [map_cons, sum_cons] at hsrc
    have hrest : Apart drafts indices rs := fun r hr r' hr' =>
      hapart r (mem_cons_of_mem _ hr) r' (mem_cons_of_mem _ hr')
    obtain ⟨s₁, hs₁, hlen₁, hrows₁, hother₁⟩ := copyRows_spec cum (show _ ≤ bitmask.length by omega)
      (hdst c mem_cons_self)
    obtain ⟨s', hs', hlen, hrows, hother⟩ := ih hnodup.2 hrest
      (cum + (1 + (drafts c).length)) s₁ (by omega) fun r hr start hstart => by
        rw [hlen₁]
        exact hdst r (mem_cons_of_mem _ hr) start hstart
    refine ⟨s', ?_, hlen.trans hlen₁, ?_, ?_⟩
    · rw [sortBitmask, hs₁]
      exact hs'
    · intro j r start k hr hstart hk
      cases j with
      | zero =>
        obtain rfl : c = r := by simpa using hr
        -- later requests leave the rows of this one alone
        obtain ⟨hrow, hmem⟩ := hother (start + k) fun r hr start' hstart' => by
          have hne : c ≠ r := fun heq => hnodup.1 (heq ▸ hr)
          have hsep :=
            hapart c mem_cons_self r (mem_cons_of_mem _ hr) hne start start' hstart hstart'
          omega
        rw [hrow, hmem]
        exact hrows₁ start hstart k hk
      | succ j =>
        rw [rowStart_cons_succ, ← Nat.add_assoc]
        exact hrows j r start k hr hstart hk
    · intro x hx
      obtain ⟨hrow, hmem⟩ := hother x fun r hr => hx r (mem_cons_of_mem _ hr)
      rw [hrow, hmem]
      exact hother₁ x (hx c mem_cons_self)

theorem length_logitsRows :
    (logitsRows batch drafts).length = (batch.map fun r => 1 + (drafts r).length).sum := by
  unfold logitsRows
  simp

theorem logitsRows_getElem? (h : (logitsRows batch drafts)[i]? = some (r, k)) :
    ∃ j, batch[j]? = some r ∧ k < 1 + (drafts r).length ∧ i = rowStart drafts batch j + k := by
  obtain ⟨j, r', o, hr', ho, hi⟩ := exists_of_getElem?_flatMap _ _ h
  simp only [length_map, length_range] at hi
  rw [getElem?_map, map_eq_some_iff] at ho
  obtain ⟨k', hk', hpair⟩ := ho
  cases hpair
  obtain ⟨hlt, hget⟩ := List.getElem?_eq_some_iff.mp hk'
  rw [length_range] at hlt
  rw [getElem_range] at hget
  subst hget
  exact ⟨j, hr', hlt, hi⟩

theorem maskLogits_fullMask (row : LogitsRow) : maskLogits fullMask row = row := rfl

theorem applyTokenBitmaskInplace_getElem? {sorted : List MaskRow} {indices : Option (List Nat)}
    (hfull : ∀ is, indices = some is → ∀ x ∉ is, sorted.getD x fullMask = fullMask) :
    (applyTokenBitmaskInplace logits sorted indices)[i]? =
      (logits[i]?).map (maskLogits (sorted.getD i fullMask)) := by
  unfold applyTokenBitmaskInplace
  rw [getElem?_mapIdx]
  cases logits[i]? with
  | none => rfl
  | some row =>
    rw [map_some, map_some]
    split
    · rfl
    rename_i hnot
    cases indices with
    | none => exact absurd rfl hnot
    | some is =>
      have hx : i ∉ is := by simpa using hnot
      rw [hfull is rfl i hx, maskLogits_fullMask]

end Unpack

/-- Which row of the packed bitmask `apply_grammar_bitmask` gives to a row of the logits: it counts
with the drafts the worker has. -/
theorem applyGrammarBitmask_spec {worker : SchedulerOutput} {ids batch : List ReqId}
    {bitmask : List MaskRow} (hids : ids.Nodup) (hbatch : batch.Nodup)
    (hrows : (ids.map fun r => 1 + (worker.drafts r).length).sum ≤ bitmask.length)
    (hlogits : logits.length = (logitsRows batch worker.drafts).length) :
    ∃ logits', applyGrammarBitmask worker ⟨ids, bitmask⟩ batch logits = .ok logits' ∧
      logits'.length = logits.length ∧ ∀ (i : Nat) (r : ReqId) (k : Nat) (row : LogitsRow),
        (logitsRows batch worker.drafts)[i]? = some (r, k) → logits[i]? = some row →
        (∀ j : Nat, ids[j]? = some r → ∃ mask,
          bitmask[rowStart worker.drafts ids j + k]? = some mask ∧
            logits'[i]? = some (maskLogits mask row)) ∧ (r ∉ ids → logits'[i]? = some row) := by
  obtain ⟨hin, hout⟩ := structOutReqBatchIndices_spec hbatch 0 0 Dict.empty
  set indices := structOutReqBatchIndices worker.drafts ids batch 0 0 Dict.empty with hindices
  have hstart : ∀ r start, indices.get? r = some start →
      ∃ j, batch[j]? = some r ∧ start = rowStart worker.drafts batch j := by
    intro r start hr
    by_cases hmem : r ∈ batch ∧ r ∈ ids
    · obtain ⟨j, hj⟩ := mem_iff_getElem?.mp hmem.1
      have hget := hin j r hj hmem.2
      rw [hr, Nat.zero_add] at hget
      exact ⟨j, hj, some.inj hget⟩
    · rw [hout r (not_and_or.mp hmem)] at hr
      cases hr
  have hapart : Apart worker.drafts indices ids := by
    intro r _ r' _ hne start start' hr hr'
    obtain ⟨j, hj, rfl⟩ := hstart r start hr
    obtain ⟨j', hj', rfl⟩ := hstart r' start' hr'
    exact rowStart_apart _ hj hj' hne
  have hall : rowStart worker.drafts batch batch.length = logits.length := by
    rw [hlogits, length_logitsRows, rowStart, take_length]
  have hdst : ∀ r ∈ ids, ∀ start, indices.get? r = some start →
      start + (1 + (worker.drafts r).length) ≤ (replicate logits.length fullMask).length := by
    intro r _ start hr
    obtain ⟨j, hj, rfl⟩ := hstart r start hr
    rw [length_replicate, ← hall]
    exact rowStart_add_le _ hj (lt_of_getElem? hj)
  obtain ⟨s, hs, hlen, hset, hother⟩ := sortBitmask_spec hids hapart 0
    ⟨replicate logits.length fullMask, []⟩ (by rw [Nat.zero_add]; exact hrows)
    hdst
  -- a row that no request wrote is full and has no index
  have hunset : ∀ x, (∀ r ∈ ids, ∀ start, indices.get? r = some start →
      x < start ∨ start + (1 + (worker.drafts r).length) ≤ x) →
      s.sortedBitmask.getD x fullMask = fullMask := by
    intro x hx
    rw [getD_eq_getElem?_getD, (hother x hx).1, getElem?_replicate]
    split <;> rfl
  have hfull : ∀ is, (if s.outIndices.length = logits.length then none else some s.outIndices) =
      some is → ∀ x ∉ is, s.sortedBitmask.getD x fullMask = fullMask := by
    intro is his x hx
    split at his
    · cases his
    cases his
    apply hunset
    intro r hr start hget
    by_contra hwin
    obtain ⟨j, hj⟩ := mem_iff_getElem?.mp hr
    have hmem := (hset j r start (x - start) hj hget (by omega)).2
    rw [Nat.add_sub_cancel' (by omega)] at hmem
    exact hx hmem
  refine ⟨applyTokenBitmaskInplace logits s.sortedBitmask
    (if s.outIndices.length = logits.length then none else some s.outIndices), ?_, ?_, ?_⟩
  · unfold applyGrammarBitmask
    dsimp only
    rw [hs]
    rfl
  · unfold applyTokenBitmaskInplace
    rw [length_mapIdx]
  intro i r k row hrow hlogit
  obtain ⟨jb, hjb, hk, rfl⟩ := logitsRows_getElem? hrow
  rw [applyTokenBitmaskInplace_getElem? hfull, hlogit, map_some]
  constructor
  · intro j hj
    have hget := hin jb r hjb (mem_of_getElem? hj)
    rw [Nat.zero_add] at hget
    have hread := (hset j r _ k hj hget hk).1
    have hend := rowStart_add_le worker.drafts hj (lt_of_getElem? hj)
    have htotal : rowStart worker.drafts ids ids.length =
        (ids.map fun r => 1 + (worker.drafts r).length).sum := by
      rw [rowStart, take_length]
    have hlt : rowStart worker.drafts ids j + k < bitmask.length := by omega
    refine ⟨bitmask[rowStart worker.drafts ids j + k], getElem?_eq_getElem hlt, ?_⟩
    rw [Nat.zero_add, getElem?_eq_getElem hlt] at hread
    rw [getD_eq_getElem?_getD, hread, getD_some]
  · intro hnot
    rw [hunset, maskLogits_fullMask]
    intro r' hr' start hget
    obtain ⟨j', hj', rfl⟩ := hstart r' start hget
    have := rowStart_apart worker.drafts hjb hj' fun heq => hnot (heq ▸ hr')
    omega

/-! ## Scheduler and worker -/

/-- The two copies of the scheduler output, the worker's batch and which requests need a mask. The
worker has kept a prefix of each list of drafts. -/
structure MaskLayout where
  output : SchedulerOutput
  worker : SchedulerOutput
  batch : List ReqId
  structured : ReqId → Bool
  batch_nodup : batch.Nodup
  kept : ∀ r, worker.drafts r <+: output.drafts r

namespace MaskLayout

variable {l : MaskLayout}

def ids (l : MaskLayout) : List ReqId := l.output.numScheduledTokens.keys.filter l.structured

/-- A state of the manager, the requests and the logits for this layout: the drafts were validated,
and there are no more of them than the configuration allows. -/
structure Fits (l : MaskLayout) (m : StructuredOutputManager)
    (requests : ReqId → Option MaskedRequest) (logits : List LogitsRow) : Prop where
  structured : ∀ r ∈ l.output.numScheduledTokens.keys,
    (requests r).any MaskedRequest.needsMask = l.structured r
  drafts : ∀ r ∈ l.ids, (l.output.drafts r).length ≤ m.numSpeculativeTokens.getD 0
  seqs : l.ids.length ≤ m.maxNumSeqs
  buffer : ∀ b, m.grammarBitmask = some b → b.length = m.numRows
  ready : ∀ r ∈ l.ids, Ready m requests (l.output.drafts r) r
  logits : logits.length = (logitsRows l.batch l.worker.drafts).length

/-- Each row of the logits is under the mask of its request after the drafts in front of it, other
rows are as they were, and so are the grammars. -/
def LinesUp (l : MaskLayout) (m : StructuredOutputManager)
    (requests : ReqId → Option MaskedRequest) (logits : List LogitsRow) : Prop :=
  ∃ g m' requests' logits', getGrammarBitmask m requests l.output = .ok (g, m', requests') ∧
    maskedLogits l.worker g l.batch logits = .ok logits' ∧
    (∀ r, grammarOf requests' r = grammarOf requests r) ∧ logits'.length = logits.length ∧
    ∀ (i : Nat) (r : ReqId) (k : Nat) (row : LogitsRow),
      (logitsRows l.batch l.worker.drafts)[i]? = some (r, k) → logits[i]? = some row →
        logits'[i]? = some (if r ∈ l.ids then
          maskLogits (maskOf m requests (l.worker.drafts r) r k) row else row)

/-- Every structured-output request in front of another one of the batch keeps all its drafts. -/
def KeepsInFront (l : MaskLayout) : Prop :=
  l.ids.Pairwise fun r q => q ∈ l.batch → l.worker.drafts r = l.output.drafts r

theorem ids_nodup (l : MaskLayout) : l.ids.Nodup := l.output.numScheduledTokens.nodup.filter _

theorem Fits.ids_eq (h : l.Fits m requests logits) :
    structuredOutputRequestIds requests l.output = l.ids := by
  exact filter_congr h.structured

/-- What the worker masks each logit with. -/
theorem Fits.run (h : l.Fits m requests logits) :
    ∃ g m' requests' logits', getGrammarBitmask m requests l.output = .ok (g, m', requests') ∧
      maskedLogits l.worker g l.batch logits = .ok logits' ∧
      (∀ r, grammarOf requests' r = grammarOf requests r) ∧ logits'.length = logits.length ∧
      ∀ (i : Nat) (r : ReqId) (k : Nat) (row : LogitsRow),
        (logitsRows l.batch l.worker.drafts)[i]? = some (r, k) → logits[i]? = some row →
          (∀ j : Nat, l.ids[j]? = some r → ∃ mask,
            (l.ids.flatMap (m.rowsFor requests l.output.drafts))[
              rowStart l.worker.drafts l.ids j + k]? = some mask ∧
            logits'[i]? = some (maskLogits mask row)) ∧
          (r ∉ l.ids → logits'[i]? = some row) := by
  obtain ⟨m', requests', hget, hgram⟩ := getGrammarBitmask_spec m requests l.output
    (by rw [h.ids_eq]; exact h.ready) (by rw [h.ids_eq]; exact h.drafts)
    (by rw [h.ids_eq]; exact h.seqs) h.buffer
  rw [h.ids_eq] at hget
  by_cases hnil : l.ids = []
  · rw [if_pos hnil] at hget
    refine ⟨none, m', requests', logits, hget, rfl, hgram, rfl, fun i r k row _ hrow => ⟨?_, ?_⟩⟩
    · intro j hj
      rw [hnil] at hj
      simp at hj
    · exact fun _ => hrow
  rw [if_neg hnil] at hget
  have hlen : (l.ids.map fun r => 1 + (l.worker.drafts r).length).sum ≤
      (l.ids.flatMap (m.rowsFor requests l.output.drafts)).length := by
    rw [length_flatMap]
    apply sum_le_sum
    intro r _
    rw [length_rowsFor]
    have := (l.kept r).length_le
    omega
  obtain ⟨logits', happly, hlength, hrows⟩ :=
    applyGrammarBitmask_spec l.ids_nodup l.batch_nodup hlen
    h.logits
  exact ⟨_, m', requests', logits', hget, happly, hgram, hlength, hrows⟩

theorem maskOf_kept (l : MaskLayout) (m : StructuredOutputManager)
    (requests : ReqId → Option MaskedRequest) (hk : k < 1 + (l.worker.drafts r).length) :
    maskOf m requests (l.worker.drafts r) r k = maskOf m requests (l.output.drafts r) r k := by
  obtain ⟨rest, hrest⟩ := l.kept r
  have htake : ∀ j ≤ k, (l.worker.drafts r).take j = (l.output.drafts r).take j := by
    intro j hj
    rw [← hrest, take_append_of_le_length (by omega)]
  have hmask : ∀ fill g, expectedMask fill g (l.worker.drafts r) k =
      expectedMask fill g (l.output.drafts r) k := by
    intro fill g
    apply if_congr _ (by rw [htake k (Nat.le_refl k)]) rfl
    rw [htake k (Nat.le_refl k)]
    apply and_congr_right'
    apply and_congr_right'
    exact forall_congr' fun j => forall_congr' fun hj => by rw [htake j hj]
  unfold maskOf
  split
  · rfl
  · split
    · rfl
    · exact hmask _ _

theorem rowStart_eq (hkeep : l.KeepsInFront) (hj : l.ids[j]? = some r) (hr : r ∈ l.batch) :
    rowStart l.worker.drafts l.ids j = rowStart l.output.drafts l.ids j := by
  unfold rowStart
  congr 1
  apply map_congr_left
  intro q hq
  obtain ⟨i, hi⟩ := mem_iff_getElem?.mp hq
  rw [getElem?_take] at hi
  split at hi
  · rename_i hij
    obtain ⟨hilt, rfl⟩ := List.getElem?_eq_some_iff.mp hi
    obtain ⟨hjlt, rfl⟩ := List.getElem?_eq_some_iff.mp hj
    have hfront := pairwise_iff_getElem.mp hkeep i j hilt hjlt hij hr
    rw [hfront]
  · cases hi

theorem sum_length_rowsFor (l : MaskLayout) (m : StructuredOutputManager)
    (requests : ReqId → Option MaskedRequest) (j : Nat) :
    ((l.ids.take j).map fun r => (m.rowsFor requests l.output.drafts r).length).sum =
      rowStart l.output.drafts l.ids j := by
  congr 1
  apply map_congr_left
  intro q _
  rw [length_rowsFor, Nat.add_comm]

theorem packed_getElem? (l : MaskLayout) (m : StructuredOutputManager)
    (requests : ReqId → Option MaskedRequest) (hj : l.ids[j]? = some r)
    (hk : k < 1 + (l.output.drafts r).length) :
    (l.ids.flatMap (m.rowsFor requests l.output.drafts))[rowStart l.output.drafts l.ids j + k]? =
      some (maskOf m requests (l.output.drafts r) r k) := by
  have hget := getElem?_flatMap_take l.ids (m.rowsFor requests l.output.drafts) hj (o := k)
    (by rw [length_rowsFor]; omega)
  rw [l.sum_length_rowsFor] at hget
  rw [hget]
  unfold rowsFor
  rw [getElem?_map, getElem?_range (by omega)]
  rfl

theorem linesUp_of_keepsInFront (hkeep : l.KeepsInFront) (h : l.Fits m requests logits) :
    l.LinesUp m requests logits := by
  obtain ⟨g, m', requests', logits', hget, happly, hgram, hlen, hrows⟩ := h.run
  refine ⟨g, m', requests', logits', hget, happly, hgram, hlen, ?_⟩
  intro i r k row hrow hlogit
  obtain ⟨hmasked, hother⟩ := hrows i r k row hrow hlogit
  by_cases hr : r ∈ l.ids
  · rw [if_pos hr]
    obtain ⟨j, hj⟩ := mem_iff_getElem?.mp hr
    obtain ⟨jb, hjb, hk, _⟩ := logitsRows_getElem? hrow
    obtain ⟨mask, hmask, hlogit'⟩ := hmasked j hj
    have hkept := (l.kept r).length_le
    rw [rowStart_eq hkeep hj (mem_of_getElem? hjb),
      l.packed_getElem? m requests hj (by omega)] at hmask
    rw [hlogit', ← some.inj hmask, l.maskOf_kept m requests hk]
  · rw [if_neg hr, hother hr]

/-! ### Where a draft was dropped in front of another request -/

def lineRules (tokens : List TokenId) : GrammarRules :=
  ⟨fun accepted t => decide (t = tokens.getD accepted.length 0), fun _ => false⟩

def freeRules : GrammarRules := ⟨fun _ _ => true, fun _ => false⟩

def contrastRequests (l : MaskLayout) (q r : ReqId) : Option MaskedRequest :=
  some ⟨none, false, if l.structured r then
    some ⟨⟨if r = q then lineRules (l.output.drafts q) else freeRules, []⟩, none⟩ else none⟩

def contrastManager (l : MaskLayout) : StructuredOutputManager :=
  ⟨none, false, l.ids.length, some (l.ids.map fun r => (l.output.drafts r).length).sum, none⟩

def plainLogits (l : MaskLayout) : List LogitsRow :=
  replicate (logitsRows l.batch l.worker.drafts).length fun _ => 0

theorem fits_contrast (l : MaskLayout) (q : ReqId) :
    l.Fits l.contrastManager (l.contrastRequests q) l.plainLogits := by
  constructor
  case structured =>
    intro r _
    unfold contrastRequests
    cases l.structured r <;> rfl
  case drafts =>
    intro r hr
    exact single_le_sum (fun x _ => Nat.zero_le x) _ (mem_map.mpr ⟨r, hr, rfl⟩)
  case seqs => exact Nat.le_refl _
  case buffer =>
    intro b hb
    cases hb
  case ready =>
    intro r hr
    have hstruct : l.structured r = true := (mem_filter.mp hr).2
    refine ⟨_, _, rfl, by rw [hstruct]; rfl, ?_⟩
    intro k t ht _ _ _
    rw [nil_append]
    split
    · rename_i hrq
      subst hrq
      have hlt := lt_of_getElem? ht
      have hlen : ((l.output.drafts r).take k).length = k := by
        rw [length_take]
        omega
      unfold lineRules
      dsimp only
      rw [hlen, getD_eq_getElem?_getD, ht]
      simp
    · rfl
  case logits => rw [plainLogits, length_replicate]

theorem maskOf_free (l : MaskLayout) (hne : r ≠ q) (drafts : List TokenId) (k : Nat) :
    maskOf l.contrastManager (l.contrastRequests q) drafts r k = fullMask := by
  unfold maskOf contrastRequests
  cases l.structured r with
  | false => rfl
  | true =>
    rw [if_pos rfl, if_neg hne]
    dsimp only
    unfold expectedMask freeRules
    split <;> rfl

theorem maskOf_line (l : MaskLayout) (hq : l.structured q = true) (drafts : List TokenId) :
    maskOf l.contrastManager (l.contrastRequests q) drafts q 0 =
      fun t => decide (t = (l.output.drafts q).getD 0 0) := by
  unfold maskOf contrastRequests
  rw [hq, if_pos rfl, if_pos rfl]
  rfl

theorem rowStart_lt (hi : l.ids[i]? = some r) (hij : i < j)
    (hdrop : l.worker.drafts r ≠ l.output.drafts r) :
    rowStart l.worker.drafts l.ids j < rowStart l.output.drafts l.ids j := by
  apply sum_lt_sum
  · intro x _
    have := (l.kept x).length_le
    omega
  refine ⟨r, ?_, ?_⟩
  · rw [mem_iff_getElem?]
    exact ⟨i, by rw [getElem?_take, if_pos hij]; exact hi⟩
  · have hle := (l.kept r).length_le
    have hne : (l.worker.drafts r).length ≠ (l.output.drafts r).length :=
      fun heq => hdrop ((l.kept r).eq_of_length heq)
    omega

theorem packed_before {x : Nat} {mask : MaskRow} (hj : l.ids[j]? = some q)
    (hx : x < rowStart l.output.drafts l.ids j)
    (hmask : (l.ids.flatMap
      (l.contrastManager.rowsFor (l.contrastRequests q) l.output.drafts))[x]? =
      some mask) : mask = fullMask := by
  obtain ⟨i, r, o, hi, ho, hxi⟩ := exists_of_getElem?_flatMap _ _ hmask
  have hne : r ≠ q := by
    rintro rfl
    have hij : i = j := by
      obtain ⟨hilt, hir⟩ := List.getElem?_eq_some_iff.mp hi
      obtain ⟨hjlt, hjr⟩ := List.getElem?_eq_some_iff.mp hj
      exact (List.Nodup.getElem_inj_iff l.ids_nodup).mp (hir.trans hjr.symm)
    subst hij
    rw [l.sum_length_rowsFor] at hxi
    omega
  unfold rowsFor at ho
  rw [getElem?_map, map_eq_some_iff] at ho
  obtain ⟨k, _, rfl⟩ := ho
  exact l.maskOf_free hne _ k

theorem keepsInFront_of_linesUp (h : ∀ m requests logits, l.Fits m requests logits →
    l.LinesUp m requests logits) : l.KeepsInFront := by
  unfold KeepsInFront
  rw [pairwise_iff_getElem]
  intro i j hi hj hij hbatch
  by_contra hdrop
  have hfits := l.fits_contrast l.ids[j]
  have hjq : l.ids[j]? = some l.ids[j] := getElem?_eq_getElem hj
  have hstruct : l.structured l.ids[j] = true := (mem_filter.mp (getElem_mem hj)).2
  obtain ⟨jb, hjb⟩ := mem_iff_getElem?.mp hbatch
  -- the first row of the request
  have hrow : (logitsRows l.batch l.worker.drafts)[rowStart l.worker.drafts l.batch jb]? =
      some (l.ids[j], 0) := by
    have hget := getElem?_flatMap_take l.batch
      (fun r => (range (1 + (l.worker.drafts r).length)).map fun k => (r, k)) hjb (o := 0)
      (by simp)
    simp only [length_map, length_range, Nat.add_zero] at hget
    unfold logitsRows rowStart
    rw [hget, getElem?_map, getElem?_range (by omega)]
    rfl
  have hlogit : l.plainLogits[rowStart l.worker.drafts l.batch jb]? = some fun _ => 0 := by
    unfold plainLogits
    rw [getElem?_replicate, if_pos (lt_of_getElem? hrow)]
  obtain ⟨g, m', requests', logits', hget, happly, _, _, hrows⟩ := hfits.run
  obtain ⟨g₁, m₁, requests₁, logits₁, hget₁, happly₁, _, _, hrows₁⟩ := h _ _ _ hfits
  obtain ⟨rfl, _⟩ := Prod.mk.inj (Except.ok.inj (hget.symm.trans hget₁))
  obtain rfl := Except.ok.inj (happly.symm.trans happly₁)
  obtain ⟨mask, hmask, hread⟩ := (hrows _ _ 0 _ hrow hlogit).1 j hjq
  have hspec := hrows₁ _ _ 0 _ hrow hlogit
  rw [l.maskOf_line hstruct] at hspec
  -- the row that is read belongs to an earlier request
  obtain rfl := packed_before hjq
    (Nat.lt_of_le_of_lt (Nat.le_of_eq (Nat.add_zero _))
      (rowStart_lt (getElem?_eq_getElem hi) hij hdrop)) hmask
  rw [hread] at hspec
  have htoken := congrFun (some.inj hspec) ((l.output.drafts l.ids[j]).getD 0 0 + 1)
  simp [maskLogits, fullMask] at htoken

/-- The masks line up with the logits for all grammars and logits exactly if every
structured-output request in front of another one keeps all its drafts. -/
theorem masks_line_up_iff (l : MaskLayout) :
    (∀ m requests logits, l.Fits m requests logits → l.LinesUp m requests logits) ↔
      l.KeepsInFront :=
  ⟨keepsInFront_of_linesUp, fun hkeep _ _ _ hfits => linesUp_of_keepsInFront hkeep hfits⟩

/-! ### Two requests, the first with a draft that is pruned -/

def oneDraft : SchedulerOutput where
  scheduledNewReqs := []
  scheduledRunningReqs := [0, 1]
  scheduledResumedReqs := []
  newBlockIds := Dict.empty
  numScheduledTokens := (Dict.empty.set 0 2).set 1 1
  totalNumScheduledTokens := 3
  scheduledSpecDecodeTokens := Dict.empty.set 0 [5]
  scheduledEncoderInputs := Dict.empty
  preemptedReqIds := []
  finishedReqIds := []
  freeEncoderMMHashes := []

def pruned : SchedulerOutput :=
  echoPruneDrafts (some ⟨[0], 1, fun _ _ => 0⟩) (fun _ _ => false) oneDraft

theorem pruned_isPrefix (r : ReqId) : pruned.drafts r <+: oneDraft.drafts r := by
  have hdrafts : pruned.scheduledSpecDecodeTokens.get? 0 = some [] ∧
      pruned.scheduledSpecDecodeTokens.keys = [0] := by decide +kernel
  have hnil : pruned.drafts r = [] := by
    by_cases hr : r = 0
    · rw [hr, SchedulerOutput.drafts, hdrafts.1]
      rfl
    · have hnone : pruned.scheduledSpecDecodeTokens.get? r = none := by
        rw [Dict.get?_eq_none_iff, hdrafts.2, mem_singleton]
        exact hr
      rw [SchedulerOutput.drafts, hnone]
      rfl
  rw [hnil]
  exact nil_prefix

def prunedLayout : MaskLayout :=
  ⟨oneDraft, pruned, [0, 1], fun _ => true, by decide, pruned_isPrefix⟩

def keptLayout : MaskLayout :=
  ⟨oneDraft, oneDraft, [0, 1], fun _ => true, by decide, fun _ => prefix_rfl⟩

def mixedRequests (r : ReqId) : Option MaskedRequest :=
  some ⟨none, false, some ⟨⟨if r = 0 then freeRules else lineRules [], []⟩, none⟩⟩

def twoRows : List LogitsRow := [fun _ => 0, fun _ => 0]

/-- Request 1 is sampled without its mask: row 1 gets the row that was packed for the draft of
request 0. -/
theorem pruned_draft_shifts_masks :
    prunedLayout.worker.drafts 0 = [] ∧ ¬ prunedLayout.KeepsInFront ∧
      maskOf ⟨none, false, 2, some 1, none⟩ mixedRequests [] 1 0 9 = false ∧
      (getGrammarBitmask ⟨none, false, 2, some 1, none⟩ mixedRequests prunedLayout.output >>=
        fun x =>
        maskedLogits prunedLayout.worker x.1 prunedLayout.batch twoRows >>= fun rows =>
          .ok (rows.map fun row => row 9)) = .ok [0, 0] := by
  refine ⟨?_, ?_, ?_, ?_⟩
  case refine_2 =>
    unfold KeepsInFront
    decide +kernel
  all_goals decide +kernel

/-- All drafts are kept. -/
theorem kept_drafts_line_up : keptLayout.ids = [0, 1] ∧
    ∀ m requests logits, keptLayout.Fits m requests logits →
      keptLayout.LinesUp m requests logits := by
  refine ⟨by decide +kernel, (masks_line_up_iff keptLayout).mpr ?_⟩
  unfold KeepsInFront
  decide +kernel

end MaskLayout

end VllmEcho
