import VllmEcho.Worker.BatchReplay

/-!
# The row numbers of the batch

`RowBatch` is `InputBatch` without the contents of the rows: every operation of `InputBatch` that
succeeds is the operation of `RowBatch` on the row numbers, with the additions and moves reported.
-/

namespace VllmEcho

open Lib List

variable {additions : List CachedRequestState} {removals : List ReqId} {qs : List NewRequest}
  {q : NewRequest} {last : Nat}

namespace InputBatch

def rowBatch (s : InputBatch) (added : List (Nat × NewRequest)) (moved : List Move) : RowBatch :=
  ⟨s.config.maxNumReqs, s.reqIds, s.reqIdToIndex, ⟨s.toRemovedRows, added, moved⟩⟩

variable {s s' : InputBatch} (added : List (Nat × NewRequest)) (moved : List Move)

theorem rowBatch_discardLora (loraId : Nat) (reqId : ReqId) :
    (s.discardLora loraId reqId).rowBatch added moved = s.rowBatch added moved := by
  unfold discardLora
  split <;> rfl

theorem rowBatch_registerLora (request : CachedRequestState) :
    (s.registerLora request).rowBatch added moved = s.rowBatch added moved := by
  unfold registerLora
  split <;> rfl

theorem removeRequest_rowBatch {r : ReqId} (h : s.removeRequest r = .ok s') :
    (s.rowBatch added moved).removeRequest r = .ok (s'.rowBatch added moved) := by
  unfold removeRequest at h
  have hindex : (s.rowBatch added moved).reqIdToIndex.get? r = s.reqIdToIndex.get? r := rfl
  rw [RowBatch.removeRequest, hindex]
  cases hget : s.reqIdToIndex.get? r with
  | none =>
    rw [hget] at h
    rw [Except.ok.inj h]
  | some i =>
    rw [hget] at h
    obtain ⟨removed, happend, h⟩ := of_bind h
    cases h
    rw [rowBatch_discardLora]
    exact bind_eq_ok.mpr ⟨removed, happend, rfl⟩

theorem registerAddRequest_rowBatch {i : Nat} (h : s.registerAddRequest = .ok (i, s')) :
    (s.rowBatch added moved).registerAddRequest q =
        .ok (i, (s'.rowBatch (added ++ [(i, q)]) moved).builder) ∧
      ∃ removed, s' = s.setRemoved removed := by
  unfold registerAddRequest at h
  dsimp only at h
  split at h
  · rename_i hlt
    cases h
    exact ⟨if_pos hlt, _, rfl⟩
  · cases h

theorem addRequest_rowBatch {request : CachedRequestState} (h : s.addRequest request = .ok s')
    (hq : q.reqId = request.reqId) :
    ∃ i, (s.rowBatch added moved).addRequest q = .ok (s'.rowBatch (added ++ [(i, q)]) moved) := by
  obtain ⟨⟨i, s₁⟩, hreg, h⟩ := of_bind h
  obtain ⟨n, _, h⟩ := of_bind h
  obtain ⟨⟨row, marks⟩, _, h⟩ := of_bind h
  cases h
  obtain ⟨hregister, removed, rfl⟩ := registerAddRequest_rowBatch added moved hreg
  refine ⟨i, ?_⟩
  unfold RowBatch.addRequest
  rw [hregister, rowBatch_registerLora]
  show Except.ok _ = Except.ok _
  unfold enterRow rowBatch setRemoved
  rw [hq]
  dsimp only
  split <;> rfl

theorem moveRow_rowBatch {empty : Nat} (h : s.moveRow last empty = .ok s') :
    (s.rowBatch added moved).moveLast last empty =
      .ok (s'.rowBatch added (moved ++ [⟨last, empty, .unidirectional⟩])) := by
  unfold moveRow at h
  have hids : (s.rowBatch added moved).reqIds = s.reqIds := rfl
  rw [RowBatch.moveLast, hids]
  cases hid : s.reqIds.getD last none with
  | none =>
    rw [hid] at h
    cases h
  | some r =>
    rw [hid] at h
    cases h
    rfl

theorem condenseLoop_rowBatch {fuel : Nat} (h : condenseLoop fuel s last = .ok s') :
    ∃ ms, RowBatch.condenseLoop fuel (s.rowBatch added moved) last =
      .ok (s'.rowBatch added (moved ++ ms)) := by
  induction fuel generalizing s last moved with
  | zero =>
    cases h
    exact ⟨[], by rw [append_nil]; rfl⟩
  | succ fuel ih =>
    rw [condenseLoop] at h
    rw [RowBatch.condenseLoop]
    have hremoved : (s.rowBatch added moved).builder.removed = s.removed := rfl
    rw [hremoved]
    cases hlast : s.removed.getLast? with
    | none =>
      rw [hlast] at h
      cases h
      exact ⟨[], by rw [append_nil]⟩
    | some e =>
      rw [hlast] at h
      dsimp only at h ⊢
      split at h
      · rename_i hbreak
        cases h
        exact ⟨[], by rw [if_pos hbreak, append_nil]⟩
      rename_i hgo
      rw [if_neg hgo]
      obtain ⟨s₁, hs₁, h⟩ := of_bind h
      have hmove := moveRow_rowBatch added moved hs₁
      obtain ⟨ms, hms⟩ := ih (moved ++ [⟨skipRemoved s.removed last, e, .unidirectional⟩]) h
      refine ⟨⟨skipRemoved s.removed last, e, .unidirectional⟩ :: ms, ?_⟩
      rw [append_assoc] at hms
      exact bind_eq_ok.mpr ⟨_, hmove, hms⟩

theorem condense_rowBatch (h : s.condense = .ok s') :
    ∃ ms, (s.rowBatch added moved).condense = .ok (s'.rowBatch added (moved ++ ms)) := by
  unfold condense at h
  dsimp only at h
  show ∃ ms, ((s.setRemoved s.ensureRemovedSorted).rowBatch added moved).condenseSorted = _
  generalize s.setRemoved s.ensureRemovedSorted = t at *
  unfold RowBatch.condenseSorted
  have hremoved : (t.rowBatch added moved).builder.removed = t.removed := rfl
  have hnum : (t.rowBatch added moved).numReqs = t.numReqs := rfl
  rw [hremoved, hnum]
  split at h
  · rename_i hempty
    cases h
    exact ⟨[], by rw [if_pos hempty, append_nil]⟩
  rename_i hne
  rw [if_neg hne]
  split at h
  · rename_i hzero
    cases h
    exact ⟨[], by rw [if_pos hzero, append_nil]; rfl⟩
  rename_i hpos
  rw [if_neg hpos]
  obtain ⟨s₁, hs₁, h⟩ := of_bind h
  cases h
  obtain ⟨ms, hms⟩ := condenseLoop_rowBatch added moved hs₁
  exact ⟨ms, bind_eq_ok.mpr ⟨_, hms, rfl⟩⟩

theorem removals_rowBatch (h : removals.foldlM removeRequest s = .ok s') :
    removals.foldlM RowBatch.removeRequest (s.rowBatch added moved) =
      .ok (s'.rowBatch added moved) := by
  induction removals generalizing s with
  | nil =>
    cases h
    rfl
  | cons r removals ih =>
    obtain ⟨s₁, hs₁, h⟩ := of_bind h
    exact bind_eq_ok.mpr ⟨_, removeRequest_rowBatch added moved hs₁, ih h⟩

theorem additions_rowBatch (hids : qs.map NewRequest.reqId = additions.map CachedRequestState.reqId)
    (h : additions.foldlM addRequest s = .ok s') :
    ∃ added', qs.foldlM RowBatch.addRequest (s.rowBatch added moved) =
      .ok (s'.rowBatch added' moved) := by
  induction additions generalizing s qs added with
  | nil =>
    cases h
    obtain rfl : qs = [] := map_eq_nil_iff.mp hids
    exact ⟨added, rfl⟩
  | cons request additions ih =>
    cases qs with
    | nil => cases hids
    | cons q qs =>
      obtain ⟨hq, hqs⟩ := List.cons.inj hids
      obtain ⟨s₁, hs₁, h⟩ := of_bind h
      obtain ⟨i, hi⟩ := addRequest_rowBatch added moved hs₁ hq
      obtain ⟨added', hrest⟩ := ih (added ++ [(i, q)]) hqs h
      refine ⟨added', ?_⟩
      exact bind_eq_ok.mpr ⟨_, hi, hrest⟩

theorem updateStates_rowBatch
    (hids : qs.map NewRequest.reqId = additions.map CachedRequestState.reqId)
    (h : s.updateStates removals additions = .ok s') :
    ∃ b, (s.rowBatch [] []).updateStates removals qs [] = .ok b ∧
      b.refreshMetadata.2 = s'.rowBatch [] [] := by
  obtain ⟨s₁, hs₁, h⟩ := of_bind h
  obtain ⟨s₂, hs₂, h⟩ := of_bind h
  obtain ⟨s₃, hs₃, h⟩ := of_bind h
  cases h
  obtain ⟨added, hadded⟩ := additions_rowBatch [] [] hids hs₂
  obtain ⟨ms, hms⟩ := condense_rowBatch added [] hs₃
  refine ⟨s₃.rowBatch added ([] ++ ms), ?_, ?_⟩
  · unfold RowBatch.updateStates
    rw [removals_rowBatch [] [] hs₁, ok_bind, hadded, ok_bind, hms]
    rfl
  unfold RowBatch.refreshMetadata BatchUpdateBuilder.getAndReset
  split
  · rename_i hempty
    simp only [Bool.and_eq_true, List.isEmpty_iff] at hempty
    obtain ⟨⟨hremoved, hmoved⟩, hnone⟩ := hempty
    rw [hremoved, hmoved, hnone]
    rfl
  · rfl

end InputBatch

end VllmEcho
