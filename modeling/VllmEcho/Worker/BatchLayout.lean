import VllmEcho.Worker.BatchRows

/-!
# Requests and rows

During a step the rows are slots with holes.  `Layout` says which request sits in which slot and
that its row holds what was stored for it; `Holes` that the removals of the step are the holes.
-/

namespace VllmEcho

open Lib Function List CachedRequestState

abbrev Slots := List (Option CachedRequestState)

variable (s : InputBatch) (slots : Slots)

structure RowsHold : Prop where
  reqIds : s.reqIds = slots.map (Option.map reqId)
  outputs : s.reqOutputTokenIds = slots.map (Option.map outputTokenIds)
  specLength : slots.length ≤ s.specTokenIds.length
  specNil : ∀ l ∈ s.specTokenIds, l = []
  live : ∀ (i : Nat) (q : CachedRequestState), slots[i]? = some (some q) →
    RowOf s.config (s.rows i) q ∧ s.marks q.reqId = s.config.marksOf q ∧ s.config.Suits q
  clean : ∀ i : Nat, (∀ q, slots[i]? ≠ some (some q)) → CleanRow s.config (s.rows i)

structure Layout : Prop extends RowsHold s slots where
  inverts : Inverts s.reqIdToIndex s.reqIds
  unmarked : ∀ r, s.reqIdToIndex.get? r = none → s.marks r = BatchMarks.blank

abbrev Holes : Prop := Gaps s.removed s.isRemovedSorted slots

/-- A request behind a hole that the next `n` additions leave open may be moved there: the flag of
the hole is its own, and it leaves no mask behind. -/
def Movable (n : Nat) : Prop :=
  ∀ (i j : Nat) (q : CachedRequestState), slots[i]? = some none →
    slots[j]? = some (some q) → i < j → n ≤ (slots.take i).countP Option.isNone →
    (s.rows i).needsTokenIds = q.needsTokenIds ∧ q.allowedTokenIds = []

section

variable {s : InputBatch} {slots : Slots}

/-- A slot and its row are written, whatever becomes of the index. -/
theorem RowsHold.set (h : RowsHold s slots) {i : Nat} (hi : i < slots.length)
    (o : Option CachedRequestState) (row : BatchRow) (marks : ReqId → BatchMarks)
    (d : Dict ReqId Nat)
    (hlive : ∀ q, o = some q →
      RowOf s.config row q ∧ marks q.reqId = s.config.marksOf q ∧ s.config.Suits q)
    (hclean : o = none → CleanRow s.config row)
    (hmarks : ∀ j q, j ≠ i → slots[j]? = some (some q) → marks q.reqId = s.marks q.reqId) :
    RowsHold { s with
      reqIds := s.reqIds.set i (o.map reqId)
      reqOutputTokenIds := s.reqOutputTokenIds.set i (o.map outputTokenIds)
      specTokenIds := s.specTokenIds.set i []
      reqIdToIndex := d
      rows := update s.rows i row
      marks := marks } (slots.set i o) := by
  constructor
  case reqIds => rw [map_set, h.reqIds]
  case outputs => rw [map_set, h.outputs]
  case specLength => simpa using h.specLength
  case specNil =>
    intro l hl
    rcases mem_or_eq_of_mem_set hl with hl | hl
    · exact h.specNil l hl
    · exact hl
  case live =>
    intro j q hq
    dsimp only
    rw [getElem?_set_of_lt hi] at hq
    by_cases hji : j = i
    · rw [if_pos hji] at hq
      rw [hji, update_self]
      exact hlive q (Option.some.inj hq)
    · rw [if_neg hji] at hq
      rw [update_of_ne hji, hmarks j q hji hq]
      exact h.live j q hq
  case clean =>
    intro j hj
    dsimp only
    by_cases hji : j = i
    · rw [hji, update_self]
      apply hclean
      rw [hji, getElem?_set_self hi] at hj
      exact Option.eq_none_iff_forall_ne_some.mpr fun q hq => hj q (congrArg some hq)
    · rw [update_of_ne hji]
      rw [getElem?_set_ne (Ne.symm hji)] at hj
      exact h.clean j hj

end

namespace Layout

variable {s : InputBatch} {slots : Slots} {q : CachedRequestState} {i : Nat}

section

variable (h : Layout s slots)
include h

theorem index (r : ReqId) (i : Nat) : s.reqIdToIndex.get? r = some i ↔
    ∃ q, slots[i]? = some (some q) ∧ q.reqId = r :=
  (h.inverts r i).trans (h.reqIds ▸ getElem?_map_eq_some)

theorem row_unique {j : Nat} {q' : CachedRequestState} (hi : slots[i]? = some (some q))
    (hj : slots[j]? = some (some q')) (hid : q.reqId = q'.reqId) : i = j := by
  have h1 := (h.index q.reqId i).mpr ⟨q, hi, rfl⟩
  have h2 := (h.index q.reqId j).mpr ⟨q', hj, hid.symm⟩
  exact Option.some.inj (h1.symm.trans h2)

theorem hole (hi : slots[i]? = some none) : s.reqIds[i]? = some none := by
  rw [h.reqIds, getElem?_map, hi]
  rfl

theorem id_at (hq : slots[i]? = some (some q)) : s.reqIds[i]? = some (some q.reqId) := by
  rw [h.reqIds]
  exact getElem?_map_eq_some.mpr ⟨q, hq, rfl⟩

/-- The adapters and the list of the removed rows are of no concern. -/
theorem frame (ids : Nat → List ReqId) (loras : Nat → Option LoRARequest) (removed : List Nat)
    (sorted : Bool) :
    Layout { s with
      loraIdToRequestIds := ids
      loraIdToLoraRequest := loras
      removed := removed
      isRemovedSorted := sorted } slots :=
  { h with }

theorem numReqs_eq : s.numReqs = slots.reduceOption.length := by
  have hlen := h.inverts.length_eq
  rw [h.reqIds, reduceOption_map, length_map] at hlen
  exact hlen

theorem specTokenIds_getD (i : Nat) : s.specTokenIds.getD i [] = [] := by
  rw [getD_eq_getElem?_getD]
  cases hi : s.specTokenIds[i]? with
  | none => rfl
  | some l => exact h.specNil l (mem_of_getElem? hi)

theorem extend :
    Layout { s with
      reqIds := s.reqIds ++ [none]
      reqOutputTokenIds := s.reqOutputTokenIds ++ [none]
      specTokenIds := s.specTokenIds ++ [[]] } (slots ++ [none]) := by
  have hlive : ∀ (i : Nat) (q : CachedRequestState),
      (slots ++ [none])[i]? = some (some q) ↔ slots[i]? = some (some q) := by
    intro i q
    rcases Nat.lt_trichotomy i slots.length with hlt | heq | hgt
    · rw [getElem?_append_left hlt]
    · subst heq
      simp
    · rw [getElem?_eq_none (by simp; omega), getElem?_eq_none (by omega)]
  refine ⟨?_, h.inverts.extend, h.unmarked⟩
  constructor
  case reqIds => simp [h.reqIds]
  case outputs => simp [h.outputs]
  case specLength => simpa using h.specLength
  case specNil =>
    intro l hl
    rcases mem_append.mp hl with hl | hl
    · exact h.specNil l hl
    · exact mem_singleton.mp hl
  case live => simpa only [hlive] using h.live
  case clean =>
    intro i hi
    exact h.clean i fun q hq => hi q ((hlive i q).mpr hq)

end

theorem place (h : Layout s slots) {i : Nat} {q : CachedRequestState} {row : BatchRow}
    (hhole : slots[i]? = some none) (hnew : s.reqIdToIndex.get? q.reqId = none)
    (hrow : RowOf s.config row q) (hsuits : s.config.Suits q) : Layout { s with
      reqIds := s.reqIds.set i (some q.reqId)
      reqOutputTokenIds := s.reqOutputTokenIds.set i (some q.outputTokenIds)
      specTokenIds := s.specTokenIds.set i []
      reqIdToIndex := s.reqIdToIndex.set q.reqId i
      rows := update s.rows i row
      marks := update s.marks q.reqId (s.config.marksOf q) } (slots.set i (some q)) := by
  have hlen : i < slots.length := lt_of_getElem? hhole
  refine Layout.mk (h.toRowsHold.set hlen (some q) row _ _ ?_ nofun ?_)
    (h.inverts.place (h.hole hhole) hnew) ?_
  · rintro _ ⟨⟩
    exact ⟨hrow, update_self _ _ _, hsuits⟩
  · -- the id is new, so no other row has it
    intro j p _ hp
    apply update_of_ne
    intro hid
    rw [(h.index q.reqId j).mpr ⟨p, hp, hid⟩] at hnew
    cases hnew
  · intro r hr
    dsimp only at hr ⊢
    rw [Dict.get?_set] at hr
    split at hr
    · cases hr
    · rename_i hne
      rw [update_of_ne hne]
      exact h.unmarked r hr

theorem vacate (h : Layout s slots) {i : Nat} {q : CachedRequestState}
    (hq : slots[i]? = some (some q)) (hembeds : q.promptEmbeds = none) : Layout { s with
      reqIds := s.reqIds.set i none
      reqOutputTokenIds := s.reqOutputTokenIds.set i none
      specTokenIds := s.specTokenIds.set i []
      reqIdToIndex := s.reqIdToIndex.erase q.reqId
      rows := update s.rows i (s.config.vacateRow (s.rows i))
      marks := update s.marks q.reqId (s.config.vacateMarks (s.marks q.reqId)) }
      (slots.set i none) := by
  have hlen : i < slots.length := lt_of_getElem? hq
  obtain ⟨hrow, hmarks, hsuits⟩ := h.live i q hq
  refine Layout.mk (h.toRowsHold.set hlen none (s.config.vacateRow (s.rows i)) _ _ ?_ ?_ ?_)
    (h.inverts.vacate (h.id_at hq)) ?_
  · intro p hp
    cases hp
  · exact fun _ => BatchConfig.cleanRow_vacate hrow hsuits hembeds
  · exact fun j p hne hp => update_of_ne (fun hid => hne (h.row_unique hp hq hid)) _ _
  intro r hr
  dsimp only at hr ⊢
  by_cases hrq : r = q.reqId
  · rw [hrq, update_self, hmarks, BatchConfig.vacateMarks_marksOf hsuits]
  · rw [Dict.get?_erase, if_neg hrq] at hr
    rw [update_of_ne hrq]
    exact h.unmarked r hr

theorem move (h : Layout s slots) {i l : Nat} {q : CachedRequestState}
    (hhole : slots[i]? = some none) (hq : slots[l]? = some (some q))
    (hflag : (s.rows i).needsTokenIds = q.needsTokenIds) (hallowed : q.allowedTokenIds = []) :
    Layout { s with
      reqIds := (s.reqIds.set i (some q.reqId)).set l none
      reqOutputTokenIds := (s.reqOutputTokenIds.set i (some q.outputTokenIds)).set l none
      specTokenIds := (s.specTokenIds.set i []).set l []
      reqIdToIndex := s.reqIdToIndex.set q.reqId i
      rows := update
        (update s.rows i (s.config.movedRow q.numTokens (s.rows l) (s.rows i)))
        l (s.config.leftRow (s.rows l)) } ((slots.set i (some q)).set l none) := by
  have hlen : i < slots.length := lt_of_getElem? hhole
  obtain ⟨hrow, hmarks, hsuits⟩ := h.live l q hq
  have hmoved : RowOf s.config (s.config.movedRow q.numTokens (s.rows l) (s.rows i)) q :=
    BatchConfig.rowOf_moved hrow (h.clean i fun p hp => by rw [hhole] at hp; cases hp) hsuits hflag
  have hfilled := h.toRowsHold.set hlen (some q) _ s.marks (s.reqIdToIndex.set q.reqId i)
    (by rintro _ ⟨⟩; exact ⟨hmoved, hmarks, hsuits⟩) nofun fun j p _ _ => rfl
  have hleft := hfilled.set (by simpa using (lt_of_getElem? hq)) none
    (s.config.leftRow (s.rows l)) s.marks (s.reqIdToIndex.set q.reqId i) (fun _ hno => by cases hno)
    (fun _ => BatchConfig.cleanRow_left hrow hsuits hallowed) fun j p _ _ => rfl
  refine ⟨hleft, h.inverts.move (h.id_at hq) (h.hole hhole), fun r hr => ?_⟩
  rw [Dict.get?_set] at hr
  split at hr
  · cases hr
  · exact h.unmarked r hr

end Layout

end VllmEcho
