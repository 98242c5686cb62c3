import VllmEcho.Worker.BatchLayout

/-!
# The operations on the layout

`remove_request` makes holes, `add_request` fills the lowest one or appends, and `condense` moves
requests from the end into the holes that are left.
-/

namespace VllmEcho

open Lib Function List

variable {q : CachedRequestState} {r : ReqId} {i : Nat}

theorem RemovedRows.ensureRemovedSorted_gaps {u : RemovedRows} {α : Type}
    {slots : List (Option α)} (h : Gaps u.removed u.isRemovedSorted slots) :
    Gaps u.ensureRemovedSorted.removed true slots := by
  unfold ensureRemovedSorted
  split
  · rename_i hsorted
    exact hsorted ▸ h
  · exact h.sort

namespace InputBatch

variable {s s' : InputBatch} {slots : Slots} {rs : List ReqId}

/-! ## Removing -/

def without (slots : Slots) (rs : List ReqId) : Slots :=
  slots.map (Option.filter fun q => decide (q.reqId ∉ rs))

theorem without_eq_set (hlay : Layout s slots) (hq : slots[i]? = some (some q)) :
    without slots [q.reqId] = slots.set i none := by
  have hlen : i < slots.length := lt_of_getElem? hq
  apply ext_getElem?
  intro j
  rw [without, getElem?_map, getElem?_set_of_lt hlen]
  by_cases hji : j = i
  · subst hji
    simp [hq]
  rw [if_neg hji]
  cases hj : slots[j]? with
  | none => rfl
  | some o =>
    cases o with
    | none => rfl
    | some p =>
      have hne : p.reqId ≠ q.reqId := fun hid => hji (hlay.row_unique hj hq hid)
      simp [hne]

theorem without_eq_self (hrs : ∀ q, some q ∈ slots → q.reqId ∉ rs) : without slots rs = slots := by
  conv_rhs => rw [← map_id slots]
  apply map_congr_left
  intro o ho
  cases o with
  | none => rfl
  | some q => simp [hrs q ho]

theorem without_cons : without (without slots [r]) rs = without slots (r :: rs) := by
  rw [without, without, map_map]
  apply map_congr_left
  intro o _
  cases o with
  | none => rfl
  | some q =>
    by_cases hr : q.reqId = r <;> by_cases hrs : q.reqId ∈ rs <;> simp [Option.filter, hr, hrs]

structure Removed (s : InputBatch) (slots : Slots) (rs : List ReqId) (s' : InputBatch) : Prop where
  layout : Layout s' (without slots rs)
  holes : Holes s' (without slots rs)
  unsorted : s'.isRemovedSorted = false
  config : s'.config = s.config
  needsTokenIds : ∀ i, (s'.rows i).needsTokenIds = (s.rows i).needsTokenIds

theorem Removed.none (hlay : Layout s slots) (hholes : Holes s slots)
    (hsorted : s.isRemovedSorted = false) (hrs : ∀ q, some q ∈ slots → q.reqId ∉ rs) :
    Removed s slots rs s := by
  have hslots : without slots rs = slots := without_eq_self hrs
  exact ⟨hslots.symm ▸ hlay, hslots.symm ▸ hholes, hsorted, rfl, fun i => rfl⟩

theorem discardLora_frame {loraId : Nat} (h : s.discardLora loraId r = s') : ∃ ids loras, s' =
      { s with loraIdToRequestIds := ids, loraIdToLoraRequest := loras } := by
  rw [← h, discardLora]
  split
  · exact ⟨_, _, rfl⟩
  · exact ⟨_, _, rfl⟩

theorem vacateRow_needsTokenIds (c : BatchConfig) (row : BatchRow) :
    (c.vacateRow row).needsTokenIds = row.needsTokenIds := by
  rw [BatchConfig.vacateRow]
  split <;> rfl

theorem removeRequest_spec (hlay : Layout s slots) (hholes : Holes s slots)
    (hsorted : s.isRemovedSorted = false)
    (hembeds : ∀ q, some q ∈ slots → q.reqId = r → q.promptEmbeds = none)
    (h : s.removeRequest r = .ok s') : Removed s slots [r] s' := by
  rw [removeRequest] at h
  cases hget : s.reqIdToIndex.get? r with
  | none =>
    rw [hget] at h
    cases h
    refine .none hlay hholes hsorted fun q hq hid => ?_
    obtain ⟨i, hi⟩ := mem_iff_getElem?.mp hq
    rw [(hlay.index r i).mpr ⟨q, hi, mem_singleton.mp hid⟩] at hget
    cases hget
  | some i =>
    obtain ⟨q, hq, rfl⟩ := (hlay.index r i).mp hget
    rw [hget] at h
    obtain ⟨removed, happend, h⟩ := of_bind h
    rw [RemovedRows.removedAppend_eq hsorted] at happend
    cases happend
    cases h
    have hset : without slots [q.reqId] = slots.set i none := without_eq_set hlay hq
    have hvac := hlay.vacate hq (hembeds q (mem_of_getElem? hq) rfl)
    generalize hlora : discardLora _ _ _ = s₂
    obtain ⟨ids, loras, rfl⟩ := discardLora_frame hlora
    refine ⟨hset ▸ hvac.frame _ _ _ _, hset ▸ hholes.vacate hsorted hq, hsorted, rfl, fun j => ?_⟩
    dsimp only
    by_cases hji : j = i
    · rw [hji, update_self, vacateRow_needsTokenIds]
    · rw [update_of_ne hji]

theorem removals_spec (hlay : Layout s slots) (hholes : Holes s slots)
    (hsorted : s.isRemovedSorted = false)
    (hembeds : ∀ q, some q ∈ slots → q.reqId ∈ rs → q.promptEmbeds = none)
    (h : rs.foldlM removeRequest s = .ok s') : Removed s slots rs s' := by
  induction rs generalizing s slots with
  | nil =>
    cases h
    exact .none hlay hholes hsorted fun _ _ => not_mem_nil
  | cons r rs ih =>
    obtain ⟨s₁, h₁, h⟩ := of_bind h
    have hone := removeRequest_spec hlay hholes hsorted
      (fun q hq hid => hembeds q hq (hid ▸ mem_cons_self)) h₁
    have hsub : ∀ q, some q ∈ without slots [r] → some q ∈ slots := by
      intro q hq
      obtain ⟨o, ho, hoq⟩ := mem_map.mp hq
      cases o with
      | none => cases hoq
      | some p =>
        obtain ⟨hp, -⟩ := Option.filter_eq_some_iff.mp hoq
        rw [← hp]
        exact ho
    have hrest := ih hone.layout hone.holes hone.unsorted
      (fun q hq hr => hembeds q (hsub q hq) (mem_cons_of_mem r hr)) h
    exact ⟨without_cons ▸ hrest.layout, without_cons ▸ hrest.holes, hrest.unsorted,
      hrest.config.trans hone.config,
      fun i => (hrest.needsTokenIds i).trans (hone.needsTokenIds i)⟩

/-! ## Sorting the holes -/

theorem ensureRemovedSorted_spec (hlay : Layout s slots) (hholes : Holes s slots) :
    Layout (s.setRemoved s.ensureRemovedSorted) slots ∧
      Holes (s.setRemoved s.ensureRemovedSorted) slots := by
  have hgaps := RemovedRows.ensureRemovedSorted_gaps hholes
  exact ⟨hlay.frame _ _ _ _, hgaps.nodup, hgaps.mem, fun _ => hgaps.sorted rfl⟩

/-! ## Adding -/

theorem registerLora_frame : ∃ ids loras, s.registerLora q =
      { s with loraIdToRequestIds := ids, loraIdToLoraRequest := loras } := by
  rw [registerLora]
  split
  · exact ⟨_, _, rfl⟩
  · exact ⟨_, _, rfl⟩

theorem Movable.place {row : BatchRow} {n : Nat} (hmov : Movable s slots (n + 1))
    (hhole : slots[i]? = some none) (hholes : Holes s (slots.set i (some q)))
    (hlow : ∀ j ∈ s.removed, i < j) (hrows : s'.rows = update s.rows i row) :
    Movable s' (slots.set i (some q)) n := by
  have hlen : i < slots.length := lt_of_getElem? hhole
  have hget : ∀ j : Nat, (slots.set i (some q))[j]? = if j = i then some (some q) else slots[j]? :=
    fun j => getElem?_set_of_lt hlen
  intro j k p hj hk hjk hn
  -- the filled hole was the lowest, so it is one of those before `j`
  have hij := hlow j ((hholes.mem j).mpr hj)
  rw [hget, if_neg (by omega)] at hj hk
  rw [hrows, update_of_ne (by omega)]
  have htake : i < (slots.take j).length := by
    rw [length_take]
    have := lt_of_getElem? hj
    omega
  have hnone : (slots.take j)[i] = none := by
    rw [getElem_take]
    exact (List.getElem?_eq_some_iff.mp hhole).2
  have hpos : 0 < (slots.take j).countP Option.isNone :=
    countP_pos_iff.mpr ⟨none, hnone ▸ getElem_mem htake, rfl⟩
  apply hmov j k p hj hk hjk
  rw [take_set, countP_set htake, hnone] at hn
  simp only [Option.isNone_none, Option.isNone_some, if_true, Bool.false_eq_true, if_false] at hn
  omega

theorem set_length_append {α : Type} (l : List α) (a b : α) :
    (l ++ [a]).set l.length b = l ++ [b] := by
  rw [set_append_right _ _ (Nat.le_refl _), Nat.sub_self]
  rfl

theorem numReqs_eq_length (hlay : Layout s slots) (hholes : Holes s slots)
    (hempty : s.removed = []) : s.numReqs = slots.length := by
  rw [hlay.numReqs_eq, ← length_map some, hholes.map_some hempty]

theorem enterRow_spec {idx : Nat} {s₁ : InputBatch} (hlay : Layout s slots)
    (hholes : Holes s slots) {n : Nat} (hmov : Movable s slots n)
    (h : s.registerAddRequest = .ok (idx, s₁)) :
    ∃ (s₂ : InputBatch) (slots₂ : Slots), Layout s₂ slots₂ ∧ slots₂[idx]? = some none ∧
      slots₂.reduceOption = slots.reduceOption ∧ Movable s₂ slots₂ n ∧
      Holes s₂ (slots₂.set idx (some q)) ∧ (∀ j ∈ s₂.removed, idx < j) ∧ s₂.config = s.config ∧
      s₂.reqIdToIndex = s.reqIdToIndex ∧ s₁.enterRow q idx = { s₂ with
        reqIds := s₂.reqIds.set idx (some q.reqId)
        reqOutputTokenIds := s₂.reqOutputTokenIds.set idx (some q.outputTokenIds)
        specTokenIds := s₂.specTokenIds.set idx []
        reqIdToIndex := s₂.reqIdToIndex.set q.reqId idx } := by
  rw [registerAddRequest] at h
  split at h
  · cases h
    by_cases hempty : s.removed = []
    · -- no hole: the request is appended
      have hidx := numReqs_eq_length hlay hholes hempty
      have hlen : s.reqIds.length = slots.length := by rw [hlay.reqIds, length_map]
      have hlen' : s.reqOutputTokenIds.length = slots.length := by rw [hlay.outputs, length_map]
      rw [RemovedRows.popRemoved_nil hempty]
      simp only [Option.getD_none, hidx]
      refine ⟨_, _, hlay.extend, by simp, by simp [reduceOption_append], ?_,
        hholes.extend hempty q, ?_, rfl, rfl, ?_⟩
      · intro i j p hi hj hij _
        have hlt : j < slots.length := by
          by_contra hge
          rw [getElem?_append_right (by omega)] at hj
          cases hk : j - slots.length <;> simp [hk] at hj
        rw [getElem?_append_left (by omega)] at hi
        have hmem := (hholes.mem i).mpr hi
        rw [hempty] at hmem
        cases hmem
      · rw [hempty]
        exact nofun
      show s.enterRow q slots.length = _
      rw [enterRow, if_pos hlen.symm]
      have h1 := set_length_append s.reqIds none (some q.reqId)
      have h2 := set_length_append s.reqOutputTokenIds none (some q.outputTokenIds)
      rw [hlen] at h1
      rw [hlen'] at h2
      have h3 : (s.specTokenIds ++ [[]]).set slots.length [] = s.specTokenIds ++ [[]] := by
        apply ext_getElem?
        intro j
        by_cases hj : j = slots.length
        · subst hj
          have hlt : slots.length < (s.specTokenIds ++ [[]]).length := by
            have := hlay.specLength
            simp
            omega
          rw [getElem?_set_self hlt, getElem?_eq_getElem hlt]
          rcases mem_append.mp (getElem_mem hlt) with hmem | hmem
          · rw [hlay.specNil _ hmem]
          · rw [mem_singleton.mp hmem]
        · rw [getElem?_set_ne (Ne.symm hj)]
      rw [h1, h2, h3]
    · -- the lowest hole
      obtain ⟨hlay₁, hholes₁⟩ := ensureRemovedSorted_spec hlay hholes
      have hsorted₁ := RemovedRows.ensureRemovedSorted_sorted s.toRemovedRows
      have hne : s.ensureRemovedSorted.removed ≠ [] := by
        intro hnil
        have hperm : s.ensureRemovedSorted.removed.Perm s.removed := hholes₁.perm hholes
        rw [hnil] at hperm
        exact hempty hperm.nil_eq.symm
      have hlast := getLast?_eq_some_getLast hne
      set i := s.ensureRemovedSorted.removed.getLast hne
      have hhole : slots[i]? = some none := (hholes₁.mem i).mp (getLast_mem hne)
      have hlen : i < slots.length := lt_of_getElem? hhole
      rw [RemovedRows.popRemoved_of_ne_nil hempty, hlast, Option.getD_some]
      have hfill : Gaps s.ensureRemovedSorted.removed.dropLast true (slots.set i (some q)) :=
        hsorted₁ ▸ hholes₁.fill hsorted₁ hlast q
      refine ⟨s.setRemoved ⟨s.ensureRemovedSorted.removed.dropLast, true⟩, slots,
        hlay₁.frame _ _ _ _, hhole, rfl, hmov, hfill,
        fun j hj => getLast_lt (hholes₁.sorted hsorted₁) hlast hj, rfl, rfl, ?_⟩
      rw [enterRow, if_neg]
      show ¬ i = s.reqIds.length
      rw [hlay.reqIds, length_map]
      omega
  · cases h

/-- An added request fills a hole or the next row. -/
theorem addRequest_spec (hlay : Layout s slots) (hholes : Holes s slots) {n : Nat}
    (hmov : Movable s slots (n + 1))
    (hsuits : s.config.Suits q) (hnew : s.reqIdToIndex.get? q.reqId = none)
    (h : s.addRequest q = .ok s') :
    ∃ slots', Layout s' slots' ∧ Holes s' slots' ∧ Movable s' slots' n ∧
      slots'.reduceOption.Perm (q :: slots.reduceOption) ∧ s'.config = s.config := by
  obtain ⟨⟨idx, s₁⟩, hreg, h⟩ := of_bind h
  obtain ⟨n, hn, h⟩ := of_bind h
  obtain ⟨⟨row, marks⟩, hfill, h⟩ := of_bind h
  cases h
  obtain rfl := BatchConfig.lengthFromPrompt_eq hn
  obtain ⟨s₂, slots₂, hlay₂, hhole, hlive, hmov₂, hholes₂, hlow, hconfig, hindex, henter⟩ :=
    enterRow_spec hlay hholes hmov hreg
  rw [henter] at hfill ⊢
  have hnew₂ : s₂.reqIdToIndex.get? q.reqId = none := by rw [hindex, hnew]
  rw [hlay₂.unmarked _ hnew₂] at hfill
  obtain ⟨hrow, rfl⟩ := BatchConfig.rowOf_fill
    (hlay₂.clean idx fun p hp => by rw [hhole] at hp; cases hp) (hconfig ▸ hsuits) hfill
  have hlay₃ := hlay₂.place hhole hnew₂ hrow (hconfig ▸ hsuits)
  obtain ⟨ids, loras, hlora⟩ := registerLora_frame
  rw [hlora]
  refine ⟨_, hlay₃.frame _ _ _ _, hholes₂, Movable.place hmov₂ hhole hholes₂ hlow rfl, ?_, hconfig⟩
  rw [← hlive]
  exact reduceOption_set_some hhole q

end InputBatch

end VllmEcho
