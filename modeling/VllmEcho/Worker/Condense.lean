import VllmEcho.Worker.BatchSteps

/-!
# Condensing the batch

The loop of `condense` keeps the requests behind `last_req_index` cleared away and the holes up to
it registered.  It ends with the requests in the first rows.
-/

namespace VllmEcho

open Lib List

namespace InputBatch

variable {s s' : InputBatch} {slots : Slots}

/-! ## The loop -/

variable {last : Nat} {removed : List Nat} {G : Type}

theorem skipRemoved_spec {p : Nat} (hp : p ≤ last) (hpn : p ∉ removed) :
    skipRemoved removed last ≤ last ∧ skipRemoved removed last ∉ removed ∧
      p ≤ skipRemoved removed last ∧ ∀ i, skipRemoved removed last < i → i ≤ last →
      i ∈ removed := by
  induction last with
  | zero =>
    obtain rfl : p = 0 := by omega
    exact ⟨Nat.le_refl 0, hpn, Nat.le_refl 0, fun i h1 h2 => by omega⟩
  | succ last ih =>
    rw [skipRemoved]
    split
    · rename_i hmem
      have hle : p ≤ last := by
        by_contra hgt
        obtain rfl : p = last + 1 := by omega
        exact hpn hmem
      obtain ⟨h1, h2, h3, h4⟩ := ih hle
      refine ⟨by omega, h2, h3, fun i hi hil => ?_⟩
      by_cases hlast : i = last + 1
      · rw [hlast]
        exact hmem
      · exact h4 i hi (by omega)
    · rename_i hmem
      exact ⟨Nat.le_refl _, hmem, hp, fun i h1 h2 => by omega⟩

/-- Where a round of the loop finds the last request. -/
theorem skipRemoved_live {slots : List (Option G)} (h : Sinking removed slots last) {p : G}
    (hp : some p ∈ slots) :
    ∃ g, slots[skipRemoved removed last]? = some (some g) ∧ skipRemoved removed last ≤ last ∧
      skipRemoved removed last ∉ removed ∧
      ∀ i, skipRemoved removed last < i → i ≤ last → i ∈ removed := by
  obtain ⟨k, hk⟩ := mem_iff_getElem?.mp hp
  have hklast : k ≤ last := by
    by_contra hgt
    exact h.behind k p (by omega) hk
  have hknot : k ∉ removed := by
    intro hmem
    rw [h.hole k hmem] at hk
    cases hk
  obtain ⟨hle, hnot, _, hskip⟩ := skipRemoved_spec hklast hknot
  obtain ⟨g, hg⟩ := h.exists_live hle hnot
  exact ⟨g, hg, hle, hnot, hskip⟩

theorem packed_of_nil {slots : List (Option G)} (h : Sinking removed slots last)
    (hnil : removed = []) : Packed slots (last + 1) := by
  refine h.packed (Nat.le_refl _) ?_ fun i h1 h2 => by omega
  rw [hnil]
  exact nofun

theorem packed_of_break {slots : List (Option G)} {l e : Nat} (h : Sinking removed slots last)
    (hle : l ≤ last) (hnot : l ∉ removed) (hskip : ∀ i, l < i → i ≤ last → i ∈ removed)
    (he : removed.getLast? = some e) (hbreak : l ≤ e) : Packed slots (l + 1) := by
  refine h.packed (by omega) (fun i hi => ?_) fun i h1 h2 => hskip i (by omega) h2
  have hne : l ≠ e := fun heq => hnot (heq ▸ mem_of_getLast? he)
  by_cases hie : i = e
  · omega
  · have hlt := getLast_lt h.sorted he ((mem_dropLast_iff h.sorted he).mpr ⟨hi, hie⟩)
    omega

structure Condensing (s : InputBatch) (slots : Slots) (last : Nat) : Prop
    extends Sinking s.removed slots last where
  layout : Layout s slots
  movable : Movable s slots 0

theorem Condensing.move {l e : Nat} {q : CachedRequestState} (h : Condensing s slots last)
    (hl : l ≤ last) (hskip : ∀ i, l < i → i ≤ last → i ∈ s.removed) (hq : slots[l]? = some (some q))
    (he : s.removed.getLast? = some e) (hel : e < l)
    (hs' : { s with removed := s.removed.dropLast }.moveRow l e = .ok s') :
    ∃ slots', Condensing s' slots' (l - 1) ∧ slots'.reduceOption.Perm slots.reduceOption ∧
      s'.removed = s.removed.dropLast ∧ s'.config = s.config := by
  have hemem : e ∈ s.removed := List.mem_of_getLast? he
  have hhole := h.hole e hemem
  obtain ⟨hflag, hallowed⟩ := h.movable e l q hhole hq hel (Nat.zero_le _)
  have hreq : s.reqIds.getD l none = some q.reqId := by
    rw [h.layout.reqIds, getD_eq_getElem?_getD, getElem?_map, hq]
    rfl
  have hout : s.reqOutputTokenIds.getD l none = some q.outputTokenIds := by
    rw [h.layout.outputs, getD_eq_getElem?_getD, getElem?_map, hq]
    rfl
  have hcount : s.activeTokenCount l = q.numTokens := by
    rw [activeTokenCount, h.layout.specTokenIds_getD, (h.layout.live l q hq).1.numTokensNoSpec]
    rfl
  have hget := getElem?_move hq (lt_of_getElem? hhole)
  have hmoved := h.layout.move hhole hq hflag hallowed
  rw [moveRow] at hs'
  rw [hreq] at hs'
  cases hs'
  refine ⟨(slots.set e (some q)).set l none, ?_, reduceOption_move hq hhole, rfl, rfl⟩
  constructor
  case toSinking => exact h.toSinking.move hl hskip hq he hel
  case layout =>
    have hspec := h.layout.specTokenIds_getD l
    have hcount' : ({ s with removed := s.removed.dropLast } : InputBatch).activeTokenCount l =
        q.numTokens := hcount
    rw [hout, hspec, hcount']
    exact hmoved.frame _ _ _ _
  case movable =>
    intro i j p hi hj hij _
    rw [hget] at hi hj
    dsimp only
    by_cases hil : i = l
    · rw [if_neg (by omega), if_neg (by omega)] at hj
      by_cases hjlast : j ≤ last
      · have := h.hole j (hskip j (by omega) hjlast)
        rw [hj] at this
        cases this
      · exact absurd hj (h.behind j p (by omega))
    rw [if_neg hil] at hi
    by_cases hie : i = e
    · rw [if_pos hie] at hi
      cases hi
    rw [if_neg hie] at hi
    rw [Function.update_of_ne hil, Function.update_of_ne hie]
    by_cases hjl : j = l
    · rw [if_pos hjl] at hj
      cases hj
    rw [if_neg hjl] at hj
    by_cases hje : j = e
    · -- the filled hole was the lowest
      have himem := h.listed i (by omega) hi
      have := getLast_lt h.sorted he ((mem_dropLast_iff h.sorted he).mpr ⟨himem, hie⟩)
      omega
    · rw [if_neg hje] at hj
      exact h.movable i j p hi hj hij (Nat.zero_le _)

/-- The loop closes all holes and loses no row. -/
theorem condenseLoop_spec {fuel : Nat} (h : Condensing s slots last)
    (hfuel : s.removed.length ≤ fuel) (hlive : slots.reduceOption ≠ [])
    (hs' : condenseLoop fuel s last = .ok s') : ∃ slots' m, Layout s' slots' ∧ Packed slots' m ∧
      slots'.reduceOption.Perm slots.reduceOption ∧ s'.config = s.config := by
  induction fuel generalizing s slots last with
  | zero =>
    cases hs'
    exact ⟨slots, last + 1, h.layout, packed_of_nil h.toSinking (length_eq_zero_iff.mp (by omega)),
      List.Perm.refl _, rfl⟩
  | succ fuel ih =>
    rw [condenseLoop] at hs'
    cases hlast : s.removed.getLast? with
    | none =>
      rw [hlast] at hs'
      cases hs'
      exact ⟨slots, last + 1, h.layout, packed_of_nil h.toSinking (getLast?_eq_none_iff.mp hlast),
        List.Perm.refl _, rfl⟩
    | some e =>
      rw [hlast] at hs'
      dsimp only at hs'
      obtain ⟨p, hp⟩ := exists_mem_of_ne_nil _ hlive
      obtain ⟨q, hq, hle, hnot, hskip⟩ :=
        skipRemoved_live h.toSinking (reduceOption_mem_iff.mp hp)
      set l := skipRemoved s.removed last
      split at hs'
      · -- the lowest hole lies behind the last request
        rename_i hbreak
        cases hs'
        exact ⟨slots, l + 1, h.layout, packed_of_break h.toSinking hle hnot hskip hlast hbreak,
          List.Perm.refl _, rfl⟩
      rename_i hgt
      obtain ⟨s₁, hs₁, hs'⟩ := of_bind hs'
      obtain ⟨slots₁, hcond₁, hperm₁, hrem₁, hconf₁⟩ := h.move hle hskip hq hlast (by omega) hs₁
      have hfuel₁ : s₁.removed.length ≤ fuel := by
        rw [hrem₁, length_dropLast]
        omega
      obtain ⟨slots', m, hlay', hpacked, hperm', hconf'⟩ := ih hcond₁ hfuel₁
        (fun hnil => hlive (by rw [hnil] at hperm₁; exact hperm₁.nil_eq.symm)) hs'
      exact ⟨slots', m, hlay', hpacked, hperm'.trans hperm₁, hconf'.trans hconf₁⟩

/-! ## The whole of `condense` -/

theorem Layout.trim {m : Nat} (h : Layout s slots) (hpacked : Packed slots m) : Layout { s with
      reqIds := s.reqIds.take m
      reqOutputTokenIds := s.reqOutputTokenIds.take m
      specTokenIds := s.specTokenIds.take m } (slots.take m) := by
  have hlive : ∀ (i : Nat) (q : CachedRequestState),
      (slots.take m)[i]? = some (some q) ↔ slots[i]? = some (some q) := by
    intro i q
    by_cases hi : i < m
    · rw [getElem?_take_of_lt hi]
    · rw [getElem?_take_eq_none (by omega)]
      exact ⟨nofun, fun hq => absurd hq (hpacked.back i q (by omega))⟩
  refine ⟨?_, h.inverts.take fun i r hi hr => ?_, h.unmarked⟩
  rotate_left
  · obtain ⟨q, hq, -⟩ := (h.index r i).mp ((h.inverts r i).mpr hr)
    exact hpacked.back i q hi hq
  constructor
  case reqIds => rw [map_take, ← h.reqIds]
  case outputs => rw [map_take, ← h.outputs]
  case specLength =>
    have := h.specLength
    rw [length_take, length_take]
    omega
  case specNil => exact fun l hl => h.specNil l (mem_of_mem_take hl)
  case live => simpa only [hlive] using h.live
  case clean => exact fun i hi => h.clean i fun q hq => hi q ((hlive i q).mpr hq)

theorem Layout.clear (h : Layout s slots) (hnone : slots.reduceOption = []) :
    Layout { s with reqIds := [], reqOutputTokenIds := [], specTokenIds := [] } [] :=
  Layout.trim h (Packed.zero hnone)

/-- After `condense` the rows are packed. -/
theorem condense_spec (hlay : Layout s slots) (hholes : Holes s slots) (hmov : Movable s slots 0)
    (h : s.condense = .ok s') :
    ∃ rows : List CachedRequestState, Layout s' (rows.map some) ∧ rows.Perm slots.reduceOption ∧
      s'.config = s.config := by
  obtain ⟨hlay₁, hholes₁⟩ := ensureRemovedSorted_spec hlay hholes
  have hsorted₁ := RemovedRows.ensureRemovedSorted_sorted s.toRemovedRows
  rw [condense] at h
  split at h
  · rename_i hempty
    cases h
    refine ⟨slots.reduceOption, ?_, List.Perm.refl _, rfl⟩
    rw [hholes₁.map_some (isEmpty_iff.mp hempty)]
    exact hlay₁
  rename_i hsome
  split at h
  · rename_i hzero
    cases h
    have hnil : slots.reduceOption = [] := by
      rw [hlay₁.numReqs_eq] at hzero
      exact length_eq_zero_iff.mp hzero
    exact ⟨[], Layout.clear hlay₁ hnil, by rw [hnil], rfl⟩
  rename_i hpos
  obtain ⟨s₂, hs₂, h⟩ := of_bind h
  cases h
  have hnum := hlay₁.numReqs_eq
  have hlen := hholes₁.length_eq
  have hcond : Condensing (s.setRemoved s.ensureRemovedSorted) slots
      ((s.setRemoved s.ensureRemovedSorted).numReqs +
        (s.setRemoved s.ensureRemovedSorted).removed.length - 1) := by
    rw [hnum, ← hlen]
    exact ⟨hholes₁.sinking hsorted₁ (by omega), hlay₁, hmov⟩
  obtain ⟨slots', m, hlay', hpacked, hperm', hconf'⟩ := condenseLoop_spec hcond (Nat.le_refl _)
    (fun hnil => hpos (by rw [hnum, hnil]; rfl)) hs₂
  obtain ⟨htake, hmlen⟩ := hpacked.take_eq
  have hmnum : m = (s.setRemoved s.ensureRemovedSorted).numReqs := by
    rw [← hmlen, hnum, hperm'.length_eq]
  refine ⟨slots'.reduceOption, ?_, hperm', hconf'⟩
  rw [← htake, ← hmnum]
  exact Layout.trim hlay' hpacked

end InputBatch

end VllmEcho
