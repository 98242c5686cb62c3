import VllmEcho.Worker.BatchUpdate
import VllmEcho.Worker.Condense

/-!
# The reported update describes the step

Replaying the update of a step on the rows before the step gives the rows after it: added requests
first, then the rows that stay empty, then the moves.  A row that was emptied and is refilled by a
move of `condense` is not among the removed ones; the replay overwrites it.
-/

namespace VllmEcho

open Lib Function List BatchUpdateBuilder RemovedRows

variable {i : Nat} {r : ReqId} {ms : List Move}

variable {additions : List NewRequest} {swaps : List (Nat × Nat)} {removals : List ReqId}
  {q : NewRequest}

namespace RowBatch

variable {G : Type} {idOf : G → ReqId} {enter : NewRequest → G}

def rowsOf (slots : List (Option G)) (i : Nat) : Option G := (slots[i]?).join

def entered (enter : NewRequest → G) (added : List (Nat × NewRequest)) : List (Nat × Option G) :=
  added.map fun a => (a.1, some (enter a.2))

variable {slots : List (Option G)} {b : RowBatch}

theorem rowsOf_eq_some {g : G} : rowsOf slots i = some g ↔ slots[i]? = some (some g) := by
  unfold rowsOf
  cases slots[i]? with
  | none => simp
  | some o => simp

theorem rowsOf_set (hi : i < slots.length) (o : Option G) :
    rowsOf (slots.set i o) = update (rowsOf slots) i o := by
  funext j
  unfold rowsOf
  rw [update_apply]
  by_cases hij : j = i
  · rw [if_pos hij, hij, getElem?_set_self hi, Option.join_some]
  · rw [if_neg hij, getElem?_set_ne (Ne.symm hij)]

theorem rowsOf_concat_none : rowsOf (slots ++ [none]) = rowsOf slots := by
  funext i
  unfold rowsOf
  by_cases hi : i < slots.length
  · rw [getElem?_append_left hi]
  · rw [getElem?_append_right (by omega), getElem?_eq_none (by omega : slots.length ≤ i)]
    cases i - slots.length <;> simp

structure Holds (idOf : G → ReqId) (b : RowBatch) (slots : List (Option G)) : Prop where
  reqIds : b.reqIds = slots.map (Option.map idOf)
  index : Inverts b.reqIdToIndex b.reqIds

theorem Holds.getElem? (h : Holds idOf b slots) {g : G} (hg : slots[i]? = some (some g)) :
    b.reqIds[i]? = some (some (idOf g)) := by
  rw [h.reqIds, getElem?_map, hg]
  rfl

theorem Holds.hole (h : Holds idOf b slots) (hg : slots[i]? = some none) :
    b.reqIds[i]? = some none := by
  rw [h.reqIds, getElem?_map, hg]
  rfl

theorem Holds.exists_of_id (h : Holds idOf b slots) (hr : b.reqIds[i]? = some (some r)) :
    ∃ g, slots[i]? = some (some g) ∧ idOf g = r := by
  rw [h.reqIds] at hr
  exact getElem?_map_eq_some.mp hr

theorem Holds.ids_nodup (h : Holds idOf b slots) : (slots.reduceOption.map idOf).Nodup := by
  have hnodup := h.index.nodup
  rwa [h.reqIds, reduceOption_map] at hnodup

theorem Holds.numReqs_eq (h : Holds idOf b slots) : b.numReqs = slots.reduceOption.length := by
  have hlen := h.index.length_eq
  rw [h.reqIds, reduceOption_map, length_map] at hlen
  exact hlen

theorem Holds.nodup (h : Holds idOf b slots) : slots.reduceOption.Nodup := h.ids_nodup.of_map _

theorem Holds.take (h : Holds idOf b slots) {m : Nat} (hpacked : Packed slots m) :
    Holds idOf { b with reqIds := b.reqIds.take m } (slots.take m) := by
  constructor
  · rw [h.reqIds, map_take]
  · apply h.index.take
    intro i r hi hr
    obtain ⟨g, hg, _⟩ := h.exists_of_id hr
    exact hpacked.back i g hi hg

structure Editing (idOf : G → ReqId) (enter : NewRequest → G) (base : Nat → Option G)
    (b : RowBatch) (slots : List (Option G)) : Prop
    extends Gaps b.builder.removed b.builder.isRemovedSorted slots where
  holds : Holds idOf b slots
  moved : b.builder.moved = []
  filled : ∀ i : Nat, i ∉ b.builder.removed →
    rowsOf slots i = fillRows base (entered enter b.builder.added) i

section Edit

variable {base : Nat → Option G} {b b' : RowBatch} {slots : List (Option G)}

section

variable (h : Editing idOf enter base b slots)
include h

theorem Editing.remove (hsorted : b.builder.isRemovedSorted = false)
    (hb' : b.removeRequest r = .ok b') :
    ∃ slots', Editing idOf enter base b' slots' ∧ b'.builder.isRemovedSorted = false ∧
      b'.builder.added = b.builder.added ∧ ∀ g, some g ∈ slots' ↔ some g ∈ slots ∧ idOf g ≠ r := by
  unfold removeRequest at hb'
  cases hget : b.reqIdToIndex.get? r with
  | none =>
    rw [hget] at hb'
    cases hb'
    refine ⟨slots, h, hsorted, rfl, fun g => ⟨fun hg => ⟨hg, ?_⟩, fun hg => hg.1⟩⟩
    intro hr
    obtain ⟨i, hi⟩ := mem_iff_getElem?.mp hg
    have hfound := (h.holds.index (idOf g) i).mpr (h.holds.getElem? hi)
    rw [hr, hget] at hfound
    cases hfound
  | some i =>
    rw [hget] at hb'
    have hid := (h.holds.index r i).mp hget
    obtain ⟨g, hg, hgr⟩ := h.holds.exists_of_id hid
    have hlt := lt_of_getElem? hg
    dsimp only at hb'
    rw [removedAppend_eq hsorted] at hb'
    cases hb'
    refine ⟨slots.set i none, ?_, hsorted, rfl, ?_⟩
    · constructor
      case holds =>
        refine ⟨?_, h.holds.index.vacate hid⟩
        rw [h.holds.reqIds, map_set]
        rfl
      case toGaps => exact h.toGaps.vacate hsorted hg
      case moved => exact h.moved
      case filled =>
        intro j hj
        replace hj : j ∉ b.builder.removed ++ [i] := hj
        rw [mem_append, mem_singleton, not_or] at hj
        rw [rowsOf_set hlt, update_of_ne hj.2]
        exact h.filled j hj.1
    -- the request sat in this row only
    have hperm := reduceOption_set_none hg
    have hids := h.holds.ids_nodup
    rw [(hperm.map idOf).nodup_iff, map_cons, nodup_cons] at hids
    intro p
    rw [← reduceOption_mem_iff, ← reduceOption_mem_iff, hperm.mem_iff, mem_cons]
    constructor
    · intro hp
      exact ⟨Or.inr hp, fun hpr => hids.1 (mem_map.mpr ⟨p, hp, hpr.trans hgr.symm⟩)⟩
    · rintro ⟨rfl | hp, hpr⟩
      · exact absurd hgr hpr
      · exact hp

theorem Editing.sort :
    Editing idOf enter base
      { b with builder := b.builder.setRemoved b.builder.ensureRemovedSorted } slots := by
  have hgaps := ensureRemovedSorted_gaps h.toGaps
  constructor
  case holds => exact ⟨h.holds.reqIds, h.holds.index⟩
  case toGaps => exact ⟨hgaps.nodup, hgaps.mem, fun _ => hgaps.sorted rfl⟩
  case moved => exact h.moved
  case filled =>
    intro i hi
    exact h.filled i fun hmem => hi ((hgaps.perm h.toGaps).mem_iff.mpr hmem)

theorem Editing.numReqs_eq (hempty : b.builder.removed = []) : b.numReqs = slots.length := by
  rw [h.holds.numReqs_eq, ← length_map some, h.toGaps.map_some hempty]

theorem Editing.register {idx : Nat} {u : BatchUpdateBuilder}
    (hreg : b.registerAddRequest q = .ok (idx, u)) :
    ∃ slots₂, rowsOf slots₂ = rowsOf slots ∧ slots₂[idx]? = some none ∧
      (∀ g, some g ∈ slots₂ ↔ some g ∈ slots) ∧
      (if idx = b.reqIds.length then b.reqIds ++ [some q.reqId]
        else b.reqIds.set idx (some q.reqId)) =
          (slots₂.map (Option.map idOf)).set idx (some q.reqId) ∧
      Inverts b.reqIdToIndex (slots₂.map (Option.map idOf)) ∧
      (∀ g, Gaps u.removed u.isRemovedSorted (slots₂.set idx (some g))) ∧ u.moved = [] ∧
      u.added = b.builder.added ++ [(idx, q)] ∧
      ∀ i ∉ u.removed, i ≠ idx → i ∉ b.builder.removed := by
  have hids : b.reqIds.length = slots.length := by rw [h.holds.reqIds, length_map]
  have hindex : Inverts b.reqIdToIndex (slots.map (Option.map idOf)) :=
    h.holds.reqIds ▸ h.holds.index
  unfold registerAddRequest at hreg
  by_cases hempty : b.builder.removed = []
  · -- no hole: a new row
    rw [popRemoved_nil hempty] at hreg
    dsimp only [Option.getD_none] at hreg
    rw [h.numReqs_eq hempty] at hreg
    split at hreg
    · cases hreg
      refine ⟨slots ++ [none], rowsOf_concat_none, by simp, fun g => by simp, ?_, ?_,
        h.toGaps.extend hempty, h.moved, rfl, fun i hi _ => hi⟩
      · rw [h.holds.reqIds]
        simp
      · rw [map_append]
        exact hindex.extend
    · cases hreg
  -- the lowest hole is the last of the sorted list
  rw [popRemoved_of_ne_nil hempty] at hreg
  have hgaps := ensureRemovedSorted_gaps h.toGaps
  have hperm := hgaps.perm h.toGaps
  obtain ⟨e, he⟩ : ∃ e, b.builder.ensureRemovedSorted.removed.getLast? = some e := by
    cases hlast : b.builder.ensureRemovedSorted.removed.getLast? with
    | none =>
      rw [getLast?_eq_none_iff] at hlast
      rw [hlast] at hperm
      exact absurd hperm.nil_eq.symm hempty
    | some e => exact ⟨e, rfl⟩
  have hehole : slots[e]? = some none := (hgaps.mem e).mp (mem_of_getLast? he)
  have hlt := lt_of_getElem? hehole
  rw [he] at hreg
  dsimp only [Option.getD_some] at hreg
  split at hreg
  · cases hreg
    refine ⟨slots, rfl, hehole, fun g => Iff.rfl, ?_, hindex, hgaps.fill rfl he, h.moved, rfl, ?_⟩
    · rw [if_neg (by omega), h.holds.reqIds]
    · intro i hi hne hmem
      exact hi ((mem_dropLast_iff (hgaps.sorted rfl) he).mpr ⟨hperm.mem_iff.mpr hmem, hne⟩)
  · cases hreg

end

theorem Editing.add (henter : ∀ q, idOf (enter q) = q.reqId) (h : Editing idOf enter base b slots)
    (hfresh : ∀ g, some g ∈ slots → idOf g ≠ q.reqId) (hb' : b.addRequest q = .ok b') :
    ∃ slots' idx, Editing idOf enter base b' slots' ∧
      b'.builder.added = b.builder.added ++ [(idx, q)] ∧ rowsOf slots idx = none ∧
      rowsOf slots' = update (rowsOf slots) idx (some (enter q)) ∧
      ∀ g, some g ∈ slots' ↔ some g ∈ slots ∨ g = enter q := by
  obtain ⟨⟨idx, u⟩, hreg, hb'⟩ := of_bind hb'
  cases hb'
  obtain ⟨slots₂, hrows, hhole, hmem, hids, hindex, hgaps, hmoved, hadded, hkeep⟩ := h.register hreg
  have hlt := lt_of_getElem? hhole
  have hnew : b.reqIdToIndex.get? q.reqId = none := by
    cases hget : b.reqIdToIndex.get? q.reqId with
    | none => rfl
    | some i =>
      obtain ⟨g, hg, hgr⟩ := h.holds.exists_of_id ((h.holds.index q.reqId i).mp hget)
      exact absurd hgr (hfresh g (mem_of_getElem? hg))
  have hrows' : rowsOf (slots₂.set idx (some (enter q))) =
      update (rowsOf slots) idx (some (enter q)) := by
    rw [rowsOf_set hlt, hrows]
  have hbefore : rowsOf slots idx = none := by
    rw [← hrows, rowsOf, hhole, Option.join_some]
  refine ⟨slots₂.set idx (some (enter q)), idx, ?_, hadded, hbefore, hrows', ?_⟩
  · constructor
    case holds =>
      constructor
      · rw [hids]
        simp [henter]
      · rw [hids]
        apply hindex.place _ hnew
        rw [getElem?_map, hhole]
        rfl
    case toGaps => exact hgaps (enter q)
    case moved => exact hmoved
    case filled =>
      intro i hi
      unfold entered
      rw [hadded, map_append, map_cons, map_nil, fillRows_concat, hrows',
        update_apply, update_apply]
      by_cases hidx : i = idx
      · rw [if_pos hidx, if_pos hidx]
      · rw [if_neg hidx, if_neg hidx]
        exact h.filled i (hkeep i hi hidx)
  · intro g
    rw [← hmem g, ← reduceOption_mem_iff, (reduceOption_set_some hhole _).mem_iff,
      mem_cons, reduceOption_mem_iff, or_comm]

end Edit

/-! ## Condensing -/

structure Moving (idOf : G → ReqId) (start : Nat → Option G) (b : RowBatch)
    (slots : List (Option G)) (last : Nat) : Prop extends Sinking b.builder.removed slots last where
  holds : Holds idOf b slots
  replayed : rowsOf slots = moveRows none (clearRows none start b.builder.removed) b.builder.moved
  oneWay : ∀ m ∈ b.builder.moved, m.direction = .unidirectional ∧ m.dst < m.src
  sources : ∀ m ∈ b.builder.moved, last < m.src ∧ m.src ∉ b.builder.removed
  targets : ∀ m ∈ b.builder.moved, ∀ i ∈ b.builder.removed, m.dst < i
  apart : b.builder.moved.Pairwise Move.Apart

section Condense

variable {start : Nat → Option G} {b b' : RowBatch} {slots : List (Option G)} {last : Nat}

theorem mem_move {l e : Nat} {g p : G} (hl : slots[l]? = some (some g))
    (he : slots[e]? = some none) : some p ∈ (slots.set e (some g)).set l none ↔ some p ∈ slots := by
  rw [← reduceOption_mem_iff, (reduceOption_move hl he).mem_iff, reduceOption_mem_iff]

theorem Moving.move {l e : Nat} {g : G} (h : Moving idOf start b slots last) (hl : l ≤ last)
    (hskip : ∀ i, l < i → i ≤ last → i ∈ b.builder.removed) (hg : slots[l]? = some (some g))
    (he : b.builder.removed.getLast? = some e) (hel : e < l) (hb' : { b with
      builder := { b.builder with removed := b.builder.removed.dropLast } }.moveLast l e = .ok b') :
    Moving idOf start b' ((slots.set e (some g)).set l none) (l - 1) ∧
      b'.builder.removed = b.builder.removed.dropLast ∧
      b'.builder.added = b.builder.added := by
  have hemem := List.mem_of_getLast? he
  have hhole := h.hole e hemem
  have hllt := lt_of_getElem? hg
  have helt := lt_of_getElem? hhole
  have hid := h.holds.getElem? hg
  have hlnot : l ∉ b.builder.removed := by
    intro hmem
    rw [h.hole l hmem] at hg
    cases hg
  have hlow : ∀ i ∈ b.builder.removed.dropLast, e < i :=
    fun i hi => getLast_lt h.sorted he hi
  unfold moveLast at hb'
  rw [getD_eq_getElem?_getD, hid] at hb'
  cases hb'
  refine ⟨?_, rfl, rfl⟩
  constructor
  case holds =>
    refine ⟨?_, h.holds.index.move hid (h.holds.hole hhole)⟩
    rw [h.holds.reqIds, map_set, map_set]
    rfl
  case toSinking => exact h.toSinking.move hl hskip hg he hel
  case replayed =>
    -- the table that does not clear row `e` differs in that row only, and the move overwrites it
    have hagree : ∀ i, ¬ i = e →
        moveRows none (clearRows none start b.builder.removed) b.builder.moved i =
          moveRows none (clearRows none start b.builder.removed.dropLast) b.builder.moved i := by
      apply moveRows_congr
      · intro i hi
        rw [clearRows_apply, clearRows_apply]
        by_cases hmem : i ∈ b.builder.removed
        · rw [if_pos hmem, if_pos ((mem_dropLast_iff h.sorted he).mpr ⟨hmem, hi⟩)]
        · rw [if_neg hmem, if_neg fun hd => hmem (dropLast_subset _ hd)]
      · intro m hm
        refine ⟨fun heq => (h.sources m hm).2 (heq ▸ hemem), fun heq => ?_⟩
        have hlt := h.targets m hm e hemem
        omega
    rw [← h.replayed] at hagree
    rw [rowsOf_set (by simpa using hllt), rowsOf_set helt, moveRows_append]
    show _ = moveRow none (moveRows none (clearRows none start b.builder.removed.dropLast)
      b.builder.moved) ⟨l, e, .unidirectional⟩
    unfold moveRow
    dsimp only
    rw [← hagree l (by omega), rowsOf_eq_some.mpr hg]
    funext i
    rw [update_apply, update_apply, update_apply, update_apply]
    by_cases hie : i = e
    · rw [if_neg (by omega), if_pos hie, if_pos hie]
    · rw [if_neg hie, if_neg hie, hagree i hie]
  case oneWay =>
    intro m hm
    cases mem_append.mp hm with
    | inl hold => exact h.oneWay m hold
    | inr hnew =>
      rw [mem_singleton.mp hnew]
      exact ⟨rfl, hel⟩
  case sources =>
    intro m hm
    cases mem_append.mp hm with
    | inl hold =>
      have hsrc := h.sources m hold
      exact ⟨by omega, fun hmem => hsrc.2 (dropLast_subset _ hmem)⟩
    | inr hnew =>
      rw [mem_singleton.mp hnew]
      exact ⟨by dsimp only; omega, fun hmem => hlnot (dropLast_subset _ hmem)⟩
  case targets =>
    intro m hm i hi
    cases mem_append.mp hm with
    | inl hold => exact h.targets m hold i (dropLast_subset _ hi)
    | inr hnew =>
      rw [mem_singleton.mp hnew]
      exact hlow i hi
  case apart =>
    rw [pairwise_append]
    refine ⟨h.apart, pairwise_singleton _ _, ?_⟩
    intro m hm n hn
    rw [mem_singleton.mp hn]
    have hsrc := h.sources m hm
    have hdst := h.targets m hm e hemem
    unfold Move.Apart
    dsimp only
    omega

/-- The moves that the loop reports are the moves it makes. -/
theorem condenseLoop_replay {fuel : Nat} (h : Moving idOf start b slots last)
    (hfuel : b.builder.removed.length ≤ fuel) (hlive : ∃ g, some g ∈ slots)
    (hb' : condenseLoop fuel b last = .ok b') :
    ∃ slots' last' m, Moving idOf start b' slots' last' ∧ Packed slots' m ∧
      (∀ g, some g ∈ slots' ↔ some g ∈ slots) ∧ b'.builder.added = b.builder.added := by
  induction fuel generalizing b slots last with
  | zero =>
    cases hb'
    exact ⟨slots, last, last + 1, h,
      InputBatch.packed_of_nil h.toSinking (length_eq_zero_iff.mp (by omega)),
      fun g => Iff.rfl, rfl⟩
  | succ fuel ih =>
    rw [condenseLoop] at hb'
    cases hlast : b.builder.removed.getLast? with
    | none =>
      rw [hlast] at hb'
      cases hb'
      exact ⟨slots, last, last + 1, h,
        InputBatch.packed_of_nil h.toSinking (getLast?_eq_none_iff.mp hlast), fun g => Iff.rfl, rfl⟩
    | some e =>
      rw [hlast] at hb'
      dsimp only at hb'
      obtain ⟨p, hp⟩ := hlive
      obtain ⟨g, hg, hle, hnot, hskip⟩ := InputBatch.skipRemoved_live h.toSinking hp
      set l := InputBatch.skipRemoved b.builder.removed last
      split at hb'
      · -- the lowest hole lies behind the last request
        rename_i hbreak
        cases hb'
        exact ⟨slots, last, l + 1, h,
          InputBatch.packed_of_break h.toSinking hle hnot hskip hlast hbreak, fun g => Iff.rfl, rfl⟩
      rename_i hgt
      obtain ⟨b₁, hb₁, hb'⟩ := of_bind hb'
      obtain ⟨hmoving, hrem, hadded⟩ := h.move hle hskip hg hlast (by omega) hb₁
      have hmem := fun p => mem_move (p := p) hg (h.hole e (mem_of_getLast? hlast))
      obtain ⟨slots', last', m, hmoving', hpacked, hmem', hadded'⟩ := ih hmoving
        (by rw [hrem, length_dropLast]; omega) ⟨p, (hmem p).mpr hp⟩ hb'
      exact ⟨slots', last', m, hmoving', hpacked, fun g => (hmem' g).trans (hmem g),
        hadded'.trans hadded⟩

theorem Editing.moving {base : Nat → Option G} (h : Editing idOf enter base b slots)
    (hsorted : b.builder.isRemovedSorted = true) (hpos : 0 < slots.length) :
    Moving idOf (fillRows base (entered enter b.builder.added)) b slots (slots.length - 1) := by
  constructor
  case toSinking => exact h.toGaps.sinking hsorted hpos
  case holds => exact h.holds
  case replayed =>
    rw [h.moved]
    show _ = clearRows none _ _
    funext i
    rw [clearRows_apply]
    by_cases hi : i ∈ b.builder.removed
    · rw [if_pos hi, rowsOf, (h.mem i).mp hi, Option.join_some]
    · rw [if_neg hi, h.filled i hi]
  case oneWay =>
    rw [h.moved]
    exact nofun
  case sources =>
    rw [h.moved]
    exact nofun
  case targets =>
    rw [h.moved]
    exact nofun
  case apart =>
    rw [h.moved]
    exact List.Pairwise.nil

end Condense

/-- All rows are live, and the update reported so far leads from the rows with the added requests to
these rows.  The moves of `condense` come first, then swaps. -/
structure Reported (idOf : G → ReqId) (start : Nat → Option G) (b : RowBatch) (live : List G)
    (ms : List Move) : Prop where
  holds : Holds idOf b (live.map some)
  replayed : rowsOf (live.map some) =
    moveRows none (clearRows none start b.builder.removed) b.builder.moved
  swaps : ∃ ns, b.builder.moved = ms ++ ns ∧ ∀ m ∈ ns, m.direction = .swap
  oneWay : ∀ m ∈ ms, m.direction = .unidirectional ∧ m.dst < m.src
  apart : ms.Pairwise Move.Apart

section Report

variable {start base : Nat → Option G} {b b' : RowBatch} {slots : List (Option G)}

theorem rowsOf_take {m : Nat} (hpacked : Packed slots m) :
    rowsOf (slots.take m) = rowsOf slots := by
  funext i
  unfold rowsOf
  rw [getElem?_take]
  by_cases hi : i < m
  · rw [if_pos hi]
  rw [if_neg hi]
  cases hget : slots[i]? with
  | none => rfl
  | some o =>
    cases o with
    | none => rfl
    | some g => exact absurd hget (hpacked.back i g (by omega))

theorem condenseSorted_replay (h : Editing idOf enter base b slots)
    (hsorted : b.builder.isRemovedSorted = true) (hb' : b.condenseSorted = .ok b') :
    ∃ live ms, Reported idOf (fillRows base (entered enter b.builder.added)) b' live ms ∧
      (∀ g, g ∈ live ↔ some g ∈ slots) ∧ b'.builder.added = b.builder.added := by
  have hcount := h.toGaps.length_eq
  rw [← h.holds.numReqs_eq] at hcount
  unfold condenseSorted at hb'
  split at hb'
  · -- no holes
    rename_i hempty
    have hnil := isEmpty_iff.mp hempty
    cases hb'
    have hfull := h.toGaps.map_some hnil
    refine ⟨slots.reduceOption, [], ?_, fun g => reduceOption_mem_iff, rfl⟩
    constructor
    case holds =>
      rw [hfull]
      exact h.holds
    case replayed =>
      rw [hfull, h.moved, hnil]
      funext i
      exact h.filled i (by rw [hnil]; exact not_mem_nil)
    case swaps => exact ⟨[], h.moved, nofun⟩
    case oneWay => exact nofun
    case apart => exact List.Pairwise.nil
  · rename_i hne
    have hlen : 0 < b.builder.removed.length := length_pos_iff.mpr (by simpa using hne)
    have hmoving := h.moving hsorted (by omega)
    split at hb'
    · -- nothing is left
      rename_i hzero
      cases hb'
      rw [h.holds.numReqs_eq, length_eq_zero_iff] at hzero
      have hpacked := Packed.zero hzero
      refine ⟨[], [], ?_, fun g => by rw [← reduceOption_mem_iff, hzero], rfl⟩
      constructor
      case holds => exact h.holds.take hpacked
      case replayed =>
        rw [← hmoving.replayed, ← rowsOf_take hpacked]
        rfl
      case swaps => exact ⟨[], h.moved, nofun⟩
      case oneWay => exact nofun
      case apart => exact List.Pairwise.nil
    rename_i hpos
    obtain ⟨c, hc, hb'⟩ := of_bind hb'
    cases hb'
    have hlive : ∃ g, some g ∈ slots := by
      have hne : slots.reduceOption ≠ [] := by
        intro hnil
        rw [h.holds.numReqs_eq, hnil] at hpos
        exact hpos rfl
      obtain ⟨g, hg⟩ := exists_mem_of_ne_nil _ hne
      exact ⟨g, reduceOption_mem_iff.mp hg⟩
    rw [← hcount] at hc
    obtain ⟨slots', last', m, hmoved, hpacked, hmem, hadded⟩ :=
      condenseLoop_replay hmoving (Nat.le_refl _) hlive hc
    obtain ⟨htake, hm⟩ := hpacked.take_eq
    have hnum : b.numReqs = m := by
      rw [h.holds.numReqs_eq, ← hm]
      apply List.Perm.length_eq
      apply (perm_ext_iff_of_nodup h.holds.nodup hmoved.holds.nodup).mpr
      intro g
      rw [reduceOption_mem_iff, reduceOption_mem_iff, hmem g]
    rw [hnum]
    refine ⟨slots'.reduceOption, c.builder.moved, ?_, ?_, hadded⟩
    · constructor
      case holds =>
        rw [← htake]
        exact hmoved.holds.take hpacked
      case replayed =>
        rw [← htake, rowsOf_take hpacked]
        exact hmoved.replayed
      case swaps => exact ⟨[], (append_nil _).symm, nofun⟩
      case oneWay => exact hmoved.oneWay
      case apart => exact hmoved.apart
    · intro g
      rw [reduceOption_mem_iff]
      exact hmem g

variable {live : List G}

theorem Reported.reqIds_eq (h : Reported idOf start b live ms) :
    b.reqIds = live.map fun g => some (idOf g) := by
  rw [h.holds.reqIds, map_map]
  rfl

theorem Reported.swap (h : Reported idOf start b live ms) {j : Nat}
    (hb' : b.swapStates i j = .ok b') : ∃ live', Reported idOf start b' live' ms ∧ live'.Perm live ∧
      b'.builder.added = b.builder.added := by
  have hids : ∀ k : Nat, b.reqIds[k]? = (live[k]?).map fun g => some (idOf g) := by
    intro k
    rw [h.reqIds_eq, getElem?_map]
  have hboth : ∃ hi : i < live.length, ∃ hj : j < live.length, True := by
    unfold swapStates at hb'
    rw [hids, hids] at hb'
    cases hi : live[i]? with
    | none =>
      rw [hi] at hb'
      cases hb'
    | some g =>
      cases hj : live[j]? with
      | none =>
        rw [hi, hj] at hb'
        cases hb'
      | some p =>
        exact ⟨(lt_of_getElem? hi), (lt_of_getElem? hj), trivial⟩
  obtain ⟨hi, hj, -⟩ := hboth
  have hidi : b.reqIds[i]? = some (some (idOf live[i])) := by
    rw [hids, getElem?_eq_getElem hi]
    rfl
  have hidj : b.reqIds[j]? = some (some (idOf live[j])) := by
    rw [hids, getElem?_eq_getElem hj]
    rfl
  unfold swapStates at hb'
  rw [hidi, hidj] at hb'
  dsimp only at hb'
  rw [(h.holds.index _ i).mpr hidi, (h.holds.index _ j).mpr hidj] at hb'
  cases hb'
  have hmap : ((live.set i live[j]).set j live[i]).map some =
      ((live.map some).set i (some live[j])).set j (some live[i]) := by
    rw [map_set, map_set]
  refine ⟨(live.set i live[j]).set j live[i], ?_, set_set_perm hi hj, rfl⟩
  constructor
  case holds =>
    refine ⟨?_, h.holds.index.swap hidi hidj⟩
    rw [hmap, map_set, map_set, ← h.holds.reqIds]
    rfl
  case replayed =>
    rw [hmap, rowsOf_set (by simpa using hj), rowsOf_set (by simpa using hi), moveRows_append,
      ← h.replayed]
    show _ = moveRow none (rowsOf (live.map some)) ⟨i, j, .swap⟩
    unfold moveRow
    have hrow : ∀ k (hk : k < live.length), rowsOf (live.map some) k = some live[k] := by
      intro k hk
      rw [rowsOf_eq_some, getElem?_map, getElem?_eq_getElem hk]
      rfl
    rw [hrow i hi, hrow j hj]
  case swaps =>
    obtain ⟨ns, hns, hswap⟩ := h.swaps
    refine ⟨ns ++ [⟨i, j, .swap⟩], ?_, ?_⟩
    · rw [hns, append_assoc]
    · intro m hm
      cases mem_append.mp hm with
      | inl hold => exact hswap m hold
      | inr hnew => rw [mem_singleton.mp hnew]
  case oneWay => exact h.oneWay
  case apart => exact h.apart

theorem swaps_replay (h : Reported idOf start b live ms)
    (hb' : swaps.foldlM (fun b s => b.swapStates s.1 s.2) b = .ok b') :
    ∃ live', Reported idOf start b' live' ms ∧ live'.Perm live ∧
      b'.builder.added = b.builder.added := by
  induction swaps generalizing b live with
  | nil =>
    cases hb'
    exact ⟨live, h, List.Perm.refl _, rfl⟩
  | cons s swaps ih =>
    obtain ⟨c, hc, hb'⟩ := of_bind hb'
    obtain ⟨live₁, h₁, hperm₁, hadded₁⟩ := h.swap hc
    obtain ⟨live', h', hperm, hadded⟩ := ih h₁ hb'
    exact ⟨live', h', hperm.trans hperm₁, hadded.trans hadded₁⟩

theorem removals_replay (h : Editing idOf enter base b slots)
    (hsorted : b.builder.isRemovedSorted = false) (hb' : removals.foldlM removeRequest b = .ok b') :
    ∃ slots', Editing idOf enter base b' slots' ∧ b'.builder.added = b.builder.added ∧
      ∀ g, some g ∈ slots' ↔ some g ∈ slots ∧ idOf g ∉ removals := by
  induction removals generalizing b slots with
  | nil =>
    cases hb'
    exact ⟨slots, h, rfl, fun g => by simp⟩
  | cons r removals ih =>
    obtain ⟨c, hc, hb'⟩ := of_bind hb'
    obtain ⟨slots₁, h₁, hsorted₁, hadded₁, hmem₁⟩ := h.remove hsorted hc
    obtain ⟨slots', h', hadded, hmem⟩ := ih h₁ hsorted₁ hb'
    refine ⟨slots', h', hadded.trans hadded₁, fun g => ?_⟩
    rw [hmem g, hmem₁ g, mem_cons, not_or, and_assoc]

theorem additions_replay (henter : ∀ q, idOf (enter q) = q.reqId)
    (h : Editing idOf enter base b slots) (hnodup : (additions.map NewRequest.reqId).Nodup)
    (hfresh : ∀ q ∈ additions, ∀ g, some g ∈ slots → idOf g ≠ q.reqId)
    (hb' : additions.foldlM addRequest b = .ok b') :
    ∃ slots' new, Editing idOf enter base b' slots' ∧
      b'.builder.added = b.builder.added ++ new ∧ new.map Prod.snd = additions ∧
      (new.map Prod.fst).Nodup ∧ (∀ a ∈ new, rowsOf slots a.1 = none) ∧
      ∀ g, some g ∈ slots' ↔ some g ∈ slots ∨ ∃ q ∈ additions, g = enter q := by
  induction additions generalizing b slots with
  | nil =>
    cases hb'
    exact ⟨slots, [], h, by simp, rfl, nodup_nil, nofun, fun g => by simp⟩
  | cons q additions ih =>
    obtain ⟨c, hc, hb'⟩ := of_bind hb'
    rw [map_cons, nodup_cons] at hnodup
    obtain ⟨slots₁, idx, h₁, hadded₁, hbefore, hrows, hmem₁⟩ :=
      h.add henter (hfresh q mem_cons_self) hc
    have hfresh₁ : ∀ p ∈ additions, ∀ g, some g ∈ slots₁ → idOf g ≠ p.reqId := by
      intro p hp g hg
      cases (hmem₁ g).mp hg with
      | inl hold => exact hfresh p (mem_cons_of_mem _ hp) g hold
      | inr hnew =>
        rw [hnew, henter]
        intro heq
        exact hnodup.1 (mem_map.mpr ⟨p, hp, heq.symm⟩)
    obtain ⟨slots', new, h', hadded, hnew, hrowsNodup, hholes, hmem⟩ := ih h₁ hnodup.2 hfresh₁ hb'
    -- the row of `q` is taken when the others get theirs
    have hother : ∀ a ∈ new, a.1 ≠ idx ∧ rowsOf slots a.1 = none := by
      intro a ha
      have hnone := hholes a ha
      rw [hrows] at hnone
      by_cases hidx : a.1 = idx
      · rw [hidx, update_self] at hnone
        cases hnone
      · rw [update_of_ne hidx] at hnone
        exact ⟨hidx, hnone⟩
    refine ⟨slots', (idx, q) :: new, h', ?_, ?_, ?_, ?_, ?_⟩
    · rw [hadded, hadded₁, append_assoc, singleton_append]
    · rw [map_cons, hnew]
    · rw [map_cons, nodup_cons]
      refine ⟨fun hmem => ?_, hrowsNodup⟩
      obtain ⟨a, ha, hidx⟩ := mem_map.mp hmem
      exact (hother a ha).1 hidx
    · intro a ha
      cases mem_cons.mp ha with
      | inl hhead =>
        rw [hhead]
        exact hbefore
      | inr htail => exact (hother a htail).2
    · intro g
      rw [hmem g, hmem₁ g]
      simp only [mem_cons, exists_eq_or_imp, or_assoc]

structure Settled (idOf : G → ReqId) (b : RowBatch) (live : List G) : Prop where
  holds : Holds idOf b (live.map some)
  reset : b.builder = ⟨⟨[], false⟩, [], []⟩

theorem Settled.editing (h : Settled idOf b live) :
    Editing idOf enter (rowsOf (live.map some)) b (live.map some) := by
  constructor
  case holds => exact h.holds
  case toGaps =>
    rw [h.reset]
    exact Gaps.of_live live
  case moved => rw [h.reset]
  case filled =>
    intro i _
    rw [h.reset]
    rfl

/-- What a step reports: the added requests are those of the step, and replaying the update on the
rows before the step gives the rows after it. -/
theorem updateStates_replay (henter : ∀ q, idOf (enter q) = q.reqId) (h : Settled idOf b live)
    (hnodup : (additions.map NewRequest.reqId).Nodup)
    (hfresh : ∀ q ∈ additions, ∀ g ∈ live, idOf g = q.reqId → q.reqId ∈ removals)
    (hb' : b.updateStates removals additions swaps = .ok b') : ∃ live' ms, Reported idOf
        (fillRows (rowsOf (live.map some)) (entered enter b'.builder.added)) b' live' ms ∧
      b'.builder.added.map Prod.snd = additions ∧ (b'.builder.added.map Prod.fst).Nodup ∧
      ∀ g, g ∈ live' ↔ g ∈ live ∧ idOf g ∉ removals ∨ ∃ q ∈ additions, g = enter q := by
  obtain ⟨b₁, hb₁, hb'⟩ := of_bind hb'
  obtain ⟨b₂, hb₂, hb'⟩ := of_bind hb'
  obtain ⟨b₃, hb₃, hb'⟩ := of_bind hb'
  obtain ⟨slots₁, h₁, hadded₁, hmem₁⟩ :=
    removals_replay (h.editing) (by rw [h.reset]) hb₁
  have hfresh₁ : ∀ q ∈ additions, ∀ g, some g ∈ slots₁ → idOf g ≠ q.reqId := by
    intro q hq g hg heq
    obtain ⟨hlive, hkept⟩ := (hmem₁ g).mp hg
    rw [mem_map_of_injective (Option.some_injective G)] at hlive
    exact hkept (heq ▸ hfresh q hq g hlive heq)
  obtain ⟨slots₂, new, h₂, hadded₂, hnew, hrows, _, hmem₂⟩ :=
    additions_replay henter h₁ hnodup hfresh₁ hb₂
  obtain ⟨live₃, ms, h₃, hmem₃, hadded₃⟩ :=
    condenseSorted_replay h₂.sort (ensureRemovedSorted_sorted _) hb₃
  obtain ⟨live', h', hperm, hadded⟩ := swaps_replay h₃ hb'
  have hsorted := hadded.trans hadded₃
  have hall : b'.builder.added = b₂.builder.added := hsorted
  have hnewAll : b₂.builder.added = new := by rw [hadded₂, hadded₁, h.reset, nil_append]
  refine ⟨live', ms, hsorted ▸ h', ?_, ?_, ?_⟩
  · rw [hall, hnewAll, hnew]
  · rw [hall, hnewAll]
    exact hrows
  · intro g
    rw [hperm.mem_iff, hmem₃ g, hmem₂ g, hmem₁ g,
      mem_map_of_injective (Option.some_injective G)]

theorem refreshMetadata_settled (h : Reported idOf start b live ms) :
    Settled idOf b.refreshMetadata.2 live ∧ b.refreshMetadata.1 =
        if b.builder.removed = [] ∧ b.builder.moved = [] ∧ b.builder.added = [] then none
        else some ⟨b.numReqs, b.builder.removed, b.builder.added, b.builder.moved⟩ := by
  unfold refreshMetadata getAndReset
  by_cases hempty : b.builder.removed = [] ∧ b.builder.moved = [] ∧ b.builder.added = []
  · rw [if_pos hempty, if_pos (by simp [hempty])]
    refine ⟨⟨⟨h.holds.reqIds, h.holds.index⟩, ?_⟩, rfl⟩
    rw [hempty.1, hempty.2.1, hempty.2.2]
  · rw [if_neg hempty, if_neg (by simpa [and_assoc] using hempty)]
    exact ⟨⟨⟨h.holds.reqIds, h.holds.index⟩, rfl⟩, rfl⟩

end Report

end RowBatch

end VllmEcho
