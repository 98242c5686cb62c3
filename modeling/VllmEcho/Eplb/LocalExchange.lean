import VllmEcho.Eplb.DefaultPolicy
import VllmEcho.Lib.Slots

/-!
# Local exchange

Permuting a card's new experts so that those that were on the card before keep their slot.
-/

namespace VllmEcho

open List

variable {current : List Nat} {expert : Nat} {done remaining : List Nat} {slots : List (Option Nat)}

namespace DefaultEplb

/-! ## The first loop -/

theorem claimSlot_spec : ∀ {current : List Nat}, slots.length ≤ current.length →
      (claimSlot expert current slots = .ok none ∧
        ∀ j : Nat, current[j]? = some expert → slots[j]? ≠ some none) ∨
      ∃ j : Nat, claimSlot expert current slots = .ok (some (slots.set j (some expert))) ∧
        current[j]? = some expert ∧ slots[j]? = some none ∧
        ∀ i : Nat, i < j → current[i]? = some expert → slots[i]? ≠ some none := by
  induction slots with
  | nil => exact fun _ => Or.inl ⟨by rw [claimSlot], fun j _ => by simp⟩
  | cons slot slots ih =>
    intro current hlen
    match current with
    | [] => simp at hlen
    | c :: current =>
      rw [claimSlot]
      by_cases hhere : expert = c ∧ slot = none
      · obtain ⟨rfl, rfl⟩ := hhere
        rw [if_pos ⟨rfl, rfl⟩]
        exact Or.inr ⟨0, rfl, rfl, rfl, fun i hi => absurd hi (Nat.not_lt_zero i)⟩
      rw [if_neg hhere]
      have hfirst : (c :: current)[0]? = some expert → (slot :: slots)[0]? ≠ some none := by
        intro hc hs
        simp only [getElem?_cons_zero, Option.some.injEq] at hc hs
        exact hhere ⟨hc.symm, hs⟩
      cases ih (by simpa using hlen) with
      | inl hnone =>
        refine Or.inl ⟨by rw [hnone.1]; rfl, fun j => ?_⟩
        cases j with
        | zero => exact hfirst
        | succ j => exact hnone.2 j
      | inr hsome =>
        obtain ⟨j, hclaim, hcur, hfree, hmin⟩ := hsome
        refine Or.inr ⟨j + 1, by rw [hclaim]; rfl, hcur, hfree, fun i hi => ?_⟩
        cases i with
        | zero => exact hfirst
        | succ i => exact hmin i (by omega)

structure Kept (current done : List Nat) (slots : List (Option Nat)) (remaining : List Nat) :
    Prop where
  len : slots.length = current.length
  perm : (slots.reduceOption ++ remaining).Perm done
  stays : ∀ expert ∈ done, expert ∈ current →
    slots[current.idxOf expert]? = some (some expert)
  taken : ∀ (j expert : Nat), slots[j]? = some (some expert) →
    current[j]? = some expert ∧ expert ∈ done

theorem getElem?_idxOf (hmem : expert ∈ current) : current[current.idxOf expert]? = some expert :=
  List.getElem?_eq_some_iff.mpr ⟨idxOf_lt_length_iff.mpr hmem, getElem_idxOf _⟩

section

variable (h : Kept current done slots remaining)
include h

theorem Kept.free (hnew : expert ∉ done) (hmem : expert ∈ current) :
    slots[current.idxOf expert]? = some none := by
  have hlt : current.idxOf expert < slots.length := by
    rw [h.len]
    exact idxOf_lt_length_iff.mpr hmem
  rw [getElem?_eq_getElem hlt]
  cases hslot : slots[current.idxOf expert] with
  | none => rfl
  | some e =>
    have htaken := h.taken (current.idxOf expert) e (by rw [getElem?_eq_getElem hlt, hslot])
    rw [getElem?_idxOf hmem] at htaken
    exact absurd (Option.some.inj htaken.1 ▸ htaken.2) hnew

theorem Kept.claim {j : Nat} (hnew : expert ∉ done)
    (hcur : current[j]? = some expert) (hfree : slots[j]? = some none)
    (hmin : ∀ i, i < j → current[i]? = some expert → slots[i]? ≠ some none) :
    Kept current (done ++ [expert]) (slots.set j (some expert)) remaining := by
  have hmem : expert ∈ current := mem_of_getElem? hcur
  have hj : j < slots.length := lt_of_getElem? hfree
  -- the first slot of the expert is the one found, since it was free
  have hfirst : current.idxOf expert = j := by
    have hle : current.idxOf expert ≤ j := by
      obtain ⟨hlt, heq⟩ := List.getElem?_eq_some_iff.mp hcur
      by_contra hgt
      have hbefore : (current[j] == expert) = false := not_of_lt_findIdx (Nat.lt_of_not_le hgt)
      simp [heq] at hbefore
    by_contra hne
    exact hmin _ (by omega) (getElem?_idxOf hmem) (h.free hnew hmem)
  exact {
    len := by rw [length_set, h.len]
    perm := by
      have hadd := (Lib.reduceOption_set_some hfree expert).append_right remaining
      exact hadd.trans ((h.perm.cons expert).trans (perm_append_singleton expert done).symm)
    stays := by
      intro e he hcure
      rw [getElem?_set]
      cases mem_append.mp he with
      | inl hold =>
        have hne : j ≠ current.idxOf e := by
          intro heq
          have hsame := h.stays e hold hcure
          rw [← heq, hfree] at hsame
          cases hsame
        rw [if_neg hne]
        exact h.stays e hold hcure
      | inr hlast =>
        obtain rfl := mem_singleton.mp hlast
        rw [if_pos hfirst.symm, if_pos hj]
    taken := by
      intro i e hslot
      rw [getElem?_set] at hslot
      by_cases hi : j = i
      · rw [if_pos hi, if_pos hj] at hslot
        obtain rfl : expert = e := by simpa using hslot
        exact ⟨hi ▸ hcur, by simp⟩
      · rw [if_neg hi] at hslot
        have hold := h.taken i e hslot
        exact ⟨hold.1, mem_append_left _ hold.2⟩ }

theorem Kept.defer (hnot : expert ∉ current) :
    Kept current (done ++ [expert]) slots (remaining ++ [expert]) where
  len := h.len
  perm := by
    rw [← append_assoc]
    exact h.perm.append_right [expert]
  stays := by
    intro e he hcur
    cases mem_append.mp he with
    | inl hold => exact h.stays e hold hcur
    | inr hlast => exact absurd (mem_singleton.mp hlast ▸ hcur) hnot
  taken i e hslot := ⟨(h.taken i e hslot).1, mem_append_left _ (h.taken i e hslot).2⟩

end

/-- The first loop never fails on distinct experts. -/
theorem keepSlots_spec (new : List Nat) :
    ∀ {done remaining : List Nat} {slots : List (Option Nat)}, Kept current done slots remaining →
      (done ++ new).Nodup →
      ∃ slots' remaining', keepSlots current new slots remaining = .ok (slots', remaining') ∧
        Kept current (done ++ new) slots' remaining' := by
  induction new with
  | nil =>
    intro done remaining slots h _
    exact ⟨slots, remaining, rfl, by rwa [append_nil]⟩
  | cons expert new ih =>
    intro done remaining slots h hnodup
    have hnew : expert ∉ done := fun hin =>
      (nodup_append.mp hnodup).2.2 expert hin expert mem_cons_self rfl
    have hassoc : done ++ expert :: new = (done ++ [expert]) ++ new := by simp
    rw [hassoc] at hnodup ⊢
    cases claimSlot_spec (Nat.le_of_eq h.len) with
    | inl hnone =>
      have hnot : expert ∉ current := fun hmem =>
        hnone.2 _ (getElem?_idxOf hmem) (h.free hnew hmem)
      obtain ⟨slots', remaining', hrun, hkept⟩ := ih (h.defer hnot) hnodup
      refine ⟨slots', remaining', ?_, hkept⟩
      rw [keepSlots, hnone.1]
      exact hrun
    | inr hsome =>
      obtain ⟨j, hclaim, hcur, hfree, hmin⟩ := hsome
      obtain ⟨slots', remaining', hrun, hkept⟩ := ih (h.claim hnew hcur hfree hmin) hnodup
      refine ⟨slots', remaining', ?_, hkept⟩
      rw [keepSlots, hclaim]
      exact hrun

/-! ## The second loop -/

/-- The second loop fills every free slot and moves nothing. -/
theorem fillSlots_spec :
    ∀ remaining : List Nat, slots.length = slots.reduceOption.length + remaining.length →
      ∃ filled, fillSlots slots remaining = .ok filled ∧
        filled.Perm (slots.reduceOption ++ remaining) ∧
        ∀ (j expert : Nat), slots[j]? = some (some expert) → filled[j]? = some expert := by
  induction slots with
  | nil =>
    intro remaining hlen
    obtain rfl : remaining = [] := length_eq_zero_iff.mp (by simpa using hlen.symm)
    exact ⟨[], rfl, List.Perm.refl _, fun j expert hslot => by simp at hslot⟩
  | cons slot slots ih =>
    intro remaining hlen
    cases slot with
    | some e =>
      rw [reduceOption_cons_of_some, length_cons, length_cons] at hlen
      obtain ⟨filled, hrun, hperm, hslots⟩ := ih remaining (by omega)
      refine ⟨e :: filled, by rw [fillSlots, hrun]; rfl, ?_, fun j expert hslot => ?_⟩
      · exact hperm.cons e
      · cases j with
        | zero => simpa using hslot
        | succ j => exact hslots j expert hslot
    | none =>
      rw [reduceOption_cons_of_none, length_cons] at hlen
      have hle := reduceOption_length_le slots
      match remaining with
      | [] => simp at hlen; omega
      | expert :: remaining =>
        rw [length_cons] at hlen
        obtain ⟨filled, hrun, hperm, hslots⟩ := ih remaining (by omega)
        refine ⟨expert :: filled, by rw [fillSlots, hrun]; rfl, ?_, fun j e hslot => ?_⟩
        · exact (hperm.cons expert).trans perm_middle.symm
        · cases j with
          | zero => simp at hslot
          | succ j => exact hslots j e hslot

/-! ## Cards and layers -/

/-- The card's new list: the same experts, those that were on the card in their old slot. -/
structure Exchanged (current new result : List Nat) : Prop where
  perm : result.Perm new
  stays : ∀ expert ∈ new, expert ∈ current → result[current.idxOf expert]? = some expert

theorem exchangeCard_spec {new : List Nat} (hlen : current.length = new.length)
    (hnodup : new.Nodup) :
    ∃ result, exchangeCard current new = .ok result ∧ Exchanged current new result := by
  have hinit : Kept current [] (List.replicate new.length none) [] := {
    len := by rw [length_replicate, hlen]
    perm := by simp
    stays := fun e he => absurd he (by simp)
    taken := by
      intro j e hslot
      rw [getElem?_replicate] at hslot
      split at hslot
      · cases Option.some.inj hslot
      · cases hslot }
  obtain ⟨slots, remaining, hkeep, hkept⟩ := keepSlots_spec new hinit hnodup
  rw [nil_append] at hkept
  have hcount := hkept.perm.length_eq
  rw [length_append] at hcount
  obtain ⟨result, hfill, hperm, hslots⟩ := fillSlots_spec remaining
    (by rw [hkept.len, hlen, hcount])
  refine ⟨result, ?_, hperm.trans hkept.perm, fun e he hcur => ?_⟩
  · unfold exchangeCard
    rw [hkeep]
    exact hfill
  · exact hslots _ e (hkept.stays e he hcur)

theorem exchangeLayer_spec {perCard : Nat} (news : List (List Nat))
    (hnews : ∀ new ∈ news, new.length = perCard ∧ new.Nodup) :
    ∀ {currents : List (List Nat)}, currents.length = news.length →
      (∀ current ∈ currents, current.length = perCard) →
      ∃ results, exchangeLayer currents news = .ok results ∧ results.length = news.length ∧
        ∀ (j : Nat) (current new : List Nat), currents[j]? = some current → news[j]? = some new →
          ∃ result, results[j]? = some result ∧ Exchanged current new result := by
  induction news with
  | nil => exact fun _ _ => ⟨[], by rw [exchangeLayer], rfl, fun j _ new _ hnew => by simp at hnew⟩
  | cons new news ih =>
    intro currents hlen hcurrents
    match currents with
    | [] => simp at hlen
    | current :: currents =>
      have hnew := hnews new mem_cons_self
      obtain ⟨result, hcard, hexch⟩ := exchangeCard_spec
        ((hcurrents current mem_cons_self).trans hnew.1.symm) hnew.2
      obtain ⟨results, hrun, hres, hall⟩ := ih
        (fun n hn => hnews n (mem_cons_of_mem _ hn))
        (by simpa using hlen) (fun c hc => hcurrents c (mem_cons_of_mem _ hc))
      refine ⟨result :: results, ?_, by simp [hres], fun j c n hc hn => ?_⟩
      · rw [exchangeLayer, hcard, ok_bind, hrun, ok_bind]
      cases j with
      | zero =>
        obtain rfl : current = c := by simpa using hc
        obtain rfl : new = n := by simpa using hn
        exact ⟨result, rfl, hexch⟩
      | succ j => exact hall j c n (by simpa using hc) (by simpa using hn)

end DefaultEplb

end VllmEcho
