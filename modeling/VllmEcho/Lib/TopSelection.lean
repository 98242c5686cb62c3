import Mathlib

/-!
# Selections of the highest scores

A top selection of a finite set has no element below one that was left out.  One of every size
exists, and it contains every smaller set that dominates its complement strictly.
-/

namespace VllmEcho.Lib

open Finset

variable {α β : Type} [DecidableEq α] [LinearOrder β] (f : α → β) (s : Finset α)

structure TopSelection (t : Finset α) : Prop where
  subset : t ⊆ s
  top : ∀ a ∈ t, ∀ b ∈ s, b ∉ t → f b ≤ f a

theorem exists_topSelection {n : Nat} (hn : n ≤ s.card) : ∃ t, TopSelection f s t ∧ t.card = n := by
  induction n with
  | zero => exact ⟨∅, ⟨empty_subset s, by simp⟩, rfl⟩
  | succ n ih =>
    obtain ⟨t, htop, hcard⟩ := ih (by omega)
    -- the best of what is left extends the selection
    have hne : (s \ t).Nonempty := by
      rw [← card_pos, card_sdiff_of_subset htop.subset]
      omega
    obtain ⟨m, hm, hmax⟩ := exists_max_image (s \ t) f hne
    rw [mem_sdiff] at hm
    refine ⟨insert m t, ⟨insert_subset hm.1 htop.subset, ?_⟩, ?_⟩
    · intro a ha b hb hbt
      rw [mem_insert, not_or] at hbt
      rcases mem_insert.mp ha with rfl | ha
      · exact hmax b (mem_sdiff.mpr ⟨hb, hbt.2⟩)
      · exact htop.top a ha b hb hbt.2
    · rw [card_insert_of_notMem hm.2, hcard]

theorem TopSelection.contains {f : α → β} {s t z : Finset α} (htop : TopSelection f s t)
    (hz : z ⊆ s) (hcard : z.card ≤ t.card) (hlt : ∀ a ∈ z, ∀ b ∈ s, b ∉ z → f b < f a) : z ⊆ t := by
  intro a ha
  by_contra hat
  -- every selected element is then at least as good as `a`, so it belongs to `z`
  have hsub : t ⊆ z.erase a := by
    intro b hb
    have hle := htop.top b hb a (hz ha) hat
    have hbz : b ∈ z := by
      by_contra hbz
      exact absurd (hlt a ha b (htop.subset hb) hbz) (not_lt.mpr hle)
    apply mem_erase.mpr
    exact ⟨fun heq => hat (heq ▸ hb), hbz⟩
  have hle := card_le_card hsub
  rw [card_erase_of_mem ha] at hle
  have hpos := card_pos.mpr ⟨a, ha⟩
  omega

/-! ## Ties

Elements above a score and elements at or above it bracket every selection that separates two
elements of that score. -/

def above (v : β) : Finset α := s.filter fun a => v < f a

def atLeast (v : β) : Finset α := s.filter fun a => v ≤ f a

section

variable {f : α → β} {s t : Finset α} {a b : α} {n : Nat}

theorem TopSelection.above_subset (htop : TopSelection f s t) (hb : b ∈ t) :
    above f s (f b) ⊆ t.erase b := by
  intro c hc
  obtain ⟨hcs, hlt⟩ := mem_filter.mp hc
  rw [mem_erase]
  refine ⟨fun hcb => lt_irrefl _ (hcb ▸ hlt), ?_⟩
  by_contra hct
  exact absurd (htop.top b hb c hcs hct) (not_le.mpr hlt)

theorem TopSelection.subset_atLeast (htop : TopSelection f s t) (ha : a ∈ s) (hat : a ∉ t) :
    t ⊆ (atLeast f s (f a)).erase a := by
  intro c hc
  rw [mem_erase, atLeast, mem_filter]
  exact ⟨fun hca => hat (hca ▸ hc), htop.subset hc, htop.top c hc a ha hat⟩

omit [DecidableEq α] in
theorem topSelection_of_between {v : β} (habove : above f s v ⊆ t) (hleast : t ⊆ atLeast f s v) :
    TopSelection f s t := by
  refine ⟨hleast.trans (filter_subset _ _), ?_⟩
  intro c hc b hb hbt
  have hbv : f b ≤ v := not_lt.mp fun hlt => hbt (habove (mem_filter.mpr ⟨hb, hlt⟩))
  exact hbv.trans (mem_filter.mp (hleast hc)).2

omit [DecidableEq α] in
theorem mem_atLeast_self (ha : a ∈ s) : a ∈ atLeast f s (f a) :=
  mem_filter.mpr ⟨ha, le_refl _⟩

omit [DecidableEq α] in
theorem notMem_above_self : a ∉ above f s (f a) :=
  fun ha => lt_irrefl _ (mem_filter.mp ha).2

theorem above_subset_atLeast_erase : above f s (f a) ⊆ (atLeast f s (f a)).erase a := by
  intro c hc
  obtain ⟨hcs, hlt⟩ := mem_filter.mp hc
  rw [mem_erase, atLeast, mem_filter]
  exact ⟨fun hca => lt_irrefl _ (hca ▸ hlt), hcs, hlt.le⟩

/-- A selection can take one of two equal scores and leave the other exactly when the size cuts
through the elements of that score. -/
theorem exists_separating_iff (ha : a ∈ s) (hb : b ∈ s) (hne : b ≠ a) (heq : f b = f a) :
    (∃ t, TopSelection f s t ∧ t.card = n ∧ b ∈ t ∧ a ∉ t) ↔
      (above f s (f a)).card < n ∧ n < (atLeast f s (f a)).card := by
  constructor
  · rintro ⟨t, htop, hcard, hbt, hat⟩
    have hlow := card_le_card (htop.above_subset hbt)
    have hhigh := card_le_card (htop.subset_atLeast ha hat)
    rw [card_erase_of_mem hbt, heq] at hlow
    rw [card_erase_of_mem (mem_atLeast_self ha)] at hhigh
    have htpos := card_pos.mpr ⟨b, hbt⟩
    omega
  rintro ⟨hlow, hhigh⟩
  have hbleast : b ∈ (atLeast f s (f a)).erase a := by
    rw [mem_erase, ← heq]
    exact ⟨hne, mem_atLeast_self hb⟩
  have hcard : (insert b (above f s (f a))).card ≤ n := by
    apply (card_insert_le _ _).trans
    exact hlow
  obtain ⟨t, hbt, hta, htn⟩ := exists_subsuperset_card_eq
    (insert_subset hbleast above_subset_atLeast_erase) hcard
    (by rw [card_erase_of_mem (mem_atLeast_self ha)]; omega)
  refine ⟨t, topSelection_of_between ((subset_insert _ _).trans hbt)
    (hta.trans (erase_subset _ _)), htn, hbt (mem_insert_self _ _), ?_⟩
  exact fun hat => (mem_erase.mp (hta hat)).1 rfl

/-- An element is in every selection exactly if at most `n` elements reach its value. -/
theorem mem_every_iff (ha : a ∈ s) : (∀ t, TopSelection f s t → t.card = n → a ∈ t) ↔
      (atLeast f s (f a)).card ≤ n := by
  constructor
  · intro hall
    by_contra hnot
    obtain ⟨t, htop, hcard, hat⟩ : ∃ t, TopSelection f s t ∧ t.card = n ∧ a ∉ t := by
      by_cases hn : n ≤ (above f s (f a)).card
      · -- the best of the elements above `a` are the best of all
        obtain ⟨t, htop, hcard⟩ := exists_topSelection f (above f s (f a)) hn
        refine ⟨t, ⟨htop.subset.trans (filter_subset _ _), ?_⟩, hcard,
          fun hat => notMem_above_self (htop.subset hat)⟩
        intro c hc b hb hbt
        by_cases hbv : f a < f b
        · exact htop.top c hc b (mem_filter.mpr ⟨hb, hbv⟩) hbt
        · exact (not_lt.mp hbv).trans (mem_filter.mp (htop.subset hc)).2.le
      · obtain ⟨t, hbt, hta, htn⟩ := exists_subsuperset_card_eq
          (above_subset_atLeast_erase) (Nat.le_of_not_le hn)
          (by rw [card_erase_of_mem (mem_atLeast_self ha)]; omega)
        refine ⟨t, topSelection_of_between hbt (hta.trans (erase_subset _ _)), htn, ?_⟩
        exact fun hat => (mem_erase.mp (hta hat)).1 rfl
    exact hat (hall t htop hcard)
  · intro hn t htop hcard
    by_contra hat
    have hhigh := card_le_card (htop.subset_atLeast ha hat)
    rw [card_erase_of_mem (mem_atLeast_self ha)] at hhigh
    have hpos := card_pos.mpr ⟨a, mem_atLeast_self (f := f) ha⟩
    omega

end

end VllmEcho.Lib
