import VllmEcho.Sched.Engine

/-!
# The items that a range of tokens needs

The test with which an item is passed over counts its embeddings among the scheduled tokens.  With
the drafter's shift one token more is looked at, and that token is not among them.
-/

namespace VllmEcho

open Lib Dict List

namespace MMFeature

variable (f : MMFeature)

def EmbedAt (q : Nat) : Prop :=
  f.offset ≤ q ∧ q < f.stop ∧ ∀ mask, f.isEmbed = some mask → mask[q - f.offset]? = some true

def Masked : Prop := ∀ mask, f.isEmbed = some mask → mask.length = f.length ∧ mask ≠ []

def Seen (disableChunkedMMInput : Bool) (c n : Int) : Prop :=
  (∃ q : Nat, c ≤ q ∧ q < c + n ∧ f.EmbedAt q) ∨
    (f.offset = c + n ∧ ∃ mask, f.isEmbed = some mask ∧ true ∈ mask) ∨
    (disableChunkedMMInput = true ∧ c < f.offset ∧ f.offset ≤ c + n ∧ c + n < f.stop)

variable {f} {disable : Bool} {c n : Int}

theorem Seen.lt_stop (h : f.Seen disable c n) (hmask : f.Masked) (hn : 0 ≤ n) : c < f.stop := by
  rcases h with ⟨q, hcq, -, hembed⟩ | ⟨hoffset, mask, hsome, hmem⟩ | ⟨-, -, -, hstop⟩
  · have := hembed.2.1
    omega
  · have hlength := (hmask mask hsome).1
    have hpos := length_pos_of_mem hmem
    rw [MMFeature.stop]
    omega
  · omega

theorem Seen.offset_le (h : f.Seen disable c n) : (f.offset : Int) ≤ c + n := by
  rcases h with ⟨q, -, hq, hembed⟩ | ⟨hoffset, -⟩ | ⟨-, -, hle, -⟩
  · have := hembed.1
    omega
  · exact hoffset.le
  · exact hle

theorem count_take_eq_iff (mask : List Bool) {a b : Nat} (hab : a ≤ b) :
    (mask.take b).count true = (mask.take a).count true ↔
      ¬ ∃ j, a ≤ j ∧ j < b ∧ mask[j]? = some true := by
  have hsplit := take_append_drop a (mask.take b)
  rw [take_take, Nat.min_eq_left hab] at hsplit
  rw [← hsplit, count_append, Nat.add_eq_left, count_eq_zero, not_iff_not, mem_iff_getElem?]
  constructor
  · rintro ⟨j, hj⟩
    rw [getElem?_drop, getElem?_take] at hj
    split at hj
    · exact ⟨a + j, Nat.le_add_right a j, ‹_›, hj⟩
    · cases hj
  · rintro ⟨j, haj, hjb, hj⟩
    refine ⟨j - a, ?_⟩
    rw [getElem?_drop, getElem?_take, Nat.add_sub_cancel' haj, if_pos hjb, hj]

end MMFeature

theorem EncoderPlan.embedsInRange_eq_iff {p : EncoderPlan} {f : MMFeature} {c : Int}
    (hmask : f.Masked) (hn : 0 < p.numNewTokens) (hstop : c < f.stop)
    (hoffset : (f.offset : Int) ≤ c + p.numNewTokens) :
    (p.embedsInRange c f).2 = (p.embedsInRange c f).1 ↔ ¬ f.Seen false c p.numNewTokens := by
  rw [EncoderPlan.embedsInRange, MMFeature.getEmbedsIndicesInRange, MMFeature.Seen]
  rw [MMFeature.stop] at hstop
  generalize ha : (max 0 (c - f.offset)).toNat = a
  generalize hb : (min (f.length : Int) (c + p.numNewTokens - f.offset)).toNat = b
  have hplaces : (∃ q : Nat, c ≤ q ∧ q < c + p.numNewTokens ∧ f.EmbedAt q) ↔
      ∃ j, a ≤ j ∧ j < b ∧ ∀ mask, f.isEmbed = some mask → mask[j]? = some true := by
    constructor
    · rintro ⟨q, hcq, hq, hle, hlt, hembed⟩
      rw [MMFeature.stop] at hlt
      exact ⟨q - f.offset, by omega, by omega, hembed⟩
    · rintro ⟨j, haj, hjb, hembed⟩
      refine ⟨f.offset + j, by omega, by omega, by omega, by rw [MMFeature.stop]; omega, ?_⟩
      rw [Nat.add_sub_cancel_left]
      exact hembed
  rw [hplaces]
  cases hsome : f.isEmbed with
  | none =>
    simp only [reduceCtorEq, IsEmpty.forall_iff, implies_true, and_true, false_and, exists_false,
      and_false, Bool.false_eq_true, or_false]
    constructor
    · rintro rfl ⟨j, haj, hjb⟩
      omega
    · intro hnone
      by_contra hne
      exact hnone ⟨a, le_refl a, by omega⟩
  | some mask =>
    simp only [Option.some.injEq, forall_eq', exists_eq_left', Bool.false_eq_true, false_and,
      or_false]
    by_cases hend : (f.offset : Int) = c + p.numNewTokens
    · -- the range is empty, and the entry before the first is the last one: the item is taken
      have hb0 : b = 0 := by omega
      have ha0 : a = 0 := by omega
      simp [hb0, ha0, MMFeature.cumsumBefore, hend, count_eq_zero]
    have hlength := (hmask mask hsome).1
    have hpos := length_pos_iff.mpr (hmask mask hsome).2
    have hb0 : b ≠ 0 := by omega
    have hstart : (if 0 < a then MMFeature.cumsumBefore mask a else 0) =
        (mask.take a).count true := by
      rw [MMFeature.cumsumBefore]
      split
      · rw [if_neg (by omega)]
      · rw [show a = 0 by omega, take_zero, count_nil]
    rw [hstart, MMFeature.cumsumBefore, if_neg hb0, MMFeature.count_take_eq_iff mask (by omega)]
    simp [hend]

end VllmEcho
