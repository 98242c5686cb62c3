import VllmEcho.Request.Session

/-!
# Hashing as the tokens arrive

The hashes of a request whose outputs arrived in pieces, against those of one call of the hasher on
a request with all the tokens. A call that continues the chain starts with the last item.
-/

namespace VllmEcho

open Lib List

variable {h : BlockHasher} {r : Request} {a : RequestArgs} {outputs : List (List TokenId)}

theorem blockContent_of_lt {n n₁ k : Nat} (hk : k < n) (hk₁ : k < n₁) :
    blockContent h r n k = blockContent h r n₁ k := by
  rw [blockContent_eq_iff rfl rfl rfl, seenFrom, seenFrom, if_pos hk, if_pos hk₁]
  exact ⟨rfl, rfl⟩

theorem Built.numFullBlocks_eq (hbuilt : Built h a outputs r) :
    numFullBlocks h r = (a.tokensWith outputs).length / h.blockSize := by
  rw [numFullBlocks, Request.numTokens, hbuilt.tokens]

theorem Built.scratch_iff (hbuilt : Built h a outputs r) :
    requestBlockHasher h { r with blockHashes := [] } = .ok r.blockHashes ↔
      ∀ k < numFullBlocks h r, blockContent h r (numFullBlocks h r) k =
        blockContent h r (firstBatch h.blockSize a.promptLength outputs) k := by
  rw [requestBlockHasher_spec (r := { r with blockHashes := [] }) (m := 0) rfl
    (fun _ => rfl) (fun hpos => absurd hpos (Nat.lt_irrefl 0)), hbuilt.hashed, blockContents,
    range_eq_range', Except.ok.injEq]
  constructor
  · intro heq k hk
    have hcontents := map_inj_left.mp (chain_injective h.fn.injective _ heq)
    exact hcontents k (mem_range'_1.mpr ⟨Nat.zero_le k, by rw [Nat.zero_add]; exact hk⟩)
  intro hcontents
  apply congrArg
  apply map_congr_left
  intro k hk
  have hfull := (mem_range'_1.mp hk).2
  rw [Nat.zero_add] at hfull
  exact hcontents k hfull

/-- The hashes are those of hashing from scratch exactly when the blocks completed after the first
batch meet no item but the last. -/
theorem incrementalHashes_eq_iff (hs : Spaced a.mmFeatures)
    (hrun : Request.build (some h) a outputs = .ok r) :
    requestBlockHasher h { r with blockHashes := [] } = .ok r.blockHashes ↔
      ∀ k, firstBatch h.blockSize a.promptLength outputs ≤ k →
        k < (a.tokensWith outputs).length / h.blockSize →
        ∀ f ∈ a.mmFeatures.dropLast, ¬MeetsBlock h.blockSize f k := by
  have hbuilt := build_spec hrun
  rw [← hbuilt.features] at hs
  rw [hbuilt.scratch_iff, ← hbuilt.numFullBlocks_eq, ← hbuilt.features]
  constructor
  · intro hcontents k hk hfull
    exact (laterBlock_eq_iff hs hk hfull).mp (hcontents k hfull).symm
  · intro hitems k hk
    by_cases hfirst : k < firstBatch h.blockSize a.promptLength outputs
    · exact blockContent_of_lt hk hfirst
    · exact ((laterBlock_eq_iff hs (Nat.le_of_not_lt hfirst) hk).mpr
        (hitems k (Nat.le_of_not_lt hfirst) hk)).symm

def twoImages (first : Nat) : RequestArgs :=
  { tenant none none with
    promptTokenIds := some [1, 2, 3, 4, 5]
    mmFeatures := [⟨"a", first, 1, none⟩, ⟨"b", 4, 1, none⟩] }

def threeTokenHasher (fn : HashFunction) : BlockHasher := ⟨fn, 3, by decide⟩

theorem twoImages_build (fn : HashFunction) (first : Nat) : ∃ r,
    Request.build (some (threeTokenHasher fn)) (twoImages first) [[6]] = .ok r :=
  exists_build (show initialLimits (twoImages first) = .ok (16, .waiting) from rfl)
    (show lengthFromPromptTokenIdsOrEmbeds _ _ = .ok 5 from rfl) [[6]]

/-- With the first image in the first block, the block that the first output completes is hashed
with all its items. -/
theorem twoImages_blocks_hashed : ∃ fn : HashFunction, ∃ r,
    Request.build (some (threeTokenHasher fn)) (twoImages 1) [[6]] = .ok r ∧
      requestBlockHasher (threeTokenHasher fn) { r with blockHashes := [] } =
        .ok r.blockHashes := by
  obtain ⟨fn⟩ := exists_hashFunction
  obtain ⟨r, hr⟩ := twoImages_build fn 1
  have hspaced : Spaced (twoImages 1).mmFeatures := by
    unfold Spaced
    decide
  refine ⟨fn, r, hr, (incrementalHashes_eq_iff hspaced hr).mpr ?_⟩
  intro k hk hfull f hf hmeets
  have hbatch : firstBatch 3 (twoImages 1).promptLength [[6]] = 1 := by decide
  rw [show (threeTokenHasher fn).blockSize = 3 from rfl] at hk hmeets
  obtain rfl : f = ⟨"a", 1, 1, none⟩ := mem_singleton.mp hf
  have hstop : k * 3 < 2 := hmeets.2
  omega

/-- The block that the first output completes is hashed with the second image only. -/
theorem twoImages_drops_image : Nonempty HashFunction ∧ ∀ fn : HashFunction, ∃ r,
    Request.build (some (threeTokenHasher fn)) (twoImages 3) [[6]] = .ok r ∧
      requestBlockHasher (threeTokenHasher fn) { r with blockHashes := [] } ≠
        .ok r.blockHashes := by
  refine ⟨exists_hashFunction, fun fn => ?_⟩
  obtain ⟨r, hr⟩ := twoImages_build fn 3
  refine ⟨r, hr, fun heq => ?_⟩
  have hbuilt := build_spec hr
  have hfull : numFullBlocks (threeTokenHasher fn) r = 2 :=
    hbuilt.numFullBlocks_eq.trans
      (show ((twoImages 3).tokensWith [[6]]).length / 3 = 2 by decide)
  have hspaced : Spaced r.mmFeatures := by
    rw [hbuilt.features, Spaced]
    decide
  have hcontents := hbuilt.scratch_iff.mp heq 1 (by omega)
  have hitems := (laterBlock_eq_iff hspaced
    (show firstBatch 3 (twoImages 3).promptLength [[6]] ≤ 1 by decide)
    (show 1 < numFullBlocks (threeTokenHasher fn) r by omega)).mp hcontents.symm
    ⟨"a", 3, 1, none⟩ (by rw [hbuilt.features]; exact mem_singleton.mpr rfl)
  exact hitems (show MeetsBlock 3 ⟨"a", 3, 1, none⟩ 1 from ⟨by decide, by decide⟩)

end VllmEcho
