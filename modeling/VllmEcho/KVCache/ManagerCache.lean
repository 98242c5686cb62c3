import VllmEcho.KVCache.ManagerInvariant

/-!
# Caching in one group

`cache_blocks` gives hashes to the blocks of a table from `num_cached_block` on.  Under the manager
invariant none of them has a hash yet, so the assertion in `cache_full_blocks` holds; the call can
only fail when the request has fewer block hashes than it promises.
-/

namespace VllmEcho

open Lib BlockPool List

variable {request : RequestView} {n f : Nat}

namespace SingleTypeKVCacheManager

variable {p p' : BlockPool} {l : List BlockRef} {O U : BlockRef → Nat}
  {m m' : SingleTypeKVCacheManager} {id : ReqId}

theorem blockHashesAt_length {hs : List BlockHash} {hbs bs : Nat} (hdvd : bs % hbs = 0)
    (hpos : 0 < bs) (hn : n / hbs ≤ hs.length) : n / bs ≤ (blockHashesAt hs hbs bs).length := by
  unfold blockHashesAt
  split <;> rename_i he
  · rw [he]
    exact hn
  · obtain ⟨k, rfl⟩ := Nat.dvd_of_mod_eq_zero hdvd
    have hhbs : 0 < hbs := Nat.pos_of_mul_pos_right hpos
    rw [length_map, length_range, Nat.mul_div_cancel_left k hhbs, ← Nat.div_div_eq_div_mul]
    exact Nat.div_le_div_right hn

structure Caches (p : BlockPool) (m : SingleTypeKVCacheManager) (request : RequestView) (f : Nat)
    (p' : BlockPool) (m' : SingleTypeKVCacheManager) : Prop where
  rowUpdate : RowUpdate request.requestId m m'
  blocks : m'.blocksOf request.requestId = m.blocksOf request.requestId
  cached : m'.numCached request.requestId = max (m.numCached request.requestId) f
  contains : m.numCachedBlock.contains request.requestId →
    m'.numCachedBlock.contains request.requestId
  lastState : m'.lastStateBlockIdx = m.lastStateBlockIdx
  allocated : m'.allocatedBlockReqs = m.allocatedBlockReqs
  frame : Frame p p'
  newHash : ∀ (i : Nat) (c : BlockRef), m.numCached request.requestId ≤ i → i < f →
    (m.blocksOf request.requestId)[i]? = some c → c ≠ p.nullBlock →
    ∃ k, (blockHashesAt request.blockHashes p.hashBlockSize m.blockSize)[i]? = some k ∧
      p'.hash c = some (makeBlockHashWithGroupId k m.kvCacheGroupId)
  oldHash : ∀ c, (∀ i, m.numCached request.requestId ≤ i → i < f →
    (m.blocksOf request.requestId)[i]? ≠ some c) → p'.hash c = p.hash c

/-- Caching never meets a block that has a hash; it fails only if hashes or sizes do not fit. -/
theorem cacheBlocksBase_spec (h : MgrInv p l O U m) (hen : p.enableCaching = true) :
    (∃ p' m', m.cacheBlocksBase p request n = .ok (p', m') ∧ MgrInv p' l O U m' ∧
      Caches p m request (n / m.blockSize) p' m') ∨ ∃ e, m.cacheBlocksBase p request n = .error e ∧
      e ≠ hashAssertion ∧
      ¬ (m.blockSize % p.hashBlockSize = 0 ∧ 0 < m.blockSize ∧ n ≤ request.numTokens ∧
        request.numTokens / p.hashBlockSize ≤ request.blockHashes.length) := by
  set id := request.requestId
  set f := n / m.blockSize
  unfold cacheBlocksBase
  by_cases hle : f ≤ m.numCached id
  · refine Or.inl ⟨p, m, by rw [if_pos hle], h, RowUpdate.refl _ m, rfl, ?_, fun hc => hc, rfl,
      rfl, Frame.refl p, ?_, fun _ _ => rfl⟩
    · exact (Nat.max_eq_left hle).symm
    · intro i c hi hif
      exact absurd (hi.trans_lt hif) (not_lt.mpr hle)
  rw [if_neg hle]
  unfold cacheFullBlocks
  rw [if_neg hle]
  by_cases hlen : f ≤ request.blockHashes.length
  swap
  · refine Or.inr ⟨.assertionError "len(request.block_hashes) >= num_full_blocks",
      ?_, by decide, ?_⟩
    · change (assertThat (decide (f ≤ _)) _ >>= _) >>= _ = _
      rw [decide_eq_false hlen]
      rfl
    rintro ⟨hdvd, hpos, hn, hhs⟩
    refine hlen (le_trans ?_ hhs)
    have hhbs : 0 < p.hashBlockSize ∧ p.hashBlockSize ≤ m.blockSize := by
      have hd := Nat.dvd_of_mod_eq_zero hdvd
      exact ⟨Nat.pos_of_dvd_of_pos hd hpos, Nat.le_of_dvd hpos hd⟩
    exact (Nat.div_le_div_right hn).trans (Nat.div_le_div_left hhbs.2 hhbs.1)
  by_cases hdvd : m.blockSize = p.hashBlockSize ∨ m.blockSize % p.hashBlockSize = 0
  swap
  · refine Or.inr ⟨.assertionError "block_size % self.hash_block_size == 0", ?_, by decide, ?_⟩
    · change (assertThat (decide (f ≤ _)) _ >>= fun _ => assertThat (decide _) _ >>= _) >>= _ = _
      rw [decide_eq_true hlen, decide_eq_false hdvd]
      rfl
    · exact fun hc => hdvd (Or.inr hc.1)
  set hs := blockHashesAt request.blockHashes p.hashBlockSize m.blockSize
  have hnf : m.numCached id ≤ f := by omega
  simp only [show n / m.blockSize ≤ _ from hlen, hdvd, decide_true, assertThat_true, ok_bind]
  rcases (h.row id).cache hen hnf m.kvCacheGroupId (hs.drop (m.numCached id)) with
    ⟨p', hok, hrow, hframe, hother, hkey⟩ | ⟨herr, hshort⟩
  · refine Or.inl ⟨p', (m.openBlocks id).setNumCached id f, ?_,
      h.ofRow ((rowUpdate_openBlocks m).trans (rowUpdate_setNumCached _ f)) hframe ?_ ?_,
      (rowUpdate_openBlocks m).trans (rowUpdate_setNumCached _ f), ?_, ?_, ?_, rfl, rfl,
      hframe, ?_, ?_⟩
    · rw [hok]
      rfl
    · rw [blocksOf_setNumCached, blocksOf_openBlocks, numCached_setNumCached]
      exact hrow
    · have ht := h.tables id
      exact ⟨by rw [blocksOf_setNumCached, blocksOf_openBlocks]; exact ht.nodup,
        by rw [blocksOf_setNumCached, blocksOf_openBlocks]; exact ht.last_lt,
        by rw [blocksOf_setNumCached, blocksOf_openBlocks]; exact ht.allocated⟩
    · rw [blocksOf_setNumCached, blocksOf_openBlocks]
    · rw [numCached_setNumCached, Nat.max_eq_right hnf]
    · intro _
      change (((m.openBlocks id).numCachedBlock.set id f).get? id).isSome = true
      rw [Dict.get?_set_self]
      rfl
    · intro i c hi hif hc hnull
      obtain ⟨j, rfl⟩ := Nat.exists_eq_add_of_le hi
      obtain ⟨k, hk, hhash⟩ := hkey j c
        (by rw [getElem?_drop, getElem?_take, if_pos hif]; exact hc) hnull
      exact ⟨k, by rwa [getElem?_drop] at hk, hhash⟩
    · intro c hc
      refine hother c fun hmem => ?_
      obtain ⟨j, hj⟩ := getElem?_of_mem hmem
      rw [getElem?_drop, getElem?_take] at hj
      split at hj <;> rename_i hjf
      · exact hc _ (Nat.le_add_right _ _) hjf hj
      · cases hj
  · refine Or.inr ⟨.indexError, ?_, by decide, ?_⟩
    · rw [herr]
      rfl
    · rintro ⟨hd, hpos, hn, hhs⟩
      have hfl : f ≤ hs.length := (Nat.div_le_div_right hn).trans
        (blockHashesAt_length hd hpos hhs)
      rw [length_drop, length_drop, length_take] at hshort
      omega

theorem newlyCachedHashes_ok (bs : List BlockRef)
    (hbs : ∀ b ∈ bs, (p.blocks b).isNull = false → p.hash b ≠ none) :
    ∃ hs, newlyCachedHashes p bs = .ok hs := by
  induction bs with
  | nil => exact ⟨[], rfl⟩
  | cons b bs ih =>
    obtain ⟨hs, hok⟩ := ih fun c hc => hbs c (mem_cons_of_mem b hc)
    rw [newlyCachedHashes]
    split
    · exact ⟨hs, hok⟩
    · rename_i hnull
      split
      · rename_i hnone
        exact absurd hnone (hbs b mem_cons_self (by simpa using hnull))
      · exact ⟨_, by rw [hok]; rfl⟩

theorem cacheBlocks_spec (h : MgrInv p l O U m) (hen : p.enableCaching = true) :
    (∃ p' m', m.cacheBlocks p request n = .ok (p', m') ∧ MgrInv p' l O U m' ∧
      Caches p m request (n / m.blockSize) p' m') ∨ ∃ e, m.cacheBlocks p request n = .error e ∧
      e ≠ hashAssertion ∧
      ¬ (m.blockSize % p.hashBlockSize = 0 ∧ 0 < m.blockSize ∧ n ≤ request.numTokens ∧
        request.numTokens / p.hashBlockSize ≤ request.blockHashes.length) := by
  cases hkind : m.kvCacheSpec.kind with
  | mamba mode s =>
    simp only [cacheBlocks, hkind]
    rcases cacheBlocksBase_spec h hen with ⟨p', m', hok, hinv, hc⟩ | ⟨e, herr, hne, hnot⟩
    · rw [hok]
      simp only [ok_bind]
      split <;> rename_i hlt
      · obtain ⟨hs, hhs⟩ := newlyCachedHashes_ok
          (((m'.blocksOf request.requestId).take (m'.numCached request.requestId)).drop
            (m.numCached request.requestId)) (by
            intro b hb hnull
            obtain ⟨j, hj⟩ := getElem?_of_mem hb
            rw [getElem?_drop, getElem?_take, hc.cached] at hj
            split at hj <;> rename_i hjf
            · have hbn : b ≠ p.nullBlock := fun he => by
                have := (hinv.core.isNull_iff b).mpr (he.trans hc.frame.nullBlock.symm)
                rw [hnull] at this
                cases this
              obtain ⟨k, -, hk⟩ := hc.newHash _ b (Nat.le_add_right _ _) (by omega)
                (hc.blocks ▸ hj) hbn
              rw [hk]
              exact Option.some_ne_none _
            · cases hj)
        rw [hhs]
        refine Or.inl ⟨p', { m' with cachedBlocksThisStep := m'.cachedBlocksThisStep ++ hs }, rfl,
          ⟨hinv.core, hinv.free, hinv.le, fun id => ?_⟩, ?_⟩
        · have ht := hinv.tables id
          exact ⟨ht.nodup, ht.last_lt, ht.allocated⟩
        · exact ⟨⟨hc.rowUpdate.1, hc.rowUpdate.2, hc.rowUpdate.3, hc.rowUpdate.4, hc.rowUpdate.5,
            hc.rowUpdate.6⟩, hc.blocks, hc.cached, hc.contains, hc.lastState, hc.allocated,
            hc.frame,
            hc.newHash, hc.oldHash⟩
      · exact Or.inl ⟨p', m', rfl, hinv, hc⟩
    · rw [herr]
      exact Or.inr ⟨e, rfl, hne, hnot⟩
  | _ =>
    simp only [cacheBlocks, hkind]
    exact cacheBlocksBase_spec h hen

theorem Caches.keepsHash (h : Caches p m request f p' m') (hm : MgrInv p l O U m) {c : BlockRef}
    {k : BlockHashWithGroupId} (hk : p.hash c = some k) : p'.hash c = some k := by
  rw [h.oldHash c, hk]
  intro i hi _ hc
  have hne := (hm.core.hashed hk).1
  have hmem : c ∈ m.uncached request.requestId := by
    refine mem_of_getElem? (i := i - m.numCached request.requestId) ?_
    rw [uncached, getElem?_drop, Nat.add_sub_cancel' hi]
    exact hc
  have hpos : 0 < U c + m.unc c := by
    rw [m.unc_eq request.requestId c]
    have := count_pos_iff.mpr hmem
    omega
  rw [hm.core.unc_hash c hne hpos] at hk
  cases hk

theorem Caches.settled (h : Caches p m request f p' m') (hset : ∀ id, m.Settled id)
    (hguard : ∀ s, m.kvCacheSpec.alignSpeculativeBlocks = some s →
      f ≤ m.numCached request.requestId ∨ f + s ≤ (m.blocksOf request.requestId).length)
    (id : ReqId) : m'.Settled id := by
  by_cases hi : id = request.requestId
  · subst hi
    intro s hs
    rw [h.rowUpdate.spec] at hs
    rw [h.blocks, h.cached]
    rcases hset request.requestId s hs with hle | ⟨hnil, hzero⟩
    · rcases hguard s hs with hf | hf
      · exact Or.inl (by rw [Nat.max_eq_left hf]; exact hle)
      · exact Or.inl (by omega)
    · rcases hguard s hs with hf | hf
      · exact Or.inr ⟨hnil, by omega⟩
      · rw [hnil, length_nil] at hf
        exact Or.inr ⟨hnil, by omega⟩
  · exact (hset id).ofRow h.rowUpdate hi

end SingleTypeKVCacheManager

end VllmEcho
