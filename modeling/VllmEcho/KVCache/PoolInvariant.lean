import VllmEcho.KVCache.BlockPool

/-!
# What the pool operations keep

`CoreInv` ties reference counts, hashes and the cache map to two counts given from outside: how
often a block occurs in the tables of all managers, and how often it occurs there at an index that
is not cached yet.  `FreeInv` says which blocks the free queue holds, in which order.  Each pool
operation gets one lemma that gives its result and carries both through.
-/

namespace VllmEcho

open Lib List BlockHashToBlockMap

variable {occ' : BlockRef → Nat} (p : BlockPool) {unc' : BlockRef → Nat}

namespace BlockPool

structure Frame (p' : BlockPool) : Prop where
  numGpuBlocks : p'.numGpuBlocks = p.numGpuBlocks
  enableCaching : p'.enableCaching = p.enableCaching
  hashBlockSize : p'.hashBlockSize = p.hashBlockSize
  nullBlock : p'.nullBlock = p.nullBlock

theorem Frame.refl : Frame p p := ⟨rfl, rfl, rfl, rfl⟩

theorem Frame.trans {p q r : BlockPool} (h₁ : Frame p q) (h₂ : Frame q r) : Frame p r :=
  ⟨h₂.1.trans h₁.1, h₂.2.trans h₁.2, h₂.3.trans h₁.3, h₂.4.trans h₁.4⟩

def hash (b : BlockRef) : Option BlockHashWithGroupId := (p.blocks b).blockHash

variable {p p' : BlockPool} {occ unc : BlockRef → Nat} {l : List BlockRef}

structure CoreInv (p : BlockPool) (occ unc : BlockRef → Nat) : Prop where
  isNull_iff : ∀ b, (p.blocks b).isNull = true ↔ b = p.nullBlock
  null_lt : p.nullBlock < p.numGpuBlocks
  refCnt_eq : ∀ b, b ≠ p.nullBlock → (p.blocks b).refCnt = occ b
  used_lt : ∀ b, b ≠ p.nullBlock → 0 < occ b → b < p.numGpuBlocks
  unc_le : ∀ b, b ≠ p.nullBlock → unc b ≤ occ b
  unc_le_one : ∀ b, b ≠ p.nullBlock → unc b ≤ 1
  unc_hash : ∀ b, b ≠ p.nullBlock → 0 < unc b → p.hash b = none
  null_hash : p.hash p.nullBlock = none
  cache_wf : p.cachedBlockHashToBlock.Wf
  cache_exact : ∀ k b, b ∈ p.cachedBlockHashToBlock.blocksAt k ↔ p.hash b = some k
  hashed_lt : ∀ b k, p.hash b = some k → b < p.numGpuBlocks
  caching_off : p.enableCaching = false → ∀ b, p.hash b = none

structure FreeInv (p : BlockPool) (occ : BlockRef → Nat) (l : List BlockRef) : Prop where
  head_eq : p.freeBlockQueue.fakeFreeListHead = p.numGpuBlocks
  tail_eq : p.freeBlockQueue.fakeFreeListTail = p.numGpuBlocks + 1
  holds : p.freeBlockQueue.Holds l
  numFree_eq : p.freeBlockQueue.numFreeBlocks = l.length
  mem_iff : ∀ b, b ∈ l ↔ b < p.numGpuBlocks ∧ b ≠ p.nullBlock ∧ occ b = 0

theorem FreeInv.nodup (h : FreeInv p occ l) : l.Nodup := Links.Repr.list_nodup h.holds

def queueOrder (p : BlockPool) : List BlockRef :=
  p.freeBlockQueue.links.walk p.freeBlockQueue.fakeFreeListTail
    (p.getNumFreeBlocks.toNat + 1) (p.freeBlockQueue.links.next p.freeBlockQueue.fakeFreeListHead)

theorem FreeInv.queueOrder_eq (h : FreeInv p occ l) : p.queueOrder = l := by
  have hnum : p.getNumFreeBlocks.toNat = l.length := by
    rw [getNumFreeBlocks, h.numFree_eq, Int.toNat_natCast]
  exact h.holds.walk_eq (hnum ▸ Nat.lt_succ_self _)

theorem CoreInv.mono (h : CoreInv p occ unc) (hocc : ∀ b, b ≠ p.nullBlock → occ' b = occ b)
    (hunc : ∀ b, b ≠ p.nullBlock → unc' b ≤ unc b) : CoreInv p occ' unc' where
  isNull_iff := h.isNull_iff
  null_lt := h.null_lt
  refCnt_eq b hb := by rw [hocc b hb, h.refCnt_eq b hb]
  used_lt b hb := by rw [hocc b hb]; exact h.used_lt b hb
  unc_le b hb := by rw [hocc b hb]; exact (hunc b hb).trans (h.unc_le b hb)
  unc_le_one b hb := (hunc b hb).trans (h.unc_le_one b hb)
  unc_hash b hb hpos := h.unc_hash b hb (lt_of_lt_of_le hpos (hunc b hb))
  null_hash := h.null_hash
  cache_wf := h.cache_wf
  cache_exact := h.cache_exact
  hashed_lt := h.hashed_lt
  caching_off := h.caching_off

theorem FreeInv.congr (h : FreeInv p occ l) (hocc : ∀ b, b ≠ p.nullBlock → occ' b = occ b) :
    FreeInv p occ' l where
  head_eq := h.head_eq
  tail_eq := h.tail_eq
  holds := h.holds
  numFree_eq := h.numFree_eq
  mem_iff b := by
    rw [h.mem_iff b]
    constructor
    · rintro ⟨h1, h2, h3⟩
      exact ⟨h1, h2, by rw [hocc b h2]; exact h3⟩
    · rintro ⟨h1, h2, h3⟩
      exact ⟨h1, h2, by rw [← hocc b h2]; exact h3⟩

/-! ## Single assignments -/

section

variable (p : BlockPool)

section

variable (b c : BlockRef) (d : Int)

@[simp] theorem hash_addRef : (p.addRef b d).hash c = p.hash c := by
  unfold hash addRef
  by_cases hc : c = b
  · subst hc
    simp
  · simp [hc]

@[simp] theorem isNull_addRef : ((p.addRef b d).blocks c).isNull = (p.blocks c).isNull := by
  unfold addRef
  by_cases hc : c = b
  · subst hc
    simp
  · simp [hc]

theorem refCnt_addRef :
    ((p.addRef b d).blocks c).refCnt = (p.blocks c).refCnt + if c = b then d else 0 := by
  unfold addRef
  by_cases hc : c = b
  · subst hc
    simp
  · simp [hc]

variable (k : Option BlockHashWithGroupId)

@[simp] theorem hash_setHash : (p.setHash b k).hash c = if c = b then k else p.hash c := by
  unfold hash setHash
  by_cases hc : c = b
  · subst hc
    simp
  · simp [hc]

@[simp] theorem isNull_setHash : ((p.setHash b k).blocks c).isNull = (p.blocks c).isNull := by
  unfold setHash
  by_cases hc : c = b
  · subst hc
    simp
  · simp [hc]

@[simp] theorem refCnt_setHash : ((p.setHash b k).blocks c).refCnt = (p.blocks c).refCnt := by
  unfold setHash
  by_cases hc : c = b
  · subst hc
    simp
  · simp [hc]

end

theorem frame_addRef (b : BlockRef) (d : Int) : Frame p (p.addRef b d) :=
  ⟨rfl, rfl, rfl, rfl⟩

end

section

variable (h : CoreInv p occ unc)
include h

/-- The invariant from a description of what has changed. -/
theorem CoreInv.transfer (hf : Frame p p') (hnull : ∀ c, (p'.blocks c).isNull = (p.blocks c).isNull)
    (href : ∀ c, c ≠ p.nullBlock → (p'.blocks c).refCnt = occ' c)
    (hused : ∀ c, c ≠ p.nullBlock → 0 < occ' c → c < p.numGpuBlocks) (hunc : ∀ c, c ≠ p.nullBlock →
      unc' c ≤ occ' c ∧ unc' c ≤ 1 ∧ (0 < unc' c → p'.hash c = none))
    (hhash : ∀ c k, p'.hash c = some k →
      c ≠ p.nullBlock ∧ c < p.numGpuBlocks ∧ p.enableCaching = true)
    (hwf : p'.cachedBlockHashToBlock.Wf)
    (hexact : ∀ k b, b ∈ p'.cachedBlockHashToBlock.blocksAt k ↔ p'.hash b = some k) :
    CoreInv p' occ' unc' where
  isNull_iff c := by rw [hnull c, hf.nullBlock]; exact h.isNull_iff c
  null_lt := by rw [hf.nullBlock, hf.numGpuBlocks]; exact h.null_lt
  refCnt_eq c hc := href c (by rwa [hf.nullBlock] at hc)
  used_lt c hc hpos := by
    rw [hf.numGpuBlocks]
    exact hused c (by rwa [hf.nullBlock] at hc) hpos
  unc_le c hc := (hunc c (by rwa [hf.nullBlock] at hc)).1
  unc_le_one c hc := (hunc c (by rwa [hf.nullBlock] at hc)).2.1
  unc_hash c hc := (hunc c (by rwa [hf.nullBlock] at hc)).2.2
  null_hash := by
    rw [hf.nullBlock, Option.eq_none_iff_forall_ne_some]
    exact fun k hk => (hhash _ k hk).1 rfl
  cache_wf := hwf
  cache_exact := hexact
  hashed_lt c k hk := by rw [hf.numGpuBlocks]; exact (hhash c k hk).2.1
  caching_off hoff c := by
    rw [Option.eq_none_iff_forall_ne_some]
    intro k hk
    rw [hf.enableCaching, (hhash c k hk).2.2] at hoff
    cases hoff

theorem CoreInv.hashed {c : BlockRef} {k : BlockHashWithGroupId} (hk : p.hash c = some k) :
    c ≠ p.nullBlock ∧ c < p.numGpuBlocks ∧ p.enableCaching = true := by
  refine ⟨?_, h.hashed_lt c k hk, ?_⟩
  · rintro rfl
    rw [h.null_hash] at hk
    cases hk
  · by_contra hoff
    rw [h.caching_off (by simpa using hoff) c] at hk
    cases hk

/-! ## Eviction and allocation -/

theorem hash_maybeEvictCachedBlock (b c : BlockRef) :
    (p.maybeEvictCachedBlock b).1.hash c = if c = b then none else p.hash c := by
  unfold maybeEvictCachedBlock
  split <;> rename_i hb
  · by_cases hc : c = b
    · subst hc
      rw [if_pos rfl]
      exact hb
    · simp [hc]
  · rename_i k
    have hfound : (p.cachedBlockHashToBlock.pop k b).2 = true :=
      (pop_found k).mpr ((h.cache_exact k b).mpr hb)
    simp only [hfound, if_true]
    exact hash_setHash p b c none

theorem maybeEvictCachedBlock_spec (b : BlockRef) :
    CoreInv (p.maybeEvictCachedBlock b).1 occ unc ∧ Frame p (p.maybeEvictCachedBlock b).1 ∧
      (p.maybeEvictCachedBlock b).1.freeBlockQueue = p.freeBlockQueue := by
  have hhash := hash_maybeEvictCachedBlock h b
  revert hhash
  unfold maybeEvictCachedBlock
  split <;> rename_i hb
  · exact fun _ => ⟨h, Frame.refl p, rfl⟩
  rename_i k
  have hfound : (p.cachedBlockHashToBlock.pop k b).2 = true :=
    (pop_found k).mpr ((h.cache_exact k b).mpr hb)
  simp only [hfound, if_true]
  intro hhash
  refine ⟨h.transfer ⟨rfl, rfl, rfl, rfl⟩ (isNull_setHash p b · none) ?_ h.used_lt ?_ ?_
    (pop_wf h.cache_wf) ?_, ⟨rfl, rfl, rfl, rfl⟩, rfl⟩
  · exact fun c hc => (refCnt_setHash p b c none).trans (h.refCnt_eq c hc)
  · intro c hc
    refine ⟨h.unc_le c hc, h.unc_le_one c hc, fun hpos => ?_⟩
    rw [hhash c, h.unc_hash c hc hpos, ite_self]
  · intro c k' hk
    rw [hhash c] at hk
    split at hk
    · cases hk
    · exact h.hashed hk
  intro k' c
  rw [hhash c]
  change c ∈ (p.cachedBlockHashToBlock.pop k b).1.blocksAt k' ↔ _
  rw [mem_blocksAt_pop h.cache_wf, h.cache_exact]
  by_cases hc : c = b
  · subst hc
    have hk : p.hash c = some k := hb
    simp only [hk, Option.some.injEq, and_true, if_true, reduceCtorEq, iff_false, not_and,
      not_not]
    exact Eq.symm
  · simp [hc]

/-- One popped block loses its hash and gets a reference. -/
theorem allocStep_spec {b : BlockRef} (hlt : b < p.numGpuBlocks)
    (hnull : b ≠ p.nullBlock) (hfree : occ b = 0) :
    ∃ q, q = (if p.enableCaching then (p.maybeEvictCachedBlock b).1 else p) ∧
      (q.blocks b).refCnt = 0 ∧ CoreInv (q.addRef b 1) (fun c => occ c + if c = b then 1 else 0)
        (fun c => unc c + if c = b then 1 else 0) ∧
      Frame p (q.addRef b 1) ∧ (q.addRef b 1).freeBlockQueue = p.freeBlockQueue ∧
      ∀ c, (q.addRef b 1).hash c = if c = b then none else p.hash c := by
  obtain ⟨q, hq, hcore, hframe, hqueue, hhash⟩ : ∃ q,
      q = (if p.enableCaching then (p.maybeEvictCachedBlock b).1 else p) ∧
      CoreInv q occ unc ∧ Frame p q ∧ q.freeBlockQueue = p.freeBlockQueue ∧
      ∀ c, q.hash c = if c = b then none else p.hash c := by
    cases hen : p.enableCaching with
    | true =>
      obtain ⟨h1, h2, h3⟩ := maybeEvictCachedBlock_spec h b
      exact ⟨_, rfl, h1, h2, h3, hash_maybeEvictCachedBlock h b⟩
    | false =>
      refine ⟨p, rfl, h, Frame.refl p, rfl, fun c => ?_⟩
      rw [h.caching_off hen c, ite_self]
  have hnull' : b ≠ q.nullBlock := by rw [hframe.nullBlock]; exact hnull
  have hunc : unc b = 0 := by
    have := h.unc_le b hnull
    omega
  have href : (q.blocks b).refCnt = 0 := by rw [hcore.refCnt_eq b hnull', hfree]; rfl
  have hhash' : ∀ c, (q.addRef b 1).hash c = if c = b then none else p.hash c :=
    fun c => by rw [hash_addRef, hhash c]
  refine ⟨q, hq, href, ?_, hframe.trans (frame_addRef q b 1), hqueue, hhash'⟩
  refine hcore.transfer (frame_addRef q b 1) (isNull_addRef q b · 1) ?_ ?_ ?_ ?_ hcore.cache_wf ?_
  · intro c hc
    rw [refCnt_addRef, hcore.refCnt_eq c hc]
    split <;> simp
  · intro c hc hpos
    by_cases hcb : c = b
    · rw [hcb, hframe.numGpuBlocks]
      exact hlt
    · simp only [if_neg hcb, Nat.add_zero] at hpos
      exact hcore.used_lt c hc hpos
  · intro c hc
    have hle := hcore.unc_le c hc
    by_cases hcb : c = b
    · subst hcb
      simp [hunc, hhash', hfree]
    · simp only [if_neg hcb, Nat.add_zero, hash_addRef]
      exact ⟨hle, hcore.unc_le_one c hc, hcore.unc_hash c hc⟩
  · exact fun c k hk => hcore.hashed (by rwa [hash_addRef] at hk)
  · exact fun k c => by rw [hash_addRef]; exact hcore.cache_exact k c

end

theorem allocLoop_spec (xs : List BlockRef) (h : CoreInv p occ unc) (hnd : xs.Nodup)
    (hxs : ∀ b ∈ xs, b < p.numGpuBlocks ∧ b ≠ p.nullBlock ∧ occ b = 0) :
    ∃ p', p.allocLoop xs = .ok p' ∧
      CoreInv p' (fun c => occ c + xs.count c) (fun c => unc c + xs.count c) ∧ Frame p p' ∧
      p'.freeBlockQueue = p.freeBlockQueue ∧
      ∀ c, p'.hash c = if c ∈ xs then none else p.hash c := by
  induction xs generalizing p occ unc with
  | nil => exact ⟨p, rfl, by simpa using h, Frame.refl p, rfl, by simp⟩
  | cons b xs ih =>
    rw [nodup_cons] at hnd
    obtain ⟨hlt, hnull, hfree⟩ := hxs b mem_cons_self
    obtain ⟨q, hq, href, hcore, hframe, hqueue, hhash⟩ := allocStep_spec h hlt hnull hfree
    obtain ⟨p', hok, hcore', hframe', hqueue', hhash'⟩ := ih hcore hnd.2 (by
      intro c hc
      obtain ⟨h1, h2, h3⟩ := hxs c (mem_cons_of_mem b hc)
      have hcb : c ≠ b := fun he => hnd.1 (he ▸ hc)
      refine ⟨by rw [hframe.numGpuBlocks]; exact h1, by rw [hframe.nullBlock]; exact h2, ?_⟩
      simp [hcb, h3])
    refine ⟨p', ?_, hcore'.mono ?_ ?_, hframe.trans hframe', hqueue'.trans hqueue, ?_⟩
    · rw [allocLoop, ← hq]
      simp only [href, decide_true, assertThat_true, ok_bind, hok]
    · intro c _
      by_cases hcb : c = b
      · subst hcb
        simp
        omega
      · simp [hcb, Ne.symm hcb]
    · intro c _
      by_cases hcb : c = b
      · subst hcb
        simp
        omega
      · simp [hcb, Ne.symm hcb]
    · intro c
      rw [hhash' c, hhash c]
      by_cases hcb : c = b <;> simp [hcb]

/-- `get_new_blocks` takes the first blocks of the free queue and clears their hashes. -/
theorem getNewBlocks_spec (h : CoreInv p occ unc) (hf : FreeInv p occ l) {n : Nat}
    (hn : n ≤ l.length) : ∃ p', p.getNewBlocks n = .ok (p', l.take n) ∧
      CoreInv p' (fun c => occ c + (l.take n).count c) (fun c => unc c + (l.take n).count c) ∧
      FreeInv p' (fun c => occ c + (l.take n).count c) (l.drop n) ∧ Frame p p' ∧
      ∀ c, p'.hash c = if c ∈ l.take n then none else p.hash c := by
  have hlen : (l.take n).length = n := length_take_of_le hn
  have hsplit : p.freeBlockQueue.Holds (l.take n ++ l.drop n) := by
    rw [take_append_drop]
    exact hf.holds
  obtain ⟨q, hpop, hq, hhead, htail, hfree⟩ := FreeKVCacheBlockQueue.popleftN_eq hsplit (by
    rw [hlen, hf.numFree_eq]
    exact_mod_cast hn)
  rw [hlen] at hpop hfree
  have hnd : (l.take n).Nodup := hf.nodup.sublist (take_sublist n l)
  -- The queue is replaced first, which the core facts do not look at.
  have hcore : CoreInv { p with freeBlockQueue := q } occ unc :=
    ⟨h.1, h.2, h.3, h.4, h.5, h.6, h.7, h.8, h.9, h.10, h.11, h.12⟩
  obtain ⟨p', hok, hcore', hframe, hqueue, hhash⟩ := allocLoop_spec (l.take n) hcore hnd
    (fun b hb => (hf.mem_iff b).mp (mem_of_mem_take hb))
  refine ⟨p', ?_, hcore', ⟨?_, ?_, ?_, ?_, ?_⟩, ⟨hframe.1, hframe.2, hframe.3, hframe.4⟩, hhash⟩
  · unfold getNewBlocks getNumFreeBlocks
    rw [if_neg (by rw [hf.numFree_eq]; omega), hpop]
    simp only [ok_bind, hok, pure_eq_ok]
  · rw [hqueue, hframe.numGpuBlocks]
    exact hhead.trans hf.head_eq
  · rw [hqueue, hframe.numGpuBlocks]
    exact htail.trans hf.tail_eq
  · rw [hqueue]
    exact hq
  · rw [hqueue]
    change q.numFreeBlocks = _
    rw [hfree, hf.numFree_eq, length_drop]
    omega
  intro b
  rw [hframe.numGpuBlocks, hframe.nullBlock]
  change b ∈ l.drop n ↔ b < p.numGpuBlocks ∧ b ≠ p.nullBlock ∧ occ b + (l.take n).count b = 0
  have hdisj : b ∈ l.drop n → b ∉ l.take n := fun hd ht =>
    (nodup_append.mp (by rw [take_append_drop]; exact hf.nodup)).2.2 b ht b hd rfl
  constructor
  · intro hb
    obtain ⟨h1, h2, h3⟩ := (hf.mem_iff b).mp (mem_of_mem_drop hb)
    exact ⟨h1, h2, by rw [h3, count_eq_zero_of_not_mem (hdisj hb)]⟩
  rintro ⟨h1, h2, h3⟩
  have hmem : b ∈ l.take n ++ l.drop n := by
    rw [take_append_drop]
    exact (hf.mem_iff b).mpr ⟨h1, h2, by omega⟩
  rcases mem_append.mp hmem with ht | hd
  · have := count_pos_iff.mpr ht
    omega
  · exact hd

theorem getNewBlocks_short (hf : FreeInv p occ l) {n : Int} (hn : (l.length : Int) < n) :
    ∃ msg, p.getNewBlocks n = .error (.valueError msg) := by
  unfold getNewBlocks getNumFreeBlocks
  rw [hf.numFree_eq, if_pos hn]
  exact ⟨_, rfl⟩

end BlockPool

end VllmEcho
