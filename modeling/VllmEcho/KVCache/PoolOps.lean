import VllmEcho.KVCache.PoolInvariant

/-!
# Touching, freeing, caching and evicting blocks

The remaining pool operations, each with its effect on the counts, the hashes and the order of the
free queue.
-/

namespace VllmEcho

open Lib List FreeKVCacheBlockQueue BlockHashToBlockMap

variable (bs : List BlockRef) {b : BlockRef}

namespace BlockPool

variable {p p' : BlockPool} {occ unc : BlockRef → Nat} {l : List BlockRef}

theorem CoreInv.addRef (h : CoreInv p occ unc) {b : BlockRef} (hlt : b < p.numGpuBlocks) :
    CoreInv (p.addRef b 1) (fun c => occ c + if c = b then 1 else 0) unc := by
  refine h.transfer (frame_addRef p b 1) (isNull_addRef p b · 1) ?_ ?_ ?_ ?_ h.cache_wf ?_
  · intro c hc
    rw [refCnt_addRef, h.refCnt_eq c hc]
    split <;> simp
  · intro c hc hpos
    by_cases hcb : c = b
    · rw [hcb]
      exact hlt
    · simp only [if_neg hcb, Nat.add_zero] at hpos
      exact h.used_lt c hc hpos
  · intro c hc
    rw [hash_addRef]
    exact ⟨(h.unc_le c hc).trans (Nat.le_add_right _ _), h.unc_le_one c hc, h.unc_hash c hc⟩
  · exact fun c k hk => h.hashed (by rwa [hash_addRef] at hk)
  · exact fun k c => by rw [hash_addRef]; exact h.cache_exact k c

theorem filter_ne_append {xs ys : List BlockRef} (hnd : (xs ++ b :: ys).Nodup) :
    (xs ++ b :: ys).filter (· ≠ b) = xs ++ ys := by
  have hb := nodup_middle.mp hnd
  rw [nodup_cons, mem_append, not_or] at hb
  rw [filter_append, filter_cons_of_neg (by simp), filter_ne_self hb.1.1, filter_ne_self hb.1.2]

theorem touchStep_spec (h : CoreInv p occ unc) (hf : FreeInv p occ l) (hlt : b < p.numGpuBlocks) :
    ∃ q, CoreInv q (fun c => occ c + if c = b then 1 else 0) unc ∧
      FreeInv q (fun c => occ c + if c = b then 1 else 0) (l.filter (· ≠ b)) ∧ Frame p q ∧
      (∀ c, q.hash c = p.hash c) ∧ ∀ bs, p.touch (b :: bs) = q.touch bs := by
  by_cases hfree : (p.blocks b).refCnt = 0 ∧ (p.blocks b).isNull = false
  · have hnull : b ≠ p.nullBlock := fun he => by
      have := (h.isNull_iff b).mpr he
      rw [hfree.2] at this
      cases this
    have hocc : occ b = 0 := by
      have := h.refCnt_eq b hnull
      omega
    obtain ⟨xs, ys, rfl⟩ := append_of_mem ((hf.mem_iff b).mpr ⟨hlt, hnull, hocc⟩)
    obtain ⟨queue, hrem, hq, hhead, htail, hnum⟩ := remove_eq hf.holds
    have hcore : CoreInv { p with freeBlockQueue := queue } occ unc :=
      ⟨h.1, h.2, h.3, h.4, h.5, h.6, h.7, h.8, h.9, h.10, h.11, h.12⟩
    have hfil := filter_ne_append hf.nodup
    refine ⟨_, hcore.addRef hlt, ⟨hhead.trans hf.head_eq, htail.trans hf.tail_eq, ?_, ?_, ?_⟩,
      ⟨rfl, rfl, rfl, rfl⟩, fun c => hash_addRef _ b c 1, fun bs => ?_⟩
    · rw [hfil]
      exact hq
    · change queue.numFreeBlocks = _
      rw [hnum, hf.numFree_eq, hfil]
      simp only [length_append, length_cons]
      omega
    · intro c
      change _ ↔ c < p.numGpuBlocks ∧ c ≠ p.nullBlock ∧ _
      rw [mem_filter, hf.mem_iff c]
      by_cases hcb : c = b <;> simp [hcb]
    · rw [touch, if_pos hfree, hrem]
      rfl
  · have hused : b ≠ p.nullBlock → occ b ≠ 0 := by
      intro hnull hocc
      refine hfree ⟨by rw [h.refCnt_eq b hnull, hocc]; rfl, ?_⟩
      rw [Bool.eq_false_iff, ne_eq, h.isNull_iff]
      exact hnull
    have hkeep : l.filter (· ≠ b) = l := by
      apply filter_ne_self
      intro hb
      obtain ⟨-, hnull, hocc⟩ := (hf.mem_iff b).mp hb
      exact hused hnull hocc
    refine ⟨_, h.addRef hlt, ⟨hf.head_eq, hf.tail_eq, ?_, ?_, ?_⟩, frame_addRef p b 1,
      fun c => hash_addRef p b c 1, fun bs => ?_⟩
    · rw [hkeep]
      exact hf.holds
    · rw [hkeep]
      exact hf.numFree_eq
    · intro c
      rw [hkeep, hf.mem_iff c]
      by_cases hcb : c = b
      · subst hcb
        have hnot : ¬ (c < p.numGpuBlocks ∧ c ≠ p.nullBlock ∧ occ c = 0) :=
          fun hc => hused hc.2.1 hc.2.2
        simp [hnot]
      · simp only [if_neg hcb, Nat.add_zero]
        exact Iff.rfl
    · rw [touch, if_neg hfree]

/-- `touch` adds references and takes unused blocks out of the free queue. -/
theorem touch_spec (h : CoreInv p occ unc) (hf : FreeInv p occ l)
    (hlt : ∀ b ∈ bs, b < p.numGpuBlocks) :
    ∃ p', p.touch bs = .ok p' ∧ CoreInv p' (fun c => occ c + bs.count c) unc ∧
      FreeInv p' (fun c => occ c + bs.count c) (l.filter (· ∉ bs)) ∧ Frame p p' ∧
      ∀ c, p'.hash c = p.hash c := by
  induction bs generalizing p occ l with
  | nil =>
    refine ⟨p, rfl, by simpa using h, ?_, Frame.refl p, fun _ => rfl⟩
    simpa using hf
  | cons b bs ih =>
    obtain ⟨q, hcore, hfree, hframe, hhash, hstep⟩ := touchStep_spec h hf (hlt b mem_cons_self)
    obtain ⟨p', hok, hcore', hfree', hframe', hhash'⟩ := ih hcore hfree (by
      intro c hc
      rw [hframe.numGpuBlocks]
      exact hlt c (mem_cons_of_mem b hc))
    have hcount : ∀ c, occ c + (b :: bs).count c =
        occ c + (if c = b then 1 else 0) + bs.count c := by
      intro c
      by_cases hcb : c = b
      · simp [hcb]
        omega
      · simp [hcb, Ne.symm hcb]
    refine ⟨p', (hstep bs).trans hok, hcore'.mono (fun c _ => hcount c) (fun _ _ => le_rfl), ?_,
      hframe.trans hframe', fun c => (hhash' c).trans (hhash c)⟩
    have hfil : l.filter (· ∉ b :: bs) = (l.filter (· ≠ b)).filter (· ∉ bs) := by
      rw [filter_filter]
      refine filter_congr fun c _ => ?_
      simp only [mem_cons, not_or, ne_eq, decide_not, Bool.decide_and, Bool.and_comm]
    rw [hfil]
    exact hfree'.congr fun c _ => hcount c

/-! ## Freeing -/

theorem dropRefs_effect (p : BlockPool) :
    Frame p (p.dropRefs bs) ∧ (p.dropRefs bs).freeBlockQueue = p.freeBlockQueue ∧
      (p.dropRefs bs).cachedBlockHashToBlock = p.cachedBlockHashToBlock ∧
      (∀ c, (p.dropRefs bs).hash c = p.hash c) ∧
      (∀ c, ((p.dropRefs bs).blocks c).isNull = (p.blocks c).isNull) ∧
      ∀ c, ((p.dropRefs bs).blocks c).refCnt = (p.blocks c).refCnt - bs.count c := by
  induction bs generalizing p with
  | nil =>
    exact ⟨Frame.refl p, rfl, rfl, fun _ => rfl, fun _ => rfl, fun c => by simp [dropRefs]⟩
  | cons b bs ih =>
    obtain ⟨h1, h2, h3, h4, h5, h6⟩ := ih (p.addRef b (-1))
    refine ⟨(frame_addRef p b (-1)).trans h1, h2, h3, fun c => (h4 c).trans (hash_addRef p b c _),
      fun c => (h5 c).trans (isNull_addRef p b c _), fun c => ?_⟩
    change (((p.addRef b (-1)).dropRefs bs).blocks c).refCnt = _
    rw [h6 c, refCnt_addRef]
    by_cases hcb : c = b
    · simp [hcb]
      omega
    · simp [hcb, Ne.symm hcb]

/-- `free_blocks` appends the blocks whose last holder is gone, in the order given.  A block listed
twice would be appended twice, so the real blocks of the list have to be distinct. -/
theorem freeBlocks_spec (occ' unc' : BlockRef → Nat) (h : CoreInv p occ unc) (hf : FreeInv p occ l)
    (hocc : ∀ b, b ≠ p.nullBlock → occ b = occ' b + bs.count b)
    (hunc : ∀ b, b ≠ p.nullBlock → unc' b ≤ unc b ∧ unc' b ≤ occ' b)
    (hnd : (bs.filter (· ≠ p.nullBlock)).Nodup) :
    ∃ p', p.freeBlocks bs = .ok p' ∧ CoreInv p' occ' unc' ∧
      FreeInv p' occ' (l ++ bs.filter fun b => decide (b ≠ p.nullBlock ∧ occ' b = 0)) ∧
      Frame p p' ∧ (∀ c, p'.hash c = p.hash c) ∧
      p'.cachedBlockHashToBlock = p.cachedBlockHashToBlock := by
  obtain ⟨hframe, hqueue, hmap, hhash, hnull, href⟩ := dropRefs_effect bs p
  have href' : ∀ b, b ≠ p.nullBlock → ((p.dropRefs bs).blocks b).refCnt = occ' b := by
    intro b hb
    rw [href b, h.refCnt_eq b hb, hocc b hb]
    omega
  have hfil : (bs.filter fun b => decide (((p.dropRefs bs).blocks b).refCnt = 0) &&
      !((p.dropRefs bs).blocks b).isNull) =
      bs.filter fun b => decide (b ≠ p.nullBlock ∧ occ' b = 0) := by
    refine filter_congr fun b _ => ?_
    by_cases hb : b = p.nullBlock
    · have : ((p.dropRefs bs).blocks b).isNull = true := by rw [hnull, h.isNull_iff]; exact hb
      simp [this, show ¬ (b ≠ p.nullBlock ∧ occ' b = 0) from fun hc => hc.1 hb]
    · have : ((p.dropRefs bs).blocks b).isNull = false := by
        rw [hnull, Bool.eq_false_iff, ne_eq, h.isNull_iff]
        exact hb
      simp [this, hb, href' b hb]
  have hfreed : ∀ b, b ∈ bs.filter (fun b => decide (b ≠ p.nullBlock ∧ occ' b = 0)) ↔
      b ∈ bs ∧ b ≠ p.nullBlock ∧ occ' b = 0 := fun b => by simp [mem_filter]
  have hlt : ∀ b ∈ bs, b ≠ p.nullBlock → 0 < occ b ∧ b < p.numGpuBlocks := by
    intro b hb hbn
    have hpos : 0 < bs.count b := count_pos_iff.mpr hb
    have hocc0 : 0 < occ b := by rw [hocc b hbn]; omega
    exact ⟨hocc0, h.used_lt b hbn hocc0⟩
  obtain ⟨queue, happ, hq, hhead, htail, hnum⟩ := appendN_eq
    (bs.filter fun b => decide (b ≠ p.nullBlock ∧ occ' b = 0)) hf.holds
    (hnd.sublist (monotone_filter_right bs fun b hb => by simp_all)) (by
      intro b hb
      obtain ⟨hmem, hbn, -⟩ := (hfreed b).mp hb
      obtain ⟨hpos, hblt⟩ := hlt b hmem hbn
      refine ⟨fun hl => ?_, ?_, ?_⟩
      · have := ((hf.mem_iff b).mp hl).2.2
        omega
      · rw [hf.head_eq]
        exact Nat.ne_of_lt hblt
      · rw [hf.tail_eq]
        exact Nat.ne_of_lt (Nat.lt_succ_of_lt hblt))
  have hcore : CoreInv { p.dropRefs bs with freeBlockQueue := queue } occ' unc' := by
    refine h.transfer ⟨hframe.1, hframe.2, hframe.3, hframe.4⟩ hnull href' ?_ ?_ ?_ ?_ ?_
    · intro c hc hpos
      exact h.used_lt c hc (by rw [hocc c hc]; omega)
    · intro c hc
      obtain ⟨hle, hle'⟩ := hunc c hc
      refine ⟨hle', hle.trans (h.unc_le_one c hc), fun hpos => ?_⟩
      exact (hhash c).trans (h.unc_hash c hc (lt_of_lt_of_le hpos hle))
    · exact fun c k hk => h.hashed ((hhash c).symm.trans hk)
    · change (p.dropRefs bs).cachedBlockHashToBlock.Wf
      rw [hmap]
      exact h.cache_wf
    · intro k c
      change c ∈ (p.dropRefs bs).cachedBlockHashToBlock.blocksAt k ↔ (p.dropRefs bs).hash c = _
      rw [hmap, hhash c]
      exact h.cache_exact k c
  refine ⟨_, ?_, hcore, ⟨?_, ?_, hq, ?_, ?_⟩, ⟨hframe.1, hframe.2, hframe.3, hframe.4⟩, hhash, hmap⟩
  · unfold freeBlocks
    simp only [hfil, hqueue, happ, ok_bind, pure_eq_ok]
  · exact (hhead.trans hf.head_eq).trans hframe.numGpuBlocks.symm
  · exact (htail.trans hf.tail_eq).trans (congrArg (· + 1) hframe.numGpuBlocks.symm)
  · change queue.numFreeBlocks = _
    rw [hnum, hf.numFree_eq, length_append]
    rfl
  intro b
  change _ ↔ b < (p.dropRefs bs).numGpuBlocks ∧ b ≠ (p.dropRefs bs).nullBlock ∧ occ' b = 0
  rw [hframe.numGpuBlocks, hframe.nullBlock, mem_append, hf.mem_iff b, hfreed b]
  constructor
  · rintro (⟨h1, h2, h3⟩ | ⟨h1, h2, h3⟩)
    · have := hocc b h2
      exact ⟨h1, h2, by omega⟩
    · exact ⟨(hlt b h1 h2).2, h2, h3⟩
  · rintro ⟨h1, h2, h3⟩
    by_cases hmem : b ∈ bs
    · exact Or.inr ⟨hmem, h2, h3⟩
    · refine Or.inl ⟨h1, h2, ?_⟩
      rw [hocc b h2, h3, count_eq_zero_of_not_mem hmem]

/-! ## Caching -/

theorem CoreInv.cacheBlock (h : CoreInv p occ unc) (hen : p.enableCaching = true)
    (hnull : b ≠ p.nullBlock) (hpos : 0 < unc b) (key : BlockHashWithGroupId) :
    CoreInv { p.setHash b (some key) with
        cachedBlockHashToBlock := p.cachedBlockHashToBlock.insert key b } occ
      (fun c => unc c - if c = b then 1 else 0) := by
  have hhash : ∀ c, BlockPool.hash { p.setHash b (some key) with
      cachedBlockHashToBlock := p.cachedBlockHashToBlock.insert key b } c =
      if c = b then some key else p.hash c := fun c => hash_setHash p b c (some key)
  have hb : p.hash b = none := h.unc_hash b hnull hpos
  refine h.transfer ⟨rfl, rfl, rfl, rfl⟩ (isNull_setHash p b · (some key)) ?_ h.used_lt ?_ ?_
    (insert_wf h.cache_wf) ?_
  · exact fun c hc => (refCnt_setHash p b c (some key)).trans (h.refCnt_eq c hc)
  · intro c hc
    have hle := h.unc_le c hc
    have hone := h.unc_le_one c hc
    refine ⟨by omega, by omega, fun hc' => ?_⟩
    by_cases hcb : c = b
    · subst hcb
      rw [if_pos rfl] at hc'
      omega
    · rw [hhash c, if_neg hcb]
      exact h.unc_hash c hc (by omega)
  · intro c k hk
    rw [hhash c] at hk
    split at hk <;> rename_i hcb
    · rw [hcb]
      exact ⟨hnull, h.used_lt b hnull (lt_of_lt_of_le hpos (h.unc_le b hnull)), hen⟩
    · exact h.hashed hk
  · intro k c
    rw [hhash c]
    change c ∈ (p.cachedBlockHashToBlock.insert key b).blocksAt k ↔ _
    rw [mem_blocksAt_insert, h.cache_exact]
    by_cases hcb : c = b
    · subst hcb
      simp [hb, eq_comm]
    · simp [hcb]

/-- The loop of `cache_full_blocks` on blocks without a hash: the assertion cannot fail. -/
theorem cacheLoop_spec (gid : Nat) (bs : List BlockRef) (hs : List BlockHash)
    (h : CoreInv p occ unc) (hen : p.enableCaching = true)
    (hunc : ∀ b, b ≠ p.nullBlock → bs.count b ≤ unc b) :
    (∃ p', p.cacheLoop gid bs hs = .ok p' ∧ CoreInv p' occ (fun c => unc c - bs.count c) ∧
      Frame p p' ∧ p'.freeBlockQueue = p.freeBlockQueue ∧ (∀ c, c ∉ bs → p'.hash c = p.hash c) ∧
      ∀ (i : Nat) (b : BlockRef), bs[i]? = some b → b ≠ p.nullBlock →
        ∃ k, hs[i]? = some k ∧ p'.hash b = some (makeBlockHashWithGroupId k gid)) ∨
    (p.cacheLoop gid bs hs = .error .indexError ∧ hs.length < bs.length) := by
  induction bs generalizing p unc hs with
  | nil =>
    refine Or.inl ⟨p, rfl, by simpa using h, Frame.refl p, rfl, fun _ _ => rfl, ?_⟩
    intro i b hb
    simp at hb
  | cons b bs ih =>
    by_cases hb : b = p.nullBlock
    · have hcount : ∀ c, c ≠ p.nullBlock → (b :: bs).count c = bs.count c := fun c hc =>
        count_cons_of_ne (by rw [hb]; exact hc.symm)
      have hloop : p.cacheLoop gid (b :: bs) hs = p.cacheLoop gid bs hs.tail := by
        rw [cacheLoop, if_pos ((h.isNull_iff b).mpr hb)]
      rw [hloop]
      refine (ih hs.tail h hen fun c hc => (hcount c hc) ▸ hunc c hc).imp ?_ ?_
      · rintro ⟨p', hok, hcore, hframe, hqueue, hother, hkey⟩
        refine ⟨p', hok, hcore.mono (fun _ _ => rfl) (fun c hc => ?_), hframe, hqueue, ?_, ?_⟩
        · rw [hframe.nullBlock] at hc
          rw [hcount c hc]
        · exact fun c hc => hother c fun hm => hc (mem_cons_of_mem b hm)
        intro i c hi hc
        cases i with
        | zero => exact absurd ((Option.some.inj hi).symm.trans hb) hc
        | succ i =>
          obtain ⟨k, hk, hhash⟩ := hkey i c hi hc
          exact ⟨k, by rwa [getElem?_tail] at hk, hhash⟩
      · rintro ⟨herr, hlen⟩
        refine ⟨herr, ?_⟩
        rw [length_tail] at hlen
        rw [length_cons]
        omega
    · have hpos : 0 < unc b := by
        have := hunc b hb
        rw [count_cons_self] at this
        omega
      have hnone : p.hash b = none := h.unc_hash b hb hpos
      have hnull : (p.blocks b).isNull = false := by
        rw [Bool.eq_false_iff, ne_eq, h.isNull_iff]
        exact hb
      have hisnone : (p.blocks b).blockHash.isNone = true := by
        rw [Option.isNone_iff_eq_none]
        exact hnone
      have hle := h.unc_le_one b hb
      have hfresh : b ∉ bs := fun hm => by
        have hc := hunc b hb
        have := count_pos_iff.mpr hm
        rw [count_cons_self] at hc
        omega
      cases hs with
      | nil =>
        refine Or.inr ⟨?_, by simp⟩
        rw [cacheLoop, if_neg (by simp [hnull]), hisnone]
        rfl
      | cons k hs =>
        set key := makeBlockHashWithGroupId k gid with hkeydef
        set q : BlockPool := { p.setHash b (some key) with
          cachedBlockHashToBlock := p.cachedBlockHashToBlock.insert key b } with hq
        have hcore := h.cacheBlock hen hb hpos key
        have hqhash : ∀ c, q.hash c = if c = b then some key else p.hash c :=
          fun c => hash_setHash p b c (some key)
        have hloop : p.cacheLoop gid (b :: bs) (k :: hs) = q.cacheLoop gid bs hs := by
          rw [cacheLoop, if_neg (by simp [hnull]), hisnone]
          rfl
        rw [hloop]
        refine (ih hs hcore hen ?_).imp ?_ ?_
        · intro c hc
          have := hunc c hc
          by_cases hcb : c = b
          · subst hcb
            simp [count_eq_zero_of_not_mem hfresh]
          · simpa [hcb, Ne.symm hcb] using this
        · rintro ⟨p', hok, hcore', hframe, hqueue, hother, hkey⟩
          refine ⟨p', hok, hcore'.mono (fun _ _ => rfl) (fun c _ => ?_),
            ⟨hframe.1, hframe.2, hframe.3, hframe.4⟩, hqueue, ?_, ?_⟩
          · by_cases hcb : c = b
            · simp [hcb]
              omega
            · simp [hcb, Ne.symm hcb]
          · intro c hc
            rw [mem_cons, not_or] at hc
            rw [hother c hc.2, hqhash, if_neg hc.1]
          · intro i c hi hc
            cases i with
            | zero =>
              cases hi
              exact ⟨k, rfl, by rw [hother b hfresh, hqhash, if_pos rfl]⟩
            | succ i => exact hkey i c hi hc
        · rintro ⟨herr, hlen⟩
          exact ⟨herr, by simpa using hlen⟩

/-! ## Explicit eviction, reset and the initial pool -/

theorem evictBlocks_spec (ids : List Nat) (h : CoreInv p occ unc) (hf : FreeInv p occ l)
    (hok : p.evictBlocks ids = .ok p') : CoreInv p' occ unc ∧ FreeInv p' occ l ∧ Frame p p' := by
  induction ids generalizing p with
  | nil =>
    cases hok
    exact ⟨h, hf, Frame.refl _⟩
  | cons b ids ih =>
    rw [evictBlocks, bind_eq_ok] at hok
    obtain ⟨-, -, hok⟩ := hok
    obtain ⟨hcore, hframe, hqueue⟩ := maybeEvictCachedBlock_spec h b
    have hfree : FreeInv (p.maybeEvictCachedBlock b).1 occ l :=
      ⟨by rw [hqueue, hframe.1]; exact hf.1, by rw [hqueue, hframe.1]; exact hf.2,
        by rw [hqueue]; exact hf.3, by rw [hqueue]; exact hf.4,
        fun c => by rw [hframe.1, hframe.4]; exact hf.5 c⟩
    obtain ⟨hcore', hfree', hframe'⟩ := ih hcore hfree hok
    exact ⟨hcore', hfree', hframe.trans hframe'⟩

theorem invalid_block_message_ne (s : String) :
    PyError.assertionError ("Invalid block_id " ++ s) ≠ hashAssertion := by
  intro h
  have hhead := congrArg (fun s : String => s.toList.head?) (PyError.assertionError.inj h)
  simp [String.toList_append] at hhead

theorem evictBlocks_ne {ids : List Nat} : p.evictBlocks ids ≠ .error hashAssertion := by
  induction ids generalizing p with
  | nil => nofun
  | cons b ids ih =>
    refine bind_ne_error (assertThat_ne_error ?_) fun _ => ih
    simp only [String.append_assoc]
    exact (invalid_block_message_ne _).symm

theorem resetPrefixCache_spec {p : BlockPool} (h : CoreInv p occ unc) (hf : FreeInv p occ l) :
    CoreInv p.resetPrefixCache.1 occ unc ∧ FreeInv p.resetPrefixCache.1 occ l ∧
      Frame p p.resetPrefixCache.1 := by
  unfold resetPrefixCache
  split
  · exact ⟨h, hf, Frame.refl p⟩
  have hhash : ∀ c, BlockPool.hash { p with
      cachedBlockHashToBlock := .new
      blocks := fun b =>
        if b < p.numGpuBlocks then { p.blocks b with blockHash := none } else p.blocks b } c =
      none := by
    intro c
    unfold hash
    simp only
    split <;> rename_i hc
    · rfl
    · rw [Option.eq_none_iff_forall_ne_some]
      exact fun k hk => hc (h.hashed_lt c k hk)
  refine ⟨h.transfer ⟨rfl, rfl, rfl, rfl⟩ ?_ ?_ h.used_lt ?_ ?_ new_wf ?_,
    ⟨hf.1, hf.2, hf.3, hf.4, hf.5⟩, ⟨rfl, rfl, rfl, rfl⟩⟩
  · intro c
    simp only
    split <;> rfl
  · intro c hc
    rw [← h.refCnt_eq c hc]
    simp only
    split <;> rfl
  · exact fun c hc => ⟨h.unc_le c hc, h.unc_le_one c hc, fun _ => hhash c⟩
  · intro c k hk
    rw [hhash c] at hk
    cases hk
  · intro k c
    rw [hhash c]
    simp

theorem init_spec {n : Nat} (hn : 0 < n) (enableCaching : Bool) (hashBlockSize : Nat) :
    ∃ p, BlockPool.init n enableCaching hashBlockSize = .ok p ∧
      CoreInv p (fun _ => 0) (fun _ => 0) ∧
      FreeInv p (fun _ => 0) (range' 1 (n - 1)) ∧ p.numGpuBlocks = n ∧
      p.enableCaching = enableCaching ∧ p.hashBlockSize = hashBlockSize ∧ p.nullBlock = 0 := by
  have hholds : (FreeKVCacheBlockQueue.init n).Holds (0 :: range' 1 (n - 1)) := by
    have := init_holds n
    rwa [range_eq_range', show n = n - 1 + 1 by omega, range'_succ,
      show n - 1 + 1 = n by omega] at this
  obtain ⟨q, hpop, hq, hhead, htail, hnum⟩ := popleft_eq hholds
  set p : BlockPool := {
    numGpuBlocks := n
    enableCaching := enableCaching
    hashBlockSize := hashBlockSize
    blocks := Function.update (fun _ => .new) 0 { KVCacheBlock.new with isNull := true }
    freeBlockQueue := q
    cachedBlockHashToBlock := .new
    nullBlock := 0 } with hp
  have hblock : ∀ c, p.blocks c = ⟨0, none, decide (c = 0)⟩ := by
    intro c
    by_cases hc : c = 0
    · subst hc
      simp [hp, KVCacheBlock.new]
    · simp [hp, hc, KVCacheBlock.new]
  have hhash : ∀ c, p.hash c = none := fun c => by rw [hash, hblock]
  refine ⟨p, by unfold BlockPool.init; rw [decide_eq_true hn, hpop]; rfl, ?_, ?_, rfl, rfl, rfl,
    rfl⟩
  · refine ⟨fun c => ?_, hn, fun c _ => ?_, fun _ _ h => absurd h (Nat.lt_irrefl 0),
      fun _ _ => le_rfl, fun _ _ => Nat.zero_le 1, fun c _ _ => hhash c, hhash 0,
      new_wf, fun k c => ?_, fun c k hk => ?_, fun _ c => hhash c⟩
    · rw [hblock, decide_eq_true_iff]
    · rw [hblock]
      rfl
    · rw [hhash c]
      change c ∈ new.blocksAt k ↔ _
      simp
    · rw [hhash c] at hk
      cases hk
  · refine ⟨hhead, htail, hq, ?_, fun c => ?_⟩
    · change q.numFreeBlocks = _
      rw [hnum, length_range']
      change (n : Int) - 1 = _
      omega
    · change _ ↔ @LT.lt Nat _ c n ∧ @Ne Nat c 0 ∧ (0 : Nat) = 0
      rw [mem_range'_1]
      omega

end BlockPool

end VllmEcho
