import VllmEcho.KVCache.RowInvariant

/-!
# The invariant of a manager

`MgrInv` is the pool invariant seen from one manager: `O` and `U` count the occurrences in the
tables of the other groups.  The methods that only release blocks are treated here.
-/

namespace VllmEcho

open Lib BlockPool Dict List

variable {c : BlockRef} {k : Nat} {t : List BlockRef} {b : BlockRef} (nullBlock : BlockRef)
  (m : SingleTypeKVCacheManager) {i : Nat} {id' : ReqId} (id : ReqId)

namespace SingleTypeKVCacheManager

/-- What holds of the table of one request.  In align mode a request that has been allocated blocks
owns a running state and its speculative blocks. -/
structure TableOk : Prop where
  nodup : ((m.blocksOf id).filter (· ≠ nullBlock)).Nodup
  last_lt : ∀ i, m.lastStateBlockIdx.get? id = some i →
    m.kvCacheSpec.alignSpeculativeBlocks.isSome ∧ i < (m.blocksOf id).length
  allocated : ∀ s, m.kvCacheSpec.alignSpeculativeBlocks = some s → id ∈ m.allocatedBlockReqs →
    1 + s ≤ (m.blocksOf id).length

/-- In align mode the speculative blocks at the end of a table are not cached. -/
def Settled : Prop :=
  ∀ s, m.kvCacheSpec.alignSpeculativeBlocks = some s →
    m.numCached id + s ≤ (m.blocksOf id).length ∨ (m.blocksOf id = [] ∧ m.numCached id = 0)

structure MgrInv (p : BlockPool) (l : List BlockRef) (O U : BlockRef → Nat)
    (m : SingleTypeKVCacheManager) : Prop where
  core : CoreInv p (fun b => O b + m.occ b) (fun b => U b + m.unc b)
  free : FreeInv p (fun b => O b + m.occ b) l
  le : ∀ b, U b ≤ O b
  tables : ∀ id, TableOk p.nullBlock m id

variable {p p' : BlockPool} {l : List BlockRef} {O U : BlockRef → Nat}
  {m m' : SingleTypeKVCacheManager} {id : ReqId}

theorem MgrInv.row (h : MgrInv p l O U m) (id : ReqId) :
    RowInv p l (fun b => O b + m.restOcc id b) (fun b => U b + m.restUnc id b) (m.blocksOf id)
      (m.numCached id) := by
  refine ⟨h.core.mono ?_ ?_, h.free.congr ?_, ?_, (h.tables id).nodup⟩
  · exact fun b _ => by rw [m.occ_eq id b, Nat.add_assoc]
  · exact fun b _ => by rw [m.unc_eq id b, Nat.add_assoc]; rfl
  · exact fun b _ => by rw [m.occ_eq id b, Nat.add_assoc]
  · exact fun b => Nat.add_le_add (h.le b) (m.restUnc_le id b)

theorem MgrInv.ofRow (h : MgrInv p l O U m) (hrow : RowUpdate id m m') (hframe : Frame p p')
    {l' : List BlockRef}
    (hinv : RowInv p' l' (fun b => O b + m.restOcc id b) (fun b => U b + m.restUnc id b)
      (m'.blocksOf id) (m'.numCached id))
    (htable : TableOk p.nullBlock m' id) : MgrInv p' l' O U m' := by
  refine ⟨hinv.core.mono ?_ ?_, hinv.free.congr ?_, h.le, fun id' => ?_⟩
  · exact fun b _ => by rw [m'.occ_eq id b, hrow.restOcc b, Nat.add_assoc]
  · exact fun b _ => by rw [m'.unc_eq id b, hrow.restUnc b, Nat.add_assoc]; exact le_rfl
  · exact fun b _ => by rw [m'.occ_eq id b, hrow.restOcc b, Nat.add_assoc]
  rw [hframe.nullBlock]
  by_cases hi : id' = id
  · exact hi ▸ htable
  have hold := h.tables id'
  refine ⟨?_, fun i hlast => ?_, fun s hs halloc => ?_⟩
  · rw [hrow.blocksOf hi]
    exact hold.nodup
  · rw [hrow.blocksOf hi, hrow.spec]
    exact hold.last_lt i (by rwa [hrow.lastState id' hi] at hlast)
  · rw [hrow.blocksOf hi]
    exact hold.allocated s (by rwa [hrow.spec] at hs) ((hrow.allocated id' hi).mp halloc)

theorem Settled.ofRow (hset : m.Settled id') (hrow : RowUpdate id m m') (hi : id' ≠ id) :
    m'.Settled id' := by
  intro s hs
  rw [hrow.blocksOf hi, hrow.numCached hi]
  exact hset s (by rwa [hrow.spec] at hs)

/-! ## Skipped blocks -/

def Nulled (k : Nat) (t t' : List BlockRef) : Prop :=
  t'.length = t.length ∧ ∀ i, t'[i]? = t[i]? ∨ (i < k ∧ t'[i]? = some nullBlock)

theorem Nulled.refl (k : Nat) (t : List BlockRef) : Nulled nullBlock k t t :=
  ⟨rfl, fun _ => Or.inl rfl⟩

theorem Nulled.trans {t' t'' : List BlockRef} (h₁ : Nulled c k t t') (h₂ : Nulled c k t' t'') :
    Nulled c k t t'' := by
  refine ⟨h₂.1.trans h₁.1, fun i => ?_⟩
  rcases h₂.2 i with h | h
  · rw [h]
    exact h₁.2 i
  · exact Or.inr h

theorem nulled_set (c : BlockRef) (t : List BlockRef) (hi : i < k) : Nulled c k t (t.set i c) := by
  refine ⟨length_set, fun j => ?_⟩
  by_cases hij : i = j
  · subst hij
    by_cases hlt : i < t.length
    · exact Or.inr ⟨hi, by simp [hlt]⟩
    · exact Or.inl (by simp [hlt])
  · exact Or.inl (by simp [hij])

theorem count_set_null {x : BlockRef} (hx : t[i]? = some x) (hb : b ≠ c) :
    t.count b = (t.set i c).count b + if x = b then 1 else 0 := by
  obtain ⟨hlt, rfl⟩ := List.getElem?_eq_some_iff.mp hx
  rw [count_set hlt]
  have hcb : (c == b) = false := by simpa using hb.symm
  simp only [hcb, Bool.false_eq_true, if_false, Nat.add_zero]
  by_cases hxb : t[i] = b
  · have hpos : 0 < t.count b := count_pos_iff.mpr (hxb ▸ getElem_mem hlt)
    simp [hxb]
    omega
  · simp [hxb]

theorem drop_count_set_le (t : List BlockRef) (i n : Nat) (hb : b ≠ c) :
    ((t.set i c).drop n).count b ≤ (t.drop n).count b := by
  rw [drop_set]
  split
  · exact le_rfl
  · cases hx : (t.drop n)[i - n]? with
    | none => rw [set_eq_of_length_le (getElem?_eq_none_iff.mp hx)]
    | some x =>
      rw [count_set_null hx hb]
      exact Nat.le_add_right _ _

/-- Skipped entries become null blocks, and nothing else changes. -/
theorem skipLoop_effect (c : BlockRef) (k : Nat) (t : List BlockRef) :
    Nulled c k t (skipLoop c k t).2 ∧
      (∀ b, b ≠ c → t.count b = (skipLoop c k t).2.count b + (skipLoop c k t).1.count b) ∧
      ∀ n b, b ≠ c → (((skipLoop c k t).2).drop n).count b ≤ (t.drop n).count b := by
  induction k generalizing t with
  | zero => exact ⟨Nulled.refl c 0 t, fun _ _ => by simp [skipLoop], fun _ _ _ => le_rfl⟩
  | succ k ih =>
    rw [skipLoop]
    split <;> rename_i hb
    · exact ⟨Nulled.refl c (k + 1) t, fun _ _ => by simp, fun _ _ _ => le_rfl⟩
    obtain ⟨x, hx⟩ : ∃ x, t[k]? = some x := by
      cases hx : t[k]? with
      | none => simp [getD_eq_getElem?_getD, hx] at hb
      | some x => exact ⟨x, rfl⟩
    have hget : t.getD k c = x := by simp [getD_eq_getElem?_getD, hx]
    obtain ⟨hnull, hcount, hdrop⟩ := ih (t.set k c)
    refine ⟨?_, fun b hb => ?_, fun n b hb => ?_⟩
    · refine (nulled_set c t (Nat.lt_succ_self k)).trans ⟨hnull.1, fun i => ?_⟩
      exact (hnull.2 i).imp id fun h => ⟨h.1.trans (Nat.lt_succ_self k), h.2⟩
    · rw [count_set_null hx hb, hcount b hb, hget, count_cons]
      simp only [beq_iff_eq]
      omega
    · exact (hdrop n b hb).trans (drop_count_set_le t k n hb)

theorem Nulled.mono {k' : Nat} {t' : List BlockRef} (h : Nulled c k t t') (hk : k ≤ k') :
    Nulled c k' t t' :=
  ⟨h.1, fun i => (h.2 i).imp id fun hi => ⟨hi.1.trans_le hk, hi.2⟩⟩

structure Skips (p : BlockPool) (m : SingleTypeKVCacheManager) (id : ReqId) (k : Nat)
    (p' : BlockPool) (m' : SingleTypeKVCacheManager) : Prop where
  rowUpdate : RowUpdate id m m'
  nulled : Nulled p.nullBlock k (m.blocksOf id) (m'.blocksOf id)
  cached : m'.numCachedBlock = m.numCachedBlock
  lastState : m'.lastStateBlockIdx = m.lastStateBlockIdx
  allocated : m'.allocatedBlockReqs = m.allocatedBlockReqs
  thisStep : m'.cachedBlocksThisStep = m.cachedBlocksThisStep
  frame : Frame p p'
  hash : ∀ c, p'.hash c = p.hash c
  map : p'.cachedBlockHashToBlock = p.cachedBlockHashToBlock

theorem Skips.tableOk (h : Skips p m id k p' m') (ht : TableOk p.nullBlock m id)
    (hnd : ((m'.blocksOf id).filter (· ≠ p.nullBlock)).Nodup) : TableOk p.nullBlock m' id := by
  refine ⟨hnd, ?_, ?_⟩
  · rw [h.lastState, h.nulled.1, h.rowUpdate.spec]
    exact ht.last_lt
  · rw [h.allocated, h.nulled.1, h.rowUpdate.spec]
    exact ht.allocated

theorem Skips.settled (h : Skips p m id k p' m') (hs : m.Settled id') : m'.Settled id' := by
  intro s hspec
  have hcached : m'.numCached id' = m.numCached id' := by unfold numCached; rw [h.cached]
  have hlen : (m'.blocksOf id').length = (m.blocksOf id').length := by
    by_cases hi : id' = id
    · rw [hi, h.nulled.1]
    · rw [h.rowUpdate.blocksOf hi]
  rw [hcached, ← length_eq_zero_iff, hlen, length_eq_zero_iff]
  exact hs s (by rwa [h.rowUpdate.spec] at hspec)

theorem removeSkippedBlocksBase_spec (h : MgrInv p l O U m) (id : ReqId) (total : Nat) :
    ∃ p' m' freed, m.removeSkippedBlocksBase p id total = .ok (p', m') ∧
      MgrInv p' (l ++ freed) O U m' ∧
      Skips p m id (m.kvCacheSpec.getNumSkippedTokens total / m.blockSize) p' m' := by
  unfold removeSkippedBlocksBase
  by_cases hz : m.kvCacheSpec.getNumSkippedTokens total = 0
  · refine ⟨p, m, [], by rw [if_pos hz], by simpa using h, RowUpdate.refl id m, ?_, rfl, rfl, rfl,
      rfl, Frame.refl p, fun _ => rfl, rfl⟩
    exact Nulled.refl _ _ _
  set k := min (m.kvCacheSpec.getNumSkippedTokens total / m.blockSize) (m.blocksOf id).length
  obtain ⟨hnull, hcount, hdrop⟩ := skipLoop_effect p.nullBlock k (m.blocksOf id)
  set r := skipLoop p.nullBlock k (m.blocksOf id)
  obtain ⟨p', hok, hrow, hframe, hhash, hmap⟩ := (h.row id).release r.2
    (m.numCached id) r.1 hcount (hdrop _)
  have hskips : Skips p m id (m.kvCacheSpec.getNumSkippedTokens total / m.blockSize) p'
      (m.setBlocks id r.2) :=
    ⟨rowUpdate_setBlocks m r.2,
      by rw [blocksOf_setBlocks]; exact hnull.mono (Nat.min_le_left _ _), rfl, rfl, rfl, rfl,
      hframe, hhash, hmap⟩
  refine ⟨p', m.setBlocks id r.2, r.1.filter fun b =>
      decide (b ≠ p.nullBlock ∧ O b + m.restOcc id b + r.2.count b = 0), ?_,
    h.ofRow (rowUpdate_setBlocks m r.2) hframe ?_ ?_, hskips⟩
  · change (if _ then _ else p.freeBlocks r.1 >>= fun p => pure (p, m.setBlocks id r.2)) = _
    rw [if_neg hz, hok]
    rfl
  · rw [blocksOf_setBlocks]
    exact hrow
  · refine hskips.tableOk (h.tables id) ?_
    rw [blocksOf_setBlocks, ← hframe.nullBlock]
    exact hrow.nodup

def skippedBlocks (spec : KVCacheSpec) (total : Nat) : Nat :=
  match spec.kind with
  | .mamba _ s => spec.getNumSkippedTokens (total - s) / spec.blockSize
  | _ => spec.getNumSkippedTokens total / spec.blockSize

theorem Skips.trans {p'' : BlockPool} {m'' : SingleTypeKVCacheManager} (h₁ : Skips p m id k p' m')
    (h₂ : Skips p' m' id k p'' m'') : Skips p m id k p'' m'' where
  rowUpdate := h₁.rowUpdate.trans h₂.rowUpdate
  nulled := h₁.nulled.trans (h₁.frame.nullBlock ▸ h₂.nulled)
  cached := h₂.cached.trans h₁.cached
  lastState := h₂.lastState.trans h₁.lastState
  allocated := h₂.allocated.trans h₁.allocated
  thisStep := h₂.thisStep.trans h₁.thisStep
  frame := h₁.frame.trans h₂.frame
  hash c := (h₂.hash c).trans (h₁.hash c)
  map := h₂.map.trans h₁.map

theorem clearEntry_spec (h : MgrInv p l O U m) {id : ReqId} (hb : (m.blocksOf id)[i]? = some b)
    (hik : i < k) : ∃ p' freed, p.freeBlocks [b] = .ok p' ∧
      MgrInv p' (l ++ freed) O U (m.setBlocks id ((m.blocksOf id).set i p.nullBlock)) ∧
      Skips p m id k p' (m.setBlocks id ((m.blocksOf id).set i p.nullBlock)) := by
  obtain ⟨p', hok, hrow, hframe, hhash, hmap⟩ := (h.row id).release
    ((m.blocksOf id).set i p.nullBlock) (m.numCached id) [b]
    (fun c hc => by
      rw [count_set_null hb hc, count_singleton]
      simp)
    (fun c hc => drop_count_set_le _ i _ hc)
  have hskips : Skips p m id k p' (m.setBlocks id ((m.blocksOf id).set i p.nullBlock)) :=
    ⟨rowUpdate_setBlocks m _, by rw [blocksOf_setBlocks]; exact nulled_set _ _ hik, rfl, rfl,
      rfl, rfl, hframe, hhash, hmap⟩
  refine ⟨p', [b].filter fun c => decide (c ≠ p.nullBlock ∧
      O c + m.restOcc id c + ((m.blocksOf id).set i p.nullBlock).count c = 0), hok,
    h.ofRow (rowUpdate_setBlocks m _) hframe ?_ ?_, hskips⟩
  · rw [blocksOf_setBlocks]
    exact hrow
  · refine hskips.tableOk (h.tables id) ?_
    have hnd := hrow.nodup
    rw [blocksOf_setBlocks]
    rwa [hframe.nullBlock] at hnd

theorem cdiv_sub_one_le {n : Nat} (b : Nat) : cdiv n b - 1 ≤ (n - 1) / b := by
  unfold cdiv
  rcases Nat.eq_zero_or_pos b with rfl | hpos
  · simp
  · rcases Nat.eq_zero_or_pos n with rfl | hn
    · rw [Nat.div_eq_of_lt (by omega)]
      exact Nat.zero_le _
    · rw [show n + b - 1 = n - 1 + b by omega, Nat.add_div_right _ hpos]
      exact (Nat.add_sub_cancel _ 1).le

theorem MgrInv.openBlocks (h : MgrInv p l O U m) (id : ReqId) :
    MgrInv p l O U (m.openBlocks id) := by
  have ht := h.tables id
  refine h.ofRow (rowUpdate_openBlocks m) (Frame.refl p) ?_ ⟨?_, ?_, ?_⟩ <;>
    rw [blocksOf_openBlocks]
  · exact h.row id
  · exact ht.nodup
  · exact ht.last_lt
  · exact ht.allocated

theorem freeLastState_spec (h : MgrInv p l O U m) (id : ReqId) (n : Nat) :
    ∃ p' m' freed, m.freeLastState p id n = .ok (p', m') ∧
      MgrInv p' (l ++ freed) O U m' ∧ Skips p m id ((n - 1) / m.blockSize) p' m' := by
  have hsame : Skips p m id ((n - 1) / m.blockSize) p m :=
    ⟨RowUpdate.refl id m, Nulled.refl _ _ _, rfl, rfl, rfl, rfl, Frame.refl p, fun _ => rfl, rfl⟩
  unfold freeLastState
  split
  · exact ⟨p, m, [], rfl, by simpa using h, hsame⟩
  rename_i idx hlast
  split
  · rename_i hguard
    obtain ⟨b, hb⟩ : ∃ b, (m.blocksOf id)[idx]? = some b :=
      ⟨_, List.getElem?_eq_getElem ((h.tables id).last_lt idx hlast).2⟩
    rw [hb]
    simp only
    split
    · refine ⟨p, m.openBlocks id, [], rfl, ?_, ⟨rowUpdate_openBlocks m, ?_, rfl, rfl, rfl, rfl,
        Frame.refl p, fun _ => rfl, rfl⟩⟩
      · rw [append_nil]
        exact h.openBlocks id
      · rw [blocksOf_openBlocks]
        exact Nulled.refl _ _ _
    · obtain ⟨p', freed, hok, hinv, hskips⟩ :=
        clearEntry_spec h hb (hguard.trans_le (cdiv_sub_one_le m.blockSize))
      rw [hok]
      exact ⟨p', _, freed, rfl, hinv, hskips⟩
  · exact ⟨p, m, [], rfl, by simpa using h, hsame⟩

/-- Releasing the blocks outside the window keeps the invariant, in every kind of group. -/
theorem removeSkippedBlocks_spec (h : MgrInv p l O U m) (id : ReqId) (total : Nat) :
    ∃ p' m' freed, m.removeSkippedBlocks p id total = .ok (p', m') ∧
      MgrInv p' (l ++ freed) O U m' ∧ Skips p m id (skippedBlocks m.kvCacheSpec total) p' m' := by
  cases hkind : m.kvCacheSpec.kind with
  | mamba mode s =>
    obtain ⟨p₁, m₁, freed, hok, hinv, hskips⟩ := removeSkippedBlocksBase_spec h id (total - s)
    have hk : skippedBlocks m.kvCacheSpec total =
        m.kvCacheSpec.getNumSkippedTokens (total - s) / m.blockSize := by
      simp only [skippedBlocks, hkind]
      rfl
    simp only [removeSkippedBlocks, hkind, hok, ok_bind, hk]
    split
    · obtain ⟨p₂, m₂, freed₂, hok₂, hinv₂, hskips₂⟩ := freeLastState_spec hinv id (total - s)
      refine ⟨p₂, m₂, freed ++ freed₂, hok₂, by rwa [← append_assoc], hskips.trans ?_⟩
      have hk₂ : (total - s - 1) / m₁.blockSize =
          m.kvCacheSpec.getNumSkippedTokens (total - s) / m.blockSize := by
        simp only [KVCacheSpec.getNumSkippedTokens, hkind, blockSize, hskips.rowUpdate.spec]
      rwa [hk₂] at hskips₂
    · exact ⟨p₁, m₁, freed, rfl, hinv, hskips⟩
  | _ =>
    obtain ⟨p₁, m₁, freed, hok, hinv, hskips⟩ := removeSkippedBlocksBase_spec h id total
    have hk : skippedBlocks m.kvCacheSpec total =
        m.kvCacheSpec.getNumSkippedTokens total / m.blockSize := by
      simp only [skippedBlocks, hkind]
      rfl
    simp only [removeSkippedBlocks, hkind, hk]
    exact ⟨p₁, m₁, freed, hok, hinv, hskips⟩

/-! ## Freeing a request -/

/-- `free` forgets the table and gives up all its references. -/
theorem free_spec (h : MgrInv p l O U m) (id : ReqId) :
    ∃ p' m' freed, m.free p id = .ok (p', m') ∧ MgrInv p' (l ++ freed) O U m' ∧
      RowUpdate id m m' ∧ m'.reqToBlocks.get? id = none ∧ m'.numCachedBlock.get? id = none ∧
      Frame p p' := by
  set m₁ : SingleTypeKVCacheManager :=
    if m.kvCacheSpec.alignSpeculativeBlocks.isSome then
      { m with
        allocatedBlockReqs := m.allocatedBlockReqs.filter (· ≠ id)
        lastStateBlockIdx := m.lastStateBlockIdx.erase id }
    else m with hm₁
  have hrow₁ : RowUpdate id m m₁ := by
    rw [hm₁]
    split
    · refine ⟨rfl, rfl, fun _ _ => rfl, fun _ _ => rfl, fun _ hi => get?_erase_ne _ hi, ?_⟩
      intro id' hi
      simp [mem_filter, hi]
    · exact RowUpdate.refl id m
  have hreq : m₁.reqToBlocks = m.reqToBlocks := by rw [hm₁]; split <;> rfl
  have hblocks : m₁.blocksOf id = m.blocksOf id := by unfold blocksOf; rw [hreq]
  have hlast : m.kvCacheSpec.alignSpeculativeBlocks.isSome →
      m₁.lastStateBlockIdx.get? id = none := by
    intro hs
    rw [hm₁, if_pos hs]
    exact get?_erase_self _
  have halloc : m.kvCacheSpec.alignSpeculativeBlocks.isSome → id ∉ m₁.allocatedBlockReqs := by
    intro hs
    rw [hm₁, if_pos hs]
    simp
  set m₂ : SingleTypeKVCacheManager := { m₁ with
    reqToBlocks := m₁.reqToBlocks.erase id
    numCachedBlock := m₁.numCachedBlock.erase id } with hm₂
  have hrow₂ : RowUpdate id m m₂ := by
    refine hrow₁.trans ⟨rfl, rfl, fun _ hi => get?_erase_ne _ hi,
      fun _ hi => get?_erase_ne _ hi, fun _ _ => rfl, fun _ _ => Iff.rfl⟩
  have hempty : m₂.blocksOf id = [] := by simp [hm₂, blocksOf]
  obtain ⟨p', hok, hrow, hframe, -⟩ := (h.row id).release [] 0
    (m.blocksOf id).reverse (fun b _ => by simp) (fun b _ => by simp)
  refine ⟨p', m₂, (m.blocksOf id).reverse.filter fun b =>
      decide (b ≠ p.nullBlock ∧ O b + m.restOcc id b + ([] : List BlockRef).count b = 0), ?_,
    h.ofRow hrow₂ hframe ?_ ?_, hrow₂, get?_erase_self _, get?_erase_self _, hframe⟩
  · change (p.freeBlocks (m₁.blocksOf id).reverse >>= fun p => pure (p, m₂)) = _
    rw [hblocks, hok]
    rfl
  · have hcached : m₂.numCached id = 0 := by simp [hm₂, numCached]
    rw [hempty, hcached]
    exact hrow
  refine ⟨by rw [hempty]; simp, fun i hi => ?_, fun s hs hid => ?_⟩
  · change m₁.lastStateBlockIdx.get? id = some i at hi
    by_cases hal : m.kvCacheSpec.alignSpeculativeBlocks.isSome
    · rw [hlast hal] at hi
      cases hi
    · rw [hm₁, if_neg hal] at hi
      exact absurd ((h.tables id).last_lt i hi).1 hal
  · rw [hrow₂.spec] at hs
    exact absurd hid (halloc (by rw [hs]; rfl))

end SingleTypeKVCacheManager

end VllmEcho
