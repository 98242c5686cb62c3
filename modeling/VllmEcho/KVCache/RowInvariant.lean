import VllmEcho.KVCache.Managers
import VllmEcho.KVCache.PoolOps

/-!
# One table against the pool

`RowInv` is the pool invariant seen from the table of one request in one group: `O` and `U` count
the occurrences everywhere else.  Whatever a manager does to a table is one of five steps: popping
new blocks, taking over hits, freeing some entries, caching a range, or rearranging entries that
are not cached.
-/

namespace VllmEcho

open Lib BlockPool Dict List

/-! ## Occurrences in the tables

They are split into the table of one request and the rest, because every manager method changes the
table of one request only. -/

variable (m : SingleTypeKVCacheManager) (b : BlockRef)

namespace SingleTypeKVCacheManager

def occ : Nat :=
  m.reqToBlocks.sum fun _ l => l.count b

def unc : Nat :=
  m.reqToBlocks.sum fun id l => (l.drop (m.numCached id)).count b

def restOcc (m : SingleTypeKVCacheManager) (id : ReqId) (b : BlockRef) : Nat :=
  (m.reqToBlocks.erase id).sum fun _ l => l.count b

def restUnc (m : SingleTypeKVCacheManager) (id : ReqId) (b : BlockRef) : Nat :=
  (m.reqToBlocks.erase id).sum fun id' l => (l.drop (m.numCached id')).count b

def uncached (id : ReqId) : List BlockRef :=
  (m.blocksOf id).drop (m.numCached id)

variable {m m' m'' : SingleTypeKVCacheManager} {id : ReqId}

theorem occ_eq (m : SingleTypeKVCacheManager) (id : ReqId) (b : BlockRef) :
    m.occ b = m.restOcc id b + (m.blocksOf id).count b := by
  have h := sum_erase (fun _ l => l.count b) m.reqToBlocks id
  unfold occ restOcc blocksOf
  cases hg : m.reqToBlocks.get? id with
  | none => simpa [hg, Dict.keyWeight] using h.symm
  | some l => simpa [hg, Dict.keyWeight] using h.symm

theorem unc_eq (m : SingleTypeKVCacheManager) (id : ReqId) (b : BlockRef) :
    m.unc b = m.restUnc id b + (m.uncached id).count b := by
  have h := sum_erase (fun id' l => (l.drop (m.numCached id')).count b) m.reqToBlocks id
  unfold unc restUnc uncached blocksOf
  cases hg : m.reqToBlocks.get? id with
  | none => simpa [hg, Dict.keyWeight] using h.symm
  | some l => simpa [hg, Dict.keyWeight] using h.symm

theorem restUnc_le (m : SingleTypeKVCacheManager) (id : ReqId) (b : BlockRef) :
    m.restUnc id b ≤ m.restOcc id b := by
  refine sum_le_sum fun e _ => ?_
  exact (drop_sublist _ _).count_le b

structure RowUpdate (id : ReqId) (m m' : SingleTypeKVCacheManager) : Prop where
  spec : m'.kvCacheSpec = m.kvCacheSpec
  groupId : m'.kvCacheGroupId = m.kvCacheGroupId
  blocks : ∀ id', id' ≠ id → m'.reqToBlocks.get? id' = m.reqToBlocks.get? id'
  cached : ∀ id', id' ≠ id → m'.numCachedBlock.get? id' = m.numCachedBlock.get? id'
  lastState : ∀ id', id' ≠ id → m'.lastStateBlockIdx.get? id' = m.lastStateBlockIdx.get? id'
  allocated : ∀ id', id' ≠ id → (id' ∈ m'.allocatedBlockReqs ↔ id' ∈ m.allocatedBlockReqs)

namespace RowUpdate

theorem refl (id : ReqId) (m : SingleTypeKVCacheManager) : RowUpdate id m m :=
  ⟨rfl, rfl, fun _ _ => rfl, fun _ _ => rfl, fun _ _ => rfl, fun _ _ => Iff.rfl⟩

theorem trans (h₁ : RowUpdate id m m') (h₂ : RowUpdate id m' m'') : RowUpdate id m m'' :=
  ⟨h₂.1.trans h₁.1, h₂.2.trans h₁.2, fun i hi => (h₂.3 i hi).trans (h₁.3 i hi),
    fun i hi => (h₂.4 i hi).trans (h₁.4 i hi), fun i hi => (h₂.5 i hi).trans (h₁.5 i hi),
    fun i hi => (h₂.6 i hi).trans (h₁.6 i hi)⟩

theorem blocksOf (h : RowUpdate id m m') {id' : ReqId} (hi : id' ≠ id) :
    m'.blocksOf id' = m.blocksOf id' := by
  unfold SingleTypeKVCacheManager.blocksOf
  rw [h.blocks id' hi]

theorem numCached (h : RowUpdate id m m') {id' : ReqId} (hi : id' ≠ id) :
    m'.numCached id' = m.numCached id' := by
  unfold SingleTypeKVCacheManager.numCached
  rw [h.cached id' hi]

theorem restOcc (h : RowUpdate id m m') (b : BlockRef) : m'.restOcc id b = m.restOcc id b := by
  refine sum_eq_of_get? (fun k => ?_) fun _ _ _ => rfl
  rw [get?_erase, get?_erase]
  split
  · rfl
  · rename_i hk
    exact h.blocks k hk

theorem restUnc (h : RowUpdate id m m') (b : BlockRef) : m'.restUnc id b = m.restUnc id b := by
  refine sum_eq_of_get? (fun k => ?_) fun k v hk => ?_
  · rw [get?_erase, get?_erase]
    split
    · rfl
    · rename_i hk
      exact h.blocks k hk
  · have hne : k ≠ id := fun he => by simp [he] at hk
    rw [h.numCached hne]

end RowUpdate

/-! ## The assignments -/

section

variable (m : SingleTypeKVCacheManager) (l : List BlockRef)

@[simp] theorem blocksOf_setBlocks : (m.setBlocks id l).blocksOf id = l := by
  simp [blocksOf, setBlocks]

variable (id' : ReqId)

@[simp] theorem numCached_setBlocks (l : List BlockRef) :
    (m.setBlocks id l).numCached id' = m.numCached id' := rfl

variable (n : Nat)

@[simp] theorem blocksOf_setNumCached : (m.setNumCached id n).blocksOf id' = m.blocksOf id' := rfl

@[simp] theorem numCached_setNumCached : (m.setNumCached id n).numCached id = n := by
  simp [numCached, setNumCached]

@[simp] theorem blocksOf_openBlocks : (m.openBlocks id).blocksOf id = m.blocksOf id := by
  simp [blocksOf, openBlocks]

@[simp] theorem blocksOf_recordNewBlocks : (m.recordNewBlocks l).blocksOf id = m.blocksOf id := by
  unfold recordNewBlocks
  split <;> rfl

theorem rowUpdate_setBlocks : RowUpdate id m (m.setBlocks id l) :=
  ⟨rfl, rfl, fun _ hi => get?_set_ne _ hi, fun _ _ => rfl, fun _ _ => rfl,
    fun _ _ => Iff.rfl⟩

theorem rowUpdate_openBlocks : RowUpdate id m (m.openBlocks id) :=
  rowUpdate_setBlocks m _

theorem rowUpdate_setNumCached : RowUpdate id m (m.setNumCached id n) :=
  ⟨rfl, rfl, fun _ _ => rfl, fun _ hi => get?_set_ne _ hi, fun _ _ => rfl,
    fun _ _ => Iff.rfl⟩

theorem rowUpdate_recordNewBlocks (id : ReqId)
    (l : List BlockRef) : RowUpdate id m (m.recordNewBlocks l) := by
  unfold recordNewBlocks
  split
  · exact ⟨rfl, rfl, fun _ _ => rfl, fun _ _ => rfl, fun _ _ => rfl, fun _ _ => Iff.rfl⟩
  · exact RowUpdate.refl id m

end

end SingleTypeKVCacheManager

structure RowInv (p : BlockPool) (l : List BlockRef) (O U : BlockRef → Nat)
    (t : List BlockRef) (n : Nat) : Prop where
  core : CoreInv p (fun b => O b + t.count b) (fun b => U b + (t.drop n).count b)
  free : FreeInv p (fun b => O b + t.count b) l
  le : ∀ b, U b ≤ O b
  nodup : (t.filter (· ≠ p.nullBlock)).Nodup

namespace RowInv

variable {p p' : BlockPool} {l : List BlockRef} {O U : BlockRef → Nat} {t : List BlockRef} {n : Nat}

theorem not_mem (h : RowInv p l O U t n) {b : BlockRef} (hb : b ∈ l) : b ∉ t := by
  obtain ⟨-, -, h3⟩ := (h.free.mem_iff b).mp hb
  exact count_eq_zero.mp (by omega)

theorem rearrange (h : RowInv p l O U t n) {t' : List BlockRef} {n' : Nat}
    (hcount : ∀ b, b ≠ p.nullBlock → t'.count b = t.count b)
    (hdrop : ∀ b, b ≠ p.nullBlock → (t'.drop n').count b ≤ (t.drop n).count b) :
    RowInv p l O U t' n' := by
  refine ⟨h.core.mono ?_ ?_, h.free.congr ?_, h.le, ?_⟩
  · exact fun b hb => by rw [hcount b hb]
  · exact fun b hb => Nat.add_le_add_left (hdrop b hb) _
  · exact fun b hb => by rw [hcount b hb]
  rw [nodup_iff_count_le_one]
  intro b
  by_cases hb : b = p.nullBlock
  · rw [count_eq_zero_of_not_mem (by simp [hb])]
    exact Nat.zero_le 1
  · have hone := nodup_iff_count_le_one.mp h.nodup b
    rw [count_filter (by simpa using hb)] at hone ⊢
    rw [hcount b hb]
    exact hone

theorem pop (h : RowInv p l O U t n) {k : Nat} (hk : k ≤ l.length) :
    ∃ p', p.getNewBlocks k = .ok (p', l.take k) ∧ RowInv p' (l.drop k) O U (t ++ l.take k) n ∧
      Frame p p' ∧ ∀ c, p'.hash c = if c ∈ l.take k then none else p.hash c := by
  obtain ⟨p', hok, hcore, hfree, hframe, hhash⟩ := getNewBlocks_spec h.core h.free hk
  refine ⟨p', hok, ⟨hcore.mono ?_ ?_, hfree.congr ?_, h.le, ?_⟩, hframe, hhash⟩
  · exact fun b _ => by rw [count_append, Nat.add_assoc]
  · intro b _
    rw [drop_append, count_append, Nat.add_assoc]
    exact Nat.add_le_add_left
      (Nat.add_le_add_left ((drop_sublist _ _).count_le b) _) _
  · exact fun b _ => by rw [count_append, Nat.add_assoc]
  rw [hframe.nullBlock, filter_append]
  have hnd : (l.take k).Nodup := h.free.nodup.sublist (take_sublist k l)
  refine nodup_append.mpr ⟨h.nodup, hnd.filter _, ?_⟩
  intro a ha b hb he
  rw [mem_filter] at ha hb
  exact h.not_mem (mem_of_mem_take hb.1) (he ▸ ha.1)

theorem count_replicate_null {b c : BlockRef} (hb : b ≠ c) (k : Nat) :
    (replicate k c).count b = 0 := by
  rw [count_replicate, if_neg (by simpa using hb.symm)]

/-- A new request takes over its hits. -/
theorem takeHits (h : RowInv p l O U [] n) (kept : List BlockRef)
    (hlt : ∀ b ∈ kept, b < p.numGpuBlocks) (hnd : (kept.filter (· ≠ p.nullBlock)).Nodup) (s : Nat) :
    ∃ p', p.touch kept = .ok p' ∧
      RowInv p' (l.filter (· ∉ kept)) O U (replicate s p.nullBlock ++ kept)
        (replicate s p.nullBlock ++ kept).length ∧ Frame p p' ∧ ∀ c, p'.hash c = p.hash c := by
  obtain ⟨p', hok, hcore, hfree, hframe, hhash⟩ := touch_spec kept h.core h.free hlt
  have hcount : ∀ b, b ≠ p.nullBlock →
      (replicate s p.nullBlock ++ kept).count b = ([] : List BlockRef).count b + kept.count b := by
    intro b hb
    rw [count_append, count_replicate_null hb, count_nil]
  refine ⟨p', hok, ⟨hcore.mono ?_ ?_, hfree.congr ?_, h.le, ?_⟩, hframe, hhash⟩
  · intro b hb
    rw [hframe.nullBlock] at hb
    rw [hcount b hb, Nat.add_assoc]
  · intro b _
    rw [drop_length]
    simp
  · intro b hb
    rw [hframe.nullBlock] at hb
    rw [hcount b hb, Nat.add_assoc]
  · rw [hframe.nullBlock, filter_append, filter_eq_nil_iff.mpr]
    · simpa using hnd
    · intro a ha
      simp [eq_of_mem_replicate ha]

/-- Some entries of a table are given up. -/
theorem release (h : RowInv p l O U t n) (t' : List BlockRef) (n' : Nat) (removed : List BlockRef)
    (hcount : ∀ b, b ≠ p.nullBlock → t.count b = t'.count b + removed.count b)
    (hdrop : ∀ b, b ≠ p.nullBlock → (t'.drop n').count b ≤ (t.drop n).count b) :
    ∃ p', p.freeBlocks removed = .ok p' ∧
      RowInv p' (l ++ removed.filter fun b => decide (b ≠ p.nullBlock ∧ O b + t'.count b = 0))
        O U t' n' ∧ Frame p p' ∧ (∀ c, p'.hash c = p.hash c) ∧
      p'.cachedBlockHashToBlock = p.cachedBlockHashToBlock := by
  have hone : ∀ b, b ≠ p.nullBlock → t.count b ≤ 1 := fun b hb => by
    have := nodup_iff_count_le_one.mp h.nodup b
    rwa [count_filter (by simpa using hb)] at this
  have hnodup : ∀ xs : List BlockRef, (∀ b, b ≠ p.nullBlock → xs.count b ≤ t.count b) →
      (xs.filter (· ≠ p.nullBlock)).Nodup := by
    intro xs hxs
    rw [nodup_iff_count_le_one]
    intro b
    by_cases hb : b = p.nullBlock
    · rw [count_eq_zero_of_not_mem (by simp [hb])]
      exact Nat.zero_le 1
    · rw [count_filter (by simpa using hb)]
      exact (hxs b hb).trans (hone b hb)
  obtain ⟨p', hok, hcore, hfree, hframe, hhash, hmap⟩ := freeBlocks_spec removed
    (fun b => O b + t'.count b) (fun b => U b + (t'.drop n').count b) h.core h.free
      (fun b hb => by rw [hcount b hb, Nat.add_assoc])
    (fun b hb => ⟨Nat.add_le_add_left (hdrop b hb) _,
      Nat.add_le_add (h.le b) ((drop_sublist _ _).count_le b)⟩)
    (hnodup removed fun b hb => by rw [hcount b hb]; exact Nat.le_add_left _ _)
  refine ⟨p', hok, ⟨hcore, hfree, h.le, ?_⟩, hframe, hhash, hmap⟩
  rw [hframe.nullBlock]
  exact hnodup t' fun b hb => by rw [hcount b hb]; exact Nat.le_add_right _ _

theorem drop_count_split (t : List BlockRef) {n f : Nat} (hnf : n ≤ f) (b : BlockRef) :
    (t.drop n).count b = ((t.take f).drop n).count b + (t.drop f).count b := by
  have hsplit : t.drop n = (t.take f).drop n ++ t.drop f := by
    conv_lhs => rw [← take_append_drop f t]
    rw [drop_append, length_take]
    by_cases hlen : f ≤ t.length
    · rw [Nat.min_eq_left hlen, Nat.sub_eq_zero_of_le hnf, drop_zero]
    · rw [drop_eq_nil_of_le (by omega : t.length ≤ f), drop_nil]
  rw [hsplit, count_append]

/-- The blocks of a range are cached. -/
theorem cache (h : RowInv p l O U t n) (hen : p.enableCaching = true) {f : Nat} (hnf : n ≤ f)
    (gid : Nat) (hs : List BlockHash) :
    (∃ p', p.cacheLoop gid ((t.take f).drop n) hs = .ok p' ∧ RowInv p' l O U t f ∧ Frame p p' ∧
      (∀ c, c ∉ (t.take f).drop n → p'.hash c = p.hash c) ∧
      ∀ (i : Nat) (b : BlockRef), ((t.take f).drop n)[i]? = some b → b ≠ p.nullBlock →
        ∃ k, hs[i]? = some k ∧ p'.hash b = some (makeBlockHashWithGroupId k gid)) ∨
    (p.cacheLoop gid ((t.take f).drop n) hs = .error .indexError ∧
      hs.length < ((t.take f).drop n).length) := by
  refine (cacheLoop_spec gid ((t.take f).drop n) hs h.core hen fun b _ => ?_).imp ?_ id
  · rw [drop_count_split t hnf b]
    omega
  rintro ⟨p', hok, hcore, hframe, hqueue, hother, hkey⟩
  refine ⟨p', hok, ⟨hcore.mono (fun _ _ => rfl) fun b _ => ?_, ⟨?_, ?_, ?_, ?_, ?_⟩, h.le, ?_⟩,
    hframe, hother, hkey⟩
  · have := drop_count_split t hnf b
    omega
  · rw [hqueue, hframe.numGpuBlocks]
    exact h.free.head_eq
  · rw [hqueue, hframe.numGpuBlocks]
    exact h.free.tail_eq
  · rw [hqueue]
    exact h.free.holds
  · rw [hqueue]
    exact h.free.numFree_eq
  · intro b
    rw [hframe.numGpuBlocks, hframe.nullBlock]
    exact h.free.mem_iff b
  · rw [hframe.nullBlock]
    exact h.nodup

end RowInv

end VllmEcho
