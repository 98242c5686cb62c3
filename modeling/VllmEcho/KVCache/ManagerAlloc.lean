import VllmEcho.KVCache.ManagerInvariant

/-!
# Allocation in one group

The two allocating methods: taking over prefix-cache hits with blocks for external tokens behind
them, and appending blocks for new tokens.
-/

namespace VllmEcho

open Lib BlockPool List

variable (spec : KVCacheSpec) (nullBlock : BlockRef) {hits : List BlockRef}
  {numExternal numTokens numLocal : Nat} (total : Nat)

namespace SingleTypeKVCacheManager

variable {p p' : BlockPool} {l : List BlockRef} {O U : BlockRef → Nat}
  {m m' : SingleTypeKVCacheManager} {id : ReqId}

/-! ## Hits and external tokens -/

def windowBlocks : Nat :=
  spec.getNumSkippedTokens total / spec.blockSize

def keptHits (hits : List BlockRef) : List BlockRef :=
  hits.drop (windowBlocks spec total)

def hitTable (spec : KVCacheSpec) (total : Nat) (hits : List BlockRef) : List BlockRef :=
  replicate (windowBlocks spec total) nullBlock ++ keptHits spec total hits

def externalTokens (numLocal numExternal : Nat) : Nat :=
  if 0 < windowBlocks spec (numLocal + numExternal) then
    min (numLocal + numExternal - spec.getNumSkippedTokens (numLocal + numExternal)) numExternal
  else numExternal

def externalBlocks (hits : List BlockRef) (numLocal numExternal : Nat) : Int :=
  if 0 < externalTokens spec numLocal numExternal then
    (cdiv (numLocal + numExternal) spec.blockSize : Int) -
      max (windowBlocks spec (numLocal + numExternal)) hits.length
  else 0

theorem hitTable_length (spec : KVCacheSpec) (total : Nat) (hits : List BlockRef) :
    (hitTable nullBlock spec total hits).length = max (windowBlocks spec total) hits.length := by
  rw [hitTable, keptHits, length_append, length_replicate, length_drop]
  omega

structure TakesHits (p : BlockPool) (l : List BlockRef) (m : SingleTypeKVCacheManager) (id : ReqId)
    (hits : List BlockRef) (numLocal numExternal : Nat) (p' : BlockPool)
    (m' : SingleTypeKVCacheManager) : Prop where
  rowUpdate : RowUpdate id m m'
  blocks : m'.blocksOf id =
    hitTable p.nullBlock m.kvCacheSpec (numLocal + numExternal) hits ++
      (l.filter (· ∉ keptHits m.kvCacheSpec (numLocal + numExternal) hits)).take
        (externalBlocks m.kvCacheSpec hits numLocal numExternal).toNat
  cached : m'.numCachedBlock.get? id =
    some (hitTable p.nullBlock m.kvCacheSpec (numLocal + numExternal) hits).length
  lastState : m'.lastStateBlockIdx = m.lastStateBlockIdx
  allocated : m'.allocatedBlockReqs = m.allocatedBlockReqs
  thisStep : m'.cachedBlocksThisStep = m.cachedBlocksThisStep
  frame : Frame p p'
  hash : ∀ c, p'.hash c =
    if c ∈ (l.filter (· ∉ keptHits m.kvCacheSpec (numLocal + numExternal) hits)).take
      (externalBlocks m.kvCacheSpec hits numLocal numExternal).toNat then none else p.hash c

theorem MgrInv.not_allocated (h : MgrInv p l O U m) (hnil : m.blocksOf id = []) :
    m.lastStateBlockIdx.get? id = none ∧
      ∀ s, m.kvCacheSpec.alignSpeculativeBlocks = some s → id ∉ m.allocatedBlockReqs := by
  have ht := h.tables id
  constructor
  · rw [Option.eq_none_iff_forall_ne_some]
    intro i hi
    have := (ht.last_lt i hi).2
    rw [hnil] at this
    exact absurd this (Nat.not_lt_zero i)
  · intro s hs hid
    have := ht.allocated s hs hid
    rw [hnil, length_nil] at this
    omega

theorem touchComputedBlocks_ok {kept : List BlockRef} (hcache : p.enableCaching = true ∨ kept = [])
    (htouch : p.touch kept = .ok p') : touchComputedBlocks p kept = .ok p' := by
  unfold touchComputedBlocks
  split
  · exact htouch
  · rename_i hoff
    rw [hcache.resolve_left hoff] at htouch ⊢
    exact htouch

/-- What replacing the table of a request and recording new blocks leaves alone. -/
theorem setBlocks_recordNewBlocks (t ys : List BlockRef) :
    RowUpdate id m ((m.setBlocks id t).recordNewBlocks ys) ∧
      ((m.setBlocks id t).recordNewBlocks ys).blocksOf id = t ∧
      ((m.setBlocks id t).recordNewBlocks ys).numCachedBlock = m.numCachedBlock ∧
      ((m.setBlocks id t).recordNewBlocks ys).cachedBlocksThisStep = m.cachedBlocksThisStep ∧
      ((m.setBlocks id t).recordNewBlocks ys).lastStateBlockIdx = m.lastStateBlockIdx ∧
      ((m.setBlocks id t).recordNewBlocks ys).allocatedBlockReqs = m.allocatedBlockReqs := by
  refine ⟨(rowUpdate_setBlocks m _).trans (rowUpdate_recordNewBlocks _ id _), ?_, ?_⟩
  · rw [blocksOf_recordNewBlocks, blocksOf_setBlocks]
  · unfold recordNewBlocks
    split <;> exact ⟨rfl, rfl, rfl, rfl⟩

/-- One round of the loop over the hits: nothing for a request with a table; the hits and blocks for
external tokens for a new one. -/
def HitRound (id : ReqId) (hitsOf : Nat → List BlockRef) (numLocal numExternal : Nat)
    (p : BlockPool) (l : List BlockRef) (m : SingleTypeKVCacheManager) (p' : BlockPool)
    (l' : List BlockRef) (m' : SingleTypeKVCacheManager) : Prop :=
  (m.numCachedBlock.contains id = true ∧ hitsOf m.kvCacheGroupId = [] ∧ p' = p ∧ l' = l ∧
    m' = m) ∨
  (m.numCachedBlock.contains id = false ∧ m.blocksOf id = [] ∧
    externalBlocks m.kvCacheSpec (hitsOf m.kvCacheGroupId) numLocal numExternal ≤
      (l.filter (· ∉ keptHits m.kvCacheSpec (numLocal + numExternal)
        (hitsOf m.kvCacheGroupId))).length ∧
    l' = (l.filter (· ∉ keptHits m.kvCacheSpec (numLocal + numExternal)
      (hitsOf m.kvCacheGroupId))).drop
        (externalBlocks m.kvCacheSpec (hitsOf m.kvCacheGroupId) numLocal numExternal).toNat ∧
    TakesHits p l m id (hitsOf m.kvCacheGroupId) numLocal numExternal p' m')

/-- Hits and blocks for external tokens: the round is as `HitRound` says, or fails for a listed
reason. -/
theorem allocateNewComputedBlocks_spec (h : MgrInv p l O U m) {hitsOf : Nat → List BlockRef}
    (hhits : hits = hitsOf m.kvCacheGroupId) (hlt : ∀ b ∈ hits, b < p.numGpuBlocks)
    (hnd : (hits.filter (· ≠ p.nullBlock)).Nodup)
    (hpos : 0 ≤ externalBlocks m.kvCacheSpec hits numLocal numExternal) :
    (∃ p' m' l', m.allocateNewComputedBlocks p id hits numLocal numExternal = .ok (p', m') ∧
      MgrInv p' l' O U m' ∧ Frame p p' ∧ HitRound id hitsOf numLocal numExternal p l m p' l' m') ∨
    ∃ e, m.allocateNewComputedBlocks p id hits numLocal numExternal = .error e ∧ e ≠ hashAssertion ∧
      ¬ (m.numCachedBlock.contains id = false ∧ m.blocksOf id = [] ∧
        (p.enableCaching = true ∨ keptHits m.kvCacheSpec (numLocal + numExternal) hits = []) ∧
        externalBlocks m.kvCacheSpec hits numLocal numExternal ≤
          (l.filter (· ∉ keptHits m.kvCacheSpec (numLocal + numExternal) hits)).length) := by
  unfold HitRound
  rw [← hhits]
  set kept := keptHits m.kvCacheSpec (numLocal + numExternal) hits with hkept
  set w := windowBlocks m.kvCacheSpec (numLocal + numExternal) with hw
  cases hc : m.numCachedBlock.contains id with
  | true =>
    unfold allocateNewComputedBlocks
    rw [if_pos hc]
    by_cases hempty : hits = []
    · exact Or.inl ⟨p, m, l, by simp [hempty], h, Frame.refl p, Or.inl ⟨rfl, hempty, rfl, rfl, rfl⟩⟩
    · have hlen : decide (hits.length = 0) = false := by simpa using hempty
      exact Or.inr ⟨_, by rw [hlen]; rfl, by decide, nofun⟩
  | false =>
  by_cases hnil : m.blocksOf id = []
  swap
  · have hlen : decide ((m.blocksOf id).length = 0) = false := by simpa using hnil
    unfold allocateNewComputedBlocks
    rw [if_neg (by rw [hc]; exact Bool.false_ne_true)]
    exact Or.inr ⟨_, by rw [hlen]; rfl, by decide, fun hfit => hnil hfit.2.1⟩
  have hsub : kept.Sublist hits := drop_sublist _ _
  have hrow := h.row id
  rw [hnil] at hrow
  obtain ⟨p₁, htouch, hrow₁, hframe₁, hhash₁⟩ := hrow.takeHits kept
    (fun b hb => hlt b (hsub.subset hb)) (hnd.sublist (hsub.filter _)) w
  have hstart : m.allocateNewComputedBlocks p id hits numLocal numExternal =
      touchComputedBlocks p kept >>= fun p => allocateExternalBlocks p
        ((m.setBlocks id
          (hitTable p.nullBlock m.kvCacheSpec (numLocal + numExternal) hits)).setNumCached
          id (hitTable p.nullBlock m.kvCacheSpec (numLocal + numExternal) hits).length)
        id (numLocal + numExternal) (externalTokens m.kvCacheSpec numLocal numExternal) := by
    unfold allocateNewComputedBlocks
    rw [hc, if_neg Bool.false_ne_true, hnil]
    rfl
  by_cases hcaching : p.enableCaching = true ∨ kept = []
  swap
  · have hempty : kept.isEmpty = false := by simpa using (not_or.mp hcaching).2
    refine Or.inr ⟨.assertionError
      "Computed blocks should be empty when prefix caching is disabled", ?_, by decide,
      fun hfit => hcaching hfit.2.2.1⟩
    rw [hstart, touchComputedBlocks, if_neg (not_or.mp hcaching).1, hempty]
    rfl
  rw [hstart, touchComputedBlocks_ok hcaching htouch, ok_bind, hframe₁.nullBlock]
  set k := (externalBlocks m.kvCacheSpec hits numLocal numExternal).toNat with hk
  set t := hitTable p.nullBlock m.kvCacheSpec (numLocal + numExternal) hits with ht
  set m₁ := (m.setBlocks id t).setNumCached id t.length with hm₁
  have hlen : (t.length : Int) = max w hits.length := by
    rw [ht, hitTable_length]
  have hblocks₁ : m₁.blocksOf id = t := by rw [hm₁, blocksOf_setNumCached, blocksOf_setBlocks]
  have hext : 0 < externalTokens m.kvCacheSpec numLocal numExternal →
      (cdiv (numLocal + numExternal) m₁.blockSize : Int) - t.length = (k : Int) := by
    intro hext
    rw [hk, Int.toNat_of_nonneg hpos, externalBlocks, if_pos hext, hlen]
    rfl
  unfold allocateExternalBlocks
  by_cases hcap : externalBlocks m.kvCacheSpec hits numLocal numExternal ≤
    (l.filter (· ∉ kept)).length
  swap
  · obtain ⟨msg, hshort⟩ := getNewBlocks_short hrow₁.free (Int.lt_of_not_ge hcap)
    have htokens : 0 < externalTokens m.kvCacheSpec numLocal numExternal := by
      by_contra hno
      rw [externalBlocks, if_neg hno] at hcap
      exact hcap (Int.natCast_nonneg _)
    refine Or.inr ⟨.valueError msg, ?_, nofun, fun hfit => hcap hfit.2.2.2⟩
    simp only [if_pos htokens, hblocks₁, hext htokens, hk, Int.toNat_of_nonneg hpos, hshort,
      error_bind]
  obtain ⟨hlast, halloc⟩ := h.not_allocated hnil
  have hrow₁' : RowUpdate id m m₁ :=
    (rowUpdate_setBlocks m t).trans (rowUpdate_setNumCached _ t.length)
  have htable : ∀ m₂ : SingleTypeKVCacheManager, m₂.kvCacheSpec = m.kvCacheSpec →
      m₂.lastStateBlockIdx = m.lastStateBlockIdx → m₂.allocatedBlockReqs = m.allocatedBlockReqs →
      ((m₂.blocksOf id).filter (· ≠ p.nullBlock)).Nodup → TableOk p.nullBlock m₂ id := by
    intro m₂ hspec hl ha hn
    refine ⟨hn, fun i hi => ?_, fun s hs hid => ?_⟩
    · rw [hl, hlast] at hi
      cases hi
    · rw [ha] at hid
      exact absurd hid (halloc s (by rwa [hspec] at hs))
  by_cases htokens : 0 < externalTokens m.kvCacheSpec numLocal numExternal
  · have hcap' : k ≤ (l.filter (· ∉ kept)).length := by
      rw [← Int.toNat_of_nonneg hpos] at hcap
      exact_mod_cast hcap
    obtain ⟨p₂, hpop, hrow₂, hframe₂, hhash₂⟩ := hrow₁.pop hcap'
    obtain ⟨hru, hblocks, hcached, hthis, hlast', halloc'⟩ :=
      setBlocks_recordNewBlocks (t ++ (l.filter (· ∉ kept)).take k)
        ((l.filter (· ∉ kept)).take k)
    simp only [if_pos htokens, hblocks₁, hext htokens, hpop, ok_bind]
    refine Or.inl ⟨p₂, _, _, rfl, h.ofRow (hrow₁'.trans hru) (hframe₁.trans hframe₂) ?_
      (htable _ (hrow₁'.trans hru).spec hlast' halloc' ?_), hframe₁.trans hframe₂,
      Or.inr ⟨trivial, hnil, hcap, rfl, hrow₁'.trans hru, hblocks, ?_, hlast', halloc', hthis,
        hframe₁.trans hframe₂, fun c => ?_⟩⟩
    · rw [hblocks, numCached, hcached]
      have hnum : m₁.numCached id = t.length := numCached_setNumCached ..
      unfold numCached at hnum
      rw [hnum]
      exact hrow₂
    · rw [hblocks]
      have hn := hrow₂.nodup
      rwa [hframe₂.nullBlock, hframe₁.nullBlock] at hn
    · rw [hcached]
      exact Dict.get?_set_self _
    · rw [hhash₂ c, hhash₁ c]
  · have hk0 : k = 0 := by rw [hk, externalBlocks, if_neg htokens]; rfl
    rw [if_neg htokens]
    refine Or.inl ⟨p₁, m₁, _, rfl, ?_, hframe₁, Or.inr ⟨rfl, hnil, hcap, rfl, hrow₁', ?_,
      Dict.get?_set_self _, rfl, rfl, rfl, hframe₁, fun c => ?_⟩⟩
    · rw [hk0]
      refine h.ofRow hrow₁' hframe₁ ?_ (htable m₁ rfl rfl rfl ?_)
      · rw [hblocks₁, numCached_setNumCached]
        exact hrow₁
      · rw [hblocks₁]
        have hn := hrow₁.nodup
        rwa [hframe₁.nullBlock] at hn
    · change m₁.blocksOf id = t ++ (l.filter (· ∉ kept)).take k
      rw [hk0, take_zero, append_nil, hblocks₁]
    · change p₁.hash c = if c ∈ (l.filter (· ∉ kept)).take k then none else p.hash c
      rw [hk0, take_zero, if_neg not_mem_nil, hhash₁ c]

/-! ## New tokens -/

structure Allocates (p : BlockPool) (l : List BlockRef) (m : SingleTypeKVCacheManager) (id : ReqId)
    (k : Nat) (t : List BlockRef) (p' : BlockPool) (m' : SingleTypeKVCacheManager) : Prop where
  rowUpdate : RowUpdate id m m'
  blocks : m'.blocksOf id = t ++ l.take k
  count : ∀ b, b ≠ p.nullBlock → t.count b = (m.blocksOf id).count b
  cached : m'.numCachedBlock = m.numCachedBlock
  thisStep : m'.cachedBlocksThisStep = m.cachedBlocksThisStep
  frame : Frame p p'
  hash : ∀ c, p'.hash c = if c ∈ l.take k then none else p.hash c

theorem allocates_openBlocks : Allocates p l m id 0 (m.blocksOf id) p (m.openBlocks id) :=
  ⟨rowUpdate_openBlocks m, by simp, fun _ _ => rfl, rfl, rfl, Frame.refl p, by simp⟩

/-- Appending blocks pops them from the front of the free queue. -/
theorem allocateNewBlocksBase_spec (h : MgrInv p l O U m)
    (hcap : cdiv numTokens m.blockSize - (m.blocksOf id).length ≤ l.length) :
    ∃ p' m', m.allocateNewBlocksBase p id numTokens =
        .ok (p', m', l.take (cdiv numTokens m.blockSize - (m.blocksOf id).length)) ∧
      MgrInv p' (l.drop (cdiv numTokens m.blockSize - (m.blocksOf id).length)) O U m' ∧
      Allocates p l m id (cdiv numTokens m.blockSize - (m.blocksOf id).length)
        (m.blocksOf id) p' m' := by
  have ht := h.tables id
  by_cases hle : cdiv numTokens m.blockSize ≤ (m.blocksOf id).length
  · have hk : cdiv numTokens m.blockSize - (m.blocksOf id).length = 0 := Nat.sub_eq_zero_of_le hle
    rw [hk, take_zero]
    exact ⟨p, m.openBlocks id, by rw [allocateNewBlocksBase, if_pos hle], h.openBlocks id,
      allocates_openBlocks⟩
  set k := cdiv numTokens m.blockSize - (m.blocksOf id).length with hk
  obtain ⟨p', hpop, hrow, hframe, hhash⟩ := (h.row id).pop hcap
  have hkk : (cdiv numTokens m.blockSize : Int) - (m.blocksOf id).length = (k : Int) := by omega
  obtain ⟨hru, hblocks, hcached, hthis, hlast, halloc⟩ :=
    setBlocks_recordNewBlocks (m.blocksOf id ++ l.take k) (l.take k)
  refine ⟨p', _, ?_, h.ofRow hru hframe ?_ ?_, ⟨hru, hblocks, fun _ _ => rfl, hcached, hthis,
    hframe, hhash⟩⟩
  · rw [allocateNewBlocksBase, if_neg hle]
    simp only [hkk, hpop, ok_bind, pure_eq_ok]
  · rw [hblocks, numCached, hcached]
    exact hrow
  have hlen : (m.blocksOf id).length ≤ (m.blocksOf id ++ l.take k).length := by
    rw [length_append]
    omega
  rw [← hblocks] at hlen
  refine ⟨?_, fun i hi => ?_, fun s hs hid => ?_⟩
  · rw [hblocks]
    have hn := hrow.nodup
    rwa [hframe.nullBlock] at hn
  · rw [hlast] at hi
    rw [hru.spec]
    exact ⟨(ht.last_lt i hi).1, (ht.last_lt i hi).2.trans_le hlen⟩
  · rw [halloc] at hid
    exact (ht.allocated s (by rwa [hru.spec] at hs) hid).trans hlen

theorem allocateNewBlocksBase_short (h : MgrInv p l O U m)
    (hcap : l.length < cdiv numTokens m.blockSize - (m.blocksOf id).length) :
    ∃ msg, m.allocateNewBlocksBase p id numTokens = .error (.valueError msg) := by
  obtain ⟨msg, herr⟩ := getNewBlocks_short h.free
    (n := (cdiv numTokens m.blockSize : Int) - (m.blocksOf id).length) (by omega)
  have hlt : ¬ cdiv numTokens m.blockSize ≤ (m.blocksOf id).length := by omega
  refine ⟨msg, ?_⟩
  simp only [allocateNewBlocksBase, if_neg hlt, herr, error_bind]

end SingleTypeKVCacheManager

end VllmEcho
