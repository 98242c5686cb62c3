import VllmEcho.KVCache.GroupsInvariant
import VllmEcho.KVCache.HybridHit

/-!
# The invariant of the KV cache manager

`KVInv` ties the pool to the tables of all groups.  Every operation keeps it or raises; an exception
is never the one of the hash assertion in `cache_full_blocks`.
-/

namespace VllmEcho

open Lib BlockPool List SingleTypeKVCacheManager

structure KVBase (mgr : KVCacheManager) (l : List BlockRef) : Prop where
  groups : GroupsInv mgr.blockPool l (fun _ => 0) (fun _ => 0) mgr.singleTypeManagers
  specs : mgr.singleTypeManagers.map (fun m => (m.kvCacheSpec, m.kvCacheGroupId)) =
    mgr.config.kvCacheGroups.zipIdx
  numBlocks : mgr.blockPool.numGpuBlocks = mgr.config.numBlocks
  caching : mgr.blockPool.enableCaching = mgr.config.enableCaching
  hashSize : mgr.blockPool.hashBlockSize = mgr.config.hashBlockSize
  null : mgr.blockPool.nullBlock = 0
  checked : mgr.config.Checked

structure KVInv (mgr : KVCacheManager) (l : List BlockRef) : Prop extends KVBase mgr l where
  settled : ∀ m ∈ mgr.singleTypeManagers, ∀ id, m.Settled id

/-- An operation keeps the invariant and the configuration, or raises an exception other than the
hash assertion. -/
def Keeps (cfg : KVCacheConfig) {α : Type} (state : α → KVCacheManager) (r : Except PyError α) :
    Prop :=
  (∃ a l, r = .ok a ∧ KVInv (state a) l ∧ (state a).config = cfg) ∨
    ∃ e, r = .error e ∧ e ≠ hashAssertion

theorem settled_of_forall₂ {ms ms' : List SingleTypeKVCacheManager}
    (hms : List.Forall₂ (fun m m' => (∀ id, m.Settled id) → ∀ id, m'.Settled id) ms ms')
    (hset : ∀ m ∈ ms, ∀ id, m.Settled id) : ∀ m ∈ ms', ∀ id, m.Settled id := by
  intro m' hm'
  obtain ⟨m, hm, hkeeps⟩ := forall₂_mem hms hm'
  exact hkeeps (hset m hm)

theorem settled_of_row {id : ReqId} {m m' : SingleTypeKVCacheManager} (hrow : RowUpdate id m m')
    (hid : m'.Settled id) (hset : ∀ id, m.Settled id) : ∀ id, m'.Settled id := by
  intro id'
  by_cases h : id' = id
  · exact h ▸ hid
  · exact (hset id').ofRow hrow h

theorem specs_of_rowUpdates {id : ReqId} {ms ms' : List SingleTypeKVCacheManager}
    (hms : List.Forall₂ (RowUpdate id) ms ms') :
    ms'.map (fun m => (m.kvCacheSpec, m.kvCacheGroupId)) =
      ms.map (fun m => (m.kvCacheSpec, m.kvCacheGroupId)) :=
  map_eq_of_forall₂ (hms.imp fun _ _ hm => by rw [hm.spec, hm.groupId])

variable {mgr : KVCacheManager} {l : List BlockRef}

theorem KVBase.spec_of_mem (h : KVBase mgr l) {m : SingleTypeKVCacheManager}
    (hm : m ∈ mgr.singleTypeManagers) :
    mgr.config.kvCacheGroups[m.kvCacheGroupId]? = some m.kvCacheSpec := by
  have hmem : (m.kvCacheSpec, m.kvCacheGroupId) ∈ mgr.config.kvCacheGroups.zipIdx := by
    rw [← h.specs]
    exact mem_map_of_mem hm
  exact mk_mem_zipIdx_iff_getElem?.mp hmem

section Loop

variable {β : Type} {f : BlockPool → SingleTypeKVCacheManager →
    Except PyError (BlockPool × SingleTypeKVCacheManager × β)}
  {J : List SingleTypeKVCacheManager → BlockPool → List BlockRef → Prop} {R : RoundRel}
  {E : PyError → Prop}

structure Looped (R : RoundRel) (mgr : KVCacheManager) (l : List BlockRef) (mgr' : KVCacheManager)
    (l' : List BlockRef) : Prop extends KVBase mgr' l' where
  config : mgr'.config = mgr.config
  frame : Frame mgr.blockPool mgr'.blockPool
  trace : LoopTrace R mgr.blockPool l mgr.singleTypeManagers mgr'.blockPool l'
    mgr'.singleTypeManagers

/-- A loop over the groups, from a rule for one round. -/
theorem KVBase.loop (h : KVBase mgr l) {id : ReqId}
    (hrow : ∀ {p l m p' l' m'}, R p l m p' l' m' → RowUpdate id m m')
    (hJ : J mgr.singleTypeManagers mgr.blockPool l) (hstep : RoundRule f J R E) :
    (∃ p' ms' outs l', forManagers f mgr.blockPool mgr.singleTypeManagers = .ok (p', ms', outs) ∧
      J [] p' l' ∧ Looped R mgr l { mgr with blockPool := p', singleTypeManagers := ms' } l') ∨
    ∃ e, forManagers f mgr.blockPool mgr.singleTypeManagers = .error e ∧ E e := by
  rcases forManagers_rule hstep mgr.singleTypeManagers hJ h.groups with
    ⟨p', ms', outs, l', hok, hg, hframe, hJ', htrace⟩ | herr
  · have hms := htrace.forall₂ fun _ _ _ _ _ _ hr => hrow hr
    exact Or.inl ⟨p', ms', outs, l', hok, hJ', ⟨hg, (specs_of_rowUpdates hms).trans h.specs,
      hframe.numGpuBlocks.trans h.numBlocks, hframe.enableCaching.trans h.caching,
      hframe.hashBlockSize.trans h.hashSize, hframe.nullBlock.trans h.null, h.checked⟩, rfl, hframe,
      htrace⟩
  · exact Or.inr herr

theorem Looped.inv {mgr' : KVCacheManager} {l' : List BlockRef} {id : ReqId}
    (hloop : Looped R mgr l mgr' l') (h : KVInv mgr l)
    (hrow : ∀ {p l m p' l' m'}, R p l m p' l' m' → RowUpdate id m m' ∧ m'.Settled id) :
    KVInv mgr' l' :=
  ⟨hloop.toKVBase, settled_of_forall₂ (hloop.trace.forall₂ fun _ _ _ _ _ _ hr =>
    settled_of_row (hrow hr).1 (hrow hr).2) h.settled⟩

end Loop

theorem KVInv.ofPool (h : KVInv mgr l) {p' : BlockPool} (hframe : Frame mgr.blockPool p')
    (hcore : CoreInv p' (fun b => 0 + occAll mgr.singleTypeManagers b)
      (fun b => 0 + uncAll mgr.singleTypeManagers b))
    (hfree : FreeInv p' (fun b => 0 + occAll mgr.singleTypeManagers b) l) :
    KVInv { mgr with blockPool := p' } l := by
  refine ⟨⟨⟨hcore, hfree, fun _ => le_rfl, fun m hm id => ?_⟩, h.specs,
    hframe.numGpuBlocks.trans h.numBlocks, hframe.enableCaching.trans h.caching,
    hframe.hashBlockSize.trans h.hashSize,
    hframe.nullBlock.trans h.null, h.checked⟩, h.settled⟩
  rw [hframe.nullBlock]
  exact h.groups.tables m hm id

/-! ## Releasing, caching and evicting -/

namespace KVCacheManager

def SkipRound (id : ReqId) (total : Nat) (p : BlockPool) (l : List BlockRef)
    (m : SingleTypeKVCacheManager) (p' : BlockPool) (l' : List BlockRef)
    (m' : SingleTypeKVCacheManager) : Prop :=
  Skips p m id (skippedBlocks m.kvCacheSpec total) p' m' ∧ ∃ freed, l' = l ++ freed

theorem removeSkippedBlocks_spec (h : KVInv mgr l) (id : ReqId) (total : Nat) :
    ∃ mgr' l', mgr.removeSkippedBlocks id total = .ok mgr' ∧ KVInv mgr' l' ∧
      Looped (SkipRound id total) mgr l mgr' l' := by
  have hrule := h.toKVBase.loop
    (f := fun p m => noResult (m.removeSkippedBlocks p id total)) (J := fun _ _ _ => True)
    (R := SkipRound id total) (E := fun _ => False) (fun hr => hr.1.rowUpdate) trivial ?_
  · rcases hrule with ⟨p', ms', outs, l', hok, -, hloop⟩ | ⟨_, _, h⟩
    · refine ⟨_, l', by simp [removeSkippedBlocks, hok], ⟨hloop.toKVBase, ?_⟩, hloop⟩
      refine settled_of_forall₂ (hloop.trace.forall₂ fun _ _ _ _ _ _ hr => ?_) h.settled
      exact fun hset id' => hr.1.settled (hset id')
    · exact h.elim
  · intro m rest p l' O U _ hm
    obtain ⟨p', m', freed, hok, hinv, hskips⟩ :=
      SingleTypeKVCacheManager.removeSkippedBlocks_spec hm id total
    exact Or.inl ⟨p', m', (), _, noResult_ok hok, hinv, hskips.frame, trivial, hskips, freed, rfl⟩

theorem free_spec (h : KVInv mgr l) (id : ReqId) :
    ∃ mgr' l', mgr.free id = .ok mgr' ∧ KVInv mgr' l' ∧ mgr'.config = mgr.config := by
  have hrule := h.toKVBase.loop
    (f := fun p m => noResult (m.free p id)) (J := fun _ _ _ => True)
    (R := fun _ _ m _ _ m' => RowUpdate id m m' ∧ m'.Settled id)
    (E := fun _ => False) And.left trivial ?_
  · rcases hrule with ⟨p', ms', outs, l', hok, -, hloop⟩ | ⟨_, _, h⟩
    · exact ⟨_, l', by simp [free, hok], hloop.inv h fun hr => hr, rfl⟩
    · exact h.elim
  · intro m rest p l' O U _ hm
    obtain ⟨p', m', freed, hok, hinv, hrow, hblocks, hcached, hframe⟩ :=
      SingleTypeKVCacheManager.free_spec hm id
    refine Or.inl ⟨p', m', (), _, noResult_ok hok, hinv, hframe, trivial, hrow,
      fun s _ => Or.inr ?_⟩
    simp [blocksOf, numCached, hblocks, hcached]

def CacheRound (request : RequestView) (n : Nat) (p : BlockPool) (l : List BlockRef)
    (m : SingleTypeKVCacheManager) (p' : BlockPool) (l' : List BlockRef)
    (m' : SingleTypeKVCacheManager) : Prop :=
  Caches p m request (n / m.blockSize) p' m' ∧ m'.Settled request.requestId ∧ l' = l ∧
    ∀ c k, p.hash c = some k → p'.hash c = some k

theorem cacheBlocksLoop_spec (h : KVInv mgr l) (hen : mgr.config.enableCaching = true)
    (request : RequestView) (n : Nat)
    (hguard : ∀ m ∈ mgr.singleTypeManagers, ∀ s, m.kvCacheSpec.alignSpeculativeBlocks = some s →
      n / m.blockSize ≤ m.numCached request.requestId ∨
        n / m.blockSize + s ≤ (m.blocksOf request.requestId).length) :
    (∃ mgr' l', mgr.cacheBlocksLoop request n = .ok mgr' ∧ KVInv mgr' l' ∧
      Looped (CacheRound request n) mgr l mgr' l') ∨
    ∃ e, mgr.cacheBlocksLoop request n = .error e ∧ e ≠ hashAssertion ∧ ¬ (n ≤ request.numTokens ∧
        request.numTokens / mgr.config.hashBlockSize ≤ request.blockHashes.length) := by
  have hrule := h.toKVBase.loop
    (f := fun p m => noResult (m.cacheBlocks p request n))
    (J := fun rest p _ => Frame mgr.blockPool p ∧ rest ⊆ mgr.singleTypeManagers)
    (R := CacheRound request n)
    (E := fun e => e ≠ hashAssertion ∧ ¬ (n ≤ request.numTokens ∧
      request.numTokens / mgr.config.hashBlockSize ≤ request.blockHashes.length))
    (fun hr => hr.1.rowUpdate) ⟨Frame.refl _, List.Subset.refl _⟩ ?_
  · rcases hrule with ⟨p', ms', outs, l', hok, -, hloop⟩ | ⟨e, herr, he⟩
    · exact Or.inl ⟨_, l', by simp [cacheBlocksLoop, hok],
        hloop.inv h fun hr => ⟨hr.1.rowUpdate, hr.2.1⟩, hloop⟩
    · exact Or.inr ⟨e, by simp [cacheBlocksLoop, herr], he⟩
  rintro m rest p l' O U ⟨hframe, hsub⟩ hm
  have hmem : m ∈ mgr.singleTypeManagers := hsub mem_cons_self
  have hen' : p.enableCaching = true := by rw [hframe.enableCaching, h.caching, hen]
  rcases cacheBlocks_spec hm hen' with ⟨p', m', hok, hinv, hcaches⟩ | ⟨e, herr, hne, hnot⟩
  · exact Or.inl ⟨p', m', (), _, noResult_ok hok, hinv, hcaches.frame,
      ⟨hframe.trans hcaches.frame, fun k hk => hsub (mem_cons_of_mem m hk)⟩,
      hcaches, hcaches.settled (h.settled m hmem) (hguard m hmem) _, rfl,
      fun _ _ hk => hcaches.keepsHash hm hk⟩
  · refine Or.inr ⟨e, noResult_error herr, hne, fun ⟨hn, hhashes⟩ => hnot ?_⟩
    rw [hframe.hashBlockSize, h.hashSize]
    have hspec := mem_of_getElem? (h.spec_of_mem hmem)
    exact ⟨h.checked.divides hen _ hspec, m.kvCacheSpec.blockSize_pos, hn, hhashes⟩

theorem evictBlocks_keeps (h : KVInv mgr l) (ids : List Nat) :
    Keeps mgr.config id (mgr.evictBlocks ids) := by
  unfold evictBlocks
  cases hev : mgr.blockPool.evictBlocks ids with
  | error e => exact Or.inr ⟨e, rfl, fun he => evictBlocks_ne (he ▸ hev)⟩
  | ok p' =>
    obtain ⟨hcore, hfree, hframe⟩ := evictBlocks_spec ids h.groups.core h.groups.free hev
    exact Or.inl ⟨_, l, rfl, h.ofPool hframe hcore hfree, rfl⟩

theorem resetPrefixCache_inv (h : KVInv mgr l) : KVInv mgr.resetPrefixCache.1 l := by
  obtain ⟨hcore, hfree, hframe⟩ := resetPrefixCache_spec h.groups.core h.groups.free
  exact h.ofPool hframe hcore hfree

theorem newStepStarts_inv (h : KVInv mgr l) : KVInv mgr.newStepStarts l := by
  have hocc : ∀ b, occAll (mgr.singleTypeManagers.map (·.newStepStarts)) b =
      occAll mgr.singleTypeManagers b := fun b => by
    unfold occAll
    rw [map_map]
    rfl
  have hunc : ∀ b, uncAll (mgr.singleTypeManagers.map (·.newStepStarts)) b =
      uncAll mgr.singleTypeManagers b := fun b => by
    unfold uncAll
    rw [map_map]
    rfl
  refine ⟨⟨⟨h.groups.core.mono ?_ ?_, h.groups.free.congr ?_, fun _ => le_rfl, ?_⟩, ?_, h.numBlocks,
    h.caching, h.hashSize, h.null, h.checked⟩, ?_⟩
  · exact fun b _ => congrArg _ (hocc b)
  · exact fun b _ => (congrArg _ (hunc b)).le
  · exact fun b _ => congrArg _ (hocc b)
  · intro m hm id
    obtain ⟨m₀, hm₀, rfl⟩ := mem_map.mp hm
    obtain ⟨h1, h2, h3⟩ := h.groups.tables m₀ hm₀ id
    exact ⟨h1, h2, h3⟩
  · refine Eq.trans ?_ h.specs
    change (mgr.singleTypeManagers.map _).map _ = _
    rw [map_map]
    rfl
  · intro m hm id
    obtain ⟨m₀, hm₀, rfl⟩ := mem_map.mp hm
    exact h.settled m₀ hm₀ id

theorem checkConfig_checked {cfg : KVCacheConfig} {u : Unit} (hok : checkConfig cfg = .ok u) :
    cfg.Checked := by
  unfold checkConfig at hok
  split at hok <;> rename_i hen
  · split at hok
    · rename_i spec hgroups
      rw [assertThat_eq_ok, decide_eq_true_iff] at hok
      refine ⟨fun _ s hs => ?_, fun _ s hs => ?_, fun _ hne => absurd hgroups (hne spec)⟩
      · rw [hgroups] at hs
        exact hok.trans (congrArg _ (singleton_inj.mp hs))
      · rw [hgroups, mem_singleton] at hs
        rw [hs, hok, Nat.mod_self]
    · rename_i hne
      rw [bind_eq_ok] at hok
      obtain ⟨_, hdiv, htwo⟩ := hok
      rw [assertThat_eq_ok, all_eq_true] at hdiv
      rw [assertThat_eq_ok] at htwo
      exact ⟨fun _ s hs => absurd hs (hne s), fun _ s hs => of_decide_eq_true (hdiv s hs),
        fun _ _ => of_decide_eq_true htwo⟩
  · exact ⟨fun h => absurd h hen, fun h => absurd h hen, fun h => absurd h hen⟩

/-- The constructor establishes the invariant. -/
theorem init_inv {cfg : KVCacheConfig} {mgr : KVCacheManager} (hok : init cfg = .ok mgr) :
    KVInv mgr (List.range' 1 (cfg.numBlocks - 1)) ∧ mgr.config = cfg := by
  unfold init at hok
  simp only [bind_eq_ok] at hok
  obtain ⟨p, hp, u, hcheck, hok⟩ := hok
  cases hok
  have hpos : 0 < cfg.numBlocks := by
    unfold BlockPool.init at hp
    rw [bind_eq_ok] at hp
    obtain ⟨_, hassert, -⟩ := hp
    rwa [assertThat_eq_ok, decide_eq_true_iff] at hassert
  obtain ⟨p', hp', hcore, hfree, hnum, hcaching, hsize, hnull⟩ :=
    init_spec hpos cfg.enableCaching cfg.hashBlockSize
  obtain rfl : p' = p := Except.ok.inj (hp'.symm.trans hp)
  set ms := cfg.kvCacheGroups.zipIdx.map fun e => SingleTypeKVCacheManager.init e.1 e.2 with hms
  have hzero : ∀ b, occAll ms b = 0 ∧ uncAll ms b = 0 := by
    intro b
    constructor <;> refine sum_eq_zero fun n hn => ?_
    all_goals
      obtain ⟨m, hm, rfl⟩ := mem_map.mp hn
      obtain ⟨e, -, rfl⟩ := mem_map.mp hm
      rfl
  refine ⟨⟨⟨⟨hcore.mono ?_ ?_, hfree.congr ?_, fun _ => le_rfl, ?_⟩, ?_, hnum, hcaching,
    hsize, hnull, checkConfig_checked hcheck⟩, ?_⟩, rfl⟩
  · intro b _
    rw [(hzero b).1]
  · intro b _
    rw [(hzero b).2]
  · intro b _
    rw [(hzero b).1]
  · intro m hm id
    obtain ⟨e, -, rfl⟩ := mem_map.mp hm
    exact ⟨nodup_nil, nofun, fun s _ hid => absurd hid not_mem_nil⟩
  · change ms.map _ = _
    rw [map_map]
    exact map_id' _
  · intro m hm id s _
    obtain ⟨e, -, rfl⟩ := mem_map.mp hm
    exact Or.inr ⟨rfl, rfl⟩

end KVCacheManager

end VllmEcho
