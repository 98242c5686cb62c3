import VllmEcho.KVCache.ManagerState

/-!
# Allocating slots

The two loops of `allocate_slots` over the groups, and that the whole call keeps the invariant.
Between the loops a group in align mode may hold a table without speculative blocks; `ReadyFor`
says what the second loop relies on.
-/

namespace VllmEcho

open Lib BlockPool SingleTypeKVCacheManager KVCacheManager.Slots List

variable {main : Nat} {hits : List BlockRef} {n : Nat} {args : AllocArgs}
  {Q : SingleTypeKVCacheManager → SingleTypeKVCacheManager → Prop}
  {ms ms' : List SingleTypeKVCacheManager} {total : Nat} {e : PyError}

/-! ## The hits of a call -/

/-- The hits of one group fit the pool and the tokens of the call: `numLocal` and `numExternal`
computed tokens, `main` tokens with the new ones. -/
structure GroupHits (p : BlockPool) (numLocal numExternal main : Nat) (spec : KVCacheSpec)
    (hits : List BlockRef) : Prop where
  lt : ∀ b ∈ hits, b < p.numGpuBlocks
  nodup : (hits.filter (· ≠ p.nullBlock)).Nodup
  external : 0 ≤ externalBlocks spec hits numLocal numExternal
  align : spec.alignSpeculativeBlocks.isSome →
    max (windowBlocks spec (numLocal + numExternal)) hits.length ≤ cdiv main spec.blockSize

variable {spec : KVCacheSpec} {numExternal numLocal : Nat}

theorem GroupHits.congr {p p' : BlockPool} (h : GroupHits p numLocal numExternal main spec hits)
    (hframe : Frame p p') : GroupHits p' numLocal numExternal main spec hits :=
  ⟨by rw [hframe.numGpuBlocks]; exact h.lt, by rw [hframe.nullBlock]; exact h.nodup, h.external,
    h.align⟩

theorem windowBlocks_le (spec : KVCacheSpec) :
    windowBlocks spec total ≤ total / spec.blockSize := by
  unfold windowBlocks KVCacheSpec.getNumSkippedTokens
  have hwf := spec.kind_wf
  refine Nat.div_le_div_right ?_
  cases hkind : spec.kind with
  | full => exact Nat.zero_le _
  | mla => exact Nat.zero_le _
  | slidingWindow w =>
    rw [hkind] at hwf
    have hw : 0 < w := of_decide_eq_true hwf
    change total + 1 - w ≤ total
    omega
  | chunkedLocal c => exact Nat.div_mul_le_self total c
  | mamba mode s => exact Nat.sub_le total 1

theorem externalBlocks_nonneg
    (h : numExternal = 0 ∨ hits.length ≤ cdiv (numLocal + numExternal) spec.blockSize) :
    0 ≤ externalBlocks spec hits numLocal numExternal := by
  unfold externalBlocks
  split <;> rename_i hpos
  · have hne : numExternal ≠ 0 := by
      rintro rfl
      unfold externalTokens at hpos
      split at hpos <;> omega
    have hwin := (windowBlocks_le spec).trans
      (div_le_cdiv (numLocal + numExternal) spec.blockSize_pos)
    omega
  · exact le_rfl

theorem getD_eq_nil {α : Type} {hits : List (List α)} (h : ∀ L ∈ hits, L = []) (g : Nat) :
    hits.getD g [] = [] := by
  rw [getD_eq_getElem?_getD]
  cases hg : hits[g]? with
  | none => rfl
  | some L => exact h L (mem_of_getElem? hg)

/-! ## The loop over the hits -/

theorem cdiv_pos {b : Nat} (hn : 0 < n) (hb : 0 < b) : 0 < cdiv n b :=
  Nat.div_pos (by omega) hb

variable {m : SingleTypeKVCacheManager}

theorem SingleTypeKVCacheManager.Settled.readyFor {id : ReqId} (hset : m.Settled id)
    (hpos : 0 < main)
    (halloc : ∀ s, m.kvCacheSpec.alignSpeculativeBlocks = some s → id ∈ m.allocatedBlockReqs →
      1 + s ≤ (m.blocksOf id).length) : ReadyFor m id main := by
  intro s hs
  have hc := cdiv_pos hpos m.kvCacheSpec.blockSize_pos
  rcases hset s hs with hle | ⟨hnil, hzero⟩
  · exact ⟨⟨hc, by omega, fun _ => hle⟩, fun _ => by omega⟩
  · refine ⟨⟨hc, by omega, fun hid => ?_⟩, fun _ => by omega⟩
    have := halloc s hs hid
    omega

section HitRound

variable {id : ReqId} {hitsOf : Nat → List BlockRef} {numLocal numExternal : Nat}
  {p p' : BlockPool} {l l' : List BlockRef} {m m' : SingleTypeKVCacheManager}

theorem SingleTypeKVCacheManager.HitRound.rowUpdate
    (h : HitRound id hitsOf numLocal numExternal p l m p' l' m') :
    RowUpdate id m m' := by
  rcases h with ⟨-, -, -, -, rfl⟩ | ⟨-, -, -, -, htakes⟩
  · exact RowUpdate.refl id m'
  · exact htakes.rowUpdate

/-- After the first loop every group is ready for the second. -/
theorem SingleTypeKVCacheManager.HitRound.readyFor
    (h : HitRound id hitsOf numLocal numExternal p l m p' l' m')
    (hpos : 0 < main) (hset : m.Settled id)
    (halloc : ∀ s, m.kvCacheSpec.alignSpeculativeBlocks = some s → id ∈ m.allocatedBlockReqs →
      1 + s ≤ (m.blocksOf id).length) (halign : m.kvCacheSpec.alignSpeculativeBlocks.isSome →
      max (windowBlocks m.kvCacheSpec (numLocal + numExternal)) (hitsOf m.kvCacheGroupId).length ≤
        cdiv main m.kvCacheSpec.blockSize) : ReadyFor m' id main := by
  rcases h with ⟨-, -, -, -, rfl⟩ | ⟨-, hnil, -, -, htakes⟩
  · exact hset.readyFor hpos halloc
  intro s hs
  have hspec := htakes.rowUpdate.spec
  have hlen : m'.numCached id = max (windowBlocks m.kvCacheSpec (numLocal + numExternal))
      (hitsOf m.kvCacheGroupId).length := by
    rw [numCached, htakes.cached, Option.getD_some, hitTable_length]
  have hbound : m'.numCached id ≤ cdiv main m'.blockSize := by
    rw [hlen, blockSize, hspec]
    exact halign (by rw [← hspec, hs]; rfl)
  refine ⟨⟨cdiv_pos hpos m'.kvCacheSpec.blockSize_pos, ?_, fun hid => ?_⟩, fun _ => hbound⟩
  · rw [hlen, htakes.blocks, length_append, hitTable_length]
    exact Nat.le_add_right _ _
  · rw [htakes.allocated] at hid
    have := halloc s (by rw [← hspec, hs]) hid
    rw [hnil, length_nil] at this
    omega

end HitRound

theorem queuedHits_le {p : BlockPool} {occ unc : BlockRef → Nat} {l l' : List BlockRef}
    (hcore : CoreInv p occ unc)
    (hfree : FreeInv p occ l) (hnd : l'.Nodup) (hsub : l' ⊆ l) (kept : List BlockRef) :
    (l'.filter (· ∈ kept)).length ≤ getNumEvictableBlocks p kept := by
  unfold getNumEvictableBlocks
  rw [countP_eq_length_filter]
  refine (subperm_of_subset (hnd.filter _) fun b hb => ?_).length_le
  obtain ⟨hbl, hbk⟩ := mem_filter.mp hb
  obtain ⟨-, hne, hocc⟩ := (hfree.mem_iff b).mp (hsub hbl)
  refine mem_filter.mpr ⟨of_decide_eq_true hbk, ?_⟩
  have hnull : (p.blocks b).isNull = false := by
    rw [Bool.eq_false_iff]
    exact fun h => hne ((hcore.isNull_iff b).mp h)
  have href : (p.blocks b).refCnt = 0 := by rw [hcore.refCnt_eq b hne, hocc]; rfl
  simp [hnull, href]

def hitCost (p : BlockPool) (hitsOf : Nat → List BlockRef) (numLocal numExternal : Nat)
    (m : SingleTypeKVCacheManager) : Nat :=
  getNumEvictableBlocks p (keptHits m.kvCacheSpec (numLocal + numExternal)
      (hitsOf m.kvCacheGroupId)) +
    (externalBlocks m.kvCacheSpec (hitsOf m.kvCacheGroupId) numLocal numExternal).toNat

def FreshRequest (mgr : KVCacheManager) (id : ReqId) : Prop :=
  ∀ m ∈ mgr.singleTypeManagers, m.numCachedBlock.contains id = false ∧ m.blocksOf id = []

instance (mgr : KVCacheManager) (id : ReqId) : Decidable (FreshRequest mgr id) := by
  unfold FreshRequest
  infer_instance

namespace KVCacheManager

variable {mgr : KVCacheManager} {l : List BlockRef}

abbrev HitsOf (request : RequestView) (args : AllocArgs) :=
  HitRound request.requestId (args.newComputedBlocks.getD · [])
    (numLocalComputedTokens request args) args.numExternalComputedTokens

structure Affordable (mgr : KVCacheManager) (l : List BlockRef) (request : RequestView)
    (args : AllocArgs) (rest : Nat) : Prop where
  fresh : FreshRequest mgr request.requestId
  caching : mgr.blockPool.enableCaching = true ∨ ∀ g, args.newComputedBlocks.getD g [] = []
  capacity : (mgr.singleTypeManagers.map (hitCost mgr.blockPool (args.newComputedBlocks.getD · [])
    (numLocalComputedTokens request args) args.numExternalComputedTokens)).sum + rest ≤ l.length

/-- The first loop over all groups. -/
theorem allocateNewComputedBlocks_rule (h : KVBase mgr l) (request : RequestView) (rest : Nat)
    (hhits : ∀ m ∈ mgr.singleTypeManagers, GroupHits mgr.blockPool
      (numLocalComputedTokens request args) args.numExternalComputedTokens main
      m.kvCacheSpec (args.newComputedBlocks.getD m.kvCacheGroupId [])) :
    (∃ mgr' l', mgr.allocateNewComputedBlocks request args = .ok mgr' ∧
      Looped (HitsOf request args) mgr l mgr' l' ∧
      (Affordable mgr l request args rest → rest ≤ l'.length)) ∨
    ∃ e, mgr.allocateNewComputedBlocks request args = .error e ∧ e ≠ hashAssertion ∧
      ¬ Affordable mgr l request args rest := by
  set numLocal := numLocalComputedTokens request args with hlocal
  set numExternal := args.numExternalComputedTokens with hexternal
  set cost :=
    hitCost mgr.blockPool (args.newComputedBlocks.getD · []) numLocal numExternal with hcost
  have hrule := h.loop
    (f := fun p m => noResult (m.allocateNewComputedBlocks p request.requestId
      (args.newComputedBlocks.getD m.kvCacheGroupId []) numLocal numExternal))
    (J := fun ms p l' => Frame mgr.blockPool p ∧ ms ⊆ mgr.singleTypeManagers ∧
      (Affordable mgr l request args rest → l' ⊆ l ∧ (ms.map cost).sum + rest ≤ l'.length))
    (R := HitsOf request args)
    (E := fun e => e ≠ hashAssertion ∧ ¬ Affordable mgr l request args rest) HitRound.rowUpdate
    ⟨Frame.refl _, List.Subset.refl _, fun hfit => ⟨List.Subset.refl _, hfit.capacity⟩⟩ ?_
  · rcases hrule with ⟨p', ms', outs, l', hok, hJ, hloop⟩ | ⟨e, herr, he⟩
    · refine Or.inl ⟨_, l', by rw [allocateNewComputedBlocks, hok]; rfl, hloop, fun hfit => ?_⟩
      simpa using (hJ.2.2 hfit).2
    · exact Or.inr ⟨e, by rw [allocateNewComputedBlocks, herr]; rfl, he⟩
  rintro m ms p l' O U ⟨hframe, hsub, hleft⟩ hm
  have hmem := hsub mem_cons_self
  have hh := (hhits m hmem).congr hframe
  set hits := args.newComputedBlocks.getD m.kvCacheGroupId [] with hhit
  set kept := keptHits m.kvCacheSpec (numLocal + numExternal) hits with hkept
  set k := externalBlocks m.kvCacheSpec hits numLocal numExternal with hk
  -- The hits that leave the queue and the popped blocks together are the cost of this round.
  have hcap : Affordable mgr l request args rest →
      k.toNat + ((ms.map cost).sum + rest) ≤ (l'.filter (· ∉ kept)).length := by
    intro hfit
    obtain ⟨hlsub, hsum⟩ := hleft hfit
    have hqueued := queuedHits_le h.groups.core h.groups.free hm.free.nodup hlsub kept
    have hsplit : l'.length = (l'.filter (· ∈ kept)).length + (l'.filter (· ∉ kept)).length := by
      rw [← (filter_append_perm (· ∈ kept) l').length_eq, length_append]
      simp only [decide_not]
    have hm_cost : cost m = getNumEvictableBlocks mgr.blockPool kept + k.toNat := rfl
    rw [map_cons, sum_cons] at hsum
    omega
  rcases @allocateNewComputedBlocks_spec hits numExternal numLocal p l' O U m request.requestId hm
    (args.newComputedBlocks.getD · []) rfl hh.lt hh.nodup hh.external with
    ⟨p', m', l'', hok, hinv, hframe', hround⟩ | ⟨e, herr, he, hnot⟩
  · refine Or.inl ⟨p', m', (), l'', noResult_ok hok, hinv, hframe',
      ⟨hframe.trans hframe', fun x hx => hsub (mem_cons_of_mem m hx), fun hfit => ?_⟩, hround⟩
    rcases hround with ⟨hc, -⟩ | ⟨-, -, -, rfl, -⟩
    · exact nomatch hc.symm.trans (hfit.fresh m hmem).1
    · refine ⟨fun b hb => (hleft hfit).1 (mem_of_mem_filter (mem_of_mem_drop hb)), ?_⟩
      have := hcap hfit
      change _ ≤ ((l'.filter (· ∉ kept)).drop k.toNat).length
      rw [length_drop]
      omega
  · refine Or.inr ⟨e, noResult_error herr, he, fun hfit => hnot ⟨(hfit.fresh m hmem).1,
      (hfit.fresh m hmem).2, ?_, ?_⟩⟩
    · rw [hframe.enableCaching]
      refine hfit.caching.imp id fun hall => ?_
      rw [hhit, hall]
      exact drop_nil
    · have := hcap hfit
      change k ≤ ((l'.filter (· ∉ kept)).length : Int)
      omega

end KVCacheManager

/-! ## The loop over the new tokens -/

theorem SingleTypeKVCacheManager.NewRound.rowUpdate {id : ReqId} {p p' : BlockPool}
    {l l' : List BlockRef}
    {m m' : SingleTypeKVCacheManager} (h : NewRound id n main p l m p' l' m') :
    RowUpdate id m m' := by
  obtain ⟨-, -, ⟨t, halloc⟩, -⟩ := h
  exact halloc.rowUpdate

namespace KVCacheManager

variable {mgr : KVCacheManager} {l : List BlockRef} (cfg : KVCacheConfig) (request : RequestView)

abbrev NewBlocksOf (args : AllocArgs) :=
  NewRound request.requestId (numTokensNeedSlot cfg request args)
    (numTokensMainModel cfg request args)

abbrev callBlocks (args : AllocArgs) (m : SingleTypeKVCacheManager) : Nat :=
  newBlocks m request.requestId (numTokensNeedSlot cfg request args)
    (numTokensMainModel cfg request args)

/-- No align-mode table is longer than the call makes it, and the free blocks suffice. -/
def RoomForCall (cfg : KVCacheConfig) (mgr : KVCacheManager) (l : List BlockRef)
    (request : RequestView) (args : AllocArgs) : Prop :=
  (∀ m ∈ mgr.singleTypeManagers, ∀ s, m.kvCacheSpec.alignSpeculativeBlocks = some s →
    (m.blocksOf request.requestId).length ≤
      cdiv (numTokensMainModel cfg request args) m.blockSize + s) ∧
  (mgr.singleTypeManagers.map (callBlocks cfg request args)).sum ≤ l.length

/-- The second loop over all groups. -/
theorem allocateNewBlocks_rule (h : KVBase mgr l) (request : RequestView)
    (hready : ∀ m ∈ mgr.singleTypeManagers,
      ReadyFor m request.requestId (numTokensMainModel mgr.config request args)) :
    (∃ mgr' out l', mgr.allocateNewBlocks request args = .ok (mgr', out) ∧
      Looped (NewBlocksOf mgr.config request args) mgr l mgr' l') ∨
    ∃ e, mgr.allocateNewBlocks request args = .error e ∧ e ≠ hashAssertion ∧
      ¬ RoomForCall mgr.config mgr l request args := by
  have hrule := h.loop
    (f := fun p m => m.allocateNewBlocks p request.requestId
      (numTokensNeedSlot mgr.config request args) (numTokensMainModel mgr.config request args))
    (J := fun ms _ l' => ms ⊆ mgr.singleTypeManagers ∧
      (RoomForCall mgr.config mgr l request args →
        (ms.map (callBlocks mgr.config request args)).sum ≤ l'.length))
    (R := NewBlocksOf mgr.config request args)
    (E := fun e => e ≠ hashAssertion ∧ ¬ RoomForCall mgr.config mgr l request args)
    NewRound.rowUpdate ⟨List.Subset.refl _, And.right⟩ ?_
  · rcases hrule with ⟨p', ms', outs, l', hok, -, hloop⟩ | ⟨e, herr, he⟩
    · exact Or.inl ⟨_, outs, l', by rw [allocateNewBlocks, hok]; rfl, hloop⟩
    · exact Or.inr ⟨e, by rw [allocateNewBlocks, herr]; rfl, he⟩
  rintro m ms p l' O U ⟨hsub, hleft⟩ hm
  have hmem := hsub mem_cons_self
  rw [map_cons, sum_cons, callBlocks] at hleft
  rcases allocateNewBlocks_spec hm (hready m hmem) with
    ⟨p', m', out, l'', hok, hinv, hround⟩ | ⟨e, herr, he, hnot⟩
  · obtain ⟨t, halloc⟩ := hround.2.2.1
    refine Or.inl ⟨p', m', out, l'', hok, hinv, halloc.frame,
      ⟨fun x hx => hsub (mem_cons_of_mem m hx), fun hfit => ?_⟩, hround⟩
    have := hleft hfit
    rw [hround.2.1, length_drop]
    omega
  · exact Or.inr ⟨e, herr, he, fun hfit => hnot ⟨hfit.1 m hmem, by have := hleft hfit; omega⟩⟩

/-! ## The whole call -/

theorem numTokensToCache_le :
    numTokensToCache cfg request args ≤ numTokensMainModel cfg request args :=
  Nat.min_le_left _ _

theorem numTokensMainModel_pos
    (h : ¬ (args.numNewTokens = 0 ∧ args.numExternalComputedTokens = 0)) :
    0 < numTokensMainModel cfg request args := by
  have := cfg.maxModelLen_pos
  unfold numTokensMainModel totalComputedTokens
  omega

theorem forall₂_trans {R S : SingleTypeKVCacheManager → SingleTypeKVCacheManager → Prop}
    {ms'' : List SingleTypeKVCacheManager} (h₁ : List.Forall₂ Q ms ms')
    (h₂ : List.Forall₂ R ms' ms'') (h : ∀ m m' m'', Q m m' → R m' m'' → S m m'') :
    List.Forall₂ S ms ms'' := by
  induction h₁ generalizing ms'' with
  | nil =>
    cases h₂
    exact .nil
  | cons hQ _ ih =>
    cases h₂ with
    | cons hR hrest => exact .cons (h _ _ _ hQ hR) (ih hrest)

theorem forall₂_with_mem (h : List.Forall₂ (fun m m' => m ∈ ms → Q m m') ms ms') :
    List.Forall₂ (fun m m' => m ∈ ms ∧ Q m m') ms ms' :=
  forall₂_iff_get.mpr ⟨h.length_eq, fun i h₁ h₂ =>
    ⟨get_mem _ _, (forall₂_iff_get.mp h).2 i h₁ h₂ (get_mem _ _)⟩⟩

structure Pending (mgr : KVCacheManager) (l : List BlockRef) (id : ReqId) (main : Nat) :
    Prop extends
    KVBase mgr l where
  ready : ∀ m ∈ mgr.singleTypeManagers, ReadyFor m id main
  others : ∀ m ∈ mgr.singleTypeManagers, ∀ id', id' ≠ id → m.Settled id'

theorem pending_of_inv (h : KVInv mgr l) (id : ReqId) (hpos : 0 < main) : Pending mgr l id main :=
  ⟨h.toKVBase, fun m hm => (h.settled m hm id).readyFor hpos (h.groups.tables m hm id).allocated,
    fun m hm id' _ => h.settled m hm id'⟩

def FittingHits (mgr : KVCacheManager) (request : RequestView) (args : AllocArgs) : Prop :=
  ∀ m ∈ mgr.singleTypeManagers, GroupHits mgr.blockPool
    (numLocalComputedTokens request args) args.numExternalComputedTokens
    (numTokensMainModel mgr.config request args) m.kvCacheSpec
    (args.newComputedBlocks.getD m.kvCacheGroupId [])

variable {mgr' : KVCacheManager} {id : ReqId} {request : RequestView} {l' : List BlockRef}
  {p : BlockPool}

theorem FittingHits.congr (h : FittingHits mgr request args) (hcfg : mgr'.config = mgr.config)
    (hframe : Frame mgr.blockPool mgr'.blockPool)
    (hrows : List.Forall₂ (RowUpdate request.requestId) mgr.singleTypeManagers
      mgr'.singleTypeManagers) : FittingHits mgr' request args := by
  intro m' hm'
  obtain ⟨m, hm, hrow⟩ := forall₂_mem hrows hm'
  rw [hrow.spec, hrow.groupId, hcfg]
  exact (h m hm).congr hframe

theorem pending_of_loop (h : KVInv mgr l) (hpos : 0 < numTokensMainModel mgr.config request args)
    (hfit : FittingHits mgr request args) (hloop : Looped (HitsOf request args) mgr l mgr' l') :
    Pending mgr' l' request.requestId (numTokensMainModel mgr.config request args) := by
  refine ⟨hloop.toKVBase, fun m' hm' => ?_, fun m' hm' id' hid => ?_⟩
  · obtain ⟨m, hm, p, l₀, p', l₁, hround⟩ := forall₂_mem (hloop.trace.forall₂
      (Q := fun m m' => ∃ p l p' l', HitRound request.requestId _ _ _ p l m p' l' m')
      fun p l m p' l' m' hr => ⟨p, l, p', l', hr⟩) hm'
    exact hround.readyFor hpos (h.settled m hm _) (h.groups.tables m hm _).allocated
      (hfit m hm).align
  · obtain ⟨m, hm, hrow⟩ := forall₂_mem
      (hloop.trace.forall₂ fun _ _ _ _ _ _ hr => hr.rowUpdate) hm'
    exact (h.settled m hm id').ofRow hrow hid

theorem takeComputedBlocks_skip (hnil : ∀ L ∈ args.newComputedBlocks, L = [])
    (hext : args.numExternalComputedTokens = 0) :
    mgr.takeComputedBlocks request args = .ok mgr := by
  unfold takeComputedBlocks
  rw [if_neg]
  simp only [Bool.or_eq_true, any_eq_true, Bool.not_eq_true', isEmpty_eq_false_iff,
    decide_eq_true_eq, not_or, not_exists, not_and, not_not]
  exact ⟨hnil, by omega⟩

theorem takeComputedBlocks_run
    (hrun : ¬ ((∀ L ∈ args.newComputedBlocks, L = []) ∧ args.numExternalComputedTokens = 0)) :
    mgr.takeComputedBlocks request args = mgr.allocateNewComputedBlocks request args := by
  unfold takeComputedBlocks
  rw [if_pos]
  simp only [Bool.or_eq_true, any_eq_true, Bool.not_eq_true', isEmpty_eq_false_iff,
    decide_eq_true_eq]
  by_contra hno
  rw [not_or, not_exists] at hno
  exact hrun ⟨fun L hL => by_contra fun hne => hno.1 L ⟨hL, hne⟩, by omega⟩

theorem takeComputedBlocks_rule (h : KVInv mgr l)
    (hpos : 0 < numTokensMainModel mgr.config request args) (hfit : FittingHits mgr request args) :
    (∃ mgr' l', mgr.takeComputedBlocks request args = .ok mgr' ∧
      Pending mgr' l' request.requestId (numTokensMainModel mgr.config request args) ∧
      mgr'.config = mgr.config) ∨
    ∃ e, mgr.takeComputedBlocks request args = .error e ∧ e ≠ hashAssertion := by
  by_cases hskip : (∀ L ∈ args.newComputedBlocks, L = []) ∧ args.numExternalComputedTokens = 0
  · exact Or.inl ⟨mgr, l, takeComputedBlocks_skip hskip.1 hskip.2, pending_of_inv h _ hpos, rfl⟩
  · rw [takeComputedBlocks_run hskip]
    rcases allocateNewComputedBlocks_rule h.toKVBase request 0 hfit with
      ⟨mgr', l', hok, hloop, -⟩ | ⟨e, herr, he, -⟩
    · exact Or.inl ⟨mgr', l', hok, pending_of_loop h hpos hfit hloop, hloop.config⟩
    · exact Or.inr ⟨e, herr, he⟩

theorem pending_done {main' : Nat} (h : Pending mgr l id main)
    (hloop : Looped (NewRound id n main') mgr l mgr' l') : KVInv mgr' l' := by
  refine ⟨hloop.toKVBase, fun m' hm' id' => ?_⟩
  obtain ⟨m, hm, hrow, hset⟩ := forall₂_mem (hloop.trace.forall₂
    (Q := fun m m' => RowUpdate id m m' ∧ m'.Settled id)
    fun _ _ _ _ _ _ hr => ⟨hr.rowUpdate, hr.2.2.2.2.2⟩) hm'
  by_cases hid : id' = id
  · exact hid ▸ hset
  · exact (h.others m hm id' hid).ofRow hrow hid

def CacheGuard (mgr : KVCacheManager) (request : RequestView) (args : AllocArgs) : Prop :=
  ∀ m ∈ mgr.singleTypeManagers, ∀ s, m.kvCacheSpec.alignSpeculativeBlocks = some s →
    numTokensToCache mgr.config request args / m.blockSize ≤ m.numCached request.requestId ∨
      numTokensToCache mgr.config request args / m.blockSize + s ≤
        (m.blocksOf request.requestId).length

theorem newRound_guard (hloop : Looped (NewBlocksOf mgr.config request args) mgr l mgr' l') :
    CacheGuard mgr' request args := by
  intro m' hm' s hs
  obtain ⟨m, hm, hspec, hlen⟩ := forall₂_mem (hloop.trace.forall₂
    (Q := fun m m' => m'.kvCacheSpec = m.kvCacheSpec ∧ (m'.blocksOf request.requestId).length =
      max (m.blocksOf request.requestId).length (requiredBlocks m.kvCacheSpec _ _))
    fun _ _ _ _ _ _ hr => ⟨hr.rowUpdate.spec, hr.2.2.2.1⟩) hm'
  rw [hspec] at hs
  have hreq := (allocateNewBlocks_align hs mgr.blockPool request.requestId
    (numTokensNeedSlot mgr.config request args)
    (numTokensMainModel mgr.config request args)).2
  have hdiv : numTokensToCache mgr.config request args / m'.blockSize ≤
      cdiv (numTokensMainModel mgr.config request args) m'.blockSize :=
    (Nat.div_le_div_right (numTokensToCache_le mgr.config request)).trans
      (div_le_cdiv _ m'.kvCacheSpec.blockSize_pos)
  rw [hloop.config]
  have hbs : m'.blockSize = m.blockSize := by rw [blockSize, hspec]; rfl
  rw [hbs] at hdiv ⊢
  exact Or.inr (by omega)

theorem cacheNewBlocks_rule (h : KVInv mgr l) (hguard : CacheGuard mgr request args) :
    (∃ mgr' l', mgr.cacheNewBlocks request args = .ok mgr' ∧ KVInv mgr' l' ∧
      mgr'.config = mgr.config ∧ (mgr' = mgr ∨
        Looped (CacheRound request (numTokensToCache mgr.config request args)) mgr l mgr' l')) ∨
    ∃ e, mgr.cacheNewBlocks request args = .error e ∧ e ≠ hashAssertion ∧
      ¬ request.numTokens / mgr.config.hashBlockSize ≤ request.blockHashes.length := by
  unfold cacheNewBlocks
  split <;> rename_i hif
  · exact Or.inl ⟨mgr, l, rfl, h, rfl, Or.inl rfl⟩
  · rw [Bool.or_eq_true, not_or] at hif
    rcases cacheBlocksLoop_spec h (by simpa using hif.1) request _ hguard with
      ⟨mgr', l', hok, hinv, hloop⟩ | ⟨e, herr, he, hnot⟩
    · exact Or.inl ⟨mgr', l', hok, hinv, hloop.config, Or.inr hloop⟩
    · exact Or.inr ⟨e, herr, he, fun hlen => hnot ⟨Nat.min_le_right _ _, hlen⟩⟩

theorem commitSlots_keeps (h : KVInv mgr l) (hpos : 0 < numTokensMainModel mgr.config request args)
    (hfit : FittingHits mgr request args) :
    Keeps mgr.config (·.1) (mgr.commitSlots request args) := by
  unfold commitSlots
  rcases takeComputedBlocks_rule h hpos hfit with
    ⟨mgr₁, l₁, hok₁, hpend, hcfg₁⟩ | ⟨e, herr, he⟩
  · rw [hok₁, ok_bind]
    rcases allocateNewBlocks_rule hpend.toKVBase request (by rw [hcfg₁]; exact hpend.ready) with
      ⟨mgr₂, out, l₂, hok₂, hloop⟩ | ⟨e, herr, he, -⟩
    · rw [hok₂, ok_bind]
      have hguard := newRound_guard hloop
      rcases cacheNewBlocks_rule (pending_done hpend hloop) hguard with
        ⟨mgr₃, l₃, hok₃, hinv₃, hcfg₃, -⟩ | ⟨e, herr, he, -⟩
      · rw [hok₃]
        exact Or.inl ⟨_, l₃, rfl, hinv₃, hcfg₃.trans (hloop.config.trans hcfg₁)⟩
      · rw [herr]
        exact Or.inr ⟨e, rfl, he⟩
    · rw [herr]
      exact Or.inr ⟨e, rfl, he⟩
  · rw [herr]
    exact Or.inr ⟨e, rfl, he⟩

theorem getNumBlocksToAllocateBase_ne :
    m.getNumBlocksToAllocateBase p id n hits total ≠ .error hashAssertion := by
  unfold getNumBlocksToAllocateBase
  split
  · exact bind_ne_error (assertThat_ne_error (by decide)) fun _ => nofun
  · nofun

theorem getNumBlocksToAllocate_ne :
    m.getNumBlocksToAllocate p id n hits total main ≠ .error hashAssertion := by
  unfold getNumBlocksToAllocate
  split
  · split
    · nofun
    · split
      · exact getNumBlocksToAllocateBase_ne
      · nofun
  · exact getNumBlocksToAllocateBase_ne

theorem numBlocksLoop_ne {hits : List (List BlockRef)} :
    numBlocksLoop p id n hits total main ms ≠ .error hashAssertion := by
  induction ms with
  | nil => nofun
  | cons m ms ih =>
    exact bind_ne_error getNumBlocksToAllocate_ne fun _ => bind_ne_error ih fun _ => nofun

/-- The whole call keeps the invariant of the manager. -/
theorem allocateSlots_keeps (h : KVInv mgr l) (hfit : FittingHits mgr request args) :
    Keeps mgr.config (·.1) (mgr.allocateSlots request args) := by
  unfold allocateSlots
  split <;> rename_i hzero
  · exact Or.inr ⟨_, rfl, nofun⟩
  obtain ⟨mgr₁, l₁, hok, hinv, hloop⟩ := removeSkippedBlocks_spec h request.requestId
    (totalComputedTokens mgr.config request args)
  rw [hok, ok_bind]
  have hfit₁ := hfit.congr hloop.config hloop.frame
    (hloop.trace.forall₂ fun _ _ _ _ _ _ hr => hr.1.rowUpdate)
  cases hnum : mgr₁.numBlocksToAllocate request args with
  | error e => exact Or.inr ⟨e, rfl, fun he => numBlocksLoop_ne (he ▸ hnum)⟩
  | ok k =>
    rw [ok_bind]
    split
    · exact Or.inl ⟨_, l₁, rfl, hinv, hloop.config⟩
    rcases commitSlots_keeps hinv (numTokensMainModel_pos _ _ hzero) hfit₁ with
      ⟨r, l₂, hok₂, hinv₂, hcfg₂⟩ | ⟨e, herr, he⟩
    · rw [hok₂]
      exact Or.inl ⟨_, l₂, rfl, hinv₂, hcfg₂.trans hloop.config⟩
    · rw [herr]
      exact Or.inr ⟨e, rfl, he⟩

end KVCacheManager

end VllmEcho
