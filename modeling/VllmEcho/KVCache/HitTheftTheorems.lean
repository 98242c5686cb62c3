import VllmEcho.KVCache.HitTheft
import VllmEcho.KVCache.RunTheorems

/-!
# When hits are stolen

In every state of a run, a call for a fresh request leaves the hits of all groups alone exactly if
no hit stands among the blocks of the free queue that the groups pop.  The order of the queue
decides this; blocks of one freed request can make an external token of the first group take a hit
of the second.
-/

namespace VllmEcho

open Lib BlockPool KVCacheManager List SingleTypeKVCacheManager

/-! ## Hits of different groups are different blocks -/

variable {g g' : Nat}

theorem groupIdBytes_inj (hg : g < 2 ^ 32) (hg' : g' < 2 ^ 32)
    (h : groupIdBytes g = groupIdBytes g') : g = g' := by
  unfold groupIdBytes at h
  simp only [List.cons.injEq, and_true] at h
  obtain ⟨h1, h2, h3, h4⟩ := h
  have h1 := congrArg UInt8.toNat h1
  have h2 := congrArg UInt8.toNat h2
  have h3 := congrArg UInt8.toNat h3
  have h4 := congrArg UInt8.toNat h4
  simp only [UInt8.toNat_ofNat'] at h1 h2 h3 h4
  omega

theorem groupId_of_key {h h' : BlockHash} (hg : g < 2 ^ 32) (hg' : g' < 2 ^ 32)
    (he : makeBlockHashWithGroupId h g = makeBlockHashWithGroupId h' g') : g = g' :=
  groupIdBytes_inj hg hg' (append_inj_right' he rfl)

theorem sum_le_one {ms : List SingleTypeKVCacheManager} {f : SingleTypeKVCacheManager → Nat}
    (hone : ∀ m ∈ ms, f m ≤ 1) (hpair : ms.Pairwise fun m m' => f m = 0 ∨ f m' = 0) :
    (ms.map f).sum ≤ 1 := by
  induction ms with
  | nil => exact Nat.zero_le 1
  | cons m ms ih =>
    obtain ⟨hm, hrest⟩ := pairwise_cons.mp hpair
    rw [map_cons, sum_cons]
    have hsum := ih (fun m' hm' => hone m' (mem_cons_of_mem m hm')) hrest
    rcases Nat.eq_zero_or_pos (f m) with hzero | hpos
    · omega
    · have : (ms.map f).sum = 0 := sum_eq_zero fun n hn => by
        obtain ⟨m', hm', rfl⟩ := mem_map.mp hn
        exact (hm m' hm').resolve_left (by omega)
      have := hone m mem_cons_self
      omega

theorem KVBase.groupIds_pairwise {mgr : KVCacheManager} {l : List BlockRef} (h : KVBase mgr l) :
    mgr.singleTypeManagers.Pairwise fun m m' => m.kvCacheGroupId ≠ m'.kvCacheGroupId := by
  have hids : mgr.singleTypeManagers.map (·.kvCacheGroupId) =
      List.range' 0 mgr.config.kvCacheGroups.length := by
    have := congrArg (List.map Prod.snd) h.specs
    rw [map_map, zipIdx_map_snd] at this
    exact this
  have hnd : (mgr.singleTypeManagers.map (·.kvCacheGroupId)).Nodup := hids ▸ nodup_range'
  exact pairwise_map.mp hnd

/-! ## Stolen hits -/

variable (mgr : KVCacheManager) (request : RequestView) (args : AllocArgs)

/-- Every kept hit carries its hash, no block that a table holds beyond its kept hits is a hit of
any group, and no block occurs twice in the tables. -/
structure HitsUnstolen (mgr' : KVCacheManager) : Prop where
  hash : ∀ m ∈ mgr'.singleTypeManagers, ∀ b ∈ keptOf request args m,
    b ≠ mgr.blockPool.nullBlock → mgr'.blockPool.hash b = mgr.blockPool.hash b
  new : ∀ m ∈ mgr'.singleTypeManagers, ∀ b, b ≠ mgr.blockPool.nullBlock →
    (keptOf request args m).count b < (m.blocksOf request.requestId).count b →
    ¬ ∃ L ∈ args.newComputedBlocks, b ∈ L
  once : ∀ b, b ≠ mgr.blockPool.nullBlock →
    tableCount mgr'.singleTypeManagers request.requestId b ≤ 1

/-- No hit stands where the groups pop blocks from the queue, one group after the other. -/
def QueueUndisturbed : Prop :=
  Undisturbed (fun b => ∃ L ∈ args.newComputedBlocks, b ∈ L) (claimsOf mgr request args)
    mgr.blockPool.queueOrder

instance (mgr : KVCacheManager) (request : RequestView) (args : AllocArgs) :
    Decidable (QueueUndisturbed mgr request args) := by
  unfold QueueUndisturbed
  infer_instance

variable {n : Nat}

section Effect

variable {mgr mgr' : KVCacheManager} {l : List BlockRef} {request : RequestView} {args : AllocArgs}
  {b : BlockRef} {m : SingleTypeKVCacheManager}

theorem mem_hits_of_kept (hb : b ∈ keptOf request args m) :
    b ∈ args.newComputedBlocks.getD m.kvCacheGroupId [] :=
  mem_of_mem_drop hb

theorem exists_hits_of_getD (hb : b ∈ args.newComputedBlocks.getD g []) :
    ∃ L ∈ args.newComputedBlocks, b ∈ L := by
  rw [getD_eq_getElem?_getD] at hb
  cases hg : args.newComputedBlocks[g]? with
  | none => simp [hg] at hb
  | some L =>
    rw [hg] at hb
    exact ⟨L, mem_of_getElem? hg, hb⟩

variable (h : KVInv mgr l)
  (hhits : HitsOk mgr.config mgr.blockPool request.blockHashes args.newComputedBlocks n)
include h hhits

theorem kept_key (hm : m ∈ mgr.singleTypeManagers) (hb : b ∈ keptOf request args m)
    (hne : b ≠ mgr.blockPool.nullBlock) :
    ∃ k, mgr.blockPool.hash b = some (makeBlockHashWithGroupId k m.kvCacheGroupId) := by
  obtain ⟨i, hi⟩ := getElem?_of_mem (mem_hits_of_kept hb)
  obtain ⟨k, -, hk⟩ := (hhits.hit _ _ (h.spec_of_mem hm)).key h.groups.core hi hne
  exact ⟨k, hk⟩

variable (hgroups : mgr.config.kvCacheGroups.length ≤ 2 ^ 32) (hfit : FittingHits mgr request args)
include hgroups hfit

theorem keptSum_le_one (hne : b ≠ mgr.blockPool.nullBlock) : keptSum mgr request args b ≤ 1 := by
  refine sum_le_one (fun m hm => ?_) (h.groupIds_pairwise.imp_of_mem fun {m m'} hm hm' hids => ?_)
  · have hnd := (hfit m hm).nodup.sublist ((drop_sublist (windowBlocks m.kvCacheSpec
      (Slots.numLocalComputedTokens request args + args.numExternalComputedTokens)) _).filter _)
    have hone := nodup_iff_count_le_one.mp hnd b
    rwa [count_filter (by simpa using hne)] at hone
  by_contra hno
  rw [not_or] at hno
  have hb := count_pos_iff.mp (Nat.pos_of_ne_zero hno.1)
  have hb' := count_pos_iff.mp (Nat.pos_of_ne_zero hno.2)
  obtain ⟨k, hk⟩ := kept_key h hhits hm hb hne
  obtain ⟨k', hk'⟩ := kept_key h hhits hm' hb' hne
  have hlt : ∀ m ∈ mgr.singleTypeManagers, m.kvCacheGroupId < 2 ^ 32 := fun m hm =>
    (List.getElem?_eq_some_iff.mp (h.spec_of_mem hm)).1.trans_le hgroups
  exact hids (groupId_of_key (hlt m hm) (hlt m' hm') (Option.some.inj (hk.symm.trans hk')))

/-- No hit is stolen exactly if none of the popped blocks is a hit. -/
theorem hitsUnstolen_iff (heff : FreshEffect mgr l request args mgr') :
    HitsUnstolen mgr request args mgr' ↔
      ∀ b ∈ (serve (claimsOf mgr request args) l).1, ¬ ∃ L ∈ args.newComputedBlocks, b ∈ L := by
  have hsub := serve_subperm (claimsOf mgr request args) l
  have hnull : ∀ b ∈ (serve (claimsOf mgr request args) l).1, b ≠ mgr.blockPool.nullBlock :=
    fun b hb => ((h.groups.free.mem_iff b).mp (hsub.subset hb)).2.1
  have hkeptSum : ∀ b, keptSum mgr' request args b = keptSum mgr request args b :=
    keptSum_eq heff.rows
  constructor
  · -- A popped block is in some table beyond its kept hits.
    intro hun b hb
    have hne := hnull b hb
    have hsum := heff.count b hne
    rw [← hkeptSum b] at hsum
    have hpos := count_pos_iff.mpr hb
    obtain ⟨m', hm', hlt⟩ : ∃ m' ∈ mgr'.singleTypeManagers,
        (keptOf request args m').count b < (m'.blocksOf request.requestId).count b := by
      by_contra hno
      have hge : tableCount mgr'.singleTypeManagers request.requestId b ≤
          keptSum mgr' request args b :=
        sum_le_sum fun m hm => not_lt.mp fun hlt => hno ⟨m, hm, hlt⟩
      omega
    exact hun.new m' hm' b hne hlt
  intro hfree
  refine ⟨fun m' hm' b hb hne => ?_, fun m' hm' b hne hlt => ?_, fun b hne => ?_⟩
  · obtain ⟨m, hm, hrow⟩ := forall₂_mem heff.rows hm'
    rw [keptOf_eq hrow] at hb
    obtain ⟨k, hk⟩ := kept_key h hhits hm hb hne
    rw [hk]
    exact heff.hash b _ (fun hpop => hfree b hpop (exists_hits_of_getD (mem_hits_of_kept hb))) hk
  · refine hfree b (count_pos_iff.mp ?_)
    have hsum := heff.count b hne
    rw [← hkeptSum b] at hsum
    have hstrict : keptSum mgr' request args b <
        tableCount mgr'.singleTypeManagers request.requestId b :=
      sum_lt_sum _ _ (heff.kept b hne) ⟨m', hm', hlt⟩
    omega
  rw [heff.count b hne]
  have hkept := keptSum_le_one h hhits hgroups hfit hne
  have hpops := nodup_iff_count_le_one.mp
    (serve_nodup (claimsOf mgr request args) h.groups.free.nodup) b
  by_cases hpop : b ∈ (serve (claimsOf mgr request args) l).1
  · -- A popped block is not a kept hit.
    have hzero : keptSum mgr request args b = 0 :=
      sum_eq_zero fun c hc => by
        obtain ⟨m, hm, rfl⟩ := mem_map.mp hc
        exact count_eq_zero.mpr fun hb =>
          hfree b hpop (exists_hits_of_getD (mem_hits_of_kept hb))
    omega
  · rw [count_eq_zero.mpr hpop]
    omega

end Effect

/-- In every state of a run whose hits fit: a successful call for a fresh request leaves the hits
unstolen exactly if no hit stands where the groups pop. -/
theorem fittingRun_hitsUnstolen_iff {cfg : KVCacheConfig} {s : RunState} (hrun : FittingRun cfg s)
    (hgroups : cfg.kvCacheGroups.length ≤ 2 ^ 32) {request : RequestView} {args : AllocArgs}
    (hdist : request.DistinctHashes) (hfresh : FreshRequest s.mgr request.requestId)
    (hzero : request.numComputedTokens = 0) (hfound : s.mgr.getComputedBlocks request =
      .ok (args.newComputedBlocks, args.numNewComputedTokens))
    (hmax : Slots.numLocalComputedTokens request args + args.numExternalComputedTokens ≤
      cfg.maxModelLen) (hfit : (Op.allocateSlots request args).HitsFit cfg)
    {mgr' : KVCacheManager} {out : List (List BlockRef)}
    (hok : s.mgr.allocateSlots request args = .ok (mgr', some out)) :
    HitsUnstolen s.mgr request args mgr' ↔ QueueUndisturbed s.mgr request args := by
  obtain ⟨l, hinv⟩ := hrun.inv.inv
  have hcfg := hrun.inv.config
  have hf := foundOk_of_hits hinv hdist hfound
  have hhits := (getComputedBlocks_hitsOk hinv.checked hfound).1
  -- The state after `get_computed_blocks` is one of the run, with the result recorded.
  have hinv' : RunInv cfg { s with found := (args.newComputedBlocks, args.numNewComputedTokens) ::
      s.found } := ⟨⟨l, hinv⟩, hcfg, fun f hmem => by
    rcases mem_cons.mp hmem with rfl | hmem
    · exact hf
    · exact hrun.inv.found f hmem⟩
  have hfits : s.mgr.FittingHits request args := fittingHits_of_promised hinv'
    ⟨Or.inr mem_cons_self, hcfg.symm ▸ hmax⟩ (hcfg.symm ▸ hfit)
  have heff := allocateSlots_freshEffect hinv ⟨hfresh, hzero, hf.noTokens, hf.caching⟩ hfits hok
  rw [hitsUnstolen_iff hinv hhits (hcfg.symm ▸ hgroups) hfits heff, QueueUndisturbed,
    hinv.groups.free.queueOrder_eq]
  refine forall_served_iff fun c hc b hb => ?_
  rcases mem_append.mp hc with hc | hc
  · obtain ⟨m, -, rfl⟩ := mem_map.mp hc
    exact exists_hits_of_getD (mem_hits_of_kept hb)
  · obtain ⟨m, -, rfl⟩ := mem_map.mp hc
    exact absurd hb not_mem_nil

/-! ## A run that steals a hit -/

def fullAndWindow : KVCacheConfig :=
  { twoFullSpecs with
    numBlocks := 17
    kvCacheGroups := [
      ⟨1, .full, 0, Nat.one_pos, AttentionKind.full_wellFormed⟩,
      ⟨1, .slidingWindow 8, 0, Nat.one_pos, rfl⟩] }

def twoFreedOps : List Op := [
  .allocateSlots (samplePrompt 1 0 3) ⟨3, 0, [], 0, 0, false⟩,
  .allocateSlots (samplePrompt 2 1 5) ⟨5, 0, [], 0, 0, false⟩,
  .free 1, .free 2]

def hitArgs (ext : Nat) : AllocArgs := ⟨1, 2, [[1, 2], [4, 5]], 0, ext, true⟩

/-- With three external tokens the first group pops a hit of the second one, and both tables then
hold the block. -/
theorem externalPop_steals_hit :
    ∃ s mgr' out, FittingRun fullAndWindow s ∧ (samplePrompt 3 0 3).DistinctHashes ∧
      FreshRequest s.mgr 3 ∧
      s.mgr.getComputedBlocks (samplePrompt 3 0 3) = .ok ([[1, 2], [4, 5]], 2) ∧
      (Op.allocateSlots (samplePrompt 3 0 3) (hitArgs 3)).HitsFit s.mgr.config ∧
      s.mgr.allocateSlots (samplePrompt 3 0 3) (hitArgs 3) = .ok (mgr', some out) ∧
      ¬ HitsUnstolen s.mgr (samplePrompt 3 0 3) (hitArgs 3) mgr' := by
  have hbad :
    ∃ s ∈ runOps (fun s op => op.Promised s ∧ op.HitsFit s.mgr.config) fullAndWindow twoFreedOps,
      FreshRequest s.mgr 3 ∧
      s.mgr.getComputedBlocks (samplePrompt 3 0 3) = .ok ([[1, 2], [4, 5]], 2) ∧
      (Op.allocateSlots (samplePrompt 3 0 3) (hitArgs 3)).HitsFit s.mgr.config ∧
      s.mgr.blockPool.nullBlock ≠ 5 ∧
      ∃ r, s.mgr.allocateSlots (samplePrompt 3 0 3) (hitArgs 3) = .ok r ∧
        r.2.isSome ∧ tableCount r.1.singleTypeManagers 3 5 = 2 := by decide +kernel
  obtain ⟨s, hs, hfresh, hfound, hfit, hnull, ⟨mgr', out?⟩, hok, hsome, htwice⟩ := hbad
  obtain ⟨out, rfl⟩ := Option.isSome_iff_exists.mp hsome
  refine ⟨s, mgr', out, runOps_reaches hs, by decide, hfresh, hfound, hfit, hok, fun hun => ?_⟩
  have hone := hun.once 5 (Ne.symm hnull)
  change tableCount mgr'.singleTypeManagers 3 5 ≤ 1 at hone
  rw [htwice] at hone
  omega

/-- Without external tokens the same call takes the hits of both groups and no other request's. -/
theorem fittingRun_hitsUnstolen_sample : ∃ s mgr' out, FittingRun fullAndWindow s ∧
      s.mgr.allocateSlots (samplePrompt 3 0 3) (hitArgs 0) = .ok (mgr', some out) ∧
      HitsUnstolen s.mgr (samplePrompt 3 0 3) (hitArgs 0) mgr' := by
  have hsample :
    ∃ s ∈ runOps (fun s op => op.Promised s ∧ op.HitsFit s.mgr.config) fullAndWindow twoFreedOps,
      FreshRequest s.mgr 3 ∧
      s.mgr.getComputedBlocks (samplePrompt 3 0 3) = .ok ([[1, 2], [4, 5]], 2) ∧
      (Op.allocateSlots (samplePrompt 3 0 3) (hitArgs 0)).HitsFit s.mgr.config ∧
      QueueUndisturbed s.mgr (samplePrompt 3 0 3) (hitArgs 0) ∧
      ∃ r, s.mgr.allocateSlots (samplePrompt 3 0 3) (hitArgs 0) = .ok r ∧ r.2.isSome := by
        decide +kernel
  obtain ⟨s, hs, hfresh, hfound, hfit, hqueue, ⟨mgr', out?⟩, hok, hsome⟩ := hsample
  obtain ⟨out, rfl⟩ := Option.isSome_iff_exists.mp hsome
  have hrun : FittingRun fullAndWindow s := runOps_reaches hs
  rw [hrun.inv.config] at hfit
  exact ⟨s, mgr', out, hrun, hok, (fittingRun_hitsUnstolen_iff hrun (by decide) (by decide) hfresh
    rfl hfound (by decide) hfit hok).mpr hqueue⟩

end VllmEcho
