import VllmEcho.KVCache.AllocateCapacity
import VllmEcho.Lib.QueueClaims

/-!
# Which blocks a call takes from the free queue

The groups are served one after the other: each takes its kept hits out of the queue and pops blocks
for external tokens, and in a second round blocks for new tokens.  A call for a fresh request does
with the queue what `serve` does with the claims of its groups, so a block that is popped for one
group may be a hit of a later one.
-/

namespace VllmEcho

open Lib BlockPool List SingleTypeKVCacheManager KVCacheManager.Slots

def tableCount (ms : List SingleTypeKVCacheManager) (id : ReqId) (b : BlockRef) : Nat :=
  (ms.map fun m => (m.blocksOf id).count b).sum

def hitClaim (hitsOf : Nat → List BlockRef) (numLocal numExternal : Nat)
    (m : SingleTypeKVCacheManager) : List BlockRef × Nat :=
  (keptHits m.kvCacheSpec (numLocal + numExternal) (hitsOf m.kvCacheGroupId),
    (externalBlocks m.kvCacheSpec (hitsOf m.kvCacheGroupId) numLocal numExternal).toNat)

def newClaim (id : ReqId) (n main : Nat) (m : SingleTypeKVCacheManager) : List BlockRef × Nat :=
  ([], newBlocks m id n main)

theorem hitTable_count {c b : BlockRef} (hb : b ≠ c) (spec : KVCacheSpec) (total : Nat)
    (hits : List BlockRef) : (hitTable c spec total hits).count b =
      (keptHits spec total hits).count b := by
  rw [hitTable, count_append, RowInv.count_replicate_null hb, Nat.zero_add]

theorem ite_mem_append {β : Type} (c : BlockRef) (xs ys : List BlockRef) (x : Option β) :
    (if c ∈ ys then none else if c ∈ xs then none else x) = if c ∈ xs ++ ys then none else x := by
  by_cases hy : c ∈ ys
  · simp [hy]
  · simp [hy]

section Loops

variable {id : ReqId} {p p' : BlockPool} {l l' : List BlockRef}
  {ms ms' : List SingleTypeKVCacheManager}

/-- The first loop does with the free queue what `serve` does with the claims of the groups. -/
theorem hitTrace_effect {hitsOf : Nat → List BlockRef} {numLocal numExternal : Nat}
    (h : LoopTrace (HitRound id hitsOf numLocal numExternal) p l ms p' l' ms')
    (hfresh : ∀ m ∈ ms, m.numCachedBlock.contains id = false) :
    l' = (serve (ms.map (hitClaim hitsOf numLocal numExternal)) l).2 ∧
      (∀ c, p'.hash c = if c ∈ (serve (ms.map (hitClaim hitsOf numLocal numExternal)) l).1 then none
        else p.hash c) ∧ ∀ b, b ≠ p.nullBlock → tableCount ms' id b =
        (ms.map fun m => (hitClaim hitsOf numLocal numExternal m).1.count b).sum +
          (serve (ms.map (hitClaim hitsOf numLocal numExternal)) l).1.count b := by
  induction h with
  | nil => exact ⟨rfl, fun c => by simp [serve], fun b _ => by simp [serve, tableCount]⟩
  | @cons p p₁ _ l _ _ m m₁ ms _ hround _ ih =>
    obtain ⟨hlist, hhash, hcount⟩ := ih fun m' hm' => hfresh m' (mem_cons_of_mem m hm')
    rcases hround with ⟨hc, -⟩ | ⟨-, -, -, hl, htakes⟩
    · rw [hfresh m mem_cons_self] at hc
      cases hc
    rw [map_cons, serve]
    change _ = (l.filter (· ∉ (hitClaim hitsOf numLocal numExternal m).1)).drop
      (hitClaim hitsOf numLocal numExternal m).2 at hl
    rw [← hl]
    refine ⟨hlist, fun c => ?_, fun b hb => ?_⟩
    · rw [hhash c, htakes.hash c]
      exact ite_mem_append c _ _ _
    have hrow : (m₁.blocksOf id).count b =
        (hitClaim hitsOf numLocal numExternal m).1.count b +
          ((l.filter (· ∉ (hitClaim hitsOf numLocal numExternal m).1)).take
            (hitClaim hitsOf numLocal numExternal m).2).count b := by
      rw [htakes.blocks, count_append, hitTable_count hb]
      rfl
    have hrest := hcount b (by rwa [htakes.frame.nullBlock])
    unfold tableCount at hrest ⊢
    rw [map_cons, map_cons, sum_cons, sum_cons, count_append]
    omega

/-- So does the second loop. -/
theorem newTrace_effect {n main : Nat} (h : LoopTrace (NewRound id n main) p l ms p' l' ms') :
    (∀ c, p'.hash c = if c ∈ (serve (ms.map (newClaim id n main)) l).1 then none else p.hash c) ∧
      ∀ b, b ≠ p.nullBlock → tableCount ms' id b =
        tableCount ms id b + (serve (ms.map (newClaim id n main)) l).1.count b := by
  induction h with
  | nil => exact ⟨fun c => by simp [serve], fun b _ => by simp [serve, tableCount]⟩
  | @cons p p₁ _ l _ _ m m₁ ms _ hround _ ih =>
    obtain ⟨hhash, hcount⟩ := ih
    obtain ⟨-, hl, ⟨t, halloc⟩, -⟩ := hround
    have hfilter : l.filter (· ∉ (newClaim id n main m).1) = l := by simp [newClaim]
    rw [map_cons, serve, hfilter]
    change _ = l.drop (newClaim id n main m).2 at hl
    rw [← hl]
    refine ⟨fun c => ?_, fun b hb => ?_⟩
    · rw [hhash c, halloc.hash c]
      exact ite_mem_append c _ _ _
    have hrow : (m₁.blocksOf id).count b =
        (m.blocksOf id).count b + (l.take (newClaim id n main m).2).count b := by
      rw [halloc.blocks, count_append, halloc.count b hb]
      rfl
    have hrest := hcount b (by rwa [halloc.frame.nullBlock])
    unfold tableCount at hrest ⊢
    rw [map_cons, map_cons, sum_cons, sum_cons, count_append]
    omega

end Loops

/-! ## The whole call -/

variable {ms' ms : List SingleTypeKVCacheManager} {out : List (List BlockRef)}

namespace KVCacheManager

variable {mgr : KVCacheManager} {l : List BlockRef} {request : RequestView} {args : AllocArgs}

def keptOf (request : RequestView) (args : AllocArgs) (m : SingleTypeKVCacheManager) :
    List BlockRef :=
  keptHits m.kvCacheSpec
    (numLocalComputedTokens request args + args.numExternalComputedTokens)
    (args.newComputedBlocks.getD m.kvCacheGroupId [])

variable {id : ReqId} {mgr' : KVCacheManager} {m : SingleTypeKVCacheManager}

theorem keptOf_eq {m' : SingleTypeKVCacheManager} (h : RowUpdate id m m') :
    keptOf request args m' = keptOf request args m := by
  rw [keptOf, keptOf, h.spec, h.groupId]

def keptSum (mgr : KVCacheManager) (request : RequestView) (args : AllocArgs) (b : BlockRef) :
    Nat :=
  (mgr.singleTypeManagers.map fun m => (keptOf request args m).count b).sum

theorem keptSum_eq (h : List.Forall₂ (RowUpdate id) mgr.singleTypeManagers mgr'.singleTypeManagers)
    (b : BlockRef) : keptSum mgr' request args b = keptSum mgr request args b :=
  sum_map_of_forall₂ (h.imp fun _ _ hr => congrArg (List.count b) (keptOf_eq hr))

abbrev hitClaims (mgr : KVCacheManager) (request : RequestView) (args : AllocArgs) :
    List (List BlockRef × Nat) :=
  mgr.singleTypeManagers.map (hitClaim (args.newComputedBlocks.getD · [])
    (numLocalComputedTokens request args) args.numExternalComputedTokens)

def claimsOf (mgr : KVCacheManager) (request : RequestView) (args : AllocArgs) :
    List (List BlockRef × Nat) :=
  hitClaims mgr request args ++ mgr.singleTypeManagers.map fun m =>
    ([], freshBlocks mgr.config request args m)

/-- What a call for a fresh request has done, beside the result: the tables hold the kept hits and
the blocks that `serve` pops; hashes of other blocks are kept. -/
structure FreshEffect (mgr : KVCacheManager) (l : List BlockRef) (request : RequestView)
    (args : AllocArgs) (mgr' : KVCacheManager) : Prop where
  rows : List.Forall₂ (RowUpdate request.requestId) mgr.singleTypeManagers mgr'.singleTypeManagers
  count : ∀ b, b ≠ mgr.blockPool.nullBlock →
    tableCount mgr'.singleTypeManagers request.requestId b =
    keptSum mgr request args b + (serve (claimsOf mgr request args) l).1.count b
  kept : ∀ b, b ≠ mgr.blockPool.nullBlock → ∀ m' ∈ mgr'.singleTypeManagers,
    (keptOf request args m').count b ≤ (m'.blocksOf request.requestId).count b
  hash : ∀ c k, c ∉ (serve (claimsOf mgr request args) l).1 → mgr.blockPool.hash c = some k →
    mgr'.blockPool.hash c = some k

structure AfterHits (mgr : KVCacheManager) (l : List BlockRef) (request : RequestView)
    (args : AllocArgs) (mgr' : KVCacheManager) (l' : List BlockRef) : Prop where
  pending : Pending mgr' l' request.requestId (numTokensMainModel mgr.config request args)
  config : mgr'.config = mgr.config
  frame : Frame mgr.blockPool mgr'.blockPool
  queue : l' = (serve (hitClaims mgr request args) l).2
  hash : ∀ c, mgr'.blockPool.hash c =
    if c ∈ (serve (hitClaims mgr request args) l).1 then none else mgr.blockPool.hash c
  count : ∀ b, b ≠ mgr.blockPool.nullBlock →
    tableCount mgr'.singleTypeManagers request.requestId b =
    keptSum mgr request args b + (serve (hitClaims mgr request args) l).1.count b
  rows : List.Forall₂ (fun m m' => RowUpdate request.requestId m m' ∧
    callBlocks mgr.config request args m' = freshBlocks mgr.config request args m ∧
    ∀ b, b ≠ mgr.blockPool.nullBlock →
      (keptOf request args m).count b ≤ (m'.blocksOf request.requestId).count b)
    mgr.singleTypeManagers mgr'.singleTypeManagers

theorem serve_nothing {α : Type} [DecidableEq α] {cs : List (List α × Nat)} {l : List α}
    (h : ∀ c ∈ cs, c = ([], 0)) : serve cs l = ([], l) := by
  induction cs with
  | nil => rfl
  | cons c cs ih =>
    rw [h c mem_cons_self, serve]
    simp [ih fun d hd => h d (mem_cons_of_mem c hd)]

theorem hitClaim_nothing (hitsOf : Nat → List BlockRef) (hnil : hitsOf m.kvCacheGroupId = [])
    (numLocal : Nat) : hitClaim hitsOf numLocal 0 m = ([], 0) := by
  have hext : externalBlocks m.kvCacheSpec [] numLocal 0 = 0 := by
    unfold externalBlocks externalTokens
    split_ifs <;> omega
  simp [hitClaim, hnil, keptHits, hext]

/-- The state between the loops of a call for a fresh request. -/
theorem takeComputedBlocks_fresh (h : KVInv mgr l) (hcall : FreshCall mgr request args)
    (hfit : FittingHits mgr request args) (hpos : 0 < numTokensMainModel mgr.config request args)
    (hok : mgr.takeComputedBlocks request args = .ok mgr') :
    ∃ l', AfterHits mgr l request args mgr' l' := by
  by_cases hskip : (∀ L ∈ args.newComputedBlocks, L = []) ∧ args.numExternalComputedTokens = 0
  · obtain rfl : mgr = mgr' :=
      Except.ok.inj ((takeComputedBlocks_skip hskip.1 hskip.2).symm.trans hok)
    have hclaims : ∀ c ∈ hitClaims mgr request args, c = ([], 0) := by
      intro c hc
      obtain ⟨m, -, rfl⟩ := mem_map.mp hc
      rw [hskip.2]
      exact hitClaim_nothing _ (getD_eq_nil hskip.1 _) _
    have hkept : ∀ m, keptOf request args m = [] := fun m => by
      rw [keptOf, getD_eq_nil hskip.1]
      exact drop_nil
    have hserve := serve_nothing (l := l) hclaims
    refine ⟨l, pending_of_inv h _ hpos, rfl, Frame.refl _, by rw [hserve], fun c => ?_,
      fun b hb => ?_, forall₂_same.mpr fun m hm => ⟨RowUpdate.refl _ m, ?_, fun b _ => ?_⟩⟩
    · rw [hserve, if_neg not_mem_nil]
    · rw [hserve]
      refine congrArg List.sum (map_congr_left fun m hm => ?_)
      rw [(hcall.fresh m hm).2, hkept m]
    · -- Without computed tokens the window is empty.
      have hlocal : numLocalComputedTokens request args = 0 := by
        rw [numLocalComputedTokens, hcall.numComputed, hcall.noTokens hskip.1]
      have hwindow : windowBlocks m.kvCacheSpec 0 = 0 :=
        Nat.le_zero.mp ((windowBlocks_le m.kvCacheSpec).trans (Nat.zero_div _).le)
      have hlen : hitLength m.kvCacheSpec [] 0 0 = 0 := by
        have hclaim := hitClaim_nothing (fun _ => []) (m := m) rfl 0
        have hext := congrArg Prod.snd hclaim
        unfold hitLength
        simp only [hitClaim] at hext
        rw [hwindow, hext]
        rfl
      rw [callBlocks, newBlocks_eq, newBlocksFor_of_not _ (not_allocated_of_fresh h hcall.fresh hm),
        (hcall.fresh m hm).2, freshBlocks, hlocal, hskip.2, getD_eq_nil hskip.1, hlen]
      rfl
    · rw [hkept m]
      exact Nat.zero_le _
  · rw [takeComputedBlocks_run hskip] at hok
    rcases allocateNewComputedBlocks_rule h.toKVBase request 0 hfit with
      ⟨mgr₁, l', hok₁, hloop, -⟩ | ⟨e, herr, -⟩
    · obtain rfl : mgr₁ = mgr' := Except.ok.inj (hok₁.symm.trans hok)
      obtain ⟨hqueue, hhash, hcount⟩ :=
        hitTrace_effect hloop.trace fun m hm => (hcall.fresh m hm).1
      have hkept : List.Forall₂ (fun m m' => RowUpdate request.requestId m m' ∧
          ∀ b, b ≠ mgr.blockPool.nullBlock → m.numCachedBlock.contains request.requestId = false →
            (keptOf request args m).count b ≤ (m'.blocksOf request.requestId).count b)
          mgr.singleTypeManagers mgr₁.singleTypeManagers := by
        refine hloop.trace.forall₂_frame (Frame.refl _) (fun _ _ _ _ _ _ hr => ?_)
          fun p l m p' l' m' hf hr => ⟨hr.rowUpdate, fun b hb hnew => ?_⟩
        · rcases hr with ⟨-, -, rfl, -, -⟩ | ⟨-, -, -, -, htakes⟩
          · exact Frame.refl _
          · exact htakes.frame
        · rcases hr with ⟨hc, -⟩ | ⟨-, -, -, -, htakes⟩
          · rw [hnew] at hc
            cases hc
          · rw [htakes.blocks, count_append, hitTable_count (by rwa [hf.nullBlock])]
            exact Nat.le_add_right _ _
      refine ⟨l', pending_of_loop h hpos hfit hloop, hloop.config, hloop.frame, hqueue,
        hhash, hcount, ?_⟩
      have hrounds := freshRounds h hcall.fresh hloop
      refine forall₂_iff_get.mpr ⟨hrounds.length_eq, fun i h₁ h₂ => ?_⟩
      obtain ⟨hm, -, -, hnew⟩ := (forall₂_iff_get.mp hrounds).2 i h₁ h₂
      obtain ⟨hrow, hle⟩ := (forall₂_iff_get.mp hkept).2 i h₁ h₂
      exact ⟨hrow, hnew, fun b hb => hle b hb (hcall.fresh _ hm).1⟩
    · rw [hok] at herr
      cases herr

/-- Both loops together are one `serve` of all claims. -/
theorem commitSlots_freshEffect (h : KVInv mgr l) (hcall : FreshCall mgr request args)
    (hfit : FittingHits mgr request args) (hpos : 0 < numTokensMainModel mgr.config request args)
    (hok : mgr.commitSlots request args = .ok (mgr', out)) :
    FreshEffect mgr l request args mgr' := by
  unfold commitSlots at hok
  simp only [bind_eq_ok] at hok
  obtain ⟨mgr₁, hok₁, ⟨mgr₂, out₂⟩, hok₂, mgr₃, hok₃, hok⟩ := hok
  cases hok
  obtain ⟨l₁, hafter⟩ := takeComputedBlocks_fresh h hcall hfit hpos hok₁
  rcases allocateNewBlocks_rule hafter.pending.toKVBase request
    (by rw [hafter.config]; exact hafter.pending.ready) with
    ⟨mgr₂', out', l₂, hok₂', hloop⟩ | ⟨e, herr, -⟩
  swap
  · rw [hok₂] at herr
    cases herr
  obtain ⟨rfl, -⟩ := Prod.mk.inj (Except.ok.inj (hok₂'.symm.trans hok₂))
  -- The claims of the second loop are those of the fresh request.
  have hclaims : mgr₁.singleTypeManagers.map (newClaim request.requestId
      (numTokensNeedSlot mgr₁.config request args)
      (numTokensMainModel mgr₁.config request args)) =
        mgr.singleTypeManagers.map fun m => ([], freshBlocks mgr.config request args m) := by
    rw [hafter.config]
    exact map_eq_of_forall₂ (hafter.rows.imp fun m m' hr => congrArg (Prod.mk []) hr.2.1)
  obtain ⟨hhash₂, hcount₂⟩ := newTrace_effect hloop.trace
  have hserve : (serve (claimsOf mgr request args) l).1 =
      (serve (hitClaims mgr request args) l).1 ++
      (serve (mgr₁.singleTypeManagers.map (newClaim request.requestId
        (numTokensNeedSlot mgr₁.config request args)
        (numTokensMainModel mgr₁.config request args))) l₁).1 := by
    rw [claimsOf, serve_append, ← hafter.queue, hclaims]
  have hle₂ : ∀ b, b ≠ mgr.blockPool.nullBlock → List.Forall₂ (fun m m' =>
      RowUpdate request.requestId m m' ∧
      (m.blocksOf request.requestId).count b ≤ (m'.blocksOf request.requestId).count b)
      mgr₁.singleTypeManagers mgr₂'.singleTypeManagers := by
    intro b hb
    refine hloop.trace.forall₂_frame hafter.frame (fun _ _ _ _ _ _ hr => ?_)
      fun p l m p' l' m' hf hr => ⟨hr.rowUpdate, ?_⟩
    · obtain ⟨-, -, ⟨t, halloc⟩, -⟩ := hr
      exact halloc.frame
    · obtain ⟨-, -, ⟨t, halloc⟩, -⟩ := hr
      rw [halloc.blocks, count_append, halloc.count b (by rwa [hf.nullBlock])]
      exact Nat.le_add_right _ _
  have hrows : List.Forall₂ (RowUpdate request.requestId) mgr.singleTypeManagers
      mgr₂'.singleTypeManagers :=
    forall₂_trans (hafter.rows.imp fun _ _ hr => hr.1)
      (hloop.trace.forall₂ fun _ _ _ _ _ _ hr => hr.rowUpdate) fun _ _ _ h₁ h₂ => h₁.trans h₂
  have hkept : ∀ b, b ≠ mgr.blockPool.nullBlock → ∀ m' ∈ mgr₂'.singleTypeManagers,
      (keptOf request args m').count b ≤ (m'.blocksOf request.requestId).count b := by
    intro b hb m₂ hm₂
    obtain ⟨m₁, hm₁, hrow₁, hcount₁⟩ := forall₂_mem (hle₂ b hb) hm₂
    obtain ⟨m, -, hrow, -, hcount⟩ := forall₂_mem hafter.rows hm₁
    rw [keptOf_eq (hrow.trans hrow₁)]
    exact (hcount b hb).trans hcount₁
  have hcount : ∀ b, b ≠ mgr.blockPool.nullBlock →
      tableCount mgr₂'.singleTypeManagers request.requestId b =
        keptSum mgr request args b + (serve (claimsOf mgr request args) l).1.count b :=
      fun b hb => by
    rw [hcount₂ b (by rwa [hafter.frame.nullBlock]), hafter.count b hb, hserve, count_append]
    omega
  have hhash : ∀ c k, c ∉ (serve (claimsOf mgr request args) l).1 → mgr.blockPool.hash c = some k →
      mgr₂'.blockPool.hash c = some k := fun c k hc hk => by
    rw [hserve, mem_append, not_or] at hc
    rw [hhash₂ c, if_neg hc.2, hafter.hash c, if_neg hc.1, hk]
  rcases cacheNewBlocks_rule (pending_done hafter.pending hloop)
      (newRound_guard hloop) with
    ⟨mgr₃', l₃, hok₃', -, -, hcached⟩ | ⟨e, herr, -⟩
  swap
  · rw [hok₃] at herr
    cases herr
  obtain rfl : mgr₃' = mgr' := Except.ok.inj (hok₃'.symm.trans hok₃)
  rcases hcached with rfl | hcached
  · exact ⟨hrows, hcount, hkept, hhash⟩
  have hsame : List.Forall₂ (fun m m' => RowUpdate request.requestId m m' ∧
      m'.blocksOf request.requestId = m.blocksOf request.requestId)
      mgr₂'.singleTypeManagers mgr₃'.singleTypeManagers :=
    hcached.trace.forall₂ fun _ _ _ _ _ _ hr => ⟨hr.1.rowUpdate, hr.1.blocks⟩
  refine ⟨?_, fun b hb => ?_, fun b hb m' hm' => ?_, fun c k hc hk => ?_⟩
  · exact forall₂_trans hrows hsame fun _ _ _ h₁ h₂ => h₁.trans h₂.1
  · rw [← hcount b hb]
    exact sum_map_of_forall₂ (hsame.imp fun _ _ hr => congrArg _ hr.2)
  · obtain ⟨m, hm, hrow, hblocks⟩ := forall₂_mem hsame hm'
    rw [keptOf_eq hrow, hblocks]
    exact hkept b hb m hm
  · exact hcached.trace.keeps
      (fun _ _ _ _ _ _ hr => hr.2.2.2 c k) (hhash c k hc hk)

theorem skipTrace_append {total : Nat} {p p' : BlockPool} {l l' : List BlockRef}
    (h : LoopTrace (SkipRound id total) p l ms p' l' ms') : ∃ freed, l' = l ++ freed := by
  induction h with
  | nil => exact ⟨[], (append_nil _).symm⟩
  | cons hround _ ih =>
    obtain ⟨-, freed, rfl⟩ := hround
    obtain ⟨freed', rfl⟩ := ih
    exact ⟨freed ++ freed', append_assoc _ _ _⟩

theorem occAll_of_fresh (id : ReqId)
    (h : List.Forall₂ (fun m m' =>
      RowUpdate id m m' ∧ m.blocksOf id = [] ∧ m'.blocksOf id = []) ms ms')
    (b : BlockRef) : occAll ms' b = occAll ms b := by
  refine sum_map_of_forall₂ (h.imp fun m m' hr => ?_)
  obtain ⟨hrow, hnil, hnil'⟩ := hr
  rw [m.occ_eq id b, m'.occ_eq id b, hrow.restOcc b, hnil, hnil']

theorem removeSkippedBlocks_fresh (h : KVInv mgr l) (hfresh : FreshRequest mgr id) (total : Nat) :
    ∃ mgr', mgr.removeSkippedBlocks id total = .ok mgr' ∧ KVInv mgr' l ∧
      Frame mgr.blockPool mgr'.blockPool ∧ OnlySkipped mgr id total mgr' := by
  obtain ⟨mgr', l', hok, hinv, hloop⟩ := removeSkippedBlocks_spec h id total
  have hskip := onlySkipped_of_loop h hloop
  have hempty : List.Forall₂ (fun m m' => m ∈ mgr.singleTypeManagers ∧
      RowUpdate id m m' ∧ m.blocksOf id = [] ∧ m'.blocksOf id = [])
      mgr.singleTypeManagers mgr'.singleTypeManagers := by
    apply forall₂_with_mem
    refine hskip.groups.imp fun m m' hr hm => ⟨hr.1, (hfresh m hm).2, ?_⟩
    apply length_eq_zero_iff.mp
    rw [hr.2.1.1, (hfresh m hm).2, length_nil]
  have hocc := occAll_of_fresh id (hempty.imp fun _ _ hr => hr.2)
  obtain ⟨freed, rfl⟩ := skipTrace_append hloop.trace
  have hnil : freed = [] := by
    refine eq_nil_iff_forall_not_mem.mpr fun b hb => ?_
    have hmem := (hinv.groups.free.mem_iff b).mp (mem_append_right l hb)
    rw [hocc b, hloop.frame.numGpuBlocks, hloop.frame.nullBlock] at hmem
    exact (disjoint_of_nodup_append hinv.groups.free.nodup)
      ((h.groups.free.mem_iff b).mpr hmem) hb
  rw [hnil, append_nil] at hinv
  exact ⟨mgr', hok, hinv, hloop.frame, hskip⟩

/-- The whole call, from the release of skipped blocks on. -/
theorem allocateSlots_freshEffect (h : KVInv mgr l) (hcall : FreshCall mgr request args)
    (hfit : FittingHits mgr request args)
    (hok : mgr.allocateSlots request args = .ok (mgr', some out)) :
    FreshEffect mgr l request args mgr' := by
  unfold allocateSlots at hok
  split at hok <;> rename_i htokens
  · cases hok
  obtain ⟨mgr₁, hok₁, hinv₁, hframe₁, hskip⟩ := removeSkippedBlocks_fresh h hcall.fresh
    (totalComputedTokens mgr.config request args)
  rw [hok₁, ok_bind, bind_eq_ok] at hok
  obtain ⟨k, -, hok⟩ := hok
  split at hok
  · cases hok
  rw [bind_eq_ok] at hok
  obtain ⟨⟨mgr₂, out₂⟩, hcommit, hok⟩ := hok
  cases hok
  have hrows : List.Forall₂ (RowUpdate request.requestId) mgr.singleTypeManagers
      mgr₁.singleTypeManagers := hskip.groups.imp fun _ _ hr => hr.1
  have heff := commitSlots_freshEffect hinv₁ (hcall.congr hskip)
    (hfit.congr hskip.config hframe₁ hrows)
      (numTokensMainModel_pos mgr₁.config request htokens) hcommit
  -- The claims are those of the state before the call.
  have hclaims : claimsOf mgr₁ request args = claimsOf mgr request args := by
    unfold claimsOf
    rw [hskip.config]
    congr 1
    · exact map_eq_of_forall₂ (hrows.imp fun _ _ hr => by
        rw [hitClaim, hitClaim, hr.spec, hr.groupId])
    · exact map_eq_of_forall₂ (hrows.imp fun _ _ hr => by
        rw [freshBlocks, freshBlocks, hr.spec, hr.groupId])
  obtain ⟨hrows₂, hcount, hkept, hhash⟩ := heff
  rw [hframe₁.nullBlock] at hcount hkept
  rw [hclaims] at hhash
  refine ⟨forall₂_trans hrows hrows₂ fun _ _ _ h₁ h₂ => h₁.trans h₂, fun b hb => ?_, hkept,
    fun c k hc hk => hhash c k hc ((hskip.hash c).trans hk)⟩
  rw [hcount b hb, keptSum_eq hrows b, hclaims]

end KVCacheManager

end VllmEcho
