import VllmEcho.KVCache.AllocateSlots
import VllmEcho.Lib.Runs

/-!
# Runs of the KV cache manager

Any sequence of operations from the constructor on.  What the callers promise is the condition of a
run; `HitsFit` is the one further condition under which the manager's invariant is kept: with
external tokens, no group's hits reach beyond the tokens that are computed.
-/

namespace VllmEcho

open Lib BlockPool List SingleTypeKVCacheManager KVCacheManager.Slots KVCacheManager

/-! ## Hits as blocks of the pool

A hit carries the key it was found under.  A request whose block hashes are pairwise distinct
therefore never gets a block twice in one group. -/

/-- What the block hasher promises, collisions aside: digests of one size, no two of them equal. -/
@[mk_iff]
structure RequestView.DistinctHashes (request : RequestView) : Prop where
  nodup : request.blockHashes.Nodup
  uniform : ∀ h ∈ request.blockHashes, ∀ h' ∈ request.blockHashes, h.length = h'.length

instance (request : RequestView) : Decidable request.DistinctHashes :=
  decidable_of_iff' _ request.distinctHashes_iff

theorem makeBlockHashWithGroupId_inj {h h' : BlockHash} {g : Nat}
    (he : makeBlockHashWithGroupId h g = makeBlockHashWithGroupId h' g) : h = h' :=
  append_cancel_right he

theorem mergedHash_head {hs : List BlockHash} {scale i : Nat} (hscale : 0 < scale)
    (hi : i < hs.length / scale) :
    ∃ h rest, hs[i * scale]? = some h ∧ mergedHash hs scale i = h ++ rest := by
  have hlt : i * scale < hs.length := by
    have := (Nat.lt_div_iff_mul_lt hscale).mp hi
    omega
  obtain ⟨k, rfl⟩ : ∃ k, scale = k + 1 := ⟨scale - 1, by omega⟩
  refine ⟨hs[i * (k + 1)], ((hs.drop (i * (k + 1) + 1)).take k).flatten,
    getElem?_eq_getElem hlt, ?_⟩
  rw [mergedHash, drop_eq_getElem_cons hlt, take_succ_cons, flatten_cons]

variable {request : RequestView}

theorem RequestView.DistinctHashes.blockHashesAt_nodup (h : request.DistinctHashes) {hbs bs : Nat}
    (hdvd : bs % hbs = 0) (hpos : 0 < bs) : (blockHashesAt request.blockHashes hbs bs).Nodup := by
  unfold blockHashesAt
  split
  · exact h.nodup
  obtain ⟨k, rfl⟩ := Nat.dvd_of_mod_eq_zero hdvd
  have hhbs : 0 < hbs := Nat.pos_of_mul_pos_right hpos
  have hk : 0 < k := Nat.pos_of_mul_pos_left hpos
  rw [Nat.mul_div_cancel_left k hhbs]
  refine List.Nodup.map_on ?_ nodup_range
  intro i hi j hj heq
  rw [mem_range] at hi hj
  obtain ⟨x, xs, hx, hxe⟩ := mergedHash_head hk hi
  obtain ⟨y, ys, hy, hye⟩ := mergedHash_head hk hj
  rw [hxe, hye] at heq
  have hxy : x = y := (append_inj heq
    (h.uniform x (mem_of_getElem? hx) y (mem_of_getElem? hy))).1
  obtain ⟨hlt, -⟩ := List.getElem?_eq_some_iff.mp hx
  exact Nat.eq_of_mul_eq_mul_right hk ((getElem?_inj hlt h.nodup).mp (by rw [hx, hy, hxy]))

section

variable {p : BlockPool} {occ unc : BlockRef → Nat} {g : Nat} {hs : List BlockHash}
  {L : List BlockRef}

theorem HitOk.key (h : HitOk p g hs L) (hcore : CoreInv p occ unc) {i : Nat} {b : BlockRef}
    (hb : L[i]? = some b) (hne : b ≠ p.nullBlock) :
    ∃ k, hs[i]? = some k ∧ p.hash b = some (makeBlockHashWithGroupId k g) := by
  obtain ⟨k, hk, hmem⟩ := (h i b hb).resolve_left hne
  exact ⟨k, hk, (hcore.cache_exact _ b).mp hmem⟩

theorem HitOk.lt (h : HitOk p g hs L) (hcore : CoreInv p occ unc) :
    ∀ b ∈ L, b < p.numGpuBlocks := by
  intro b hb
  obtain ⟨i, hi⟩ := mem_iff_getElem?.mp hb
  by_cases hne : b = p.nullBlock
  · rw [hne]
    exact hcore.null_lt
  · obtain ⟨k, -, hkey⟩ := h.key hcore hi hne
    exact hcore.hashed_lt b _ hkey

theorem HitOk.nodup (h : HitOk p g hs L) (hcore : CoreInv p occ unc) (hnd : hs.Nodup) :
    (L.filter (· ≠ p.nullBlock)).Nodup := by
  rw [List.Nodup, pairwise_filter, pairwise_iff_getElem]
  intro i j hi hj hij hni hnj he
  rw [decide_eq_true_iff] at hni
  obtain ⟨x, hx, hxkey⟩ := h.key hcore (getElem?_eq_getElem hi) hni
  obtain ⟨y, hy, hykey⟩ := h.key hcore (getElem?_eq_getElem hj) (he ▸ hni)
  rw [← he, hxkey] at hykey
  have hxy := makeBlockHashWithGroupId_inj (Option.some.inj hykey)
  obtain ⟨hlt, -⟩ := List.getElem?_eq_some_iff.mp hx
  have hindex : i = j := (getElem?_inj hlt hnd).mp (by rw [hx, hy, hxy])
  omega

end

inductive Op
  | getComputedBlocks (request : RequestView)
  | allocateSlots (request : RequestView) (args : AllocArgs)
  | cacheBlocks (request : RequestView) (numComputedTokens : Nat)
  | removeSkippedBlocks (requestId : ReqId) (totalComputedTokens : Nat)
  | free (requestId : ReqId)
  | evictBlocks (blockIds : List Nat)
  | resetPrefixCache
  | newStepStarts

structure RunState where
  mgr : KVCacheManager
  found : List (List (List BlockRef) × Nat)

variable (cfg : KVCacheConfig) (s : RunState)

namespace Op

def exec : Op → Except PyError RunState
  | getComputedBlocks request => do
    let r ← s.mgr.getComputedBlocks request
    pure { s with found := r :: s.found }
  | allocateSlots request args => do
    let r ← s.mgr.allocateSlots request args
    pure { s with mgr := r.1 }
  | cacheBlocks request n => do
    let mgr ← s.mgr.cacheBlocks request n
    pure { s with mgr := mgr }
  | removeSkippedBlocks id n => do
    let mgr ← s.mgr.removeSkippedBlocks id n
    pure { s with mgr := mgr }
  | free id => do
    let mgr ← s.mgr.free id
    pure { s with mgr := mgr }
  | evictBlocks ids => do
    let mgr ← s.mgr.evictBlocks ids
    pure { s with mgr := mgr }
  | resetPrefixCache => .ok { s with mgr := s.mgr.resetPrefixCache.1 }
  | newStepStarts => .ok { s with mgr := s.mgr.newStepStarts }

/-- What the callers promise: the block hashes of a request are distinct, hits were returned by
`get_computed_blocks` and fit the model, and `cache_blocks` is called for tokens the table covers.
-/
def Promised : Op → Prop
  | getComputedBlocks request => request.DistinctHashes
  | allocateSlots request args =>
    ((∀ L ∈ args.newComputedBlocks, L = []) ∨
      (args.newComputedBlocks, args.numNewComputedTokens) ∈ s.found) ∧
    numLocalComputedTokens request args + args.numExternalComputedTokens ≤
      s.mgr.config.maxModelLen
  | cacheBlocks request n =>
    ∀ m ∈ s.mgr.singleTypeManagers, ∀ k ∈ m.kvCacheSpec.alignSpeculativeBlocks,
      n / m.blockSize ≤ m.numCached request.requestId ∨
        n / m.blockSize + k ≤ (m.blocksOf request.requestId).length
  | _ => True

/-- With external tokens, the hits of no group are longer than the computed tokens. -/
def HitsFit : Op → Prop
  | allocateSlots request args =>
    args.numExternalComputedTokens = 0 ∨
      ∀ e ∈ cfg.kvCacheGroups.zipIdx,
        (args.newComputedBlocks.getD e.2 []).length ≤
          cdiv (numLocalComputedTokens request args +
            args.numExternalComputedTokens) e.1.blockSize
  | _ => True

instance (s : RunState) (op : Op) : Decidable (op.Promised s) := by
  cases op <;> unfold Promised <;> infer_instance

instance (cfg : KVCacheConfig) (op : Op) : Decidable (op.HitsFit cfg) := by
  cases op <;> unfold HitsFit <;> infer_instance

end Op

variable (guard : RunState → Op → Prop)

def RunReaches (cfg : KVCacheConfig) : RunState → Prop :=
  Reaches (fun s => init cfg = .ok s.mgr ∧ s.found = [])
    (fun s op s' => op.exec s = .ok s') guard

def FittingRun : RunState → Prop :=
  RunReaches (fun s op => op.Promised s ∧ op.HitsFit s.mgr.config) cfg

def runOps [∀ s op, Decidable (guard s op)] (cfg : KVCacheConfig) (ops : List Op) :
    Option RunState :=
  (init cfg).toOption.bind fun mgr =>
    Reaches.replay (fun s op => (op.exec s).toOption) (fun s op => decide (guard s op))
      ⟨mgr, []⟩ ops

theorem runOps_reaches {guard : RunState → Op → Prop} [∀ s op, Decidable (guard s op)]
    {cfg : KVCacheConfig} {ops : List Op} {s : RunState} (h : runOps guard cfg ops = some s) :
    RunReaches guard cfg s := by
  obtain ⟨mgr, hinit, hrun⟩ := Option.bind_eq_some_iff.mp h
  exact Reaches.replay_reaches (fun _ _ _ hs => toOption_eq_some hs)
    (fun _ _ hg => of_decide_eq_true hg) ops (.start ⟨toOption_eq_some hinit, rfl⟩) hrun

/-! ## The invariant along a run -/

structure FoundOk (mgr : KVCacheManager) (f : List (List BlockRef) × Nat) : Prop where
  lt : ∀ g, ∀ b ∈ f.1.getD g [], b < mgr.blockPool.numGpuBlocks
  nodup : ∀ g, ((f.1.getD g []).filter (· ≠ mgr.blockPool.nullBlock)).Nodup
  within : ∀ (g : Nat) (spec : KVCacheSpec), mgr.config.kvCacheGroups[g]? = some spec →
    spec.isFullAttention = false → (f.1.getD g []).length * spec.blockSize ≤ f.2
  noTokens : (∀ L ∈ f.1, L = []) → f.2 = 0
  caching : mgr.config.enableCaching = true ∨ ∀ L ∈ f.1, L = []

structure RunInv : Prop where
  inv : ∃ l, KVInv s.mgr l
  config : s.mgr.config = cfg
  found : ∀ f ∈ s.found, FoundOk s.mgr f

variable {cfg : KVCacheConfig} {s s' : RunState} {l : List BlockRef} {mgr : KVCacheManager}

/-- A request with distinct hashes gets no block twice in one group. -/
theorem foundOk_of_hits (h : KVInv mgr l) (hdist : request.DistinctHashes)
    {r : List (List BlockRef) × Nat} (hok : mgr.getComputedBlocks request = .ok r) :
    FoundOk mgr r := by
  obtain ⟨hhits, -, hblock⟩ := getComputedBlocks_hitsOk h.checked hok
  have hnil : ∀ g, mgr.config.kvCacheGroups[g]? = none → r.1.getD g [] = [] := by
    intro g hg
    rw [getD_eq_getElem?_getD, getElem?_eq_none, Option.getD_none]
    rw [hhits.length]
    exact getElem?_eq_none_iff.mp hg
  have hoff : mgr.config.enableCaching = true ∨ ∀ L ∈ r.1, L = [] := by
    refine or_iff_not_imp_left.mpr fun hen L hL => ?_
    have hr : r.1 = List.replicate mgr.config.kvCacheGroups.length [] := by
      unfold getComputedBlocks at hok
      rw [Bool.not_eq_true] at hen
      rw [hen] at hok
      cases hok
      rfl
    exact eq_of_mem_replicate (hr ▸ hL)
  refine ⟨fun g => ?_, fun g => ?_, hhits.within, fun hempty => ?_, hoff⟩
  · cases hg : mgr.config.kvCacheGroups[g]? with
    | none =>
      rw [hnil g hg]
      exact fun b hb => absurd hb not_mem_nil
    | some spec => exact (hhits.hit g spec hg).lt h.groups.core
  · cases hg : mgr.config.kvCacheGroups[g]? with
    | none =>
      rw [hnil g hg]
      exact nodup_nil
    | some spec =>
      rcases hoff with hen | hempty
      · exact (hhits.hit g spec hg).nodup h.groups.core (hdist.blockHashesAt_nodup
          (h.checked.divides hen spec (mem_of_getElem? hg)) spec.blockSize_pos)
      · rw [getD_eq_nil hempty]
        exact nodup_nil
  · by_contra hne
    obtain ⟨L, hL, hLne⟩ := hblock (Nat.pos_of_ne_zero hne)
    exact hLne (hempty L hL)

/-- Hits that were found at any earlier time of the run fit the state of the call. -/
theorem fittingHits_of_promised (h : RunInv cfg s) {args : AllocArgs}
    (hprom : (Op.allocateSlots request args).Promised s)
    (hfit : (Op.allocateSlots request args).HitsFit s.mgr.config) :
    s.mgr.FittingHits request args := by
  obtain ⟨hhits, hlen⟩ := hprom
  obtain ⟨l, hinv⟩ := h.inv
  intro m hm
  have hspec := hinv.spec_of_mem hm
  set hits := args.newComputedBlocks.getD m.kvCacheGroupId [] with hdef
  have hfound : hits = [] ∨ FoundOk s.mgr (args.newComputedBlocks, args.numNewComputedTokens) :=
    hhits.imp (fun hnil => getD_eq_nil hnil _) (h.found _)
  have htotal : totalComputedTokens s.mgr.config request args =
      numLocalComputedTokens request args + args.numExternalComputedTokens :=
    Nat.min_eq_left hlen
  refine ⟨?_, ?_, externalBlocks_nonneg
    (hfit.imp id fun hf => hf _ (mk_mem_zipIdx_iff_getElem?.mpr hspec)), fun halign => ?_⟩
  · rcases hfound with hnil | hf
    · rw [hnil]
      exact fun b hb => absurd hb not_mem_nil
    · exact hf.lt _
  · rcases hfound with hnil | hf
    · rw [hnil]
      exact nodup_nil
    · exact hf.nodup _
  have hmain : numTokensMainModel s.mgr.config request args =
      numLocalComputedTokens request args + args.numExternalComputedTokens +
        args.numNewTokens := by
    rw [numTokensMainModel, htotal]
  rw [hmain]
  refine Nat.max_le.mpr ⟨?_, ?_⟩
  · exact ((windowBlocks_le m.kvCacheSpec).trans (div_le_cdiv _ m.kvCacheSpec.blockSize_pos)).trans
      (cdiv_mono (Nat.le_add_right _ _) _)
  rcases hfound with hnil | hf
  · rw [hnil]
    exact Nat.zero_le _
  have hnot : m.kvCacheSpec.isFullAttention = false := by
    unfold KVCacheSpec.alignSpeculativeBlocks at halign
    unfold KVCacheSpec.isFullAttention
    split at halign
    · rename_i hkind
      rw [hkind]
    · cases halign
  have hle := hf.within _ _ hspec hnot
  rw [← cdiv_mul hits.length m.kvCacheSpec.blockSize_pos]
  refine cdiv_mono (hle.trans ?_) _
  change args.numNewComputedTokens ≤ request.numComputedTokens + args.numNewComputedTokens +
    args.numExternalComputedTokens + args.numNewTokens
  omega

variable {mgr' : KVCacheManager} {l' : List BlockRef}

theorem FoundOk.congr (h : KVInv mgr l) (h' : KVInv mgr' l') (hcfg : mgr'.config = mgr.config)
    {f : List (List BlockRef) × Nat} (hf : FoundOk mgr f) : FoundOk mgr' f := by
  refine ⟨?_, ?_, ?_, hf.noTokens, ?_⟩
  · rw [h'.numBlocks, hcfg, ← h.numBlocks]
    exact hf.lt
  · rw [h'.null, ← h.null]
    exact hf.nodup
  · rw [hcfg]
    exact hf.within
  · rw [hcfg]
    exact hf.caching

theorem RunInv.ofMgr (h : RunInv cfg s) (hinv : KVInv s.mgr l) (hinv' : KVInv mgr' l')
    (hcfg : mgr'.config = s.mgr.config) : RunInv cfg { s with mgr := mgr' } :=
  ⟨⟨l', hinv'⟩, hcfg.trans h.config, fun f hf => (h.found f hf).congr hinv hinv' hcfg⟩

theorem RunInv.ofKeeps {α : Type} {state : α → KVCacheManager} {r : Except PyError α}
    {x : Except PyError RunState} (h : RunInv cfg s) (hkeeps : Keeps s.mgr.config state r)
    (hx : x = r >>= fun a => .ok { s with mgr := state a }) :
    (∃ s', x = .ok s' ∧ RunInv cfg s') ∨ ∃ e, x = .error e ∧ e ≠ hashAssertion := by
  obtain ⟨l, hinv⟩ := h.inv
  rcases hkeeps with ⟨a, l', rfl, hinv', hcfg⟩ | ⟨e, rfl, he⟩
  · exact Or.inl ⟨_, hx, h.ofMgr hinv hinv' hcfg⟩
  · exact Or.inr ⟨e, hx, he⟩

/-- One step: a promised operation with fitting hits keeps the invariant, or raises an exception
other than the hash assertion. -/
theorem Op.exec_keeps (h : RunInv cfg s) (op : Op) (hprom : op.Promised s)
    (hfit : op.HitsFit s.mgr.config) :
    (∃ s', op.exec s = .ok s' ∧ RunInv cfg s') ∨ ∃ e, op.exec s = .error e ∧ e ≠ hashAssertion := by
  obtain ⟨l, hinv⟩ := h.inv
  cases op with
  | getComputedBlocks request =>
    simp only [Op.exec]
    cases hget : s.mgr.getComputedBlocks request with
    | error e => exact Or.inr ⟨e, rfl, fun he => getComputedBlocks_ne (he ▸ hget)⟩
    | ok r =>
      refine Or.inl ⟨_, rfl, ⟨l, hinv⟩, h.config, fun f hf => ?_⟩
      rcases mem_cons.mp hf with rfl | hf
      · exact foundOk_of_hits hinv hprom hget
      · exact h.found f hf
  | allocateSlots request args =>
    exact h.ofKeeps (allocateSlots_keeps hinv (fittingHits_of_promised h hprom hfit)) rfl
  | cacheBlocks request n =>
    have hkeeps : Keeps s.mgr.config id (s.mgr.cacheBlocks request n) := by
      unfold KVCacheManager.cacheBlocks
      split <;> rename_i hen
      · rcases cacheBlocksLoop_spec hinv hen request n hprom with
          ⟨mgr', l', hok, hinv', hloop⟩ | ⟨e, herr, he, -⟩
        · exact Or.inl ⟨mgr', l', hok, hinv', hloop.config⟩
        · exact Or.inr ⟨e, herr, he⟩
      · exact Or.inl ⟨s.mgr, l, rfl, hinv, rfl⟩
    exact h.ofKeeps hkeeps rfl
  | removeSkippedBlocks id n =>
    obtain ⟨mgr', l', hok, hinv', hloop⟩ := removeSkippedBlocks_spec hinv id n
    exact Or.inl ⟨_, by simp only [Op.exec, hok, ok_bind, pure_eq_ok],
      h.ofMgr hinv hinv' hloop.config⟩
  | free id =>
    obtain ⟨mgr', l', hok, hinv', hcfg⟩ := free_spec hinv id
    exact Or.inl ⟨_, by simp only [Op.exec, hok, ok_bind, pure_eq_ok], h.ofMgr hinv hinv' hcfg⟩
  | evictBlocks ids =>
    exact h.ofKeeps (evictBlocks_keeps hinv ids) rfl
  | resetPrefixCache =>
    exact Or.inl ⟨_, rfl, h.ofMgr hinv (resetPrefixCache_inv hinv) rfl⟩
  | newStepStarts =>
    exact Or.inl ⟨_, rfl, h.ofMgr hinv (newStepStarts_inv hinv) rfl⟩

theorem FittingRun.inv (h : FittingRun cfg s) : RunInv cfg s := by
  refine Reaches.invariant ?_ ?_ h
  · rintro ⟨mgr, found⟩ ⟨hinit, rfl⟩
    obtain ⟨hinv, hcfg⟩ := init_inv hinit
    exact ⟨⟨_, hinv⟩, hcfg, fun f hf => absurd hf not_mem_nil⟩
  rintro s op s' hinv ⟨hprom, hfit⟩ hok
  rcases op.exec_keeps hinv hprom hfit with ⟨s₁, hok₁, hinv₁⟩ | ⟨e, herr, -⟩
  · rw [hok] at hok₁
    exact Except.ok.inj hok₁ ▸ hinv₁
  · rw [hok] at herr
    cases herr

end VllmEcho
