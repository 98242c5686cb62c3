import VllmEcho.KVCache.AllocateSlots

/-!
# What a call needs and what it was counted for

`get_num_blocks_to_allocate` predicts how many blocks leave the free queue; the allocation loops
take them.  For one group, the prediction is compared with what the loops really take: the hits
that are still in the queue, the blocks for external tokens and the blocks for new tokens.
-/

namespace VllmEcho

open Lib BlockPool List SingleTypeKVCacheManager KVCacheManager.Slots KVCacheSpec

def newBlocksFor (spec : KVCacheSpec) (blocksAllocated : Bool) (len n main : Nat) : Nat :=
  match spec.alignSpeculativeBlocks with
  | some s => alignBlocks blocksAllocated (cdiv main spec.blockSize) s len
  | none => requiredBlocks spec n main - len

theorem newBlocks_eq (m : SingleTypeKVCacheManager) (id : ReqId) (n main : Nat) :
    newBlocks m id n main =
      newBlocksFor m.kvCacheSpec (decide (id ∈ m.allocatedBlockReqs))
        (m.blocksOf id).length n main :=
  rfl

def hitLength (spec : KVCacheSpec) (hits : List BlockRef) (numLocal numExternal : Nat) : Nat :=
  max (windowBlocks spec (numLocal + numExternal)) hits.length +
    (externalBlocks spec hits numLocal numExternal).toNat

/-! ## The predictions -/

section Predictions

variable {p : BlockPool} {m : SingleTypeKVCacheManager} {id : ReqId} {hits : List BlockRef}
  {n total main : Nat}

def basePrediction (p : BlockPool) (m : SingleTypeKVCacheManager) (id : ReqId)
    (hits : List BlockRef) (required total : Nat) : Int :=
  if m.numCachedBlock.contains id then ((required - (m.blocksOf id).length : Nat) : Int)
  else
    ((required - max (windowBlocks m.kvCacheSpec total) (hits.length + (m.blocksOf id).length) +
      getNumEvictableBlocks p
        (hits.drop (windowBlocks m.kvCacheSpec total - (m.blocksOf id).length)) : Nat) : Int)

def alignPrediction (p : BlockPool) (m : SingleTypeKVCacheManager) (id : ReqId)
    (hits : List BlockRef) (c s : Nat) : Int :=
  (if (c : Int) + s - hits.length - (m.blocksOf id).length > 0 then
    if id ∈ m.allocatedBlockReqs then 1 else 1 + (s : Int)
  else (c : Int) + s - hits.length - (m.blocksOf id).length) + getNumEvictableBlocks p hits

theorem getNumBlocksToAllocateBase_eq (hhits : m.numCachedBlock.contains id = true → hits = []) :
    m.getNumBlocksToAllocateBase p id n hits total =
      .ok (basePrediction p m id hits (cdiv n m.blockSize) total) := by
  unfold getNumBlocksToAllocateBase basePrediction
  split <;> rename_i hc
  · simp [hhits hc]
  · rfl

def prediction (p : BlockPool) (m : SingleTypeKVCacheManager) (id : ReqId) (hits : List BlockRef)
    (n total main : Nat) : Int :=
  match m.kvCacheSpec.alignSpeculativeBlocks with
  | some s => alignPrediction p m id hits (cdiv main m.blockSize) s
  | none => basePrediction p m id hits (requiredBlocks m.kvCacheSpec n main) total

theorem getNumBlocksToAllocate_eq (p : BlockPool) (n total main : Nat)
    (hhits : m.numCachedBlock.contains id = true → hits = []) :
    m.getNumBlocksToAllocate p id n hits total main = .ok (p.numGpuBlocks + 1) ∨
      m.getNumBlocksToAllocate p id n hits total main =
        .ok (prediction p m id hits n total main) := by
  unfold getNumBlocksToAllocate prediction requiredBlocks alignSpeculativeBlocks
  cases hkind : m.kvCacheSpec.kind with
  | mamba mode s =>
    simp only
    split
    · exact Or.inl rfl
    · cases mode with
      | align => exact Or.inr rfl
      | none => exact Or.inr (getNumBlocksToAllocateBase_eq hhits)
      | all => exact Or.inr (getNumBlocksToAllocateBase_eq hhits)
  | _ => exact Or.inr (getNumBlocksToAllocateBase_eq hhits)

theorem eq_prediction {v : Int} (hpred : m.getNumBlocksToAllocate p id n hits total main = .ok v)
    (hhits : m.numCachedBlock.contains id = true → hits = []) :
    v = p.numGpuBlocks + 1 ∨ v = prediction p m id hits n total main := by
  have heq := getNumBlocksToAllocate_eq p n total main hhits
  rw [hpred] at heq
  exact heq.imp Except.ok.inj Except.ok.inj

end Predictions

/-! ## What is taken -/

section Taken

variable {p : BlockPool} {m : SingleTypeKVCacheManager} {id : ReqId} {n main : Nat}
  {spec : KVCacheSpec}

theorem cdiv_le_requiredBlocks (hs : spec.alignSpeculativeBlocks = none) (n main : Nat) :
    cdiv n spec.blockSize ≤ requiredBlocks spec n main := by
  unfold requiredBlocks
  unfold alignSpeculativeBlocks at hs
  cases hkind : spec.kind with
  | mamba mode s =>
    cases mode with
    | align => simp [hkind] at hs
    | none => exact cdiv_mono (Nat.le_add_right _ _) _
    | all => exact cdiv_mono (Nat.le_add_right _ _) _
  | _ => exact le_rfl

theorem windowBlocks_align {s : Nat} (hs : spec.alignSpeculativeBlocks = some s) (total : Nat) :
    windowBlocks spec total = (total - 1) / spec.blockSize ∧
      spec.getNumSkippedTokens total = total - 1 := by
  unfold alignSpeculativeBlocks at hs
  unfold windowBlocks getNumSkippedTokens
  split at hs <;> rename_i hkind
  · simp [hkind]
  · cases hs

theorem cdiv_eq_succ {n b : Nat} (hn : 0 < n) (hb : 0 < b) : cdiv n b = (n - 1) / b + 1 := by
  unfold cdiv
  rw [show n + b - 1 = n - 1 + b by omega, Nat.add_div_right _ hb]

theorem alignBlocks_fresh {c s len : Nat} (hlen : len ≤ c) :
    alignBlocks false c s len = if len = c then s else s + 1 := by
  unfold alignBlocks
  simp only [Bool.false_eq_true, if_false]
  split_ifs <;> omega

theorem getNumEvictableBlocks_drop_le (p : BlockPool) (hits : List BlockRef) (w : Nat) :
    getNumEvictableBlocks p (hits.drop w) ≤ getNumEvictableBlocks p hits :=
  (drop_sublist w hits).countP_le

theorem newBlocks_le_prediction {total : Nat} {v : Int}
    (hpred : m.getNumBlocksToAllocate p id n [] total main = .ok v)
    (hwindow : windowBlocks m.kvCacheSpec total ≤ (m.blocksOf id).length)
    (halign : ∀ s, m.kvCacheSpec.alignSpeculativeBlocks = some s →
      (m.blocksOf id).length ≤ cdiv main m.blockSize + s) :
    v = p.numGpuBlocks + 1 ∨ (newBlocks m id n main : Int) ≤ v := by
  refine (eq_prediction hpred fun _ => rfl).imp_right ?_
  rintro rfl
  unfold newBlocks prediction
  cases hs : m.kvCacheSpec.alignSpeculativeBlocks with
  | none =>
    unfold basePrediction
    simp only [length_nil, Nat.zero_add, Nat.max_eq_right hwindow]
    split <;> omega
  | some s =>
    have hle := halign s hs
    unfold alignPrediction alignBlocks
    simp only [length_nil, decide_eq_true_eq]
    split_ifs <;> omega

/-- A new request with hits or external tokens: the prediction covers the hits that leave the
queue, the blocks for external tokens and the new blocks. -/
theorem hitBlocks_le_prediction {hits : List BlockRef} {numLocal numExternal : Nat} {v : Int}
    (hpred : m.getNumBlocksToAllocate p id n hits (numLocal + numExternal) main = .ok v)
    (hnew : m.numCachedBlock.contains id = false) (hnil : m.blocksOf id = [])
    (hnot : ∀ s, m.kvCacheSpec.alignSpeculativeBlocks = some s → id ∉ m.allocatedBlockReqs)
    (hhits : GroupHits p numLocal numExternal main m.kvCacheSpec hits)
    (hn : numLocal + numExternal ≤ n) (hmain : numLocal + numExternal ≤ main)
    (halign : m.kvCacheSpec.alignSpeculativeBlocks.isSome → numExternal = 0 ∨
      cdiv main m.blockSize ≤ cdiv (numLocal + numExternal) m.blockSize) : v = p.numGpuBlocks + 1 ∨
    (getNumEvictableBlocks p (keptHits m.kvCacheSpec (numLocal + numExternal) hits) : Int) +
      (externalBlocks m.kvCacheSpec hits numLocal numExternal).toNat +
      newBlocksFor m.kvCacheSpec false
        (hitLength m.kvCacheSpec hits numLocal numExternal) n main ≤ v := by
  refine (eq_prediction hpred fun h => nomatch hnew.symm.trans h).imp_right ?_
  rintro rfl
  have hext := hhits.external
  unfold newBlocksFor hitLength prediction
  cases hs : m.kvCacheSpec.alignSpeculativeBlocks with
  | none =>
    have hreq := (cdiv_mono hn m.kvCacheSpec.blockSize).trans
      (cdiv_le_requiredBlocks hs n main)
    unfold basePrediction keptHits
    rw [hnew, hnil]
    simp only [Bool.false_eq_true, if_false, length_nil, Nat.add_zero, Nat.sub_zero]
    unfold externalBlocks at hext ⊢
    split at hext <;> rename_i hpos
    · omega
    · rw [if_neg hpos]
      omega
  | some s =>
    obtain ⟨hw, hskip⟩ := windowBlocks_align hs (numLocal + numExternal)
    have hle := hhits.align (by rw [hs]; rfl)
    have hev := getNumEvictableBlocks_drop_le p hits
      (windowBlocks m.kvCacheSpec (numLocal + numExternal))
    have hc := cdiv_mono hmain m.kvCacheSpec.blockSize
    have hbs : m.blockSize = m.kvCacheSpec.blockSize := rfl
    unfold alignPrediction keptHits
    simp only [hnil, if_neg (hnot s hs), hbs, length_nil]
    -- Without external tokens the loop over the hits pops nothing; with them it pops one block at
    -- most, and then the token blocks are complete.
    rcases Nat.eq_zero_or_pos numExternal with hzero | hpos
    · have hk : externalBlocks m.kvCacheSpec hits numLocal numExternal = 0 := by
        unfold externalBlocks externalTokens
        split_ifs <;> omega
      rw [hk, Int.toNat_zero, Nat.add_zero, alignBlocks_fresh hle]
      split_ifs <;> omega
    have hct := (halign (by rw [hs]; rfl)).resolve_left (by omega)
    have hsucc := cdiv_eq_succ (show 0 < numLocal + numExternal by omega)
      m.kvCacheSpec.blockSize_pos
    unfold externalBlocks at hext ⊢
    rw [hbs] at hct
    rw [alignBlocks_fresh (by omega)]
    split_ifs <;> omega

end Taken

/-! ## Sums over the groups -/

variable {ms : List SingleTypeKVCacheManager} {p : BlockPool}

theorem numBlocksLoop_ok {id : ReqId} {n total main : Nat} {hits : List (List BlockRef)} {k : Int}
    (hok : KVCacheManager.numBlocksLoop p id n hits total main ms = .ok k) :
    ∃ vs : List Int, List.Forall₂ (fun m v => m.getNumBlocksToAllocate p id n
      (hits.getD m.kvCacheGroupId []) total main = .ok v) ms vs ∧ k = vs.sum := by
  induction ms generalizing k with
  | nil =>
    cases hok
    exact ⟨[], .nil, rfl⟩
  | cons m ms ih =>
    rw [KVCacheManager.numBlocksLoop, bind_eq_ok] at hok
    obtain ⟨v, hv, hok⟩ := hok
    rw [bind_eq_ok] at hok
    obtain ⟨k', hk', hok⟩ := hok
    cases hok
    obtain ⟨vs, hvs, rfl⟩ := ih hk'
    exact ⟨v :: vs, .cons hv hvs, sum_cons.symm⟩

theorem sum_cost_le {N : Nat} {cost : SingleTypeKVCacheManager → Nat} {vs : List Int}
    (h : List.Forall₂ (fun m v => v = (N : Int) + 1 ∨ (cost m : Int) ≤ v) ms vs) :
    0 ≤ vs.sum ∧ (vs.sum ≤ N → ((ms.map cost).sum : Int) ≤ vs.sum) := by
  induction h with
  | nil => simp
  | cons hv _ ih =>
    rw [sum_cons, map_cons, sum_cons]
    constructor
    · omega
    · intro hle
      omega

end VllmEcho
