import VllmEcho.KVCache.AllocateCapacity
import VllmEcho.KVCache.RunTheorems

/-!
# The capacity check along runs

In every state of a run the check of `allocate_slots` is sufficient and its refusal is clean, for
calls that in align mode do not ask for fewer blocks than the table has.  After rejected draft
tokens a call can ask for fewer, and then an assertion fails.
-/

namespace VllmEcho

open Lib BlockPool SingleTypeKVCacheManager KVCacheManager

variable {request : RequestView} {args : AllocArgs}

/-- A running request whose tables cover its computed tokens, or one without tables and with the
hits `get_computed_blocks` returned. -/
@[mk_iff]
structure SchedulerCall (s : RunState) (request : RequestView) (args : AllocArgs) : Prop where
  tokens : ¬ (args.numNewTokens = 0 ∧ args.numExternalComputedTokens = 0)
  hashes : request.numTokens / s.mgr.config.hashBlockSize ≤ request.blockHashes.length
  call : RunningCall s.mgr request args ∨
    FreshRequest s.mgr request.requestId ∧ request.numComputedTokens = 0 ∧
      (args.newComputedBlocks, args.numNewComputedTokens) ∈ s.found

theorem SchedulerCall.capacityCall {cfg : KVCacheConfig} {s : RunState}
    (h : SchedulerCall s request args) (hinv : RunInv cfg s)
    (hprom : (Op.allocateSlots request args).Promised s) : CapacityCall s.mgr request args := by
  refine ⟨h.tokens, h.hashes, hprom.2, ?_⟩
  rcases h.call with hrun | ⟨hfresh, hzero, hfound⟩
  · exact Or.inl hrun
  · have hf := hinv.found _ hfound
    exact Or.inr ⟨hfresh, hzero, hf.noTokens, hf.caching⟩

/-- In every run whose hits fit, the capacity check of a call is sufficient, and a refusal changes
only entries outside the attention window. -/
theorem fittingRun_capacitySufficient {cfg : KVCacheConfig} {s : RunState} (hrun : FittingRun cfg s)
    {request : RequestView} {args : AllocArgs} (hcall : SchedulerCall s request args)
    (hprom : (Op.allocateSlots request args).Promised s)
    (hfit : (Op.allocateSlots request args).HitsFit s.mgr.config)
    (halign : AlignFits s.mgr request args) : ∃ mgr₁ k, s.mgr.removeSkippedBlocks request.requestId
        (Slots.totalComputedTokens s.mgr.config request args) = .ok mgr₁ ∧
      mgr₁.numBlocksToAllocate request args = .ok k ∧
      (k ≤ mgr₁.blockPool.getNumFreeBlocks → ∃ mgr' out,
        s.mgr.allocateSlots request args = .ok (mgr', some out) ∧
        ∀ m ∈ mgr'.singleTypeManagers, Covers m request.requestId
          (Slots.numTokensNeedSlot s.mgr.config request args)
          (Slots.numTokensMainModel s.mgr.config request args)) ∧
      (mgr₁.blockPool.getNumFreeBlocks < k → s.mgr.allocateSlots request args = .ok (mgr₁, none) ∧
        OnlySkipped s.mgr request.requestId
          (Slots.totalComputedTokens s.mgr.config request args) mgr₁) := by
  obtain ⟨l, hinv⟩ := hrun.inv.inv
  exact allocateSlots_capacity hinv (hcall.capacityCall hrun.inv hprom) halign
    (fittingHits_of_promised hrun.inv hprom hfit)

/-! ## Fewer draft tokens than in the step before -/

def alignSpecs : KVCacheConfig where
  numBlocks := 20
  maxModelLen := 64
  hashBlockSize := 4
  enableCaching := true
  useEagle := false
  kvCacheGroups := [{ blockSize := 4, kind := .mamba .align 3, layout := 0 }]

def draftingRequest (numTokens computed : Nat) : RequestView :=
  { samplePrompt 1 0 numTokens with numComputedTokens := computed }

def draftingOps : List Op := [
  .getComputedBlocks (draftingRequest 5 0),
  .allocateSlots (draftingRequest 5 0) ⟨5, 0, [[]], 3, 0, false⟩,
  .allocateSlots (draftingRequest 6 5) ⟨4, 0, [], 3, 0, false⟩]

def draftlessArgs : AllocArgs := ⟨1, 0, [], 0, 0, false⟩

/-- A step without drafts after three rejected ones asks for fewer blocks than the table has. -/
theorem rejectedDrafts_fail_assertion : ∃ s, FittingRun alignSpecs s ∧
      SchedulerCall s (draftingRequest 7 6) draftlessArgs ∧
      (Op.allocateSlots (draftingRequest 7 6) draftlessArgs).Promised s ∧
      (Op.allocateSlots (draftingRequest 7 6) draftlessArgs).HitsFit s.mgr.config ∧
      ∃ mgr₁ k msg, s.mgr.removeSkippedBlocks 1
          (Slots.totalComputedTokens s.mgr.config (draftingRequest 7 6) draftlessArgs) = .ok mgr₁ ∧
        mgr₁.numBlocksToAllocate (draftingRequest 7 6) draftlessArgs = .ok k ∧
        k ≤ mgr₁.blockPool.getNumFreeBlocks ∧
        s.mgr.allocateSlots (draftingRequest 7 6) draftlessArgs = .error (.assertionError msg) := by
  have hbad :
    ∃ s ∈ runOps (fun s op => op.Promised s ∧ op.HitsFit s.mgr.config) alignSpecs draftingOps,
      SchedulerCall s (draftingRequest 7 6) draftlessArgs ∧
      (Op.allocateSlots (draftingRequest 7 6) draftlessArgs).Promised s ∧
      (Op.allocateSlots (draftingRequest 7 6) draftlessArgs).HitsFit s.mgr.config ∧
      ∃ mgr₁, s.mgr.removeSkippedBlocks 1
          (Slots.totalComputedTokens s.mgr.config (draftingRequest 7 6) draftlessArgs) = .ok mgr₁ ∧
        ∃ k, mgr₁.numBlocksToAllocate (draftingRequest 7 6) draftlessArgs = .ok k ∧
          k ≤ mgr₁.blockPool.getNumFreeBlocks ∧
          s.mgr.allocateSlots (draftingRequest 7 6) draftlessArgs
            matches .error (.assertionError _) := by
    simp only [schedulerCall_iff, runningCall_iff]
    decide +kernel
  obtain ⟨s, hs, hcall, hprom, hfit, mgr₁, hskip, k, hnum, hle, hfails⟩ := hbad
  split at hfails
  · rename_i msg herror
    exact ⟨s, runOps_reaches hs, hcall, hprom, hfit, mgr₁, k, msg, hskip, hnum, hle, herror⟩
  · cases hfails

/-- With three drafts in every step the check is passed and the slots are allocated. -/
theorem fittingRun_capacitySufficient_sample : ∃ s, FittingRun alignSpecs s ∧
      ∃ mgr' out, s.mgr.allocateSlots (draftingRequest 7 6) ⟨4, 0, [], 3, 0, false⟩ =
        .ok (mgr', some out) := by
  have hsample :
    ∃ s ∈ runOps (fun s op => op.Promised s ∧ op.HitsFit s.mgr.config) alignSpecs draftingOps,
      SchedulerCall s (draftingRequest 7 6) ⟨4, 0, [], 3, 0, false⟩ ∧
      (Op.allocateSlots (draftingRequest 7 6) ⟨4, 0, [], 3, 0, false⟩).Promised s ∧
      (Op.allocateSlots (draftingRequest 7 6) ⟨4, 0, [], 3, 0, false⟩).HitsFit s.mgr.config ∧
      AlignFits s.mgr (draftingRequest 7 6) ⟨4, 0, [], 3, 0, false⟩ ∧
      ∃ mgr₁, s.mgr.removeSkippedBlocks 1
          (Slots.totalComputedTokens s.mgr.config (draftingRequest 7 6) ⟨4, 0, [], 3, 0, false⟩) =
            .ok mgr₁ ∧
        ∃ k, mgr₁.numBlocksToAllocate (draftingRequest 7 6) ⟨4, 0, [], 3, 0, false⟩ = .ok k ∧
          k ≤ mgr₁.blockPool.getNumFreeBlocks := by
    simp only [schedulerCall_iff, runningCall_iff]
    decide +kernel
  obtain ⟨s, hs, hcall, hprom, hfit, halign, mgr₁, hskip, k, hnum, hle⟩ := hsample
  have hrun : FittingRun alignSpecs s := runOps_reaches hs
  obtain ⟨mgr₂, k₂, hskip₂, hnum₂, hok, -⟩ :=
    fittingRun_capacitySufficient hrun hcall hprom hfit halign
  obtain rfl := Except.ok.inj (hskip.symm.trans hskip₂)
  obtain rfl := Except.ok.inj (hnum.symm.trans hnum₂)
  obtain ⟨mgr', out, hcall', -⟩ := hok hle
  exact ⟨s, hrun, mgr', out, hcall'⟩

end VllmEcho
