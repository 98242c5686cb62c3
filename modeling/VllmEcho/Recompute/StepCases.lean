import VllmEcho.Recompute.Schedule
import VllmEcho.Sched.QueueFinish

/-!
# What the decode node's parts of `schedule` can do

One inversion lemma for making room and one for promoting a request, and that no call changes the
configuration of the KV cache.
-/

namespace VllmEcho

open Lib List RequestQueue

variable {i i' : Nat} {r : ReqId} {s s' : Scheduler} {st st' : StepState} {ready : Bool}

/-! ## The cache keeps its configuration -/

namespace KVCacheManager

variable {mgr mgr' : KVCacheManager}

theorem cacheBlocksLoop_config {v : RequestView} {n : Nat}
    (h : mgr.cacheBlocksLoop v n = .ok mgr') : mgr'.config = mgr.config := by
  obtain ⟨⟨p, ms, outs⟩, -, h⟩ := of_bind h
  cases h
  rfl

theorem cacheBlocks_config {v : RequestView} {n : Nat} (h : mgr.cacheBlocks v n = .ok mgr') :
    mgr'.config = mgr.config := by
  unfold cacheBlocks at h
  split at h
  · exact cacheBlocksLoop_config h
  · cases h
    rfl

theorem free_config (h : mgr.free r = .ok mgr') : mgr'.config = mgr.config := by
  obtain ⟨⟨p, ms, outs⟩, -, h⟩ := of_bind h
  cases h
  rfl

theorem allocateSlotsFor_config {q : Request} {a : SlotArgs}
    {res : Option (List (List BlockRef))} (h : mgr.allocateSlotsFor q a = .ok (mgr', res)) :
    mgr'.config = mgr.config := by
  unfold allocateSlotsFor at h
  split at h
  · cases h
  obtain ⟨mgr₁, hskipped, h⟩ := of_bind h
  obtain ⟨⟨p, ms, outs⟩, -, hskipped⟩ := of_bind hskipped
  cases hskipped
  obtain ⟨n, -, h⟩ := of_bind h
  split at h
  · cases h
    rfl
  obtain ⟨⟨mgr₂, blocks⟩, hcommit, h⟩ := of_bind h
  cases h
  obtain ⟨mgr₃, htake, hcommit⟩ := of_bind hcommit
  have htaken : mgr₃.config = mgr.config := by
    unfold takeComputedBlocks at htake
    split at htake
    · obtain ⟨⟨p₁, ms₁, outs₁⟩, -, htake⟩ := of_bind htake
      cases htake
      rfl
    · cases htake
      rfl
  obtain ⟨⟨p₂, ms₂, outs₂⟩, -, hcommit⟩ := of_bind hcommit
  obtain ⟨mgr₄, hcache, hcommit⟩ := of_bind hcommit
  cases hcommit
  split at hcache
  · cases hcache
    exact htaken
  · exact (cacheBlocksLoop_config hcache).trans htaken

end KVCacheManager

namespace RecomputeScheduler

variable {cfg : RecomputeConfig} {env : CallEnv}

/-- What `makeRoom` does: a consumer drops its last running request, whether or not the step has
scheduled it. -/
inductive MadeRoom (cfg : RecomputeConfig) (st : StepState) (i : Nat) (r : ReqId) :
    StepState → Nat → Prop
  | dropped {kv : KVCacheManager} (hdrops : cfg.drops = true)
      (hlast : st.sched.running.getLast? = some r) :
      MadeRoom cfg st i r
        { st with
          sched :=
            { st.sched with
              running := st.sched.running.dropLast
              kvCacheManager := kv }
          recomputedReqs := st.recomputedReqs ++ [r] } i
  | preempted {i' : Nat} {st' : StepState} (hdrops : cfg.drops = false)
      (hpreempt : preemptOne cfg.toSchedulerConfig st i = .ok (r, st', i')) :
      MadeRoom cfg st i r st' i'

theorem makeRoom_cases (h : makeRoom cfg st i = .ok (r, st', i')) : MadeRoom cfg st i r st' i' := by
  unfold makeRoom at h
  split at h
  · rename_i hdrops
    obtain ⟨⟨r₁, st₁⟩, hdrop, h⟩ := of_bind h
    cases h
    unfold dropOne at hdrop
    split at hdrop
    · cases hdrop
    · rename_i hlast
      obtain ⟨kv, -, hdrop⟩ := of_bind hdrop
      cases hdrop
      exact .dropped hdrops hlast
  · rename_i hdrops
    exact .preempted (Bool.eq_false_iff.mpr hdrops) h

inductive Promoted (cfg : RecomputeConfig) (env : CallEnv) (s : Scheduler) (r : ReqId) :
    Scheduler → Bool → Prop
  | base {s' : Scheduler} {ready : Bool}
      (hpromote : s.promote cfg.toSchedulerConfig env r = .ok (s', ready))
      (hstatus : (s.objects r).status ≠ .waitingForRemoteKvs) : Promoted cfg env s r s' ready
  | notYet : Promoted cfg env s r s false
  | loaded {s₁ : Scheduler} (hstatus : (s.objects r).status = .waitingForRemoteKvs)
      (hupdate : updateWaitingForRemoteKv cfg s r = .ok s₁) :
      Promoted cfg env s r (s₁.modify r promotedStatus) true

theorem promote_cases (h : promote cfg env s r = .ok (s', ready)) :
    Promoted cfg env s r s' ready := by
  unfold promote at h
  split at h <;> rename_i hblocked
  · unfold tryPromoteBlockedWaitingRequest at h
    split at h <;> rename_i hremote
    · split at h
      · obtain ⟨s₁, hupdate, h⟩ := of_bind h
        cases h
        exact .loaded hremote hupdate
      · cases h
        exact .notYet
    · exact .base ((if_pos hblocked).trans h) hremote
  · cases h
    refine .base (if_neg hblocked) fun hremote => hblocked ?_
    rw [hremote]
    rfl

structure LoadEnd (s : Scheduler) (r : ReqId) (s' : Scheduler) : Prop where
  unmoved : Unmoved s s'
  others : ∀ q, q ≠ r → s'.objects q = s.objects q
  counters : ∃ computed cached, s'.objects r =
    { s.objects r with numComputedTokens := computed, numCachedTokens := cached }
  config : s'.kvCacheManager.config = s.kvCacheManager.config

theorem updateWaitingForRemoteKv_cases (h : updateWaitingForRemoteKv cfg s r = .ok s') :
    LoadEnd s r s' := by
  obtain ⟨-, -, h⟩ := of_bind h
  split at h
  · obtain ⟨kv, hkeep, h⟩ := of_bind h
    cases h
    refine ⟨⟨⟨rfl, rfl, rfl, rfl⟩, rfl, fun _ => rfl⟩, fun _ _ => rfl, ⟨_, _, rfl⟩, ?_⟩
    unfold Scheduler.keepValidBlocks at hkeep
    split at hkeep
    · exact KVCacheManager.cacheBlocks_config hkeep
    · exact KVCacheManager.free_config hkeep
  · obtain ⟨kv, hcache, h⟩ := of_bind h
    cases h
    have hmodify := Unmoved.modify (f := fun q => { q with
      numComputedTokens := tokensLoaded cfg s.kvCacheManager (s.objects r)
      numCachedTokens := if q.numCachedTokens < 0 then
        tokensLoaded cfg s.kvCacheManager (s.objects r) else q.numCachedTokens })
      (fun _ => rfl) s r
    exact ⟨hmodify.trans ⟨⟨rfl, rfl, rfl, rfl⟩, rfl, fun _ => rfl⟩,
      fun q hq => if_neg hq, ⟨_, _, if_pos rfl⟩, KVCacheManager.cacheBlocks_config hcache⟩

theorem variant_keepsWaiting : (variant cfg env).KeepsWaiting := by
  intro s r s' ready h which
  cases promote_cases h with
  | base hpromote _ => exact Scheduler.variant_keepsWaiting hpromote which
  | notYet => rfl
  | loaded _ hupdate =>
    have hsame := (updateWaitingForRemoteKv_cases hupdate).unmoved.same
    cases which with
    | waiting => exact hsame.waiting
    | skippedWaiting => exact hsame.skippedWaiting

end RecomputeScheduler

end VllmEcho
