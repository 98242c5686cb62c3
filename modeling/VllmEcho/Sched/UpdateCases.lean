import VllmEcho.Sched.StepCases
import VllmEcho.Sched.Update

/-!
# What the other calls can do

Inversion lemmas for the parts of `update_from_output`, `finish_requests` and `reset_prefix_cache`,
and the invariant rules for their loops.
-/

namespace VllmEcho

open Lib Scheduler

variable {cfg : SchedulerConfig} {env : CallEnv} {s s' : Scheduler} {r : ReqId}

/-! ## Releasing requests -/

theorem preemptRequest_cases (h : s.preemptRequest cfg r = .ok s') :
    ∃ kv, s' = { s.modify r preempted with
        kvCacheManager := kv
        encoderCacheManager := s.encoderCacheManager.free (s.objects r)
        waiting := RequestQueue.prependRequest cfg.policy (s.modify r preempted).before s.waiting
          r } := by
  obtain ⟨_, -, h⟩ := of_bind h
  obtain ⟨kv, -, h⟩ := of_bind h
  cases h
  exact ⟨kv, rfl⟩

theorem freeBlocks_cases (h : s.freeBlocks r = .ok s') : (s.objects r).isFinished = true ∧ ∃ kv,
      s' = { s with kvCacheManager := kv, requests := s.requests.filter (· ≠ r) } := by
  obtain ⟨_, hassert, h⟩ := of_bind h
  obtain ⟨kv, -, h⟩ := of_bind h
  cases h
  exact ⟨assertThat_eq_ok.mp hassert, kv, rfl⟩

def Scheduler.released (s : Scheduler) (r : ReqId) : Scheduler :=
  { s with
    encoderCacheManager := s.encoderCacheManager.free (s.objects r)
    finishedReqIds := if r ∈ s.finishedReqIds then s.finishedReqIds else s.finishedReqIds ++ [r] }

inductive FreeRequest (cfg : SchedulerConfig) (env : CallEnv) (s : Scheduler) (r : ReqId)
    (delay : Bool) : Scheduler → Prop
  | kept {kv : KVCacheManager}
      (hdelay : delay = true ∨ (cfg.hasConnector = true ∧ env.requestFinished r = true)) :
      FreeRequest cfg env s r delay { s.released r with kvCacheManager := kv }
  | freed {kv : KVCacheManager} (hdelay : delay = false)
      (hconnector : cfg.hasConnector = false ∨ env.requestFinished r = false) :
      FreeRequest cfg env s r delay
        { s.released r with kvCacheManager := kv, requests := s.requests.filter (· ≠ r) }

theorem connectorFinished_cases {delay : Bool}
    (h : s.connectorFinished cfg env r = .ok (s', delay)) :
    ∃ kv, s' = { s with kvCacheManager := kv } ∧
      delay = (cfg.hasConnector && env.requestFinished r) := by
  unfold connectorFinished at h
  split at h
  · rename_i hcon
    obtain ⟨kv, hkv, h⟩ := of_bind h
    cases h
    exact ⟨kv, rfl, by rw [hcon, Bool.true_and]⟩
  · rename_i hcon
    cases h
    exact ⟨s.kvCacheManager, rfl, by rw [Bool.eq_false_iff.mpr hcon, Bool.false_and]⟩

theorem freeRequest_cases {delay : Bool} (h : s.freeRequest cfg env r delay = .ok s') :
    (s.objects r).isFinished = true ∧ FreeRequest cfg env s r delay s' := by
  obtain ⟨_, hassert, h⟩ := of_bind h
  obtain ⟨⟨s₁, connectorDelay⟩, hcon, h⟩ := of_bind h
  obtain ⟨kv, rfl, rfl⟩ := connectorFinished_cases hcon
  refine ⟨assertThat_eq_ok.mp hassert, ?_⟩
  dsimp only at h
  split at h
  · rename_i hdelay
    cases h
    rw [Bool.or_eq_true, Bool.and_eq_true] at hdelay
    exact .kept hdelay
  · rename_i hdelay
    rw [Bool.or_eq_true, not_or, Bool.and_eq_true, not_and_or] at hdelay
    obtain ⟨-, kv', rfl⟩ := freeBlocks_cases h
    exact .freed (Bool.eq_false_iff.mpr hdelay.1)
      (hdelay.2.imp Bool.eq_false_iff.mpr Bool.eq_false_iff.mpr)

/-! ## The output of one request -/

def Scheduler.settleTokens (cfg : SchedulerConfig) (request : Request)
    (appended : List TokenId) : Request :=
  if cfg.asyncScheduling then
    { request with numOutputPlaceholders := request.numOutputPlaceholders - appended.length }
  else request

inductive TakeOutput (cfg : SchedulerConfig) (mo : ModelRunnerOutput) (s : Scheduler) (r : ReqId) :
    Scheduler → Bool → Prop
  | discarded (hsampled : mo.sampledTokenIds r ≠ []) (hasync : cfg.asyncScheduling = true)
      (hflag : (s.objects r).discardLatestAsyncTokens = true) :
      TakeOutput cfg mo s r (s.modify r fun q => { q with discardLatestAsyncTokens := false }) false
  | appended {request : Request} {appended : List TokenId} {stopped : Bool} {kv : KVCacheManager}
      (hsampled : mo.sampledTokenIds r ≠ [])
      (hflag : cfg.asyncScheduling = true → (s.objects r).discardLatestAsyncTokens = false)
      (happend : appendUntilStop cfg.hasher cfg.maxModelLen (s.objects r) (mo.sampledTokenIds r) =
        .ok (request, appended, stopped))
      (hnonneg : cfg.asyncScheduling = true →
        0 ≤ (settleTokens cfg request appended).numOutputPlaceholders)
      (hkv : (kv = s.kvCacheManager ∧
          (cfg.asyncScheduling = true → (s.objects r).status ≠ .running)) ∨
        (cfg.asyncScheduling = true ∧ (s.objects r).status = .running ∧
          s.kvCacheManager.cacheBlocks (settleTokens cfg request appended).view
            ((settleTokens cfg request appended).numComputedTokens -
              (settleTokens cfg request appended).numOutputPlaceholders).toNat = .ok kv)) :
      TakeOutput cfg mo s r
        (({ s with kvCacheManager := kv } : Scheduler).modify r
          fun _ => settleTokens cfg request appended) stopped
  | pooled (hsampled : mo.sampledTokenIds r = []) (hpooling : (s.objects r).poolingParams.isSome)
      (hpooled : mo.poolerOutput r = true) :
      TakeOutput cfg mo s r (s.modify r fun q => { q with status := .finishedStopped }) true
  | silent (hsampled : mo.sampledTokenIds r = [])
      (hpooling : ((s.objects r).poolingParams.isSome && mo.poolerOutput r) = false) :
      TakeOutput cfg mo s r s false

variable {mo : ModelRunnerOutput}

theorem takeOutput_cases {stopped : Bool} (h : s.takeOutput cfg mo r = .ok (s', stopped)) :
    TakeOutput cfg mo s r s' stopped := by
  unfold takeOutput at h
  split at h
  · rename_i hsampled
    obtain ⟨⟨s₁, appended, stopped₁⟩, hupdate, h⟩ := of_bind h
    cases h
    unfold updateRequestWithOutput at hupdate
    split at hupdate
    · rename_i hasync
      split at hupdate
      · rename_i hflag
        cases hupdate
        exact .discarded hsampled hasync hflag
      rename_i hflag
      obtain ⟨⟨request, appended₁, stopped₂⟩, happend, hupdate⟩ := of_bind hupdate
      have hsettle : settleTokens cfg request appended₁ = { request with
          numOutputPlaceholders := request.numOutputPlaceholders - appended₁.length } :=
        if_pos hasync
      obtain ⟨_, hassert, hupdate⟩ := of_bind hupdate
      obtain ⟨kv, hkv, hupdate⟩ := of_bind hupdate
      cases hupdate
      have hnonneg : 0 ≤ (settleTokens cfg request appended).numOutputPlaceholders := by
        rw [hsettle]
        exact of_decide_eq_true (assertThat_eq_ok.mp hassert)
      rw [← hsettle]
      refine .appended hsampled (fun _ => Bool.eq_false_iff.mpr hflag) happend
        (fun _ => hnonneg) ?_
      split at hkv
      · rename_i hrunning
        refine Or.inr ⟨hasync, hrunning, ?_⟩
        rw [hsettle]
        exact hkv
      · rename_i hrunning
        cases hkv
        exact Or.inl ⟨rfl, fun _ => hrunning⟩
    · rename_i hasync
      obtain ⟨⟨request, appended₁, stopped₂⟩, happend, hupdate⟩ := of_bind hupdate
      cases hupdate
      have hsettle : settleTokens cfg request appended = request := if_neg hasync
      have hcase : TakeOutput cfg mo s r (({ s with kvCacheManager := s.kvCacheManager } :
          Scheduler).modify r fun _ => settleTokens cfg request appended) stopped :=
        .appended hsampled (fun ha => absurd ha hasync) happend (fun ha => absurd ha hasync)
          (Or.inl ⟨rfl, fun ha => absurd ha hasync⟩)
      rw [hsettle] at hcase
      exact hcase
  · rename_i hsampled
    rw [not_not] at hsampled
    split at h
    · rename_i hpool
      cases h
      rw [Bool.and_eq_true] at hpool
      exact .pooled hsampled hpool.1 hpool.2
    · rename_i hpool
      cases h
      exact .silent hsampled (Bool.eq_false_iff.mpr hpool)

inductive StopRequest (cfg : SchedulerConfig) (env : CallEnv) (s : Scheduler) (r : ReqId) :
    Scheduler → Prop
  | finished {s' : Scheduler} (hresumable : (s.objects r).resumable = false)
      (hfree : s.freeRequest cfg env r false = .ok s') : StopRequest cfg env s r s'
  | closed {s' : Scheduler} {rest : List (Option StreamingUpdate)}
      (hresumable : (s.objects r).resumable = true)
      (hqueue : (s.objects r).streamingQueue.getD [] = none :: rest)
      (hfree : (s.modify r fun q => { q with streamingQueue := some rest }).freeRequest cfg env r
        false = .ok s') : StopRequest cfg env s r s'
  | continued {s₁ : Scheduler} {update : StreamingUpdate} {rest : List (Option StreamingUpdate)}
      (hresumable : (s.objects r).resumable = true)
      (hqueue : (s.objects r).streamingQueue.getD [] = some update :: rest)
      (hsession : (s.modify r fun q =>
        { q with streamingQueue := some rest }).updateRequestAsSession cfg r update = .ok s₁) :
      StopRequest cfg env s r (s₁.enqueueWaitingRequest cfg r)
  | waits (hresumable : (s.objects r).resumable = true)
      (hqueue : (s.objects r).streamingQueue.getD [] = []) :
      StopRequest cfg env s r
        (({ s.modify r (fun q => { q with status := .waitingForStreamingReq }) with
          numWaitingForStreamingInput := s.numWaitingForStreamingInput + 1 } :
            Scheduler).enqueueWaitingRequest cfg r)

theorem stopRequest_cases (h : s.stopRequest cfg env r = .ok s') : StopRequest cfg env s r s' := by
  obtain ⟨⟨s₁, finished⟩, hhandle, h⟩ := of_bind h
  unfold handleStoppedRequest at hhandle
  split at hhandle
  · rename_i hres
    cases hhandle
    exact .finished (by simpa using hres) h
  rename_i hres
  have hres' : (s.objects r).resumable = true := by simpa using hres
  split at hhandle
  · rename_i rest hqueue
    cases hhandle
    exact .closed hres' hqueue h
  · rename_i update rest hqueue
    obtain ⟨s₂, hsession, hhandle⟩ := of_bind hhandle
    cases hhandle
    cases h
    exact .continued hres' hqueue hsession
  · rename_i hqueue
    cases hhandle
    cases h
    exact .waits hres' hqueue

inductive UpdateOne (cfg : SchedulerConfig) (env : CallEnv) (out : SchedulerOutput)
    (mo : ModelRunnerOutput) (failed : List ReqId) (u : UpdateState) (r : ReqId) :
    UpdateState → Prop
  | passed (hpass : r ∈ failed ∨ u.sched.isLive r = false) :
      UpdateOne cfg env out mo failed u r u
  | goesOn {s₁ : Scheduler} (hnotFailed : r ∉ failed) (hlive : u.sched.isLive r = true)
      (htake : TakeOutput cfg mo
        (u.sched.applyRejections r (out.drafts r) (mo.sampledTokenIds r)) r s₁ false) :
      UpdateOne cfg env out mo failed u r { u with sched := s₁ }
  | stops {s₁ s₂ : Scheduler} (hnotFailed : r ∉ failed) (hlive : u.sched.isLive r = true)
      (htake : TakeOutput cfg mo
        (u.sched.applyRejections r (out.drafts r) (mo.sampledTokenIds r)) r s₁ true)
      (hstop : StopRequest cfg env s₁ r s₂) {u' : UpdateState}
      (hu' : u' = if (u.sched.objects r).status = .running then
          { u with sched := s₂, stoppedRunningReqs := u.stoppedRunningReqs ++ [r] }
        else { u with sched := s₂, stoppedPreemptedReqs := u.stoppedPreemptedReqs ++ [r] }) :
      UpdateOne cfg env out mo failed u r u'

theorem applyRejections_objects_ne {drafts generated : List TokenId} {q : ReqId} (hne : q ≠ r) :
    (s.applyRejections r drafts generated).objects q = s.objects q := by
  unfold applyRejections
  split
  · rfl
  · exact modify_objects_ne _ hne

theorem applyRejections_status (s : Scheduler) (r : ReqId) (drafts generated : List TokenId)
    (q : ReqId) :
    ((s.applyRejections r drafts generated).objects q).status = (s.objects q).status := by
  by_cases hq : q = r
  · subst hq
    unfold applyRejections
    split
    · rfl
    · rw [modify_objects_self]
      rfl
  · rw [applyRejections_objects_ne hq]

variable {out : SchedulerOutput} {failed : List ReqId} {u' u : UpdateState}

theorem updateOne_cases {n : Int} (h : updateOne cfg env out mo failed u r n = .ok u') :
    UpdateOne cfg env out mo failed u r u' := by
  obtain ⟨_, -, h⟩ := of_bind h
  split at h
  · rename_i hpass
    cases h
    apply UpdateOne.passed
    rw [Bool.or_eq_true, decide_eq_true_iff, Bool.not_eq_true'] at hpass
    exact hpass
  rename_i hpass
  rw [Bool.or_eq_true, not_or, decide_eq_true_iff, Bool.not_eq_true', Bool.not_eq_false] at hpass
  obtain ⟨⟨s₁, stopped⟩, htake, h⟩ := of_bind h
  have htake' := takeOutput_cases htake
  cases stopped with
  | false =>
    cases h
    exact .goesOn hpass.1 hpass.2 htake'
  | true =>
    obtain ⟨s₂, hstop, h⟩ := of_bind h
    refine .stops hpass.1 hpass.2 htake' (stopRequest_cases hstop) ?_
    rw [applyRejections_status] at h
    split at h <;> rename_i hrunning
    · cases h
      rw [if_pos hrunning]
    · cases h
      rw [if_neg hrunning]

theorem updateLoop_rule {I : List (ReqId × Int) → UpdateState → Prop}
    (hone : ∀ r n es u u', I ((r, n) :: es) u → UpdateOne cfg env out mo failed u r u' → I es u')
    {es : List (ReqId × Int)} (hI : I es u) (h : updateLoop cfg env out mo failed es u = .ok u') :
    I [] u' := by
  induction es generalizing u with
  | nil =>
    cases h
    exact hI
  | cons e es ih =>
    obtain ⟨u₁, hu₁, h⟩ := of_bind h
    exact ih (hone e.1 e.2 es u u₁ hI (updateOne_cases hu₁)) h

end VllmEcho
