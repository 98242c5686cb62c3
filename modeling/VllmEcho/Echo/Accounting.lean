import VllmEcho.Echo.Records
import VllmEcho.Sched.Engine
import VllmEcho.Sched.QueueFinish

/-!
# Token accounting across a pruned step

`_update_after_schedule` advances the counters of a request by what was scheduled, the worker prunes
the drafts in the shared `SchedulerOutput`, and `update_from_output` takes back the drafts that it
still finds there and that were rejected.
-/

namespace VllmEcho

open List hiding removeAll
open Lib Scheduler

variable {cfg : SchedulerConfig} {env : CallEnv} {s s' : Scheduler} {r : ReqId}
  {mo : ModelRunnerOutput} {out : SchedulerOutput} {failed : List ReqId} {u u' : UpdateState}

namespace Scheduler

/-- A step of an in-process executor, from the end of `schedule()` on: worker and scheduler share
`out`. -/
def echoStep (cfg : SchedulerConfig) (env : CallEnv) (drafter : Option DrafterOutput)
    (mask : Nat → Nat → Bool) (out : SchedulerOutput) (mo : ModelRunnerOutput) (s : Scheduler) :
    Except PyError Scheduler :=
  (s.updateAfterSchedule cfg out).updateFromOutput cfg env (echoPruneDrafts drafter mask out) mo

end Scheduler

/-! ## The output -/

def Settles (cfg : SchedulerConfig) (drafts generated : List TokenId) (q q' : Request) : Prop :=
  let q := if drafts = [] then q
    else rejectDrafts ((drafts.length : Int) - ((generated.length : Int) - 1)) q
  q'.numComputedTokens = q.numComputedTokens ∧
    q'.numOutputPlaceholders =
      q.numOutputPlaceholders - if cfg.asyncScheduling then (generated.length : Int) else 0

theorem Settles.counters {drafts generated : List TokenId} {q q' : Request} {a : Nat}
    (h : Settles cfg drafts generated q q') (hlen : generated.length = 1 + a)
    (ha : a ≤ drafts.length) (hpos : 0 < q.numComputedTokens) :
    q'.numComputedTokens = q.numComputedTokens - (drafts.length - a) ∧
      (0 < q.numOutputPlaceholders → cfg.asyncScheduling = true → q'.numOutputPlaceholders =
        q.numOutputPlaceholders - (drafts.length - a) - (1 + a)) := by
  obtain ⟨hcomputed, hplaceholders⟩ := h
  rw [hcomputed, hplaceholders, hlen]
  split
  · rename_i hnil
    rw [hnil] at ha ⊢
    have ha : a = 0 := Nat.le_zero.mp ha
    rw [ha]
    refine ⟨by simp, fun _ hasync => ?_⟩
    rw [hasync]
    simp
  · refine ⟨?_, fun hp hasync => ?_⟩
    · rw [rejectDrafts]
      dsimp only
      omega
    · rw [rejectDrafts, if_pos hasync]
      dsimp only
      omega

theorem UpdateOne.others {q : ReqId} (h : UpdateOne cfg env out mo failed u q u') (hne : r ≠ q) :
    u'.sched.objects r = u.sched.objects r ∧ (r ∈ u.sched.requests → r ∈ u'.sched.requests) := by
  cases h.effect with
  | goesOn htouches hsame _ =>
    refine ⟨htouches.others r hne, fun hr => ?_⟩
    rw [hsame.requests]
    exact hr
  | @stops s' _ _ _ htouches hstop hu' =>
    have hrequests : r ∈ u.sched.requests → r ∈ s'.requests := by
      intro hr
      cases hstop with
      | left _ _ _ _ hreq =>
        rcases hreq with ⟨hreq, -⟩ | hreq
        · exact hreq ▸ hr
        · rw [hreq]
          exact mem_filter.mpr ⟨hr, decide_eq_true hne⟩
      | continued _ _ _ _ hreq _ => exact hreq ▸ hr
      | waits _ _ _ _ hreq => exact hreq ▸ hr
    rw [hu']
    split <;> exact ⟨htouches.others r hne, hrequests⟩

theorem updateLoop_others {es : List (ReqId × Int)} (hr : r ∉ es.map Prod.fst)
    (h : updateLoop cfg env out mo failed es u = .ok u') :
    u'.sched.objects r = u.sched.objects r := by
  refine (updateLoop_rule (I := fun es u₁ => r ∉ es.map Prod.fst ∧
    u₁.sched.objects r = u.sched.objects r) (fun q n es u₁ u₂ hI hone => ?_) ⟨hr, rfl⟩ h).2
  obtain ⟨hne, hr⟩ := not_or.mp fun h => hI.1 (mem_cons.mpr h)
  exact ⟨hr, (hone.others hne).1.trans hI.2⟩

section

variable (hfailed : r ∉ failed) (hlive : u.sched.isLive r = true)
  (hsampled : mo.sampledTokenIds r ≠ [])
  (hflag : cfg.asyncScheduling = true → (u.sched.objects r).discardLatestAsyncTokens = false)
  (hrunning : (u'.sched.objects r).status = .running)
include hfailed hlive hsampled hflag hrunning

/-- What one turn of `update_from_output` does to the counters of a request that goes on. -/
theorem UpdateOne.settles (h : UpdateOne cfg env out mo failed u r u') :
    Settles cfg (out.drafts r) (mo.sampledTokenIds r) (u.sched.objects r) (u'.sched.objects r) := by
  have hobj : (u.sched.applyRejections r (out.drafts r) (mo.sampledTokenIds r)).objects r =
      if out.drafts r = [] then u.sched.objects r else
        rejectDrafts (((out.drafts r).length : Int) - (((mo.sampledTokenIds r).length : Int) - 1))
          (u.sched.objects r) := by
    unfold applyRejections
    split
    · rename_i hnil
      rw [if_pos (hnil.resolve_right hsampled)]
    · rename_i hnil
      rw [if_neg fun hd => hnil (Or.inl hd)]
      exact modify_objects_self _
  unfold Settles
  cases h with
  | passed hpass =>
    rcases hpass with hpass | hpass
    · exact absurd hpass hfailed
    · rw [hlive] at hpass
      cases hpass
  | goesOn _ _ htake =>
    rw [← hobj]
    cases htake with
    | discarded _ hasync hdiscard =>
      rw [hobj, apply_ite Request.discardLatestAsyncTokens] at hdiscard
      exact nomatch (ite_self _).symm.trans hdiscard |>.symm.trans (hflag hasync)
    | appended _ _ happend _ _ =>
      have happended := appendUntilStop_cases happend
      obtain ⟨hashes, reason, hfields⟩ := happended.fields
      rw [modify_objects_self, happended.all rfl, settleTokens, hfields]
      split
      · exact ⟨rfl, rfl⟩
      · exact ⟨rfl, (Int.sub_zero _).symm⟩
    | silent hnil _ => exact absurd hnil hsampled
  | stops _ _ htake hstop hu' =>
    have heffect := (hstop.effect (htake.effect.finished rfl)).2
    rw [hu'] at hrunning
    split at hrunning <;> exact absurd hrunning (heffect.status_ne rfl nofun nofun)

/-- The tokens of a request are seen once, at its entry. -/
theorem updateLoop_settles {es : List (ReqId × Int)} (hnodup : (es.map Prod.fst).Nodup)
    (hmem : r ∈ es.map Prod.fst) (h : updateLoop cfg env out mo failed es u = .ok u') :
    Settles cfg (out.drafts r) (mo.sampledTokenIds r) (u.sched.objects r) (u'.sched.objects r) := by
  induction es generalizing u with
  | nil => exact absurd hmem not_mem_nil
  | cons e es ih =>
    obtain ⟨u₁, hone, h⟩ := of_bind h
    have hone := updateOne_cases hone
    obtain ⟨hnot, hnodup⟩ := nodup_cons.mp hnodup
    by_cases he : r = e.1
    · subst he
      rw [updateLoop_others hnot h] at hrunning ⊢
      exact hone.settles hfailed hlive hsampled hflag hrunning
    · obtain ⟨hobj, hreq⟩ := hone.others he
      have hlive := (QueuedIn.isLive_iff _ _).mp hlive
      rw [← hobj] at hflag hlive ⊢
      exact ih ((QueuedIn.isLive_iff _ _).mpr ⟨hreq hlive.1, hlive.2⟩) hflag hnodup
        ((mem_cons.mp hmem).resolve_left he) h

end

theorem failRequests_object (h : s.failRequests cfg env failed = .ok s') (hr : r ∉ failed) :
    s'.objects r = s.objects r := by
  unfold failRequests at h
  split at h
  · obtain ⟨dropped, heffect⟩ := finishAll_effect rfl ((nodup_dedup failed).filter _) h
    rw [heffect.others r fun hmem => hr (mem_dedup.mp (mem_of_mem_filter hmem))]
    split <;> rfl
  · cases h
    rfl

theorem receiveSignals_objects (h : s.receiveSignals mo = .ok s') : s'.objects = s.objects := by
  have hfree : ∀ {s s' : Scheduler} {q : ReqId}, s.freeBlocks q = .ok s' →
      s'.objects = s.objects := by
    intro s s' q h
    obtain ⟨-, kv, rfl⟩ := freeBlocks_cases h
    rfl
  have hloop : ∀ {act : Scheduler → ReqId → Except PyError Scheduler} {rs : List ReqId}
      {s s' : Scheduler}, (∀ {s s' q}, act s q = .ok s' → s'.objects = s.objects) →
      forReported act rs s = .ok s' → s'.objects = s.objects := by
    intro act rs s s' hact h
    induction rs generalizing s with
    | nil =>
      cases h
      rfl
    | cons q rs ih =>
      obtain ⟨-, -, h⟩ := of_bind h
      obtain ⟨s₁, hone, h⟩ := of_bind h
      rw [ih h, hact hone]
  unfold receiveSignals at h
  split at h
  · cases h
    rfl
  obtain ⟨s₁, hrecv, hsend⟩ := of_bind h
  rw [hloop hfree hsend]
  refine hloop (fun {s s' q} h => ?_) hrecv
  unfold receiveKv at h
  split at h
  · cases h
    rfl
  · exact hfree h

/-- The KV loads of the request do not fail in the step. -/
def Scheduler.Loaded (cfg : SchedulerConfig) (out : SchedulerOutput) (mo : ModelRunnerOutput)
    (s : Scheduler) (r : ReqId) : Prop :=
  ∀ s' failed, s.checkLoads cfg out mo = .ok (s', failed) → r ∉ failed

theorem updateFromOutput_settles (hmem : r ∈ out.numScheduledTokens.keys)
    (hlive : s.isLive r = true) (hrunning : (s.objects r).status = .running)
    (hloaded : s.Loaded cfg out mo r) (hsampled : mo.sampledTokenIds r ≠ [])
    (hflag : cfg.asyncScheduling = true → (s.objects r).discardLatestAsyncTokens = false)
    (h : s.updateFromOutput cfg env out mo = .ok s')
    (hstays : (s'.objects r).status = .running) :
    Settles cfg (out.drafts r) (mo.sampledTokenIds r) (s.objects r) (s'.objects r) := by
  obtain ⟨⟨s₁, failed⟩, hloads, h⟩ := of_bind h
  obtain ⟨u, hloop, h⟩ := of_bind h
  obtain ⟨s₂, hfail, h⟩ := of_bind h
  have hr := hloaded s₁ failed hloads
  obtain ⟨heffect, hspared⟩ := checkLoads_effect hloads
  have hobj := hspared r hr hrunning
  have hlive₁ : s₁.isLive r = true := by
    rw [isLive, hobj, heffect.same.requests]
    exact hlive
  have hlast : s'.objects r = u.sched.objects r := by
    rw [receiveSignals_objects h, failRequests_object hfail hr, (settle_frame u).1]
  rw [hlast] at hstays ⊢
  rw [← hobj] at hflag ⊢
  exact updateLoop_settles hr hlive₁ hsampled hflag hstays out.numScheduledTokens.nodup hmem hloop

/-! ## The whole step -/

/-- The rows of the request, if any, have a step for each of its drafts and select them all. -/
def EchoKeeps (drafter : Option DrafterOutput) (mask : Nat → Nat → Bool) (out : SchedulerOutput)
    (r : ReqId) : Prop :=
  ∀ d ∈ drafter, ∀ i, ((scheduledRows d out).map Prod.fst)[i]? = some r →
    (out.drafts r).length ≤ d.totalSteps ∧ ∀ t < (out.drafts r).length, mask i t = true

theorem echoKeeps_iff {drafter : Option DrafterOutput} {mask : Nat → Nat → Bool} :
    EchoKeeps drafter mask out r ↔
      ((echoPruneDrafts drafter mask out).drafts r).length = (out.drafts r).length := by
  cases drafter with
  | none => exact iff_of_true nofun rfl
  | some d =>
    rw [echoPruneDrafts_drafts, prunedBy_length_eq_iff]
    simp only [EchoKeeps, Option.mem_some_iff, forall_eq', Nat.zero_add]

/-- The step counts the accepted drafts right, and in async mode the placeholders, exactly if
pruning takes nothing from the request. -/
theorem echoStep_accounted_iff (drafter : Option DrafterOutput) (mask : Nat → Nat → Bool) {a : Nat}
    (hsched : out.numScheduledTokens.get? r = some (1 + ((out.drafts r).length : Int)))
    (hlive : s.isLive r = true) (hrunning : (s.objects r).status = .running)
    (hcomputed : 0 ≤ (s.objects r).numComputedTokens)
    (hplaceholders : 0 ≤ (s.objects r).numOutputPlaceholders)
    (hdecode : ((s.objects r).numTokens : Int) + (s.objects r).numOutputPlaceholders ≤
      (s.objects r).numComputedTokens + (1 + (out.drafts r).length))
    (hflag : cfg.asyncScheduling = true → (s.objects r).discardLatestAsyncTokens = false)
    (hloaded : (s.updateAfterSchedule cfg out).Loaded cfg (echoPruneDrafts drafter mask out) mo r)
    (hsampled : (mo.sampledTokenIds r).length = 1 + a)
    (ha : a ≤ ((echoPruneDrafts drafter mask out).drafts r).length)
    (hstep : s.echoStep cfg env drafter mask out mo = .ok s')
    (hstays : (s'.objects r).status = .running) :
    ((s'.objects r).numComputedTokens = (s.objects r).numComputedTokens + (1 + a) ∧
      (cfg.asyncScheduling = true →
        (s'.objects r).numOutputPlaceholders = (s.objects r).numOutputPlaceholders)) ↔
      EchoKeeps drafter mask out r := by
  rw [echoKeeps_iff]
  have hmem : r ∈ (echoPruneDrafts drafter mask out).numScheduledTokens.keys := by
    by_contra hnot
    rw [← Dict.get?_eq_none_iff] at hnot
    cases drafter with
    | none => exact nomatch hsched.symm.trans hnot
    | some d =>
      rw [echoPruneDrafts_num] at hnot
      split at hnot
      · cases hnot
      · exact nomatch hsched.symm.trans hnot
  have hobj := @updateAfterSchedule_object s cfg r out _ hsched
  have hchunk : (advance (s.objects r) (1 + ((out.drafts r).length : Int))).isPrefillChunk =
      false :=
    decide_eq_false (by omega)
  rw [expectTokens, hchunk] at hobj
  obtain ⟨hsame, -, hstatus⟩ := @updateAfterSchedule_unmoved cfg out s
  have hlive₁ : (s.updateAfterSchedule cfg out).isLive r = true := by
    rw [isLive, hsame.requests, Request.isFinished, hstatus]
    exact hlive
  have hflag₁ : cfg.asyncScheduling = true →
      ((s.updateAfterSchedule cfg out).objects r).discardLatestAsyncTokens = false := by
    intro hasync
    rw [hobj, if_pos hasync]
    exact hflag hasync
  have hne : mo.sampledTokenIds r ≠ [] :=
    ne_nil_of_length_eq_add_one (hsampled.trans (Nat.add_comm ..))
  have hcomputed₁ : ((s.updateAfterSchedule cfg out).objects r).numComputedTokens =
      (s.objects r).numComputedTokens + (1 + (out.drafts r).length) := by
    rw [hobj]
    split <;> rfl
  have hplaceholders₁ : cfg.asyncScheduling = true →
      ((s.updateAfterSchedule cfg out).objects r).numOutputPlaceholders =
        (s.objects r).numOutputPlaceholders + (1 + (out.drafts r).length) := by
    intro hasync
    rw [hobj, if_pos hasync]
    rfl
  obtain ⟨hcomputed₂, hplaceholders₂⟩ := (updateFromOutput_settles hmem hlive₁
    ((hstatus r).trans hrunning) hloaded hne hflag₁ hstep hstays).counters hsampled ha (by omega)
  -- the drafts that the worker took away are advanced over and never rolled back
  constructor
  · rintro ⟨hgrown, -⟩
    omega
  · intro hkept
    refine ⟨by omega, fun hasync => ?_⟩
    have hscheduled := hplaceholders₁ hasync
    have hreturned := hplaceholders₂ (by omega) hasync
    omega

def Scheduler.decoding (s : Scheduler) : Scheduler :=
  { s with
    requests := [0]
    running := [0]
    objects := fun _ =>
      { noObjects 0 with
        samplingParams := some (smallParams 5)
        maxTokens := 5
        status := .running
        allTokenIds := [5, 7]
        outputTokenIds := [7]
        numComputedTokens := 1 } }

/-- Both drafts are kept and one of them is accepted. -/
theorem echoStep_accounted_kept : ∃ s s' : Scheduler,
    s.decoding.echoStep (smallScheduler .fcfs false 8 2) quietEnv (some ⟨[0], 2, fun _ _ => -1⟩)
      (fun _ _ => true) (oneRequest 3 [8, 9]) (sampledOutput fun _ => [8, 10]) = .ok s' ∧
    (s'.objects 0).numComputedTokens = (s.decoding.objects 0).numComputedTokens + (1 + 1) := by
  obtain ⟨e, -⟩ := Option.isSome_iff_exists.mp
    (show (EngineState.small 8 8 (by decide)).isSome = true by decide +kernel)
  have hstep : e.sched.decoding.echoStep (smallScheduler .fcfs false 8 2) quietEnv
      (some ⟨[0], 2, fun _ _ => -1⟩) (fun _ _ => true) (oneRequest 3 [8, 9])
      (sampledOutput fun _ => [8, 10]) = .ok _ := rfl
  have hloaded : (e.sched.decoding.updateAfterSchedule (smallScheduler .fcfs false 8 2)
      (oneRequest 3 [8, 9])).Loaded (smallScheduler .fcfs false 8 2) (echoPruneDrafts
        (some ⟨[0], 2, fun _ _ => -1⟩) (fun _ _ => true) (oneRequest 3 [8, 9]))
      (sampledOutput fun _ => [8, 10]) 0 := by
    intro s' failed h
    cases h
    exact not_mem_nil
  have haccounted := echoStep_accounted_iff _ _ rfl rfl rfl ?_ ?_ ?_ ?_ hloaded rfl
    (by decide) hstep rfl
  · exact ⟨e.sched, _, hstep, (haccounted.mpr (echoKeeps_iff.mpr rfl)).1⟩
  · show (0 : Int) ≤ 1
    decide
  · exact Int.le_refl 0
  · show (2 : Int) + 0 ≤ 1 + (1 + 2)
    decide
  · exact nofun

/-- Both drafts are pruned, and three tokens count as computed of which only one was run. -/
theorem echoStep_overcounts : ∃ s s' : Scheduler,
    EchoMask 1 ⟨[0], 2, fun _ _ => -1⟩ (oneRequest 3 [8, 9]) (fun _ _ => false) ∧
    s.decoding.echoStep (smallScheduler .fcfs false 8 2) quietEnv (some ⟨[0], 2, fun _ _ => -1⟩)
      (fun _ _ => false) (oneRequest 3 [8, 9]) (sampledOutput fun _ => [10]) = .ok s' ∧
    (s'.objects 0).status = .running ∧
    (s.decoding.objects 0).numComputedTokens = 1 ∧ (s'.objects 0).numComputedTokens = 4 := by
  obtain ⟨e, -⟩ := Option.isSome_iff_exists.mp
    (show (EngineState.small 8 8 (by decide)).isSome = true by decide +kernel)
  exact ⟨e.sched, _, ⟨by decide, nofun⟩, rfl, rfl, rfl, rfl⟩

end VllmEcho
