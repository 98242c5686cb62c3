import VllmEcho.Recompute.StepCases

/-!
# The queues of the decode node

A dropped request leaves `running` and enters no other queue, while its status stays what it was, so
that it counts as lost.  Everything else in `schedule` moves requests as the base class does.
-/

namespace VllmEcho

open Lib List RequestQueue Scheduler

variable {i i' : Nat} {r : ReqId} {s s' s₁ : Scheduler} {st st' : StepState} {ready : Bool}
  {lost kept : List ReqId}

namespace RecomputeScheduler

variable {cfg : RecomputeConfig} {env : CallEnv}

theorem MadeRoom.queued (h : st.Queued (lost ++ st.recomputedReqs) kept)
    (hroom : MadeRoom cfg st i r st' i') :
    st'.Queued (lost ++ st'.recomputedReqs) kept ∧
      st'.stepSkippedWaiting = st.stepSkippedWaiting := by
  cases hroom with
  | dropped _ hlast =>
    refine ⟨QueuedIn.congr (QueuedIn.perm h ?_ (List.Perm.refl _)) rfl rfl fun _ => rfl, rfl⟩
    show (st.sched.running.dropLast ++ (lost ++ (st.recomputedReqs ++ [r]))).Perm
      (st.sched.running ++ (lost ++ st.recomputedReqs))
    nth_rewrite 2 [← dropLast_append_getLast? r hlast]
    rw [append_assoc, ← append_assoc lost]
    exact perm_append_comm.append_left _
  | preempted _ hpreempt =>
    rw [preemptOne_recomputed hpreempt]
    exact preemptOne_queued h hpreempt

theorem Promoted.queued (h : st.Queued lost kept) (hr : r ∈ st.others)
    (hpromoted : Promoted cfg env st.sched r s₁ ready) :
    ({ st with sched := s₁ } : StepState).Queued lost kept := by
  cases hpromoted with
  | base hpromote _ => exact Scheduler.variant_keepsQueues.promote h hr hpromote
  | notYet => exact h
  | loaded hstatus hupdate =>
    exact (updateWaitingForRemoteKv_cases hupdate).unmoved.promoted h hr hstatus

theorem Promoted.ready_status (hpromoted : Promoted cfg env s r s₁ true) :
    (s₁.objects r).status.isBlockedWaiting = false := by
  cases hpromoted with
  | base hpromote _ => exact Scheduler.variant_keepsQueues.ready hpromote
  | loaded _ _ =>
    rw [modify_objects_self]
    exact (promotedStatus_free _).2.1

theorem variant_keepsQueues : (variant cfg env).KeepsQueues fun _ => True where
  none := trivial
  waiting := variant_keepsWaiting
  makeRoom h _ hroom := by
    obtain ⟨hqueued, hskip⟩ := (makeRoom_cases hroom).queued h
    exact ⟨hqueued, trivial, hskip⟩
  promote h hr hpromote := (promote_cases hpromote).queued h hr
  ready hpromote := (promote_cases hpromote).ready_status
  takeDrafts st r n := by
    show takeDrafts cfg st r n = st ∨ ∃ drafts, takeDrafts cfg st r n = _
    unfold takeDrafts
    split
    · exact Or.inr ⟨_, rfl⟩
    · exact Or.inl rfl

/-! ## The whole step, and arrivals -/

theorem schedule_queued {out : Output} (h : s.Queued lost kept)
    (hsched : schedule cfg env s = .ok (s', out)) :
    s'.Queued (lost ++ out.recomputedReqs) kept := by
  obtain ⟨⟨s₁, out₁, dropped⟩, hrun, hsched⟩ := of_bind hsched
  cases hsched
  exact (scheduleAs_queued variant_keepsQueues h hrun).1

theorem prepareRequest_status (cfg : RecomputeConfig) (q : Request) :
    (prepareRequest cfg q).status = q.status := by
  unfold prepareRequest popLastToken
  dsimp only
  split <;> split <;> split <;> rfl

theorem addRequest_queued {request : Request} (h : s.Queued lost kept)
    (hnew : request.status = .waiting ∨ request.status = .waitingForStructuredOutputGrammar)
    (hkept : ∀ q ∈ s.requests, s.mustKeep cfg.toSchedulerConfig env q = true → q ∈ kept)
    (hadd : addRequest cfg env s request = .ok s') : s'.Queued lost kept := by
  unfold addRequest at hadd
  split at hadd
  · exact VllmEcho.addRequest_queued h hnew hkept hadd
  · rename_i hmem
    cases hadd
    refine enqueueNew_queued h hmem ?_ rfl
    rw [prepareRequest_status]
    exact hnew

end RecomputeScheduler

end VllmEcho
