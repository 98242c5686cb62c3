import VllmEcho.Sched.Queues

/-!
# Scheduling keeps the queues

Each round of the two loops of `schedule` moves requests between `running`, the waiting queues and
the requests skipped in the step, and labels them accordingly.
-/

namespace VllmEcho

open Lib Scheduler List RequestQueue QueuedIn FoundTokens

variable {i : Nat} {request : ReqId} {which : WaitingQueue} {q : List ReqId} {s s₁ : Scheduler}

variable {cfg : SchedulerConfig} {env : CallEnv} {st st' : StepState} {r : ReqId}
  {lost kept : List ReqId}

structure SameQueues (s s' : Scheduler) : Prop where
  waiting : s'.waiting = s.waiting
  skippedWaiting : s'.skippedWaiting = s.skippedWaiting
  requests : s'.requests = s.requests
  count : s'.numWaitingForStreamingInput = s.numWaitingForStreamingInput

theorem SameQueues.trans {s₁ s₂ s₃ : Scheduler} (h : SameQueues s₁ s₂) (h' : SameQueues s₂ s₃) :
    SameQueues s₁ s₃ :=
  ⟨h'.waiting.trans h.waiting, h'.skippedWaiting.trans h.skippedWaiting,
    h'.requests.trans h.requests, h'.count.trans h.count⟩

structure Unmoved (s s' : Scheduler) : Prop where
  same : SameQueues s s'
  running : s'.running = s.running
  status : ∀ q, (s'.objects q).status = (s.objects q).status

theorem Unmoved.trans {s₁ s₂ s₃ : Scheduler} (h : Unmoved s₁ s₂) (h' : Unmoved s₂ s₃) :
    Unmoved s₁ s₃ :=
  ⟨h.same.trans h'.same, h'.running.trans h.running, fun q => (h'.status q).trans (h.status q)⟩

theorem Unmoved.queued (h : Unmoved s s₁) (hq : s.Queued lost kept) : s₁.Queued lost kept := by
  unfold Scheduler.Queued
  rw [h.running, h.same.waiting, h.same.skippedWaiting]
  exact QueuedIn.congr hq h.same.requests h.same.count h.status

theorem Unmoved.modify {f : Request → Request} (hf : ∀ q, (f q).status = q.status) (s : Scheduler)
    (r : ReqId) : Unmoved s (s.modify r f) := by
  refine ⟨⟨rfl, rfl, rfl, rfl⟩, rfl, fun q => ?_⟩
  by_cases hq : q = r
  · rw [hq, modify_objects_self, hf]
  · rw [modify_objects_ne f hq]

theorem Unmoved.foldl {β : Type} {g : Scheduler → β → Scheduler} (hg : ∀ s e, Unmoved s (g s e))
    (es : List β) (s : Scheduler) : Unmoved s (es.foldl g s) := by
  induction es generalizing s with
  | nil => exact ⟨⟨rfl, rfl, rfl, rfl⟩, rfl, fun _ => rfl⟩
  | cons e es ih => exact (hg s e).trans (ih _)

namespace StepState

def others (st : StepState) : List ReqId :=
  st.sched.waiting ++ st.sched.skippedWaiting ++ st.stepSkippedWaiting

def Queued (st : StepState) (lost kept : List ReqId) : Prop :=
  st.sched.QueuedIn kept (st.sched.running ++ lost) st.others

theorem Queued.congr (h : st.Queued lost kept) (hrun : st'.sched.running = st.sched.running)
    (hothers : st'.others = st.others) (hreq : st'.sched.requests = st.sched.requests)
    (hcount : st'.sched.numWaitingForStreamingInput = st.sched.numWaitingForStreamingInput)
    (hstatus : ∀ q, (st'.sched.objects q).status = (st.sched.objects q).status) :
    st'.Queued lost kept := by
  rw [StepState.Queued, hrun, hothers]
  exact QueuedIn.congr h hreq hcount hstatus

theorem Queued.setKV (h : st.Queued lost kept) (kv : KVCacheManager) :
    (st.setKV kv).Queued lost kept :=
  StepState.Queued.congr h rfl rfl rfl rfl fun _ => rfl

theorem Queued.setEncoderCache (h : st.Queued lost kept) (cache : EncoderCacheManager) :
    (st.setEncoderCache cache).Queued lost kept :=
  StepState.Queued.congr h rfl rfl rfl rfl fun _ => rfl

theorem Queued.modify (h : st.Queued lost kept) {f : Request → Request}
    (hf : ∀ q, (f q).status = q.status)
    (r : ReqId) : (st.modify r f).Queued lost kept :=
  StepState.Queued.congr h rfl rfl rfl rfl (Unmoved.modify hf st.sched r).status

end StepState

open StepState

theorem FoundTokens.record_status (cfg : SchedulerConfig) (f : FoundTokens) (q : Request) :
    (f.record cfg q).status = q.status := by
  unfold record
  split <;> rfl

/-! ## Preemption -/

theorem VictimRemoved.sched {st₁ : StepState} {i' : Nat} (h : VictimRemoved cfg st i r st₁ i') :
    ∃ run, (r :: run).Perm st.sched.running ∧ st₁.sched = { st.sched with running := run } ∧
      st₁.stepSkippedWaiting = st.stepSkippedWaiting := by
  cases h with
  | other hperm _ => exact ⟨_, hperm, rfl, rfl⟩
  | scheduled _ hperm _ hback =>
    obtain ⟨n, budget, rfl⟩ := takeBack_cases hback
    exact ⟨_, hperm, rfl, rfl⟩

theorem preemptOne_queued {i' : Nat} (h : st.Queued lost kept)
    (hpre : preemptOne cfg st i = .ok (r, st', i')) :
    st'.Queued lost kept ∧ st'.stepSkippedWaiting = st.stepSkippedWaiting := by
  obtain ⟨st₁, sched, hremoved, hpreempt, rfl⟩ := preemptOne_cases hpre
  obtain ⟨run, hperm, hsched, hskip⟩ := hremoved.sched
  obtain ⟨kv, rfl⟩ := preemptRequest_cases hpreempt
  -- the victim goes from `running` to the front of `waiting`
  have hperm' : (prependRequest cfg.policy (st₁.sched.modify r preempted).before
      st₁.sched.waiting r ++ st₁.sched.skippedWaiting ++ st₁.stepSkippedWaiting).Perm
        (r :: st.others) := by
    rw [hsched, hskip]
    exact ((prependRequest_perm _ _).append_right _).append_right _
  have hrun : st₁.sched.running = run := by rw [hsched]
  have hobj : (st₁.sched.modify r preempted).objects = (st.sched.modify r preempted).objects := by
    rw [hsched]
    rfl
  rw [← hrun] at hperm
  exact ⟨suspend h hobj (by rw [hsched]; rfl) (by rw [hsched]; rfl) (hperm.append_right lost) hperm'
    rfl nofun nofun, hskip⟩

/-! ## The waiting loop -/

theorem setQueue_others_perm (s : Scheduler) (hperm : (r :: q).Perm (s.queue which)) :
    (r :: ((s.setQueue q which).waiting ++ (s.setQueue q which).skippedWaiting)).Perm
      (s.waiting ++ s.skippedWaiting) := by
  cases which with
  | waiting => exact hperm.append_right s.skippedWaiting
  | skippedWaiting =>
    apply perm_middle.symm.trans
    exact hperm.append_left s.waiting

theorem setQueue_frame (s : Scheduler) (q : List ReqId) (which : WaitingQueue) :
    (s.setQueue q which).objects = s.objects ∧ (s.setQueue q which).requests = s.requests ∧
      (s.setQueue q which).running = s.running ∧
      (s.setQueue q which).numWaitingForStreamingInput = s.numWaitingForStreamingInput := by
  cases which <;> exact ⟨rfl, rfl, rfl, rfl⟩

theorem peek_mem_others (hpeek : peekRequest (st.sched.queue which) = .ok r) : r ∈ st.others := by
  have hmem := peekRequest_mem hpeek
  rw [others, mem_append, mem_append]
  cases which with
  | waiting => exact Or.inl (Or.inl hmem)
  | skippedWaiting => exact Or.inl (Or.inr hmem)

theorem skip_queued (h : st.Queued lost kept) (hskip : st.skip cfg which = .ok st') :
    st'.Queued lost kept := by
  obtain ⟨r, q, hpop, rfl⟩ := skip_cases hskip
  have hperm := setQueue_others_perm st.sched (popRequest_spec hpop).2
  obtain ⟨hobj, hreq, hrun, hcount⟩ := setQueue_frame st.sched q which
  have hothers : (st.sched.setQueue q which).QueuedIn kept (st.sched.running ++ lost) st.others :=
    QueuedIn.congr h hreq hcount fun q => by rw [hobj]
  show (st.sched.setQueue q which).QueuedIn kept ((st.sched.setQueue q which).running ++ lost) _
  rw [hrun]
  apply hothers.perm (List.Perm.refl _)
  -- the request moves from its queue to the skipped ones
  show ((st.sched.setQueue q which).waiting ++ (st.sched.setQueue q which).skippedWaiting ++
    prependRequest _ _ st.stepSkippedWaiting r).Perm
      (st.sched.waiting ++ st.sched.skippedWaiting ++ st.stepSkippedWaiting)
  apply ((prependRequest_perm _ _).append_left _).trans
  apply perm_middle.trans
  exact hperm.append_right st.stepSkippedWaiting

theorem RemoteKvUpdate.unmoved (h : RemoteKvUpdate s r s₁) : Unmoved s s₁ := by
  cases h with
  | failed _ _ => exact ⟨⟨rfl, rfl, rfl, rfl⟩, rfl, fun _ => rfl⟩
  | loaded _ _ =>
    have hloaded := Unmoved.modify (f := Scheduler.loaded) (fun _ => rfl) s r
    exact hloaded.trans ⟨⟨rfl, rfl, rfl, rfl⟩, rfl, fun _ => rfl⟩

def promotedStatus (q : Request) : Request :=
  { q with status := if q.numPreemptions ≠ 0 then .preempted else .waiting }

theorem promotedStatus_free (q : Request) :
    (promotedStatus q).isFinished = false ∧ (promotedStatus q).status.isBlockedWaiting = false ∧
      (promotedStatus q).status ≠ .running := by
  unfold promotedStatus Request.isFinished
  dsimp only
  split <;> decide

theorem Unmoved.promoted (hun : Unmoved st.sched s₁) (h : st.Queued lost kept) (hr : r ∈ st.others)
    (hstatus : (st.sched.objects r).status = .waitingForRemoteKvs) :
    ({ st with sched := s₁.modify r promotedStatus } : StepState).Queued lost kept := by
  have hothers : ({ st with sched := s₁ } : StepState).others = st.others := by
    rw [others, others, hun.same.waiting, hun.same.skippedWaiting]
  have hqueued : ({ st with sched := s₁ } : StepState).Queued lost kept :=
    StepState.Queued.congr h hun.running hothers hun.same.requests hun.same.count hun.status
  obtain ⟨hfin, hblocked, hrunning⟩ := promotedStatus_free (s₁.objects r)
  refine relabel hqueued rfl rfl rfl (hothers ▸ hr) (List.Perm.refl _) ?_ hfin ?_ hrunning
  · rw [hun.status, hstatus]
    decide
  · intro heq
    rw [heq] at hblocked
    cases hblocked

theorem PromoteEffect.ready_status (hpromote : PromoteEffect env s r s₁ true) :
    (s₁.objects r).status.isBlockedWaiting = false := by
  cases hpromote with
  | grammar _ _ =>
    rw [modify_objects_self]
    rfl
  | remoteKvs _ _ _ =>
    rw [modify_objects_self]
    exact (promotedStatus_free _).2.1

theorem PromoteEffect.queued {ready : Bool} (h : st.Queued lost kept) (hr : r ∈ st.others)
    (hpromote : PromoteEffect env st.sched r s₁ ready) :
    ({ st with sched := s₁ } : StepState).Queued lost kept := by
  cases hpromote with
  | notYet => exact h
  | grammar hstatus _ =>
    exact relabel h rfl rfl rfl hr
      (List.Perm.refl _) (by rw [hstatus]; decide) rfl (by simp) (by simp)
  | remoteKvs hstatus _ hupdate => exact hupdate.unmoved.promoted h hr hstatus

variable {f : FoundTokens} {p : EncoderPlan}

theorem awaitRemoteKvs_queued (h : st.Queued lost kept) (hq : (r :: q).Perm (st.sched.queue which))
    (hstatus : (st.sched.objects r).status.isBlockedWaiting = false) :
    (({ st with sched := st.sched.setQueue q which } : StepState).awaitRemoteKvs cfg r f).Queued
      lost kept := by
  have hperm := setQueue_others_perm st.sched hq
  obtain ⟨hobj, hreq, hrun, hcount⟩ := setQueue_frame st.sched q which
  have hmem : r ∈ st.others := by
    rw [others, mem_append]
    exact Or.inl (hperm.mem_iff.mp mem_cons_self)
  have hothers : ((st.sched.setQueue q which).waiting ++
      (st.sched.setQueue q which).skippedWaiting ++ prependRequest cfg.policy
        ((st.sched.setQueue q which).modify r fun q =>
          { q with
            status := .waitingForRemoteKvs, numComputedTokens := f.numComputedTokens }).before
        st.stepSkippedWaiting r).Perm st.others := by
    apply ((prependRequest_perm _ _).append_left _).trans
    apply perm_middle.trans
    exact hperm.append_right st.stepSkippedWaiting
  have hwait : (st.sched.objects r).status ≠ .waitingForStreamingReq := by
    intro heq
    rw [heq] at hstatus
    cases hstatus
  have hqueued : st.sched.QueuedIn kept ((st.sched.setQueue q which).running ++ lost)
      st.others := by
    rw [hrun]
    exact h
  have hobj' : ((st.sched.setQueue q which).modify r fun q => { q with
      status := .waitingForRemoteKvs, numComputedTokens := f.numComputedTokens }).objects =
        (st.sched.modify r fun q => { q with
          status := .waitingForRemoteKvs, numComputedTokens := f.numComputedTokens }).objects := by
    unfold Scheduler.modify
    rw [hobj]
  exact relabel hqueued hobj' hreq hcount hmem hothers hwait rfl nofun
    nofun

theorem admitRequest_queued (h : st.Queued lost kept) (hq : (r :: q).Perm (st.sched.queue which))
    (hadmitted : ({ st with sched := st.sched.setQueue q which } : StepState).admitRequest
      cfg r f p = .ok st') : st'.Queued lost kept := by
  have hperm := setQueue_others_perm st.sched hq
  obtain ⟨hobj, hreq, hrun, hcount⟩ := setQueue_frame st.sched q which
  obtain ⟨cache₂, loras, newReqs, resumedReqs, inputs, budget, hkind, rfl⟩ :=
    admitRequest_cases hadmitted
  have hwait : (st.sched.objects r).status ≠ .waitingForStreamingReq := by
    have hreqObj : (st.sched.setQueue q which).objects r = st.sched.objects r := by rw [hobj]
    rw [← hreqObj]
    rcases hkind with ⟨hst, -, -⟩ | ⟨hst, -, -⟩
    · exact fun heq => nomatch hst.symm.trans heq
    · exact fun heq => nomatch hst.symm.trans heq
  have hobj' : ((st.sched.setQueue q which).modify r (startRunning f)).objects =
      (st.sched.modify r (startRunning f)).objects := by
    unfold Scheduler.modify
    rw [hobj]
  have hrunning : ((st.sched.setQueue q which).running ++ [r] ++ lost).Perm
      (r :: (st.sched.running ++ lost)) := by
    rw [hrun]
    exact (perm_append_singleton r _).append_right lost
  exact resume h hobj' hreq hcount hrunning (hperm.append_right st.stepSkippedWaiting)
    hwait rfl

/-! ## Either variant -/

/-- What is asked of the parts in which the two `schedule` methods differ.  `P` says which requests
can be dropped. -/
structure ScheduleVariant.KeepsQueues (v : ScheduleVariant) (P : List ReqId → Prop) : Prop where
  none : P []
  waiting : v.KeepsWaiting
  makeRoom : ∀ {st st' i i' r lost kept}, st.Queued (lost ++ st.recomputedReqs) kept →
    P st.recomputedReqs → v.makeRoom st i = .ok (r, st', i') →
    st'.Queued (lost ++ st'.recomputedReqs) kept ∧ P st'.recomputedReqs ∧
      st'.stepSkippedWaiting = st.stepSkippedWaiting
  promote : ∀ {st : StepState} {r s₁ ready lost kept}, st.Queued lost kept → r ∈ st.others →
    v.promote st.sched r = .ok (s₁, ready) → ({ st with sched := s₁ } : StepState).Queued lost kept
  ready : ∀ {s r s₁}, v.promote s r = .ok (s₁, true) →
    (s₁.objects r).status.isBlockedWaiting = false
  takeDrafts : ∀ st r n, v.takeDrafts st r n = st ∨ ∃ drafts, v.takeDrafts st r n =
    { st.modify r fun q => { q with specTokenIds := [] } with scheduledSpecDecodeTokens := drafts }

section

variable {v : ScheduleVariant} {P : List ReqId → Prop} (hv : v.KeepsQueues P)

include hv

theorem RunningRound.queued {next : Option Nat} (h : st.Queued (lost ++ st.recomputedReqs) kept)
    (hP : P st.recomputedReqs) (hskip : st.stepSkippedWaiting = [])
    (hround : RunningRound v cfg env st i request st' next) :
    st'.Queued (lost ++ st'.recomputedReqs) kept ∧ P st'.recomputedReqs ∧
      st'.stepSkippedWaiting = [] := by
  refine hround.keeps (Q := fun st => st.Queued (lost ++ st.recomputedReqs) kept ∧
    P st.recomputedReqs ∧ st.stepSkippedWaiting = []) (fun kv hQ => ⟨hQ.1.setKV kv, hQ.2⟩)
    (fun cache hQ => ⟨hQ.1.setEncoderCache cache, hQ.2⟩) (fun hQ hmade => ?_)
    (fun hQ hrecord => ?_) ⟨h, hP, hskip⟩
  · obtain ⟨hqueued, hP', hsame⟩ := hv.makeRoom hQ.1 hQ.2.1 hmade
    exact ⟨hqueued, hP', hsame.trans hQ.2.2⟩
  · obtain ⟨cache, inputs, budget, rfl⟩ := scheduleRunning_cases hrecord
    have hmodify := hQ.1.modify (f := fun r => { r with specTokenIds := [] }) (fun _ => rfl) request
    exact ⟨hmodify.congr rfl rfl rfl rfl fun _ => rfl, hQ.2⟩

theorem HeadPlanned.queued {plan : Option EncoderPlan} {cache : EncoderCacheManager}
    (h : st.Queued lost kept) (hhead : HeadPlanned v cfg env st which request s₁ f plan cache) :
    (st.atHead cfg request s₁ f cache).Queued lost kept := by
  have hst₁ := hv.promote h (peek_mem_others hhead.peek) hhead.promoted
  exact (hst₁.modify (record_status cfg f) request).setEncoderCache cache

/-- A round of the waiting loop drops nobody. -/
theorem WaitingRound.queued {goOn : Bool} (h : st.Queued lost kept)
    (hround : WaitingRound v cfg env st which st' goOn) :
    st'.Queued lost kept ∧ st'.recomputedReqs = st.recomputedReqs := by
  cases hround with
  | skipped hpeek hpromoted hskip =>
    refine ⟨skip_queued (hv.promote h (peek_mem_others hpeek) hpromoted) hskip, ?_⟩
    obtain ⟨_, _, -, rfl⟩ := skip_cases hskip
    rfl
  | stopped hhead => exact ⟨hhead.queued hv h, rfl⟩
  | @refused _ _ _ _ _ kv hhead =>
    have hst₂ := (hhead.queued hv h).setKV kv
    unfold refuse
    split
    · exact ⟨hst₂.setEncoderCache _, rfl⟩
    · exact ⟨hst₂, rfl⟩
  | @allocated request s₁ f p _ kv _ q st₂ _ hhead _ hst₂ hpop hkind =>
    have hqueued₂ : st₂.Queued lost kept := hst₂ ▸ (hhead.queued hv h).setKV kv
    have hnone : st₂.recomputedReqs = st.recomputedReqs := hst₂ ▸ rfl
    rcases hkind with ⟨-, rfl⟩ | ⟨-, hadmitted⟩
    · refine ⟨awaitRemoteKvs_queued hqueued₂ (popRequest_spec hpop).2 ?_, hnone⟩
      rw [hst₂]
      show ((s₁.modify request (f.record cfg)).objects request).status.isBlockedWaiting = false
      rw [modify_objects_self, record_status]
      exact hv.ready hhead.promoted
    · obtain ⟨_, _, _, _, _, _, -, hst₃⟩ := admitRequest_cases hadmitted
      rcases hv.takeDrafts { st₂ with sched := st₂.sched.setQueue q which } request p.numNewTokens
        with htake | ⟨drafts, htake⟩
      · rw [htake] at hadmitted hst₃
        exact ⟨admitRequest_queued hqueued₂ (popRequest_spec hpop).2 hadmitted, hst₃ ▸ hnone⟩
      · -- the drafts can be taken before the request leaves its queue
        let st₄ : StepState :=
          { st₂.modify request fun q => { q with specTokenIds := [] } with
            scheduledSpecDecodeTokens := drafts }
        have hmodify := hqueued₂.modify (f := fun q => { q with specTokenIds := [] }) (fun _ => rfl)
          request
        have hqueued₄ : st₄.Queued lost kept := hmodify.congr rfl rfl rfl rfl fun _ => rfl
        have hq : (request :: q).Perm (st₄.sched.queue which) := by
          cases which <;> exact (popRequest_spec hpop).2
        have hadmitted₄ :
            admitRequest cfg { st₄ with sched := st₄.sched.setQueue q which } request f p =
              .ok st' := by
          rw [htake] at hadmitted
          cases which <;> exact hadmitted
        rw [htake] at hst₃
        exact ⟨admitRequest_queued hqueued₄ hq hadmitted₄, hst₃ ▸ hnone⟩

end

/-! ## The whole step -/

variable {out : SchedulerOutput}

theorem finish_sched (h : st.finish cfg = .ok (s, out)) : ∃ cache prev, s =
      { st.sched with prevStepScheduledReqIds := prev, encoderCacheManager := cache } := by
  obtain ⟨-, -, h⟩ := of_bind h
  obtain ⟨-, -, h⟩ := of_bind h
  cases h
  exact ⟨_, _, rfl⟩

theorem finish_scheduled (h : st.finish cfg = .ok (s, out)) :
    out.numScheduledTokens = st.numScheduledTokens ∧
      out.scheduledSpecDecodeTokens = st.scheduledSpecDecodeTokens := by
  obtain ⟨-, -, h⟩ := of_bind h
  obtain ⟨-, -, h⟩ := of_bind h
  cases h
  exact ⟨rfl, rfl⟩

theorem advanceAll_eq_foldl (es : List (ReqId × Int)) (s : Scheduler) :
    advanceAll es s = es.foldl (fun s e => { s.modify e.1 (advance · e.2) with
      encoderCacheManager := s.encoderCacheManager.freeComputedInputs
        ((s.modify e.1 (advance · e.2)).objects e.1) }) s := by
  induction es generalizing s with
  | nil => rfl
  | cons e es ih => exact ih _

theorem updateAfterSchedule_unmoved (out : SchedulerOutput) (s : Scheduler) :
    Unmoved s (s.updateAfterSchedule cfg out) := by
  have hadvance : Unmoved s { advanceAll out.numScheduledTokens.entries s with
      finishedReqIds := [] } := by
    rw [advanceAll_eq_foldl]
    refine (Unmoved.foldl (fun s e => ?_) _ s).trans ⟨⟨rfl, rfl, rfl, rfl⟩, rfl, fun _ => rfl⟩
    have hmodify := Unmoved.modify (f := (advance · e.2)) (fun _ => rfl) s e.1
    exact hmodify.trans ⟨⟨rfl, rfl, rfl, rfl⟩, rfl, fun _ => rfl⟩
  unfold Scheduler.updateAfterSchedule
  split
  · refine hadvance.trans (Unmoved.foldl (fun s r => Unmoved.modify (fun q => ?_) s r) _ _)
    unfold expectTokens
    split <;> rfl
  · exact hadvance

section

variable {β : Type} {k : β → ReqId} {f : β → Request → Request} {g : Scheduler → β → Scheduler}
  (hg : ∀ s e, (g s e).objects = (s.modify (k e) (f e)).objects) {es : List β}

include hg

theorem foldl_objects_ne (hne : ∀ e ∈ es, r ≠ k e) : (es.foldl g s).objects r = s.objects r := by
  induction es generalizing s with
  | nil => rfl
  | cons e es ih =>
    rw [foldl_cons, ih fun e' he' => hne e' (mem_cons_of_mem _ he'), hg]
    exact modify_objects_ne _ (hne e mem_cons_self)

theorem foldl_objects_mem (hnodup : (es.map k).Nodup) {e : β} (he : e ∈ es) :
    (es.foldl g s).objects (k e) = f e (s.objects (k e)) := by
  induction es generalizing s with
  | nil => exact absurd he not_mem_nil
  | cons e' es ih =>
    obtain ⟨hnot, hnodup⟩ := nodup_cons.mp hnodup
    have hne : ∀ e ∈ es, k e' ≠ k e := fun e he heq => hnot (heq ▸ mem_map_of_mem he)
    rw [foldl_cons]
    rcases mem_cons.mp he with rfl | he
    · rw [foldl_objects_ne hg hne, hg]
      exact modify_objects_self _
    · rw [ih hnodup he, hg, modify_objects_ne _ (hne e he).symm]

end

theorem updateAfterSchedule_object {n : Int} (hn : out.numScheduledTokens.get? r = some n) :
    (s.updateAfterSchedule cfg out).objects r =
      if cfg.asyncScheduling then expectTokens cfg (out.drafts r).length (advance (s.objects r) n)
      else advance (s.objects r) n := by
  have hmem := Dict.lookup_mem hn
  have hadvance : (advanceAll out.numScheduledTokens.entries s).objects r =
      advance (s.objects r) n := by
    rw [advanceAll_eq_foldl]
    refine foldl_objects_mem (f := fun e => (advance · e.2)) ?_
      out.numScheduledTokens.nodup hmem
    exact fun _ _ => rfl
  unfold updateAfterSchedule
  split
  · rw [← hadvance]
    exact foldl_objects_mem (k := id)
      (fun _ _ => rfl) (by rw [map_id]; exact out.numScheduledTokens.nodup) (mem_map_of_mem hmem)
  · exact hadvance

theorem requeue_queued (h : st.Queued lost kept) : (st.requeue cfg).sched.Queued lost kept := by
  have hperm : (st.sched.waiting ++ prependRequests cfg.policy st.sched.before
      st.sched.skippedWaiting st.stepSkippedWaiting).Perm st.others := by
    rw [others, append_assoc]
    apply List.Perm.append_left
    exact (prependRequests_perm _ _).trans perm_append_comm
  exact QueuedIn.congr (perm h (List.Perm.refl _) hperm) rfl rfl fun _ => rfl

/-- A step of either scheduler loses the dropped requests only. -/
theorem scheduleAs_queued {v : ScheduleVariant} {P : List ReqId → Prop} (hv : v.KeepsQueues P)
    {s' : Scheduler} {dropped : List ReqId} (h : s.Queued lost kept)
    (hsched : s.scheduleAs cfg env v = .ok (s', out, dropped)) :
    s'.Queued (lost ++ dropped) kept ∧ P dropped := by
  have hstart : (start cfg s).Queued (lost ++ []) kept := by
    show Scheduler.QueuedIn _ kept (s.running ++ (lost ++ [])) (s.waiting ++ s.skippedWaiting ++ [])
    rw [append_nil, append_nil]
    exact QueuedIn.congr h rfl rfl fun _ => rfl
  obtain ⟨st, s₁, hst, hfinish, rfl, rfl⟩ := schedule_rule hv.waiting
    (J := fun st => st.Queued (lost ++ st.recomputedReqs) kept ∧ P st.recomputedReqs ∧
      st.stepSkippedWaiting = [])
    (E := fun st => st.Queued lost kept ∧ st.recomputedReqs = [])
    (K := fun st => st.sched.Queued (lost ++ st.recomputedReqs) kept ∧ P st.recomputedReqs)
    ⟨hstart, hv.none, rfl⟩ (fun _ _ hI => hI)
    (fun st i request st' next hI _ hround => by
      have hst' := hround.queued hv hI.1 hI.2.1 hI.2.2
      cases next <;> exact hst')
    (fun st loras hJ => by
      have hothers : st.others = st.sched.waiting ++ st.sched.skippedWaiting := by
        rw [others, hJ.2.2, append_nil]
      refine ⟨?_, hJ.2.1⟩
      show st.sched.QueuedIn kept _ (st.sched.waiting ++ st.sched.skippedWaiting)
      rw [← hothers]
      exact hJ.1)
    (fun st loras hJ _ hnone => by
      have hqueued := hJ.1
      rw [hnone, append_nil] at hqueued
      exact ⟨hqueued, hnone⟩)
    (fun _ hW => hW)
    (fun st which st' goOn hW hround => by
      obtain ⟨hqueued, hsame⟩ := hround.queued hv hW.1
      cases goOn <;> exact ⟨hqueued, hsame.trans hW.2⟩)
    (fun st hE => by
      show (st.requeue cfg).sched.Queued (lost ++ st.recomputedReqs) kept ∧ P st.recomputedReqs
      rw [hE.2, append_nil]
      exact ⟨requeue_queued hE.1, hv.none⟩) hsched
  refine ⟨(updateAfterSchedule_unmoved _ _).queued ?_, hst.2⟩
  obtain ⟨cache, prev, rfl⟩ := finish_sched hfinish
  exact QueuedIn.congr hst.1 rfl rfl fun _ => rfl

/-! ## The base class -/

theorem preemptOne_recomputed {i' : Nat} (h : preemptOne cfg st i = .ok (r, st', i')) :
    st'.recomputedReqs = st.recomputedReqs := by
  obtain ⟨st₁, sched, hremoved, -, rfl⟩ := preemptOne_cases h
  cases hremoved with
  | other _ _ => rfl
  | scheduled _ _ _ hback =>
    obtain ⟨n, budget, rfl⟩ := takeBack_cases hback
    rfl

theorem Scheduler.variant_keepsQueues : (Scheduler.variant cfg env).KeepsQueues (· = []) where
  none := rfl
  waiting := variant_keepsWaiting
  makeRoom h hnone hpreempt := by
    obtain ⟨hqueued, hskip⟩ := preemptOne_queued h hpreempt
    rw [preemptOne_recomputed hpreempt]
    exact ⟨hqueued, hnone, hskip⟩
  promote h hr hpromote := by
    obtain ⟨-, rfl⟩ | heffect := promote_cases hpromote
    · exact h
    · exact heffect.queued h hr
  ready hpromote := by
    obtain ⟨hfree, rfl⟩ | heffect := promote_cases hpromote
    · exact hfree
    · exact heffect.ready_status
  takeDrafts _ _ _ := Or.inl rfl

theorem schedule_queued {s' : Scheduler} (h : s.Queued lost kept)
    (hsched : s.schedule cfg env = .ok (s', out)) : s'.Queued lost kept := by
  obtain ⟨⟨s₁, out₁, dropped⟩, hrun, hsched⟩ := of_bind hsched
  cases hsched
  obtain ⟨hqueued, rfl⟩ := scheduleAs_queued variant_keepsQueues h hrun
  rw [append_nil] at hqueued
  exact hqueued

end VllmEcho
