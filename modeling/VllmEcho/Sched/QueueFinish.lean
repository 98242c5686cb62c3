import VllmEcho.Sched.QueueUpdate

/-!
# The remaining calls keep the queues

`finish_requests`, the connector's signals, `add_request`, `reset_prefix_cache` and
`update_draft_token_ids`, and the whole of `update_from_output`.
-/

namespace VllmEcho

open List hiding removeAll
open Lib Scheduler

variable {s₁ : Scheduler} {finishedStatus : RequestStatus} {rs valid : List ReqId}
  {request : Request}

variable {cfg : SchedulerConfig} {env : CallEnv} {s s' : Scheduler} {r : ReqId}
  {mo : ModelRunnerOutput} {out : SchedulerOutput} {lost kept : List ReqId}

def Scheduler.mustKeep (cfg : SchedulerConfig) (env : CallEnv) (s : Scheduler) (r : ReqId) : Bool :=
  (cfg.hasConnector && env.requestFinished r) ||
    (decide ((s.objects r).status = .waitingForRemoteKvs) &&
      decide (r ∉ s.finishedRecvingKvReqIds))

/-! ## finish_requests -/

structure FinishEffect (cfg : SchedulerConfig) (env : CallEnv) (s : Scheduler)
    (rs dropped : List ReqId) (s' : Scheduler) : Prop where
  others : ∀ q, q ∉ rs → s'.objects q = s.objects q
  finished : ∀ q ∈ rs, (s'.objects q).isFinished = true
  subset : ∀ q ∈ dropped, q ∈ rs
  requests : s'.requests = s.requests.filter (· ∉ dropped)
  mustKeep : ∀ q ∈ rs, q ∉ dropped → s.mustKeep cfg env q = true
  recving : ∀ q, q ∉ rs → (q ∈ s'.finishedRecvingKvReqIds ↔ q ∈ s.finishedRecvingKvReqIds)
  running : s'.running = s.running
  waiting : s'.waiting = s.waiting
  skippedWaiting : s'.skippedWaiting = s.skippedWaiting
  count : s'.numWaitingForStreamingInput = s.numWaitingForStreamingInput

theorem FinishEffect.nil (s : Scheduler) : FinishEffect cfg env s [] [] s := by
  refine ⟨fun _ _ => rfl, ?_, ?_, by simp, ?_, fun _ _ => Iff.rfl, rfl, rfl, rfl, rfl⟩ <;>
    exact fun q hq => absurd hq not_mem_nil

theorem filter_not_mem_nil (l : List ReqId) : l.filter (· ∉ ([] : List ReqId)) = l := by simp

theorem filter_not_mem_append (l a b : List ReqId) :
    (l.filter (· ∉ a)).filter (· ∉ b) = l.filter (· ∉ a ++ b) := by
  rw [filter_filter]
  apply filter_congr
  intro q _
  by_cases ha : q ∈ a <;> by_cases hb : q ∈ b <;> simp [ha, hb]

theorem FinishEffect.append {rs₁ rs₂ dropped₁ dropped₂ : List ReqId}
    (h₁ : FinishEffect cfg env s rs₁ dropped₁ s₁) (h₂ : FinishEffect cfg env s₁ rs₂ dropped₂ s')
    (hdisj : rs₁.Disjoint rs₂) : FinishEffect cfg env s (rs₁ ++ rs₂) (dropped₁ ++ dropped₂) s' := by
  have hnot : ∀ q, q ∉ rs₁ ++ rs₂ → q ∉ rs₁ ∧ q ∉ rs₂ := fun q hq =>
    ⟨fun hmem => hq (mem_append_left _ hmem), fun hmem => hq (mem_append_right _ hmem)⟩
  refine ⟨fun q hq => ?_, fun q hq => ?_, fun q hq => ?_, ?_, fun q hq hq' => ?_, fun q hq => ?_,
    h₂.running.trans h₁.running, h₂.waiting.trans h₁.waiting,
    h₂.skippedWaiting.trans h₁.skippedWaiting, h₂.count.trans h₁.count⟩
  · exact (h₂.others q (hnot q hq).2).trans (h₁.others q (hnot q hq).1)
  · by_cases hmem : q ∈ rs₂
    · exact h₂.finished q hmem
    · rw [h₂.others q hmem]
      exact h₁.finished q ((mem_append.mp hq).resolve_right hmem)
  · rcases mem_append.mp hq with hmem | hmem
    · exact mem_append_left _ (h₁.subset q hmem)
    · exact mem_append_right _ (h₂.subset q hmem)
  · rw [h₂.requests, h₁.requests, filter_not_mem_append]
  · have hq₁ : q ∉ dropped₁ := fun hmem => hq' (mem_append_left _ hmem)
    have hq₂ : q ∉ dropped₂ := fun hmem => hq' (mem_append_right _ hmem)
    rcases mem_append.mp hq with hmem | hmem
    · exact h₁.mustKeep q hmem hq₁
    · have hkeep := h₂.mustKeep q hmem hq₂
      have hq₁ : q ∉ rs₁ := fun hmem' => hdisj hmem' hmem
      rw [Scheduler.mustKeep, h₁.others q hq₁] at hkeep
      rw [Scheduler.mustKeep, ← hkeep, decide_eq_decide.mpr (not_congr (h₁.recving q hq₁))]
  · exact (h₂.recving q (hnot q hq).2).trans (h₁.recving q (hnot q hq).1)

theorem finishOne_effect (hstatus : finishedStatus.isFinished = true)
    (hs₁ : s₁ = if decide ((s.objects r).status = .waitingForRemoteKvs) then { s with
        finishedRecvingKvReqIds := s.finishedRecvingKvReqIds.filter (· ≠ r)
        failedRecvingKvReqIds := s.failedRecvingKvReqIds.filter (· ≠ r) }
      else s)
    (h : (s₁.modify r fun q => { q with status := finishedStatus }).freeRequest cfg env r
      (decide ((s.objects r).status = .waitingForRemoteKvs) &&
        decide (r ∉ s.finishedRecvingKvReqIds)) = .ok s') :
    ∃ dropped, FinishEffect cfg env s [r] dropped s' := by
  have hrecv : ∀ q, q ∉ [r] →
      (q ∈ s₁.finishedRecvingKvReqIds ↔ q ∈ s.finishedRecvingKvReqIds) := by
    intro q hq
    rw [hs₁]
    split
    · rw [mem_filter, decide_eq_true_iff]
      exact and_iff_left fun heq => hq (mem_singleton.mpr heq)
    · exact Iff.rfl
  have hsame : s₁.objects = s.objects ∧ s₁.requests = s.requests ∧ s₁.running = s.running ∧
      s₁.waiting = s.waiting ∧ s₁.skippedWaiting = s.skippedWaiting ∧
      s₁.numWaitingForStreamingInput = s.numWaitingForStreamingInput := by
    rw [hs₁]
    split <;> exact ⟨rfl, rfl, rfl, rfl, rfl, rfl⟩
  obtain ⟨hobj, hreq, hrun, hwait, hskip, hcount⟩ := hsame
  have hothers : ∀ q, q ∉ [r] → (s₁.modify r fun q =>
      { q with status := finishedStatus }).objects q = s.objects q := by
    intro q hq
    rw [modify_objects_ne _ fun heq => hq (mem_singleton.mpr heq), hobj]
  have hfin : ∀ q ∈ [r], ((s₁.modify r fun q =>
      { q with status := finishedStatus }).objects q).isFinished = true := by
    intro q hq
    rw [mem_singleton.mp hq, modify_objects_self]
    exact hstatus
  obtain ⟨-, hfree⟩ := freeRequest_cases h
  cases hfree with
  | kept hdelay =>
    refine ⟨[], hothers, hfin, fun q hq => absurd hq not_mem_nil, ?_, fun q hq _ => ?_, hrecv,
      hrun, hwait, hskip, hcount⟩
    · rw [filter_not_mem_nil]
      exact hreq
    · rw [mem_singleton.mp hq, Scheduler.mustKeep, Bool.or_eq_true]
      exact hdelay.symm.imp (fun hc => by rw [hc.1, hc.2]; rfl) id
  | freed _ _ =>
    refine ⟨[r], hothers, hfin, fun _ hq => hq, ?_, fun q hq hq' => absurd hq hq', hrecv,
      hrun, hwait, hskip, hcount⟩
    show s₁.requests.filter _ = _
    rw [hreq]
    apply filter_congr
    intro q _
    exact decide_eq_decide.mpr (not_congr mem_singleton).symm

theorem finishAll_effect (hstatus : finishedStatus.isFinished = true) (hnodup : rs.Nodup)
    (h : finishAll cfg env finishedStatus rs s = .ok s') :
    ∃ dropped, FinishEffect cfg env s rs dropped s' := by
  induction rs generalizing s with
  | nil =>
    cases h
    exact ⟨[], FinishEffect.nil _⟩
  | cons r rs ih =>
    obtain ⟨s₁, hone, h⟩ := of_bind h
    obtain ⟨hnot, hnodup'⟩ := nodup_cons.mp hnodup
    obtain ⟨dropped₁, h₁⟩ := finishOne_effect hstatus rfl hone
    obtain ⟨dropped₂, h₂⟩ := ih hnodup' h
    exact ⟨dropped₁ ++ dropped₂, h₁.append h₂ (singleton_disjoint.mpr hnot)⟩

structure Dequeued (cfg : SchedulerConfig) (s : Scheduler) (valid : List ReqId) (s' : Scheduler) :
    Prop where
  objects : s'.objects = s.objects
  requests : s'.requests = s.requests
  recving : s'.finishedRecvingKvReqIds = s.finishedRecvingKvReqIds
  count : s'.numWaitingForStreamingInput = s.numWaitingForStreamingInput -
    (valid.filter fun q => decide ((s.objects q).status = .waitingForStreamingReq)).length
  running : s'.running.Perm (s.running.filter (· ∉ valid))
  others : (s'.waiting ++ s'.skippedWaiting).Perm
    ((s.waiting ++ s.skippedWaiting).filter (· ∉ valid))

theorem filter_not_mem_filter {l : List ReqId} {p : ReqId → Prop} [DecidablePred p]
    (hl : ∀ q ∈ l, p q) : l.filter (· ∉ valid.filter (p ·)) = l.filter (· ∉ valid) := by
  apply filter_congr
  intro q hq
  apply decide_eq_decide.mpr
  rw [mem_filter, decide_eq_true_iff, and_iff_left (hl q hq)]

theorem dequeued (h : s.Queued lost kept) {s₂ : Scheduler} {queued : List ReqId}
    (hqueued : queued = valid.filter fun r => decide ((s.objects r).status ≠ .running))
    (hs₁ : s₁ = { s with
        numWaitingForStreamingInput := s.numWaitingForStreamingInput -
          (queued.filter fun r => decide ((s.objects r).status = .waitingForStreamingReq)).length
        running := removeAll s.running
          (valid.filter fun r => decide ((s.objects r).status = .running)) })
    (hs₂ : s₂ = if queued.isEmpty then s₁
      else
        { s₁ with
          waiting := RequestQueue.removeRequests cfg.policy s₁.before s₁.waiting queued
          skippedWaiting :=
            RequestQueue.removeRequests cfg.policy s₁.before s₁.skippedWaiting queued }) :
    Dequeued cfg s valid s₂ := by
  have hcount : queued.filter (fun r => decide ((s.objects r).status = .waitingForStreamingReq)) =
      valid.filter fun r => decide ((s.objects r).status = .waitingForStreamingReq) := by
    rw [hqueued, filter_filter]
    apply filter_congr
    intro q _
    by_cases hq : (s.objects q).status = .waitingForStreamingReq
    · rw [hq]
      rfl
    · rw [decide_eq_false hq, Bool.false_and]
  have hrun : s₁.running.Perm (s.running.filter (· ∉ valid)) := by
    rw [hs₁, ← filter_not_mem_filter fun q hq => h.running q (mem_append_left _ hq)]
    show (removeAll s.running _).Perm _
    rw [removeAll_eq_filter h.runningNodup]
  have hwaiting : (s.waiting ++ s.skippedWaiting).filter (· ∉ queued) =
      (s.waiting ++ s.skippedWaiting).filter (· ∉ valid) :=
    hqueued ▸ filter_not_mem_filter h.notRunning
  have hs₁' : s₁.objects = s.objects ∧ s₁.requests = s.requests ∧
      s₁.finishedRecvingKvReqIds = s.finishedRecvingKvReqIds ∧ s₁.waiting = s.waiting ∧
      s₁.skippedWaiting = s.skippedWaiting ∧ s₁.numWaitingForStreamingInput =
        s.numWaitingForStreamingInput - (valid.filter fun q =>
          decide ((s.objects q).status = .waitingForStreamingReq)).length := by
    rw [hs₁, ← hcount]
    exact ⟨rfl, rfl, rfl, rfl, rfl, rfl⟩
  obtain ⟨hobj, hreq, hrecv, hwait, hskip, hcount'⟩ := hs₁'
  split at hs₂
  · rename_i hempty
    rw [hs₂]
    refine ⟨hobj, hreq, hrecv, hcount', hrun, ?_⟩
    rw [← hwaiting, isEmpty_iff.mp hempty, hwait, hskip,
      filter_not_mem_nil]
  · rw [hs₂]
    refine ⟨hobj, hreq, hrecv, hcount', hrun, ?_⟩
    rw [← hwaiting, filter_append, ← hwait, ← hskip]
    exact (RequestQueue.removeRequests_perm _ _).append (RequestQueue.removeRequests_perm _ _)

/-- Aborted requests leave their queues. -/
theorem finishRequests_queued {ids : List ReqId} (h : s.Queued lost kept)
    (hkept : ∀ q ∈ s.requests, s.mustKeep cfg env q = true → q ∈ kept)
    (hfinish : s.finishRequests cfg env ids finishedStatus = .ok s') :
    s'.Queued (lost.filter (· ∉ ids)) kept := by
  obtain ⟨_, hassert, hfinish⟩ := of_bind hfinish
  have hnodup : (ids.dedup.filter s.isLive).Nodup := (nodup_dedup ids).filter _
  have hlive : ∀ q ∈ ids.dedup.filter s.isLive, s.isLive q = true :=
    fun q hq => (mem_filter.mp hq).2
  obtain ⟨dropped, heffect⟩ := finishAll_effect (assertThat_eq_ok.mp hassert) hnodup hfinish
  have hdeq : Dequeued cfg s (ids.dedup.filter s.isLive) _ := dequeued h rfl rfl rfl
  have hreq := heffect.requests.trans (by rw [hdeq.requests])
  refine QueuedIn.leaveAll h hnodup hlive (fun q hq => ?_) heffect.finished heffect.subset hreq
    (fun q hq hq' => ?_) (heffect.count.trans hdeq.count) ?_ ?_
  · rw [heffect.others q hq, hdeq.objects]
  · apply hkept q ((QueuedIn.isLive_iff s q).mp (hlive q hq)).1
    have hkeep := heffect.mustKeep q hq hq'
    rw [Scheduler.mustKeep, hdeq.objects, hdeq.recving] at hkeep
    exact hkeep
  · have hlost : lost.filter (· ∉ ids) = lost.filter (· ∉ ids.dedup.filter s.isLive) := by
      apply filter_congr
      intro q hq
      apply decide_eq_decide.mpr
      rw [mem_filter, mem_dedup, and_iff_left (h.lost_live hq)]
    rw [heffect.running, filter_append, hlost]
    exact hdeq.running.append_right _
  · rw [heffect.waiting, heffect.skippedWaiting]
    exact hdeq.others

/-! ## The connector's signals -/

theorem freeBlocks_queued (h : s.Queued lost kept) (hfree : s.freeBlocks r = .ok s') :
    s'.Queued lost (kept.filter (· ≠ r)) := by
  obtain ⟨hfin, kv, rfl⟩ := freeBlocks_cases hfree
  have hlive : ∀ q, s.isLive q = true → q ≠ r := by
    intro q hq heq
    have hunfin := ((QueuedIn.isLive_iff s q).mp hq).2
    rw [heq, hfin] at hunfin
    cases hunfin
  refine ⟨h.requests.filter _, h.nodup, fun q => ?_, h.running, h.notRunning, ?_,
    fun q hq hq' => ?_⟩
  · rw [h.mem_iff, QueuedIn.isLive_iff, QueuedIn.isLive_iff]
    show _ ↔ q ∈ s.requests.filter (· ≠ r) ∧ _
    rw [mem_filter, decide_eq_true_iff]
    exact ⟨fun hq => ⟨⟨hq.1, hlive q ((QueuedIn.isLive_iff s q).mpr hq)⟩, hq.2⟩,
      fun hq => ⟨hq.1.1, hq.2⟩⟩
  · have hsame : (s.requests.filter (· ≠ r)).filter
        (fun q => decide ((s.objects q).status = .waitingForStreamingReq)) = s.streamingReqs := by
      rw [filter_filter]
      apply filter_congr
      intro q _
      by_cases hq : q = r
      · have hne : (s.objects q).status ≠ .waitingForStreamingReq := by
          intro heq
          rw [← hq, Request.isFinished, heq] at hfin
          cases hfin
        rw [decide_eq_false hne, Bool.false_and]
      · rw [decide_eq_true hq, Bool.and_true]
    show s.numWaitingForStreamingInput = ((s.requests.filter (· ≠ r)).filter _).length
    rw [hsame]
    exact h.streaming
  · obtain ⟨hmem, hne⟩ := mem_filter.mp hq
    exact mem_filter.mpr ⟨h.settled q hmem hq', hne⟩

theorem receiveKv_queued (h : s.Queued lost kept) (hrecv : s.receiveKv r = .ok s') :
    s'.Queued lost (kept.filter (· ≠ r)) := by
  unfold receiveKv at hrecv
  split at hrecv
  · rename_i hstatus
    cases hrecv
    have hsame : ({ s with
        finishedRecvingKvReqIds := if r ∈ s.finishedRecvingKvReqIds then s.finishedRecvingKvReqIds
          else s.finishedRecvingKvReqIds ++ [r] } : Scheduler).Queued lost kept :=
      QueuedIn.congr h rfl rfl fun _ => rfl
    refine { hsame with settled := fun q hq hq' => mem_filter.mpr ⟨hsame.settled q hq hq', ?_⟩ }
    apply decide_eq_true
    intro heq
    have hfin : (s.objects q).isFinished = true := hq'
    rw [heq, Request.isFinished, hstatus] at hfin
    cases hfin
  · exact freeBlocks_queued h hrecv

theorem forReported_queued {act : Scheduler → ReqId → Except PyError Scheduler}
    (hact : ∀ {s r s' kept}, Scheduler.Queued s lost kept → act s r = .ok s' →
      s'.Queued lost (kept.filter (· ≠ r))) (h : s.Queued lost kept)
    (hloop : forReported act rs s = .ok s') :
    s'.Queued lost (kept.filter (· ∉ rs)) := by
  induction rs generalizing s kept with
  | nil =>
    cases hloop
    rw [filter_not_mem_nil]
    exact h
  | cons r rs ih =>
    obtain ⟨-, -, hloop⟩ := of_bind hloop
    obtain ⟨s₁, hone, hloop⟩ := of_bind hloop
    refine QueuedIn.mono (ih (hact h hone) hloop) fun q hq => ?_
    obtain ⟨hmem, hrs⟩ := mem_filter.mp hq
    obtain ⟨hmem, hne⟩ := mem_filter.mp hmem
    have hnot : q ∉ r :: rs := by
      rw [mem_cons, not_or]
      exact ⟨of_decide_eq_true hne, of_decide_eq_true hrs⟩
    exact mem_filter.mpr ⟨hmem, decide_eq_true hnot⟩

def ModelRunnerOutput.reported (mo : ModelRunnerOutput) : List ReqId :=
  match mo.kvConnectorOutput with
  | none => []
  | some kco => kco.finishedRecving ++ kco.finishedSending

theorem receiveSignals_queued (h : s.Queued lost kept) (hrecv : s.receiveSignals mo = .ok s') :
    s'.Queued lost (kept.filter (· ∉ mo.reported)) := by
  unfold receiveSignals at hrecv
  split at hrecv
  · rename_i hnone
    cases hrecv
    have hreported : mo.reported = [] := by rw [ModelRunnerOutput.reported, hnone]
    rw [hreported, filter_not_mem_nil]
    exact h
  rename_i kco hsome
  obtain ⟨s₁, hs₁, hrecv⟩ := of_bind hrecv
  have hqueued := forReported_queued freeBlocks_queued
    (forReported_queued receiveKv_queued h hs₁) hrecv
  rw [filter_not_mem_append] at hqueued
  rw [ModelRunnerOutput.reported, hsome]
  exact hqueued

/-! ## Failed loads -/

def Recounted (q q' : Request) : Prop := ∃ computed external,
  q' = { q with numComputedTokens := computed, numExternalComputedTokens := external }

structure LoadEffect (s s' : Scheduler) : Prop where
  objects : ∀ q, Recounted (s.objects q) (s'.objects q)
  same : SameQueues s s'
  running : s'.running = s.running
  recving : s'.finishedRecvingKvReqIds = s.finishedRecvingKvReqIds

theorem LoadEffect.refl (s : Scheduler) : LoadEffect s s :=
  ⟨fun _ => ⟨_, _, rfl⟩, ⟨rfl, rfl, rfl, rfl⟩, rfl, rfl⟩

theorem LoadEffect.trans {s₂ s₃ : Scheduler} (h : LoadEffect s₁ s₂) (h' : LoadEffect s₂ s₃) :
    LoadEffect s₁ s₃ := by
  refine ⟨fun q => ?_, h.same.trans h'.same, h'.running.trans h.running, h'.recving.trans h.recving⟩
  obtain ⟨c, e, hq⟩ := h.objects q
  obtain ⟨c', e', hq'⟩ := h'.objects q
  exact ⟨c', e', by rw [hq', hq]⟩

theorem scan_request (blockSize : Nat) (invalid : List BlockRef) (evict : Bool)
    (reqBlockIds : List BlockRef) (before : Int) (bs : List BlockRef) (idx : Nat)
    (sc : InvalidScan) : Recounted sc.request
      (InvalidScan.scan blockSize invalid evict reqBlockIds before idx bs sc).request := by
  induction bs generalizing idx sc with
  | nil => exact ⟨_, _, rfl⟩
  | cons b bs ih =>
    obtain ⟨c, e, hrest⟩ := ih (idx + 1)
      (sc.visit blockSize invalid evict reqBlockIds before idx b)
    have hvisit : Recounted sc.request
        (sc.visit blockSize invalid evict reqBlockIds before idx b).request := by
      unfold InvalidScan.visit
      split
      · exact ⟨_, _, rfl⟩
      · dsimp only
        split
        · exact ⟨_, _, rfl⟩
        · split <;> exact ⟨_, _, rfl⟩
    obtain ⟨c', e', hvisit⟩ := hvisit
    exact ⟨c, e, by rw [InvalidScan.scan, hrest, hvisit]⟩

variable {invalid : List BlockRef} {res' res : InvalidResult} {n : Dict ReqId Int} {evict : Bool}

/-- A request that is not affected keeps its counters. -/
theorem updateRequestWithInvalidBlocks_effect
    (h : s.updateRequestWithInvalidBlocks cfg invalid n evict r res = .ok (s', res')) :
    LoadEffect s s' ∧ (∀ q ∈ res.affectedReqIds, q ∈ res'.affectedReqIds) ∧
      ∀ q, q ≠ r ∨ q ∉ res'.affectedReqIds → s'.objects q = s.objects q := by
  unfold updateRequestWithInvalidBlocks at h
  split at h
  · rename_i reqBlockIds _
    dsimp only at h
    split at h
    · cases h
      refine ⟨⟨fun q => ?_, ⟨rfl, rfl, rfl, rfl⟩, rfl, rfl⟩, fun q hq => mem_append_left _ hq,
        fun q hq => modify_objects_ne _ ?_⟩
      · by_cases hq : q = r
        · rw [hq, modify_objects_self]
          obtain ⟨c, e, hscan⟩ := scan_request cfg.blockSize invalid evict reqBlockIds
            (computedBefore n (s.objects r))
            (reqBlockIds.take (computedBlocks cfg n (s.objects r))) 0
            ⟨s.objects r, false, false, res.markedInvalidBlockIds, res.blocksToEvict⟩
          split
          · exact ⟨c, e, hscan⟩
          · exact ⟨_, e, by rw [hscan]⟩
        · rw [modify_objects_ne _ hq]
          exact ⟨_, _, rfl⟩
      · rintro rfl
        exact hq.elim (fun hne => hne rfl) fun hnot => hnot (mem_append_right _ mem_cons_self)
    · cases h
      exact ⟨LoadEffect.refl _, fun _ hq => hq, fun _ _ => rfl⟩
  · cases h

theorem updateRequestsWithInvalidBlocks_effect
    (h : updateRequestsWithInvalidBlocks cfg invalid n evict rs s res = .ok (s', res')) :
    LoadEffect s s' ∧ (∀ q ∈ res.affectedReqIds, q ∈ res'.affectedReqIds) ∧
      ∀ q, q ∉ rs ∨ q ∉ res'.affectedReqIds → s'.objects q = s.objects q := by
  induction rs generalizing s res with
  | nil =>
    cases h
    exact ⟨LoadEffect.refl _, fun _ hq => hq, fun _ _ => rfl⟩
  | cons r rs ih =>
    obtain ⟨⟨s₁, res₁⟩, hone, h⟩ := of_bind h
    obtain ⟨heffect, hsub, hobj⟩ := updateRequestWithInvalidBlocks_effect hone
    obtain ⟨heffect', hsub', hobj'⟩ := ih h
    refine ⟨heffect.trans heffect', fun q hq => hsub' q (hsub q hq), fun q hq => ?_⟩
    rw [hobj' q (hq.imp_left fun hnot hmem => hnot (mem_cons_of_mem _ hmem))]
    exact hobj q (hq.imp ne_of_not_mem_cons fun hnot hmem => hnot (hsub' q hmem))

theorem checkLoads_effect {failed : List ReqId} (h : s.checkLoads cfg out mo = .ok (s', failed)) :
    LoadEffect s s' ∧
      ∀ q, q ∉ failed → (s.objects q).status = .running → s'.objects q = s.objects q := by
  unfold checkLoads at h
  split at h
  · cases h
    exact ⟨LoadEffect.refl _, fun _ _ _ => rfl⟩
  split at h
  · cases h
    exact ⟨LoadEffect.refl _, fun _ _ _ => rfl⟩
  obtain ⟨⟨s₁, asyncRes⟩, h₁, h⟩ := of_bind h
  obtain ⟨⟨s₂, syncRes⟩, h₂, h⟩ := of_bind h
  obtain ⟨heffect₁, -, hobj₁⟩ := updateRequestsWithInvalidBlocks_effect h₁
  obtain ⟨heffect₂, -, hobj₂⟩ := updateRequestsWithInvalidBlocks_effect h₂
  have heffect := heffect₁.trans heffect₂
  have hobj : ∀ q, q ∉ syncRes.affectedReqIds → (s.objects q).status = .running →
      s₂.objects q = s.objects q := by
    intro q hq hrunning
    rw [hobj₂ q (Or.inr hq)]
    refine hobj₁ q (Or.inl fun hmem => ?_)
    exact nomatch hrunning.symm.trans (of_decide_eq_true (mem_filter.mp hmem).2)
  dsimp only at h
  split at h
  · rename_i hnone
    cases h
    rw [isEmpty_iff.mp (Bool.and_eq_true_iff.mp hnone).2] at hobj
    exact ⟨heffect, hobj⟩
  split at h
  · cases h
    exact ⟨⟨heffect.objects, heffect.same.trans ⟨rfl, rfl, rfl, rfl⟩, heffect.running,
      heffect.recving⟩, hobj⟩
  obtain ⟨kv, -, h⟩ := of_bind h
  cases h
  refine ⟨⟨heffect.objects, heffect.same.trans ⟨rfl, rfl, rfl, rfl⟩, heffect.running,
    heffect.recving⟩, fun q hq => hobj q fun hmem => ?_⟩
  rw [mem_append, not_or, mem_filter, decide_eq_true_iff, not_and_not_right] at hq
  exact hq.1 (hq.2 hmem)

/-! ## The whole of update_from_output -/

theorem LoadEffect.status (h : LoadEffect s s') (q : ReqId) :
    (s'.objects q).status = (s.objects q).status := by
  obtain ⟨c, e, hq⟩ := h.objects q
  rw [hq]

theorem LoadEffect.stopsAllInPlace (h : LoadEffect s s') (hstops : s.stopsAllInPlace cfg out mo) :
    s'.stopsAllInPlace cfg out mo := by
  intro r hr hlive hstop
  obtain ⟨c, e, hobj⟩ := h.objects r
  have hsame : SameStops (s.objects r) (s'.objects r) := by
    rw [hobj]
    exact ⟨rfl, rfl, rfl, rfl⟩
  have hlive' : s.isLive r = true := by
    rw [isLive, h.same.requests, hobj] at hlive
    exact hlive
  have hstop' : s.stops cfg mo r = true := by
    rw [stops, hsame.stopsOn, hobj] at hstop
    exact hstop
  have hplace := hstops r hr hlive' hstop'
  unfold stopsInPlace hasUpdate
  rw [h.same.waiting, hobj]
  exact hplace

theorem LoadEffect.queued (h : LoadEffect s s') (hq : s.Queued lost kept) : s'.Queued lost kept :=
  Unmoved.queued ⟨h.same, h.running, h.status⟩ hq

theorem settle_frame (u : UpdateState) :
    (u.settle cfg).objects = u.sched.objects ∧ (u.settle cfg).requests = u.sched.requests ∧
      (u.settle cfg).finishedRecvingKvReqIds = u.sched.finishedRecvingKvReqIds := by
  unfold UpdateState.settle
  split <;> exact ⟨rfl, rfl, rfl⟩

theorem UpdateInv.start {es : List (ReqId × Int)} (h : s.Queued lost kept)
    (hnodup : (es.map Prod.fst).Nodup) (hes : ∀ e ∈ es, e.1 ∈ out.numScheduledTokens.keys) :
    UpdateInv cfg out mo s lost kept es ⟨s, [], []⟩ where
  queued := by
    show s.QueuedIn kept ((s.running ++ lost).filter (· ∉ ([] : List ReqId)))
      (s.waiting.filter (· ∉ ([] : List ReqId)) ++ s.skippedWaiting)
    rw [filter_not_mem_nil, filter_not_mem_nil]
    exact h
  scheduled := hes
  stopped _ hq := absurd hq not_mem_nil
  running := rfl
  recving := rfl
  requests _ hq := hq
  remote _ hq := hq
  nodup := hnodup
  object _ _ := rfl
  waiting _ _ hq := hq
  notStopped _ _ := ⟨not_mem_nil, not_mem_nil⟩

/-- The requests that leave `lost` are stopped by the output, unless loads have failed. -/
theorem updateFromOutput_queued (h : s.Queued lost kept) (hstops : s.stopsAllInPlace cfg out mo)
    (hkept : ∀ q ∈ s.requests, s.mustKeep cfg env q = true → q ∈ kept)
    (hupdate : s.updateFromOutput cfg env out mo = .ok s') :
    ∃ gone : List ReqId, s'.Queued (lost.filter (· ∉ gone)) (kept.filter (· ∉ mo.reported)) ∧
      (s.checkLoads cfg out mo = .ok (s, []) →
        ∀ q ∈ gone, q ∈ out.numScheduledTokens.keys ∧ s.stops cfg mo q = true) := by
  obtain ⟨⟨s₁, failed⟩, hloads, hupdate⟩ := of_bind hupdate
  obtain ⟨u, hloop, hupdate⟩ := of_bind hupdate
  obtain ⟨s₂, hfail, hupdate⟩ := of_bind hupdate
  obtain ⟨heffect, -⟩ := checkLoads_effect hloads
  have hqueued₁ := heffect.queued h
  have hplace := heffect.stopsAllInPlace hstops
  have hconnector : ∀ r ∈ s₁.requests, cfg.hasConnector = true → env.requestFinished r = true →
      r ∈ kept := by
    intro r hr hcon hfin
    rw [heffect.same.requests] at hr
    apply hkept r hr
    rw [Scheduler.mustKeep, hcon, hfin]
    rfl
  have hinv : UpdateInv cfg out mo s₁ lost kept [] u := updateLoop_rule
    (fun r n es u u' hI hone => hI.step hplace (hconnector r) hone.effect)
    (UpdateInv.start hqueued₁ out.numScheduledTokens.nodup fun e he => mem_map_of_mem he) hloop
  have hrunning : u.sched.running.Nodup := by
    rw [hinv.running]
    exact hqueued₁.runningNodup
  have hsettled : (u.settle cfg).Queued (lost.filter (· ∉ u.stoppedRunningReqs)) kept :=
    settle_queued hrunning hinv.queued
  have hstopped : s.checkLoads cfg out mo = .ok (s, []) → failed = [] ∧
      ∀ q ∈ u.stoppedRunningReqs, q ∈ out.numScheduledTokens.keys ∧ s.stops cfg mo q = true := by
    intro hnone
    cases hloads.symm.trans hnone
    exact ⟨rfl, hinv.stopped⟩
  unfold failRequests at hfail
  split at hfail
  · rename_i hfailed
    refine ⟨u.stoppedRunningReqs ++ failed, ?_, fun hnone => ?_⟩
    · rw [← filter_not_mem_append]
      apply receiveSignals_queued
        (finishRequests_queued hsettled (fun q hq hkeep => ?_) hfail) hupdate
      obtain ⟨hobj, hreq, hrecv⟩ := settle_frame u
      rw [hreq] at hq
      have hq₁ := hinv.requests q hq
      rw [Scheduler.mustKeep, hobj, hrecv, hinv.recving, Bool.or_eq_true, Bool.and_eq_true,
        Bool.and_eq_true] at hkeep
      rcases hkeep with ⟨hcon, hfin⟩ | ⟨hremote, hnot⟩
      · exact hconnector q hq₁ hcon hfin
      rw [heffect.same.requests] at hq₁
      apply hkept q hq₁
      have hstatus := hinv.remote q (of_decide_eq_true hremote)
      rw [heffect.status] at hstatus
      rw [heffect.recving] at hnot
      rw [Scheduler.mustKeep, decide_eq_true hstatus, hnot]
      exact Bool.or_true _
    · rw [(hstopped hnone).1] at hfailed
      cases hfailed
  · cases hfail
    exact ⟨u.stoppedRunningReqs, receiveSignals_queued hsettled hupdate,
      fun hnone => (hstopped hnone).2⟩

/-! ## Arrivals, resets and drafts -/

theorem init_status {hasher : Option BlockHasher} {a : RequestArgs}
    (h : Request.init hasher a = .ok request) :
    request.status = .waiting ∨ request.status = .waitingForStructuredOutputGrammar := by
  obtain ⟨⟨maxTokens, status⟩, hlimits, h⟩ := of_bind h
  obtain ⟨n, -, h⟩ := of_bind h
  obtain ⟨hashes, rfl⟩ := updateBlockHashes_fields h
  show status = _ ∨ status = _
  unfold initialLimits at hlimits
  split at hlimits
  · cases hlimits
    exact Or.inl rfl
  · split at hlimits
    · cases hlimits
    · cases hlimits
      split
      · exact Or.inr rfl
      · exact Or.inl rfl
  · cases hlimits

theorem enqueueNew_queued (h : s.Queued lost kept) (hmem : r ∉ s.requests)
    (hnew : request.status = .waiting ∨ request.status = .waitingForStructuredOutputGrammar)
    (henqueue : (s.modify r fun _ => request).enqueueWaitingRequest cfg r = s') :
    ({ s' with requests := s'.requests ++ [r] } : Scheduler).Queued lost kept := by
  obtain ⟨htouches, hobj, hreq, hcount, hplace⟩ := enqueueWaitingRequest_effect henqueue
  have hself : (s'.objects r).status = request.status := by rw [hobj, modify_objects_self]
  have hrest : (s'.waiting ++ s'.skippedWaiting).Perm (r :: (s.waiting ++ s.skippedWaiting)) := by
    rcases hplace with ⟨-, hw, hk⟩ | ⟨-, hw, hk⟩
    · rw [hw]
      exact (hk.append_left _).trans perm_middle
    · rw [hk]
      exact hw.append_right _
  rw [htouches.running]
  refine QueuedIn.arrive h (fun q hq => ?_) (congrArg (· ++ [r]) hreq) hcount hmem ?_ ?_ ?_ hrest
  · show (s'.objects q).status = _
    rw [hobj, modify_objects_ne _ hq]
  · rw [Request.isFinished, hself]
    rcases hnew with hst | hst <;> rw [hst] <;> rfl
  · rw [hself]
    rcases hnew with hst | hst <;> rw [hst] <;> decide
  · rw [hself]
    rcases hnew with hst | hst <;> rw [hst] <;> decide

theorem addRequest_queued (h : s.Queued lost kept)
    (hnew : request.status = .waiting ∨ request.status = .waitingForStructuredOutputGrammar)
    (hkept : ∀ q ∈ s.requests, s.mustKeep cfg env q = true → q ∈ kept)
    (hadd : s.addRequest cfg env request = .ok s') : s'.Queued lost kept := by
  unfold addRequest at hadd
  dsimp only at hadd
  split at hadd
  · rename_i hmem
    split at hadd
    · split at hadd
      · cases hadd
      · cases hadd
        exact (Unmoved.modify (f := fun q => { q with streamingQueue := some _ })
          (fun _ => rfl) s request.requestId).queued h
    rename_i hstatus
    rw [not_not] at hstatus
    split at hadd
    · obtain ⟨htouches, hstatus', hwaiting, hskipped, hreq, hcount⟩ :=
        updateRequestAsSession_effect hadd
      rw [if_pos hstatus] at hcount
      unfold Scheduler.Queued
      rw [htouches.running, hwaiting, hskipped]
      refine QueuedIn.wake h (fun q hq => ?_) hreq hcount hmem hstatus hstatus'
      rw [htouches.others q hq]
    · -- a session that waits for input is not among those lost
      have hfinish := finishRequests_queued h hkept hadd
      have hnot : ∀ q ∈ lost, q ∉ [request.requestId] := by
        intro q hq hmem
        have hrunning := h.running q (mem_append_right _ hq)
        rw [mem_singleton.mp hmem, hstatus] at hrunning
        cases hrunning
      rw [filter_eq_self.mpr fun q hq => decide_eq_true (hnot q hq)] at hfinish
      exact hfinish
  · rename_i hmem
    cases hadd
    refine enqueueNew_queued h hmem ?_ rfl
    split <;> exact hnew

theorem preemptAll_queued {fuel : Nat} (h : s.Queued lost kept)
    (hloop : preemptAll cfg fuel s = .ok s') : s'.Queued lost kept := by
  induction fuel generalizing s with
  | zero =>
    cases hloop
    exact h
  | succ fuel ih =>
    rw [preemptAll] at hloop
    split at hloop
    · cases hloop
      exact h
    rename_i r hlast
    obtain ⟨s₁, hpreempt, hloop⟩ := of_bind hloop
    refine ih ?_ hloop
    obtain ⟨kv, rfl⟩ := preemptRequest_cases hpreempt
    have hrun : (r :: s.running.dropLast).Perm s.running := by
      have happ := dropLast_append_getLast? r hlast
      nth_rewrite 2 [← happ]
      exact (perm_append_singleton r _).symm
    refine QueuedIn.suspend h (f := fun q => discardInFlight (preempted q)) ?_ rfl rfl
      (hrun.append_right lost) ?_ rfl nofun nofun
    · funext q
      by_cases hq : q = r
      · rw [hq, modify_objects_self, modify_objects_self, modify_objects_self]
      · rw [modify_objects_ne _ hq, modify_objects_ne _ hq, modify_objects_ne _ hq]
    · exact (RequestQueue.prependRequest_perm _ _).append_right _

theorem resetPrefixCache_queued {resetRunning : Bool} {res : Except PyError Bool}
    (h : s.Queued lost kept) (hreset : s.resetPrefixCache cfg resetRunning = .ok (s', res)) :
    s'.Queued lost kept := by
  obtain ⟨s₁, hs₁, hreset⟩ := of_bind hreset
  have hqueued : s₁.Queued lost kept := by
    unfold preemptRunning at hs₁
    split at hs₁
    · obtain ⟨s₂, hs₂, hs₁⟩ := of_bind hs₁
      have hall := preemptAll_queued h hs₂
      cases hs₁
      exact QueuedIn.congr hall rfl rfl fun _ => rfl
    · cases hs₁
      exact h
  dsimp only at hreset
  split at hreset <;> cases hreset <;> exact QueuedIn.congr hqueued rfl rfl fun _ => rfl

theorem updateDraftTokenIds_queued (validate : ReqId → List TokenId → List TokenId)
    (es : List (ReqId × List TokenId)) (h : s.Queued lost kept) :
    (updateDraftTokenIds validate es s).Queued lost kept := by
  induction es generalizing s with
  | nil => exact h
  | cons e es ih =>
    apply ih
    split
    · exact h
    · exact (Unmoved.modify (f := fun q =>
        { q with specTokenIds := if q.isPrefillChunk then [] else validate e.1 e.2 })
        (fun _ => rfl) s e.1).queued h

end VllmEcho
