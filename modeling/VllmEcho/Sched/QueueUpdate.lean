import VllmEcho.Sched.QueueSchedule
import VllmEcho.Sched.StopCases

/-!
# Processing an output keeps the queues

The loop of `update_from_output` leaves the stopped requests in their queues and takes them out at
the end, so that its invariant is about the queues without them.  A stopped request that is not
running must stand in `waiting`, and must not be put there again by an update of its session.
-/

namespace VllmEcho

open List hiding removeAll beq_eq_decide
open Lib Scheduler

variable {cfg : SchedulerConfig} {env : CallEnv} {s s' : Scheduler} {r : ReqId}
  {mo : ModelRunnerOutput} {out : SchedulerOutput} {failed lost kept : List ReqId}

namespace Scheduler

def stops (cfg : SchedulerConfig) (mo : ModelRunnerOutput) (s : Scheduler) (r : ReqId) : Bool :=
  if mo.sampledTokenIds r ≠ [] then
    !(cfg.asyncScheduling && (s.objects r).discardLatestAsyncTokens) &&
      stopsOn cfg.maxModelLen (s.objects r) (mo.sampledTokenIds r)
  else (s.objects r).poolingParams.isSome && mo.poolerOutput r

def hasUpdate (s : Scheduler) (r : ReqId) : Bool :=
  (s.objects r).resumable &&
    match (s.objects r).streamingQueue.getD [] with
    | some _ :: _ => true
    | _ => false

/-- The loop over the outputs finds the request where it looks for it: it is running, or in
`waiting` with no update to put it there a second time. -/
def stopsInPlace (s : Scheduler) (r : ReqId) : Prop :=
  (s.objects r).status = .running ∨
    (r ∈ s.waiting ∧ (s.objects r).status.isBlockedWaiting = false ∧ s.hasUpdate r = false)

def stopsAllInPlace (cfg : SchedulerConfig) (s : Scheduler) (out : SchedulerOutput)
    (mo : ModelRunnerOutput) : Prop :=
  ∀ r ∈ out.numScheduledTokens.keys, s.isLive r = true → s.stops cfg mo r = true →
    s.stopsInPlace r

end Scheduler

/-! ## One output -/

structure Touches (s : Scheduler) (r : ReqId) (s' : Scheduler) : Prop where
  others : ∀ q, q ≠ r → s'.objects q = s.objects q
  running : s'.running = s.running
  recving : s'.finishedRecvingKvReqIds = s.finishedRecvingKvReqIds

theorem Touches.trans {s₁ s₂ s₃ : Scheduler} (h : Touches s₁ r s₂) (h' : Touches s₂ r s₃) :
    Touches s₁ r s₃ where
  others q hq := (h'.others q hq).trans (h.others q hq)
  running := h'.running.trans h.running
  recving := h'.recving.trans h.recving

theorem Touches.modify (s : Scheduler) (r : ReqId) (f : Request → Request) :
    Touches s r (s.modify r f) :=
  ⟨fun _ hq => modify_objects_ne f hq, rfl, rfl⟩

structure TakeEffect (cfg : SchedulerConfig) (mo : ModelRunnerOutput) (s : Scheduler) (r : ReqId)
    (s' : Scheduler) (stopped : Bool) : Prop where
  touches : Touches s r s'
  same : SameQueues s s'
  stops : stopped = s.stops cfg mo r
  status : stopped = false → (s'.objects r).status = (s.objects r).status
  finished : stopped = true → (s'.objects r).isFinished = true
  update : s'.hasUpdate r = s.hasUpdate r

theorem TakeOutput.effect {stopped : Bool} (h : TakeOutput cfg mo s r s' stopped) :
    TakeEffect cfg mo s r s' stopped := by
  cases h with
  | discarded hsampled hasync hflag =>
    refine ⟨Touches.modify s r _, ⟨rfl, rfl, rfl, rfl⟩, ?_, fun _ => ?_,
      (fun he => by cases he), ?_⟩
    · rw [stops, if_pos hsampled, hasync, hflag]
      rfl
    · rw [modify_objects_self]
    · rw [hasUpdate, modify_objects_self, hasUpdate]
  | @appended request appended stopped kv hsampled hflag happend _ _ =>
    have hcases := appendUntilStop_cases happend
    obtain ⟨hashes, reason, hfields⟩ := hcases.fields
    have hsettle : (settleTokens cfg request appended).status = request.status ∧
        (settleTokens cfg request appended).resumable = request.resumable ∧
        (settleTokens cfg request appended).streamingQueue = request.streamingQueue := by
      unfold settleTokens
      split <;> exact ⟨rfl, rfl, rfl⟩
    refine ⟨⟨fun q hq => modify_objects_ne _ hq, rfl, rfl⟩, ⟨rfl, rfl, rfl, rfl⟩, ?_,
      fun hfalse => ?_, fun htrue => ?_, ?_⟩
    · rw [stops, if_pos hsampled, hcases.stops]
      cases hasync : cfg.asyncScheduling with
      | false => rfl
      | true =>
        rw [hflag hasync]
        rfl
    · rw [modify_objects_self, hsettle.1]
      exact hcases.status hfalse
    · rw [modify_objects_self, Request.isFinished, hsettle.1]
      exact hcases.finished htrue
    · rw [hasUpdate, modify_objects_self, hsettle.2.1, hsettle.2.2, hfields,
        hasUpdate]
  | pooled hsampled hpooling hpooled =>
    refine ⟨Touches.modify s r _, ⟨rfl, rfl, rfl, rfl⟩, ?_, (fun he => by cases he),
      fun _ => ?_, ?_⟩
    · rw [stops, if_neg (not_not.mpr hsampled), hpooling, hpooled]
      rfl
    · rw [modify_objects_self]
      rfl
    · rw [hasUpdate, modify_objects_self, hasUpdate]
  | silent hsampled hpooling =>
    refine ⟨⟨fun _ _ => rfl, rfl, rfl⟩, ⟨rfl, rfl, rfl, rfl⟩, ?_, fun _ => rfl,
      (fun he => by cases he), rfl⟩
    rw [stops, if_neg (not_not.mpr hsampled), hpooling]

theorem applyRejections_effect {drafts generated : List TokenId}
    (h : s.applyRejections r drafts generated = s') : Touches s r s' ∧ SameQueues s s' ∧
      s'.stops cfg mo r = s.stops cfg mo r ∧ s'.hasUpdate r = s.hasUpdate r := by
  subst h
  unfold applyRejections
  split
  · exact ⟨⟨fun _ _ => rfl, rfl, rfl⟩, ⟨rfl, rfl, rfl, rfl⟩, rfl, rfl⟩
  refine ⟨Touches.modify s r _, ⟨rfl, rfl, rfl, rfl⟩, ?_, ?_⟩
  · have hsame : SameStops (s.objects r) (rejectDrafts
        ((drafts.length : Int) - ((generated.length : Int) - 1)) (s.objects r)) :=
      ⟨rfl, rfl, rfl, rfl⟩
    rw [stops, modify_objects_self, hsame.stopsOn]
    rfl
  · rw [hasUpdate, modify_objects_self]
    rfl

inductive StopEffect (cfg : SchedulerConfig) (env : CallEnv) (s : Scheduler) (r : ReqId)
    (s' : Scheduler) : Prop
  | left (hfinished : (s'.objects r).isFinished = true) (hwaiting : s'.waiting = s.waiting)
      (hskipped : s'.skippedWaiting = s.skippedWaiting)
      (hcount : s'.numWaitingForStreamingInput = s.numWaitingForStreamingInput)
      (hrequests : (s'.requests = s.requests ∧ cfg.hasConnector = true ∧
          env.requestFinished r = true) ∨ s'.requests = s.requests.filter (· ≠ r))
  | continued (hstatus : (s'.objects r).status = .waiting)
      (hwaiting : s'.waiting.Perm (r :: s.waiting))
      (hskipped : s'.skippedWaiting = s.skippedWaiting)
      (hcount : s'.numWaitingForStreamingInput = s.numWaitingForStreamingInput)
      (hrequests : s'.requests = s.requests) (hupdate : s.hasUpdate r = true)
  | waits (hstatus : (s'.objects r).status = .waitingForStreamingReq)
      (hwaiting : s'.waiting = s.waiting)
      (hskipped : s'.skippedWaiting.Perm (r :: s.skippedWaiting))
      (hcount : s'.numWaitingForStreamingInput = s.numWaitingForStreamingInput + 1)
      (hrequests : s'.requests = s.requests)

theorem StopEffect.requests_subset (h : StopEffect cfg env s r s') :
    ∀ q ∈ s'.requests, q ∈ s.requests := by
  intro q hq
  cases h with
  | left _ _ _ _ hreq =>
    rcases hreq with ⟨hreq, -⟩ | hreq
    · exact hreq ▸ hq
    · rw [hreq] at hq
      exact mem_of_mem_filter hq
  | continued _ _ _ _ hreq _ => exact hreq ▸ hq
  | waits _ _ _ _ hreq => exact hreq ▸ hq

theorem StopEffect.status_ne {status : RequestStatus} (h : StopEffect cfg env s r s')
    (hunfin : status.isFinished = false) (hwaiting : status ≠ .waiting)
    (hstreaming : status ≠ .waitingForStreamingReq) : (s'.objects r).status ≠ status := by
  rintro rfl
  cases h with
  | left hfin _ _ _ _ => exact nomatch hfin.symm.trans hunfin
  | continued hstatus _ _ _ _ _ => exact hwaiting hstatus
  | waits hstatus _ _ _ _ => exact hstreaming hstatus

theorem StopEffect.of_same {s₁ : Scheduler} (hsame : SameQueues s s₁)
    (hupdate : s₁.hasUpdate r = s.hasUpdate r) (h : StopEffect cfg env s₁ r s') :
    StopEffect cfg env s r s' := by
  cases h with
  | left hfin hwaiting hskipped hcount hreq =>
    rw [hsame.requests] at hreq
    exact .left hfin (hwaiting.trans hsame.waiting) (hskipped.trans hsame.skippedWaiting)
      (hcount.trans hsame.count) hreq
  | continued hstatus hwaiting hskipped hcount hreq hup =>
    rw [hsame.waiting] at hwaiting
    exact .continued hstatus hwaiting (hskipped.trans hsame.skippedWaiting)
      (hcount.trans hsame.count) (hreq.trans hsame.requests) (hupdate.symm.trans hup)
  | waits hstatus hwaiting hskipped hcount hreq =>
    rw [hsame.skippedWaiting] at hskipped
    rw [hsame.count] at hcount
    exact .waits hstatus (hwaiting.trans hsame.waiting) hskipped hcount
      (hreq.trans hsame.requests)

theorem freeRequest_effect {s₁ : Scheduler} (h : s₁.freeRequest cfg env r false = .ok s')
    (hsame : SameQueues s s₁) : Touches s₁ r s' ∧ StopEffect cfg env s r s' := by
  obtain ⟨hfin, hfree⟩ := freeRequest_cases h
  cases hfree with
  | kept hdelay =>
    exact ⟨⟨fun _ _ => rfl, rfl, rfl⟩, .left hfin hsame.waiting hsame.skippedWaiting hsame.count
      (Or.inl ⟨hsame.requests, hdelay.resolve_left nofun⟩)⟩
  | freed _ _ =>
    exact ⟨⟨fun _ _ => rfl, rfl, rfl⟩, .left hfin hsame.waiting hsame.skippedWaiting hsame.count
      (Or.inr (congrArg _ hsame.requests))⟩

theorem updateRequestAsSession_effect {update : StreamingUpdate}
    (h : s.updateRequestAsSession cfg r update = .ok s') :
    Touches s r s' ∧ (s'.objects r).status = .waiting ∧ s'.waiting = s.waiting ∧
      s'.skippedWaiting = s.skippedWaiting ∧ s'.requests = s.requests ∧
      s'.numWaitingForStreamingInput =
        if (s.objects r).status = .waitingForStreamingReq then s.numWaitingForStreamingInput - 1
        else s.numWaitingForStreamingInput := by
  obtain ⟨request, hrequest, h⟩ := of_bind h
  cases h
  have hstatus : request.status = .waiting := by
    unfold VllmEcho.updateRequestAsSession at hrequest
    split at hrequest
    · cases hrequest
    · obtain ⟨_, -, hrequest⟩ := of_bind hrequest
      cases hrequest
      rfl
  have hself : ∀ s₁ : Scheduler, ((s₁.modify r fun _ => request).objects r).status = .waiting := by
    intro s₁
    rw [modify_objects_self]
    exact hstatus
  split
  · exact ⟨⟨fun q hq => modify_objects_ne _ hq, rfl, rfl⟩, hself _, rfl, rfl, rfl, rfl⟩
  · exact ⟨⟨fun q hq => modify_objects_ne _ hq, rfl, rfl⟩, hself _, rfl, rfl, rfl, rfl⟩

theorem enqueueWaitingRequest_effect (h : s.enqueueWaitingRequest cfg r = s') : Touches s r s' ∧
    s'.objects = s.objects ∧ s'.requests = s.requests ∧
      s'.numWaitingForStreamingInput = s.numWaitingForStreamingInput ∧
      (((s.objects r).status.isBlockedWaiting = true ∧ s'.waiting = s.waiting ∧
          s'.skippedWaiting.Perm (r :: s.skippedWaiting)) ∨
        ((s.objects r).status.isBlockedWaiting = false ∧ s'.waiting.Perm (r :: s.waiting) ∧
          s'.skippedWaiting = s.skippedWaiting)) := by
  subst h
  unfold enqueueWaitingRequest
  split
  · rename_i hblocked
    exact ⟨⟨fun _ _ => rfl, rfl, rfl⟩, rfl, rfl, rfl,
      Or.inl ⟨hblocked, rfl, RequestQueue.addRequest_perm _ _⟩⟩
  · rename_i hblocked
    exact ⟨⟨fun _ _ => rfl, rfl, rfl⟩, rfl, rfl, rfl,
      Or.inr ⟨Bool.eq_false_iff.mpr hblocked, RequestQueue.addRequest_perm _ _, rfl⟩⟩

theorem StopRequest.effect (hfin : (s.objects r).isFinished = true)
    (h : StopRequest cfg env s r s') : Touches s r s' ∧ StopEffect cfg env s r s' := by
  cases h with
  | finished _ hfree => exact freeRequest_effect hfree ⟨rfl, rfl, rfl, rfl⟩
  | closed _ _ hfree =>
    obtain ⟨htouch, hstop⟩ := freeRequest_effect (s := s) hfree ⟨rfl, rfl, rfl, rfl⟩
    exact ⟨(Touches.modify s r _).trans htouch, hstop⟩
  | @continued s₁ update rest hres hqueue hsession =>
    obtain ⟨htouch, hstatus, hwaiting, hskipped, hreq, hcount⟩ :=
      updateRequestAsSession_effect hsession
    obtain ⟨htouch', hobj, hreq', hcount', hplace⟩ := enqueueWaitingRequest_effect rfl
    have hnotWaiting : (s.objects r).status ≠ .waitingForStreamingReq := by
      intro heq
      rw [Request.isFinished, heq] at hfin
      cases hfin
    have hup : s.hasUpdate r = true := by
      rw [hasUpdate, hres, hqueue]
      rfl
    refine ⟨((Touches.modify s r _).trans htouch).trans htouch', ?_⟩
    rcases hplace with ⟨hblocked, -, -⟩ | ⟨-, hw, hs⟩
    · rw [hstatus] at hblocked
      cases hblocked
    · rw [hwaiting] at hw
      refine .continued (by rw [hobj]; exact hstatus) hw (hs.trans hskipped) ?_
        (hreq'.trans hreq) hup
      rw [hcount', hcount, modify_objects_self, if_neg hnotWaiting]
      rfl
  | waits hres hqueue =>
    obtain ⟨htouch', hobj, hreq', hcount', hplace⟩ := enqueueWaitingRequest_effect rfl
    have hstatus : ((s.modify r fun q => { q with status := .waitingForStreamingReq }).objects
        r).status = .waitingForStreamingReq := by rw [modify_objects_self]
    refine ⟨⟨fun q hq => (htouch'.others q hq).trans (modify_objects_ne
      (fun q => { q with status := .waitingForStreamingReq }) hq),
      htouch'.running, htouch'.recving⟩, ?_⟩
    rcases hplace with ⟨-, hw, hs⟩ | ⟨hblocked, -, -⟩
    · exact .waits (by rw [hobj]; exact hstatus) hw hs hcount' hreq'
    · rw [hstatus] at hblocked
      cases hblocked

inductive UpdateEffect (cfg : SchedulerConfig) (env : CallEnv) (mo : ModelRunnerOutput)
    (u : UpdateState) (r : ReqId) : UpdateState → Prop
  | goesOn {s' : Scheduler} (htouches : Touches u.sched r s') (hsame : SameQueues u.sched s')
      (hstatus : (s'.objects r).status = (u.sched.objects r).status) :
      UpdateEffect cfg env mo u r { u with sched := s' }
  | stops {s' : Scheduler} {u' : UpdateState} (hlive : u.sched.isLive r = true)
      (hstops : u.sched.stops cfg mo r = true) (htouches : Touches u.sched r s')
      (hstop : StopEffect cfg env u.sched r s')
      (hu' : u' = if (u.sched.objects r).status = .running then
          { u with sched := s', stoppedRunningReqs := u.stoppedRunningReqs ++ [r] }
        else { u with sched := s', stoppedPreemptedReqs := u.stoppedPreemptedReqs ++ [r] }) :
      UpdateEffect cfg env mo u r u'

theorem UpdateOne.effect {u u' : UpdateState} (h : UpdateOne cfg env out mo failed u r u') :
    UpdateEffect cfg env mo u r u' := by
  obtain ⟨htouch, hsame, hstops, hupdate⟩ := @applyRejections_effect cfg u.sched _ r mo
    (out.drafts r) (mo.sampledTokenIds r) rfl
  cases h with
  | passed _ =>
    show UpdateEffect cfg env mo u r { u with sched := u.sched }
    exact .goesOn ⟨fun _ _ => rfl, rfl, rfl⟩ ⟨rfl, rfl, rfl, rfl⟩ rfl
  | goesOn _ _ htake =>
    have heffect := htake.effect
    exact .goesOn (htouch.trans heffect.touches) (hsame.trans heffect.same)
      ((heffect.status rfl).trans (applyRejections_status _ _ _ _ _))
  | @stops s₁ s₂ _ hlive htake hstop _ hu' =>
    have heffect := htake.effect
    obtain ⟨htouch', hstop'⟩ := hstop.effect (heffect.finished rfl)
    exact .stops hlive (hstops.symm.trans heffect.stops.symm)
      ((htouch.trans heffect.touches).trans htouch')
      (hstop'.of_same (hsame.trans heffect.same) (heffect.update.trans hupdate)) hu'

/-! ## The loop -/

/-- The invariant of the loop over the outputs: the queues without the stopped requests, and the
requests to come are as they were at the start. -/
structure UpdateInv (cfg : SchedulerConfig) (out : SchedulerOutput) (mo : ModelRunnerOutput)
    (s : Scheduler) (lost kept : List ReqId) (es : List (ReqId × Int)) (u : UpdateState) :
    Prop where
  queued : u.sched.QueuedIn kept ((u.sched.running ++ lost).filter (· ∉ u.stoppedRunningReqs))
    (u.sched.waiting.filter (· ∉ u.stoppedPreemptedReqs) ++ u.sched.skippedWaiting)
  scheduled : ∀ e ∈ es, e.1 ∈ out.numScheduledTokens.keys
  stopped : ∀ q ∈ u.stoppedRunningReqs,
    q ∈ out.numScheduledTokens.keys ∧ s.stops cfg mo q = true
  running : u.sched.running = s.running
  recving : u.sched.finishedRecvingKvReqIds = s.finishedRecvingKvReqIds
  requests : ∀ q ∈ u.sched.requests, q ∈ s.requests
  remote : ∀ q, (u.sched.objects q).status = .waitingForRemoteKvs →
    (s.objects q).status = .waitingForRemoteKvs
  nodup : (es.map Prod.fst).Nodup
  object : ∀ e ∈ es, u.sched.objects e.1 = s.objects e.1
  waiting : ∀ e ∈ es, e.1 ∈ s.waiting → e.1 ∈ u.sched.waiting
  notStopped : ∀ e ∈ es, e.1 ∉ u.stoppedRunningReqs ∧ e.1 ∉ u.stoppedPreemptedReqs

theorem filter_append_singleton (l stopped : List ReqId) :
    l.filter (· ∉ stopped ++ [r]) = (l.filter (· ∉ stopped)).filter (· ≠ r) := by
  rw [filter_filter]
  apply filter_congr
  intro q _
  by_cases hq : q = r <;> by_cases hs : q ∈ stopped <;> simp [hq, hs]

namespace UpdateInv

variable {n : Int} {es : List (ReqId × Int)} {u u' : UpdateState}

section

variable (h : UpdateInv cfg out mo s lost kept ((r, n) :: es) u)
include h

theorem head_ne {e : ReqId × Int} (he : e ∈ es) : e.1 ≠ r := by
  intro heq
  have hnd := h.nodup
  rw [map_cons, nodup_cons] at hnd
  exact hnd.1 (mem_map.mpr ⟨e, he, heq⟩)

theorem rest (htouches : Touches u.sched r u'.sched)
    (hwaiting : ∀ q ∈ u.sched.waiting, q ∈ u'.sched.waiting)
    (hrequests : ∀ q ∈ u'.sched.requests, q ∈ u.sched.requests)
    (hremote : (u'.sched.objects r).status = .waitingForRemoteKvs →
      (u.sched.objects r).status = .waitingForRemoteKvs)
    (hstopped : ∀ q, q ≠ r → q ∉ u.stoppedRunningReqs ∧ q ∉ u.stoppedPreemptedReqs →
      q ∉ u'.stoppedRunningReqs ∧ q ∉ u'.stoppedPreemptedReqs)
    (hstops : ∀ q ∈ u'.stoppedRunningReqs, q ∈ u.stoppedRunningReqs ∨
      (q = r ∧ s.stops cfg mo r = true))
    (hqueued : u'.sched.QueuedIn kept
      ((u'.sched.running ++ lost).filter (· ∉ u'.stoppedRunningReqs))
      (u'.sched.waiting.filter (· ∉ u'.stoppedPreemptedReqs) ++ u'.sched.skippedWaiting)) :
    UpdateInv cfg out mo s lost kept es u' where
  queued := hqueued
  scheduled e he := h.scheduled e (mem_cons_of_mem _ he)
  stopped q hq := by
    rcases hstops q hq with hold | ⟨rfl, hstop⟩
    · exact h.stopped q hold
    · exact ⟨h.scheduled (q, n) mem_cons_self, hstop⟩
  running := htouches.running.trans h.running
  recving := htouches.recving.trans h.recving
  requests q hq := h.requests q (hrequests q hq)
  remote q hq := by
    apply h.remote q
    by_cases hqr : q = r
    · rw [hqr] at hq ⊢
      exact hremote hq
    · rw [← htouches.others q hqr]
      exact hq
  nodup := (nodup_cons.mp h.nodup).2
  object e he := (htouches.others _ (h.head_ne he)).trans (h.object e (mem_cons_of_mem _ he))
  waiting e he hmem := hwaiting _ (h.waiting e (mem_cons_of_mem _ he) hmem)
  notStopped e he := hstopped _ (h.head_ne he) (h.notStopped e (mem_cons_of_mem _ he))

section

variable {s₂ : Scheduler} (htouches : Touches u.sched r s₂)
  (hstop : StopEffect cfg env u.sched r s₂)
  (hkept : cfg.hasConnector = true → env.requestFinished r = true → r ∈ kept)
include htouches hstop hkept

/-- The stopped request leaves its queue, whichever of the two it is in. -/
theorem stop {run pre : List ReqId} (hlive : u.sched.isLive r = true)
    (hstatus : (u.sched.objects r).status ≠ .waitingForStreamingReq)
    (hothers : ∀ q, q ≠ r → q ∉ u.stoppedRunningReqs ∧ q ∉ u.stoppedPreemptedReqs →
      q ∉ run ∧ q ∉ pre)
    (hstops : ∀ q ∈ run, q ∈ u.stoppedRunningReqs ∨ (q = r ∧ s.stops cfg mo r = true))
    (hrun : (u.sched.running ++ lost).filter (· ∉ run) =
      ((u.sched.running ++ lost).filter (· ∉ u.stoppedRunningReqs)).filter (· ≠ r))
    (hrest : u.sched.waiting.filter (· ∉ pre) ++ u.sched.skippedWaiting =
      (u.sched.waiting.filter (· ∉ u.stoppedPreemptedReqs) ++ u.sched.skippedWaiting).filter
        (· ≠ r))
    (hpre : u.sched.hasUpdate r = true → r ∉ pre) :
    UpdateInv cfg out mo s lost kept es
      { u with sched := s₂, stoppedRunningReqs := run, stoppedPreemptedReqs := pre } := by
  have hq := h.queued
  have hmem := (hq.mem_iff r).mpr hlive
  have hsame : ∀ q, q ≠ r → (s₂.objects q).status = (u.sched.objects q).status := by
    intro q hqr
    rw [htouches.others q hqr]
  refine h.rest htouches ?_ hstop.requests_subset
    (fun heq => absurd heq (hstop.status_ne rfl nofun nofun)) hothers hstops ?_
  · cases hstop with
    | left _ hwaiting _ _ _ => exact fun q hq => hwaiting ▸ hq
    | continued _ hwaiting _ _ _ _ =>
      exact fun q hq => hwaiting.mem_iff.mpr (mem_cons_of_mem r hq)
    | waits _ hwaiting _ _ _ => exact fun q hq => hwaiting ▸ hq
  show s₂.QueuedIn kept ((s₂.running ++ lost).filter (· ∉ run))
    (s₂.waiting.filter (· ∉ pre) ++ s₂.skippedWaiting)
  rw [htouches.running, hrun]
  cases hstop with
  | left hfin hwaiting hskipped hcount hreq =>
    refine hq.leave hmem hstatus hsame hfin (hreq.imp (fun hk => ⟨hk.1, hkept hk.2.1 hk.2.2⟩) id)
      hcount (List.Perm.refl _) ?_
    rw [hwaiting, hskipped, hrest]
  | continued hstatus' hwaiting hskipped hcount hreq hup =>
    refine hq.pause hsame hreq (by rw [hcount, hstatus']; simp) hmem hstatus
      (by rw [Request.isFinished, hstatus']; rfl) (by rw [hstatus']; decide) (List.Perm.refl _) ?_
    have hfilter := hwaiting.filter (· ∉ pre)
    rw [filter_cons_of_pos (by simpa using hpre hup)] at hfilter
    rw [hskipped, ← hrest]
    exact hfilter.append_right _
  | waits hstatus' hwaiting hskipped hcount hreq =>
    refine hq.pause hsame hreq (by rw [hcount, if_pos hstatus']) hmem hstatus
      (by rw [Request.isFinished, hstatus']; rfl) (by rw [hstatus']; decide) (List.Perm.refl _) ?_
    rw [hwaiting, ← hrest]
    exact (hskipped.append_left _).trans perm_middle

theorem stop_running (hlive : u.sched.isLive r = true) (hstops : s.stops cfg mo r = true)
    (hstatus : (u.sched.objects r).status = .running) :
    UpdateInv cfg out mo s lost kept es
      { u with sched := s₂, stoppedRunningReqs := u.stoppedRunningReqs ++ [r] } := by
  refine h.stop htouches hstop hkept hlive (by rw [hstatus]; decide) (fun q hqr hold => ?_)
    (fun q hq => ?_) (filter_append_singleton _ _) (filter_ne_self fun hr => ?_).symm
    fun _ => (h.notStopped (r, n) mem_cons_self).2
  · exact ⟨fun hq => (mem_append.mp hq).elim hold.1 fun hr => hqr (mem_singleton.mp hr), hold.2⟩
  · exact (mem_append.mp hq).imp id fun hr => ⟨mem_singleton.mp hr, hstops⟩
  · exact h.queued.notRunning r hr hstatus

theorem stop_waiting (hwait : r ∈ u.sched.waiting)
    (hstatus : (u.sched.objects r).status.isBlockedWaiting = false)
    (hup : u.sched.hasUpdate r = false) :
    UpdateInv cfg out mo s lost kept es
      { u with sched := s₂, stoppedPreemptedReqs := u.stoppedPreemptedReqs ++ [r] } := by
  have hq := h.queued
  have hmem : r ∈ u.sched.waiting.filter (· ∉ u.stoppedPreemptedReqs) :=
    mem_filter.mpr ⟨hwait, decide_eq_true (h.notStopped (r, n) mem_cons_self).2⟩
  have hskip : r ∉ u.sched.skippedWaiting := fun hr =>
    disjoint_of_nodup_append (nodup_append.mp hq.nodup).2.1 hmem hr
  refine h.stop htouches hstop hkept
    ((hq.mem_iff r).mp (mem_append_right _ (mem_append_left _ hmem))) ?_
    (fun q hqr hold => ?_) (fun _ hq => Or.inl hq) (filter_ne_self fun hr => ?_).symm ?_
    fun hup' => absurd (hup'.symm.trans hup) (by decide)
  · intro heq
    rw [heq] at hstatus
    cases hstatus
  · exact ⟨hold.1, fun hq => (mem_append.mp hq).elim hold.2 fun hr => hqr (mem_singleton.mp hr)⟩
  · exact disjoint_of_nodup_append hq.nodup hr (mem_append_left _ hmem)
  · rw [filter_append_singleton, filter_append, filter_ne_self hskip]

end

/-- One round of the loop over the scheduled requests. -/
theorem step (hplace : s.stopsAllInPlace cfg out mo)
    (hkept : r ∈ s.requests → cfg.hasConnector = true → env.requestFinished r = true → r ∈ kept)
    (heffect : UpdateEffect cfg env mo u r u') : UpdateInv cfg out mo s lost kept es u' := by
  cases heffect with
  | goesOn htouches hsame hstatus =>
    refine h.rest htouches (fun q hq => hsame.waiting ▸ hq) (fun q hq => hsame.requests ▸ hq)
      (fun heq => hstatus ▸ heq) (fun _ _ hold => hold) (fun _ hq => Or.inl hq) ?_
    show Scheduler.QueuedIn _ kept ((Scheduler.running _ ++ lost).filter _) _
    rw [htouches.running, hsame.waiting, hsame.skippedWaiting]
    refine h.queued.congr hsame.requests hsame.count fun q => ?_
    by_cases hq : q = r
    · rw [hq]
      exact hstatus
    · rw [htouches.others q hq]
  | stops hlive hstops htouches hstop hu' =>
    have hobj := h.object (r, n) mem_cons_self
    -- the request is as it was before the loop
    have hlive' := (QueuedIn.isLive_iff _ r).mp hlive
    have hmem := h.requests r hlive'.1
    rw [hobj] at hlive'
    have hstops' : s.stops cfg mo r = true := by
      rw [stops, hobj] at hstops
      exact hstops
    have hplace' := hplace r (h.scheduled (r, n) mem_cons_self)
      ((QueuedIn.isLive_iff s r).mpr ⟨hmem, hlive'.2⟩) hstops'
    rw [hu', hobj]
    split
    · rename_i hrunning
      exact h.stop_running htouches hstop (hkept hmem) hlive hstops' (by rw [hobj]; exact hrunning)
    rename_i hrunning
    obtain ⟨hwait, hstatus, hup⟩ := hplace'.resolve_left hrunning
    refine h.stop_waiting htouches hstop (hkept hmem) (h.waiting _ mem_cons_self hwait)
      (by rw [hobj]; exact hstatus) ?_
    rw [hasUpdate, hobj]
    exact hup

end

end UpdateInv

theorem removeAll_eq_filter {l : List ReqId} (hnodup : l.Nodup) (items : List ReqId) :
    removeAll l items = l.filter (· ∉ items) := by
  unfold removeAll
  split
  · simp
  · rename_i r
    rw [hnodup.erase_eq_filter]
    apply filter_congr
    intro q _
    rw [bne, beq_eq_decide, ← decide_not]
    exact decide_eq_decide.mpr (not_congr mem_singleton).symm
  · rfl

theorem settle_queued {u : UpdateState} (hrunning : u.sched.running.Nodup)
    (h : u.sched.QueuedIn kept ((u.sched.running ++ lost).filter (· ∉ u.stoppedRunningReqs))
      (u.sched.waiting.filter (· ∉ u.stoppedPreemptedReqs) ++ u.sched.skippedWaiting)) :
    (u.settle cfg).Queued (lost.filter (· ∉ u.stoppedRunningReqs)) kept := by
  have hrun := removeAll_eq_filter hrunning u.stoppedRunningReqs
  rw [filter_append] at h
  unfold UpdateState.settle
  split
  · rename_i hempty
    rw [isEmpty_iff.mp hempty] at h
    have hall : u.sched.waiting.filter (· ∉ ([] : List ReqId)) = u.sched.waiting := by simp
    rw [hall, ← hrun] at h
    exact h.congr rfl rfl fun _ => rfl
  · rw [← hrun] at h
    refine QueuedIn.congr (h.perm (List.Perm.refl _) ?_) rfl rfl fun _ => rfl
    apply List.Perm.append_right
    apply RequestQueue.removeRequests_perm

end VllmEcho
