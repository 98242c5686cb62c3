import VllmEcho.Sched.Engine
import VllmEcho.Sched.QueueFinish

/-!
# Runs keep the queues

Next to the engine's state a run records whose blocks are being transferred: the requests that
finished while the connector was receiving or sending their blocks, until the worker reports the
transfer done.
-/

namespace VllmEcho

open Lib List Scheduler QueuedIn

structure TransferState where
  engine : EngineState
  transfers : List ReqId

namespace TransferState

variable (cfg : SchedulerConfig)

def begun (env : CallEnv) (s s' : Scheduler) : List ReqId :=
  s.requests.filter fun r => s.isLive r && (s'.objects r).isFinished && s.mustKeep cfg env r

def ended : EngineOp → List ReqId
  | .updateFromOutput mo => mo.reported
  | _ => []

def exec (t : TransferState) (c : EngineCall) : Except PyError TransferState := do
  let engine ← t.engine.exec cfg c
  pure
    { engine := engine
      transfers := (t.transfers ++ begun cfg c.env t.engine.sched engine.sched).filter
        (· ∉ ended c.op) }

/-- The condition on a call: a request that an output stops is running, or stands in `waiting` and
no update of its session has arrived. -/
def StopsInPlace (t : TransferState) (c : EngineCall) : Prop :=
  match c.op, t.engine.inFlight with
  | .updateFromOutput mo, out :: _ => t.engine.sched.stopsAllInPlace cfg out mo
  | _, _ => True

def Reached (kvCfg : KVCacheConfig) (encoderCacheSize : Nat)
    (guard : TransferState → EngineCall → Prop) : TransferState → Prop :=
  Reaches (fun t => t.engine.Starts kvCfg encoderCacheSize ∧ t.transfers = [])
    (fun t c t' => t.exec cfg c = .ok t') guard

end TransferState

/-- Every unfinished request is queued exactly once, `running` holds the running ones, the counter
is right, and finished requests whose blocks are not being transferred are gone. -/
structure QueuedOnce (s : Scheduler) (transfers : List ReqId) : Prop where
  once : ∀ r ∈ s.requests, (s.objects r).isFinished = false →
    (s.running ++ s.waiting ++ s.skippedWaiting).count r = 1
  running : ∀ r ∈ s.requests, (s.objects r).isFinished = false →
    (r ∈ s.running ↔ (s.objects r).status = .running)
  streaming : s.numWaitingForStreamingInput = (s.requests.filter fun r =>
    decide ((s.objects r).status = .waitingForStreamingReq)).length
  finished : ∀ r, (s.objects r).isFinished = true → r ∉ transfers →
    r ∉ s.running ++ s.waiting ++ s.skippedWaiting ∧ r ∉ s.requests

variable {cfg : SchedulerConfig} {s s' : Scheduler} {kept : List ReqId} {t t' : TransferState}
  {c : EngineCall}

theorem Scheduler.Queued.once (h : s.Queued [] kept) : QueuedOnce s kept := by
  rw [Scheduler.Queued, append_nil] at h
  have happ : s.running ++ s.waiting ++ s.skippedWaiting =
      s.running ++ (s.waiting ++ s.skippedWaiting) := append_assoc _ _ _
  refine ⟨fun r hr hfin => ?_, fun r hr hfin => ?_, h.streaming, fun r hfin hr => ?_⟩
  · rw [happ]
    exact count_eq_one_of_mem h.nodup
      ((h.mem_iff r).mpr ((isLive_iff s r).mpr ⟨hr, hfin⟩))
  · apply Iff.intro (h.running r)
    intro hstatus
    have hmem := (h.mem_iff r).mpr ((isLive_iff s r).mpr ⟨hr, hfin⟩)
    exact (mem_append.mp hmem).resolve_right fun hrest => h.notRunning r hrest hstatus
  · rw [happ]
    refine ⟨fun hmem => ?_, fun hmem => hr (h.settled r hmem hfin)⟩
    have hlive := h.live hmem
    rw [hfin] at hlive
    cases hlive.2

theorem queued_begun {env : CallEnv} {done : List ReqId} (h : s.Queued [] kept)
    (h' : s'.Queued [] ((kept ++ s.requests.filter (s.mustKeep cfg env)).filter (· ∉ done))) :
    s'.Queued [] ((kept ++ TransferState.begun cfg env s s').filter (· ∉ done)) := by
  refine { h' with settled := fun r hr hfin => ?_ }
  obtain ⟨hmem, hdone⟩ := mem_filter.mp (h'.settled r hr hfin)
  refine mem_filter.mpr ⟨?_, hdone⟩
  rcases mem_append.mp hmem with hold | hnew
  · exact mem_append_left _ hold
  obtain ⟨hreq, hkeep⟩ := mem_filter.mp hnew
  by_cases hfin₀ : (s.objects r).isFinished = true
  · exact mem_append_left _ (h.settled r hreq hfin₀)
  · apply mem_append_right
    have hlive := (isLive_iff s r).mpr ⟨hreq, Bool.eq_false_iff.mpr hfin₀⟩
    exact mem_filter.mpr ⟨hreq, by rw [hlive, hfin, hkeep]; rfl⟩

theorem queued_of_ended {op : EngineOp} (hop : TransferState.ended op = []) (h : s.Queued [] kept) :
    s.Queued [] (kept.filter (· ∉ TransferState.ended op)) := by
  rw [hop, filter_not_mem_nil]
  exact h

/-- One call keeps every live request in its queue. -/
theorem TransferState.step_queued (h : t.engine.sched.Queued [] t.transfers)
    (hguard : t.StopsInPlace cfg c) (hstep : t.exec cfg c = .ok t') :
    t'.engine.sched.Queued [] t'.transfers := by
  obtain ⟨engine, hexec, hstep⟩ := of_bind hstep
  cases hstep
  apply queued_begun h
  -- from here on everything that may have to stay counts as kept
  have hmono : t.engine.sched.Queued [] (t.transfers ++
      t.engine.sched.requests.filter (t.engine.sched.mustKeep cfg c.env)) :=
    mono h fun q hq => mem_append_left _ hq
  have hkept : ∀ q ∈ t.engine.sched.requests, t.engine.sched.mustKeep cfg c.env q = true →
      q ∈ t.transfers ++ t.engine.sched.requests.filter (t.engine.sched.mustKeep cfg c.env) :=
    fun q hq hkeep => mem_append_right _ (mem_filter.mpr ⟨hq, hkeep⟩)
  obtain ⟨op, env⟩ := c
  cases op with
  | addRequest a =>
    obtain ⟨request, hinit, hexec⟩ := of_bind hexec
    obtain ⟨sched, hadd, hexec⟩ := of_bind hexec
    cases hexec
    apply queued_of_ended rfl
    exact addRequest_queued hmono (init_status hinit) hkept hadd
  | schedule =>
    rw [EngineState.exec] at hexec
    dsimp only at hexec
    split at hexec
    · obtain ⟨⟨sched, out⟩, hsched, hexec⟩ := of_bind hexec
      cases hexec
      apply queued_of_ended rfl
      exact schedule_queued hmono hsched
    · cases hexec
  | updateFromOutput mo =>
    rw [EngineState.exec] at hexec
    dsimp only at hexec
    rw [StopsInPlace] at hguard
    split at hexec
    · cases hexec
    · rename_i out inFlight hflight
      obtain ⟨sched, hupdate, hexec⟩ := of_bind hexec
      cases hexec
      rw [hflight] at hguard
      obtain ⟨gone, hqueued, -⟩ := updateFromOutput_queued hmono hguard hkept hupdate
      exact hqueued
  | updateDraftTokenIds validate drafts =>
    cases hexec
    apply queued_of_ended rfl
    exact updateDraftTokenIds_queued validate drafts hmono
  | finishRequests ids status =>
    obtain ⟨sched, hfinish, hexec⟩ := of_bind hexec
    cases hexec
    apply queued_of_ended rfl
    exact finishRequests_queued hmono hkept hfinish
  | resetPrefixCache resetRunning =>
    obtain ⟨⟨sched, res⟩, hreset, hexec⟩ := of_bind hexec
    cases hexec
    apply queued_of_ended rfl
    exact resetPrefixCache_queued hmono hreset
  | setPauseState p =>
    cases hexec
    apply queued_of_ended rfl
    exact congr hmono rfl rfl fun _ => rfl

theorem init_queued (kv : KVCacheManager) (size : Nat) (objects : ReqId → Request)
    (kept : List ReqId) : (Scheduler.init kv size objects).Queued [] kept := by
  refine ⟨nodup_nil, nodup_nil, fun r => ?_, fun r hr => absurd hr not_mem_nil,
    fun r hr => absurd hr not_mem_nil, rfl, fun r hr => absurd hr not_mem_nil⟩
  rw [isLive_iff]
  exact ⟨fun hr => absurd hr not_mem_nil, fun hr => absurd hr.1 not_mem_nil⟩

theorem TransferState.start_queued {kvCfg : KVCacheConfig} {size : Nat}
    (h : t.engine.Starts kvCfg size) : t.engine.sched.Queued [] t.transfers := by
  obtain ⟨kv, objects, -, heq⟩ := h
  rw [heq]
  exact init_queued kv size objects _

theorem TransferState.Reached.queued {kvCfg : KVCacheConfig} {size : Nat}
    (h : TransferState.Reached cfg kvCfg size (TransferState.StopsInPlace cfg) t) :
    t.engine.sched.Queued [] t.transfers :=
  Reaches.invariant (I := fun t => t.engine.sched.Queued [] t.transfers)
    (fun _ hstart => TransferState.start_queued hstart.1)
    (fun _ _ _ hI hguard hstep => TransferState.step_queued hI hguard hstep) h

/-- In every run whose outputs stop requests only where the loop looks for them, every unfinished
request is queued exactly once. -/
theorem reached_queuedOnce {kvCfg : KVCacheConfig} {size : Nat}
    (h : TransferState.Reached cfg kvCfg size (TransferState.StopsInPlace cfg) t) :
    QueuedOnce t.engine.sched t.transfers :=
  h.queued.once

def Scheduler.getNumUnfinishedRequests (s : Scheduler) : Int :=
  if s.pauseState = .pausedAll then 0
  else if s.pauseState = .pausedNew then s.running.length
  else s.waiting.length + s.skippedWaiting.length - s.numWaitingForStreamingInput + s.running.length

/-- Unpaused, it counts the unfinished requests but for the sessions that wait for input. -/
theorem reached_numUnfinished {kvCfg : KVCacheConfig} {size : Nat}
    (h : TransferState.Reached cfg kvCfg size (TransferState.StopsInPlace cfg) t)
    (hp : t.engine.sched.pauseState = .unpaused) :
    let s := t.engine.sched
    s.getNumUnfinishedRequests + s.streamingReqs.length = (s.requests.filter s.isLive).length := by
  intro s
  have hq : s.Queued [] t.transfers := h.queued
  rw [Scheduler.Queued, append_nil] at hq
  have hlive :
      (s.requests.filter s.isLive).Perm (s.running ++ (s.waiting ++ s.skippedWaiting)) := by
    apply (perm_ext_iff_of_nodup (hq.requests.filter _) hq.nodup).mpr
    intro r
    rw [mem_filter, hq.mem_iff]
    exact and_iff_right_of_imp fun hr => ((isLive_iff s r).mp hr).1
  rw [hlive.length_eq, length_append, length_append, getNumUnfinishedRequests, hp,
    hq.streaming, if_neg (by decide), if_neg (by decide)]
  omega

/-! ## Concrete runs -/

instance (s : Scheduler) (r : ReqId) : Decidable (s.stopsInPlace r) := by
  unfold Scheduler.stopsInPlace
  infer_instance

instance (t : TransferState) (c : EngineCall) : Decidable (t.StopsInPlace cfg c) := by
  unfold TransferState.StopsInPlace Scheduler.stopsAllInPlace
  split <;> infer_instance

def runSmall (cfg : SchedulerConfig) (guard : TransferState → EngineCall → Prop)
    [∀ t c, Decidable (guard t c)] (numBlocks : Nat) (calls : List EngineCall) :
    Option TransferState :=
  (EngineState.small numBlocks 8 (by decide)).bind fun e =>
    Reaches.replay (fun t c => (TransferState.exec cfg t c).toOption)
      (fun t c => decide (guard t c)) ⟨e, []⟩ calls

theorem runSmall_reached {guard : TransferState → EngineCall → Prop} [∀ t c, Decidable (guard t c)]
    {numBlocks : Nat} {calls : List EngineCall} (h : runSmall cfg guard numBlocks calls = some t) :
    TransferState.Reached cfg (smallCache numBlocks 8 (by decide)) 8 guard t := by
  obtain ⟨e, hsmall, hrun⟩ := Option.bind_eq_some_iff.mp h
  exact Reaches.replay_reaches (fun _ _ _ hs => toOption_eq_some hs)
    (fun _ _ hg => of_decide_eq_true hg) calls
    (.start ⟨EngineState.small_starts hsmall, rfl⟩) hrun

def sessionCalls (reset : Bool) : List EngineCall :=
  [EngineOp.addRequest { smallRequest 0 [5] 1 with resumable := true },
    .addRequest { smallRequest 0 [6] 1 with resumable := true }, .schedule].map EngineOp.quiet ++
  (if reset then [(EngineOp.resetPrefixCache true).quiet] else []) ++
  [(EngineOp.updateFromOutput (sampledOutput fun _ => [7])).quiet]

/-- A session preempted while its output is in flight is lost when the output stops it and its next
chunk has arrived: it is added to `waiting` and then removed as stopped. -/
theorem preempted_session_lost :
    ∃ t, TransferState.Reached (smallScheduler .fcfs false 8 0) (smallCache 8 8 (by decide)) 8
      (fun _ _ => True) t ∧ ¬ QueuedOnce t.engine.sched t.transfers := by
  have hbad :
    ∃ t ∈ runSmall (smallScheduler .fcfs false 8 0) (fun _ _ => True) 8 (sessionCalls true),
      0 ∈ t.engine.sched.requests ∧ (t.engine.sched.objects 0).isFinished = false ∧
      0 ∉ t.engine.sched.running ++ t.engine.sched.waiting ++ t.engine.sched.skippedWaiting := by
    decide +kernel
  obtain ⟨t, ht, hmem, hlive, hnowhere⟩ := hbad
  refine ⟨t, runSmall_reached ht, fun honce => ?_⟩
  have hone := honce.once 0 hmem hlive
  rw [count_eq_zero.mpr hnowhere] at hone
  cases hone

/-- The same session, stopped while it runs. -/
theorem reached_queuedOnce_session :
    ∃ t, TransferState.Reached (smallScheduler .fcfs false 8 0) (smallCache 8 8 (by decide)) 8
      (TransferState.StopsInPlace (smallScheduler .fcfs false 8 0)) t ∧
      t.engine.sched.waiting = [0] ∧ QueuedOnce t.engine.sched t.transfers := by
  have hgood : ∃ t ∈ runSmall (smallScheduler .fcfs false 8 0)
      (TransferState.StopsInPlace (smallScheduler .fcfs false 8 0)) 8 (sessionCalls false),
      t.engine.sched.waiting = [0] := by decide +kernel
  obtain ⟨t, ht, hwaiting⟩ := hgood
  have hreached := runSmall_reached ht
  exact ⟨t, hreached, hwaiting, reached_queuedOnce hreached⟩

theorem reached_numUnfinished_session :
    ∃ t, TransferState.Reached (smallScheduler .fcfs false 8 0) (smallCache 8 8 (by decide)) 8
      (TransferState.StopsInPlace (smallScheduler .fcfs false 8 0)) t ∧
      let s := t.engine.sched
      s.getNumUnfinishedRequests + s.streamingReqs.length =
          (s.requests.filter s.isLive).length := by
  obtain ⟨t, ht, hp⟩ : ∃ t ∈ runSmall (smallScheduler .fcfs false 8 0)
      (TransferState.StopsInPlace (smallScheduler .fcfs false 8 0)) 8 (sessionCalls false),
      t.engine.sched.pauseState = .unpaused := by decide +kernel
  exact ⟨t, runSmall_reached ht, reached_numUnfinished (runSmall_reached ht) hp⟩

end VllmEcho
