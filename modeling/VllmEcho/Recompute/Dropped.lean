import VllmEcho.Recompute.LoadedTokens
import VllmEcho.Recompute.Queues
import VllmEcho.Sched.QueueRun

/-!
# Dropped requests

On a KV consumer a request that finds no blocks makes the loop drop the last running request.  Its
blocks are released and the front end is told, but nothing else that finishing a request takes is
done, neither then nor later in the run: unless somebody aborts it or an output in flight stops it,
the request stays in `requests` with status `RUNNING`, in no queue.
-/

namespace VllmEcho

open Lib List Scheduler

variable {cfg : RecomputeConfig} {r : ReqId} {s : Scheduler}

namespace RecomputeScheduler

/-! ## Runs -/

inductive NodeOutput
  | recomputed (r : ReqId)
  | generated (r : ReqId)
  deriving DecidableEq

/-- The engine around the scheduler, with the history of the run: the dropped requests, those of
them that a later call has aborted or stopped, the outputs sent, and the requests announced to the
worker. -/
structure NodeState where
  sched : Scheduler
  inFlight : List Output
  dropped : List ReqId
  ended : List ReqId
  outputs : List NodeOutput
  announced : List ReqId

def generates (cfg : RecomputeConfig) (s : Scheduler) (mo : ModelRunnerOutput) (r : ReqId) : Bool :=
  s.isLive r && (mo.poolerOutput r || (mo.sampledTokenIds r != [] &&
    !(cfg.asyncScheduling && (s.objects r).discardLatestAsyncTokens)))

namespace NodeState

variable (cfg)

def exec (t : NodeState) (c : EngineCall) : Except PyError NodeState :=
  match c.op with
  | .addRequest a => do
    let request ← Request.init cfg.hasher a
    let sched ← addRequest cfg c.env t.sched request
    pure { t with sched := sched }
  | .schedule =>
    if t.inFlight.length < EngineState.maxInFlight then do
      let (sched, out) ← schedule cfg c.env t.sched
      pure
        { t with
          sched := sched
          inFlight := t.inFlight ++ [out]
          dropped := t.dropped ++ out.recomputedReqs
          ended := t.ended.filter (· ∉ out.recomputedReqs)
          announced := t.announced ++ out.finishedReqIds }
    else .error (.runtimeError "batch queue is full")
  | .updateFromOutput mo =>
    match t.inFlight with
    | [] => .error (.runtimeError "batch queue is empty")
    | out :: inFlight => do
      let (sched, reported) ← updateFromOutput cfg c.env t.sched out mo
      pure
        { t with
          sched := sched
          inFlight := inFlight
          ended := t.ended ++ out.numScheduledTokens.keys.filter
            (t.sched.stops cfg.toSchedulerConfig mo)
          outputs := t.outputs ++ reported.map .recomputed ++
            (out.numScheduledTokens.keys.filter (generates cfg t.sched mo)).map .generated }
  | .updateDraftTokenIds validate drafts =>
    .ok { t with sched := Scheduler.updateDraftTokenIds validate drafts t.sched }
  | .finishRequests requestIds finishedStatus => do
    let sched ← t.sched.finishRequests cfg.toSchedulerConfig c.env requestIds finishedStatus
    pure { t with sched := sched, ended := t.ended ++ requestIds }
  | .resetPrefixCache resetRunningRequests => do
    let (sched, _) ← t.sched.resetPrefixCache cfg.toSchedulerConfig resetRunningRequests
    pure { t with sched := sched }
  | .setPauseState pauseState =>
    .ok { t with sched := { t.sched with pauseState := pauseState } }

/-- The condition on a call: a request that an output stops is where the loop looks for it. -/
def StopsInPlace (t : NodeState) (c : EngineCall) : Prop :=
  match c.op, t.inFlight with
  | .updateFromOutput mo, out :: _ =>
    t.sched.stopsAllInPlace cfg.toSchedulerConfig out.toSchedulerOutput mo
  | _, _ => True

def Starts (kvCfg : KVCacheConfig) (encoderCacheSize : Nat) (t : NodeState) : Prop :=
  ∃ kv objects, KVCacheManager.init kvCfg = .ok kv ∧
    t = ⟨Scheduler.init kv encoderCacheSize objects, [], [], [], [], []⟩

def Reached (kvCfg : KVCacheConfig) (encoderCacheSize : Nat) : NodeState → Prop :=
  Reaches (Starts kvCfg encoderCacheSize) (fun t c t' => t.exec cfg c = .ok t') (StopsInPlace cfg)

end NodeState

/-- The request is closed as `finish_requests` would have left it: one final output and none after
it, no trace in `requests` and the queues, announced once, nothing held. -/
structure Closed (t : NodeState) (r : ReqId) : Prop where
  reported : t.outputs.count (.recomputed r) = 1
  silent : ∀ before after, t.outputs = before ++ .recomputed r :: after → .generated r ∉ after
  finished : (t.sched.objects r).isFinished = true
  forgotten : r ∉ t.sched.requests
  unqueued : r ∉ t.sched.running ++ t.sched.waiting ++ t.sched.skippedWaiting
  announced : (t.announced ++ t.sched.finishedReqIds).count r = 1
  noBlocks : ∀ blocks ∈ t.sched.kvCacheManager.getBlocks r, blocks = []
  noEncoderCache : ∀ e ∈ t.sched.encoderCacheManager.cached.entries, r ∉ e.2

/-! ## Every call leaves a dropped request where it is -/

variable {t t' : NodeState} {c : EngineCall}

def NodeState.Lost (t : NodeState) : Prop :=
  ∃ lost kept, t.sched.Queued lost kept ∧ ∀ r ∈ t.dropped, r ∉ t.ended → r ∈ lost

/-- What a call has to show: it takes only requests out of the lost ones that it also records as
aborted or stopped. -/
theorem NodeState.Lost.step (hkeep : ∀ lost kept, t.sched.Queued lost kept →
      (∀ q ∈ t.sched.requests, q ∈ kept) →
      ∃ lost' kept', t'.sched.Queued lost' kept' ∧ ∀ r ∈ t'.dropped, r ∉ t'.ended →
        (r ∈ t.dropped → r ∉ t.ended → r ∈ lost) → r ∈ lost') (h : t.Lost) : t'.Lost := by
  obtain ⟨lost, kept, hqueued, hdropped⟩ := h
  obtain ⟨lost', kept', hqueued', hsub⟩ := hkeep lost (kept ++ t.sched.requests)
    (QueuedIn.mono hqueued fun q hq => mem_append_left _ hq) fun q hq => mem_append_right _ hq
  exact ⟨lost', kept', hqueued', fun r hr hended => hsub r hr hended (hdropped r)⟩

theorem checkLoads_of_valid {out : SchedulerOutput} {mo : ModelRunnerOutput}
    (h : mo.invalidBlockIds = []) : s.checkLoads cfg.toSchedulerConfig out mo = .ok (s, []) := by
  unfold checkLoads
  split
  · rfl
  · rename_i kco hsome
    rw [ModelRunnerOutput.invalidBlockIds, hsome] at h
    exact if_pos (isEmpty_iff.mpr h)

/-- One call keeps every dropped request that has not ended out of the queues. -/
theorem NodeState.lost_step (h : t.Lost) (hguard : t.StopsInPlace cfg c)
    (hexec : t.exec cfg c = .ok t') : t'.Lost := by
  refine h.step fun lost kept hqueued hkept => ?_
  have hmust : ∀ q ∈ t.sched.requests, t.sched.mustKeep cfg.toSchedulerConfig c.env q = true →
      q ∈ kept := fun q hq _ => hkept q hq
  obtain ⟨op, env⟩ := c
  cases op with
  | addRequest a =>
    obtain ⟨request, hinit, hexec⟩ := of_bind hexec
    obtain ⟨sched, hadd, hexec⟩ := of_bind hexec
    cases hexec
    exact ⟨lost, kept, addRequest_queued hqueued (init_status hinit) hmust hadd,
      fun r hr hended hold => hold hr hended⟩
  | schedule =>
    rw [exec] at hexec
    dsimp only at hexec
    split at hexec
    · obtain ⟨⟨sched, out⟩, hsched, hexec⟩ := of_bind hexec
      cases hexec
      -- what the step drops joins the lost requests
      refine ⟨lost ++ out.recomputedReqs, kept, schedule_queued hqueued hsched,
        fun r hr hended hold => ?_⟩
      by_cases hnew : r ∈ out.recomputedReqs
      · exact mem_append_right _ hnew
      · refine mem_append_left _ (hold ((mem_append.mp hr).resolve_right hnew) fun hmem => ?_)
        exact hended (mem_filter.mpr ⟨hmem, decide_eq_true hnew⟩)
    · cases hexec
  | updateFromOutput mo =>
    rw [exec] at hexec
    dsimp only at hexec
    rw [StopsInPlace] at hguard
    split at hexec
    · cases hexec
    rename_i out inFlight hflight
    rw [hflight] at hguard
    obtain ⟨⟨sched, reported⟩, hupdate, hexec⟩ := of_bind hexec
    cases hexec
    unfold RecomputeScheduler.updateFromOutput at hupdate
    split at hupdate
    · cases hupdate
    rename_i hvalid
    obtain ⟨s₁, hbase, hupdate⟩ := of_bind hupdate
    cases hupdate
    -- an output in flight may stop a dropped request, which then counts as ended
    obtain ⟨gone, hqueued', hgone⟩ := updateFromOutput_queued hqueued hguard hmust hbase
    refine ⟨_, _, hqueued', fun r hr hended hold => ?_⟩
    obtain ⟨hbefore, hnow⟩ := not_or.mp (mt mem_append.mpr hended)
    refine mem_filter.mpr ⟨hold hr hbefore, decide_eq_true fun hmem => hnow ?_⟩
    exact mem_filter.mpr (hgone (checkLoads_of_valid (not_not.mp hvalid)) r hmem)
  | updateDraftTokenIds validate drafts =>
    cases hexec
    exact ⟨lost, kept, updateDraftTokenIds_queued validate drafts hqueued,
      fun r hr hended hold => hold hr hended⟩
  | finishRequests ids status =>
    obtain ⟨sched, hfinish, hexec⟩ := of_bind hexec
    cases hexec
    refine ⟨_, kept, finishRequests_queued hqueued hmust hfinish, fun r hr hended hold => ?_⟩
    obtain ⟨hbefore, hnow⟩ := not_or.mp (mt mem_append.mpr hended)
    exact mem_filter.mpr ⟨hold hr hbefore, decide_eq_true hnow⟩
  | resetPrefixCache resetRunning =>
    obtain ⟨⟨sched, res⟩, hreset, hexec⟩ := of_bind hexec
    cases hexec
    exact ⟨lost, kept, resetPrefixCache_queued hqueued hreset,
      fun r hr hended hold => hold hr hended⟩
  | setPauseState p =>
    cases hexec
    exact ⟨lost, kept, QueuedIn.congr hqueued rfl rfl fun _ => rfl,
      fun r hr hended hold => hold hr hended⟩

theorem NodeState.Reached.lost {kvCfg : KVCacheConfig} {size : Nat}
    (h : NodeState.Reached cfg kvCfg size t) : t.Lost := by
  refine Reaches.invariant (fun t hstart => ?_)
    (fun _ _ _ hI hguard hstep => NodeState.lost_step hI hguard hstep) h
  obtain ⟨kv, objects, -, rfl⟩ := hstart
  exact ⟨[], [], init_queued kv size objects [], fun r hr => absurd hr not_mem_nil⟩

/-- A dropped request that nobody aborts and no output stops stays as it is, however the run goes
on. -/
theorem NodeState.Reached.dropped_stays {kvCfg : KVCacheConfig} {size : Nat}
    (h : NodeState.Reached cfg kvCfg size t) (hr : r ∈ t.dropped) (hended : r ∉ t.ended) :
    r ∈ t.sched.requests ∧ (t.sched.objects r).status = .running ∧
      r ∉ t.sched.running ++ (t.sched.waiting ++ t.sched.skippedWaiting) := by
  obtain ⟨lost, kept, hqueued, hdropped⟩ := h.lost
  have hlost := hdropped r hr hended
  have hmem : r ∈ t.sched.running ++ lost := mem_append_right _ hlost
  obtain ⟨hfirst, -, hdisjoint⟩ := nodup_append.mp hqueued.nodup
  refine ⟨(hqueued.live (mem_append_left _ hmem)).1, hqueued.running r hmem, fun hin => ?_⟩
  rcases mem_append.mp hin with hrun | hrest
  · exact (nodup_append.mp hfirst).2.2 r hrun r hlost rfl
  · exact hdisjoint r hmem r hrest rfl

/-- In every run in which no dropped request is aborted or stopped by an output afterwards, the
dropped requests are closed if and only if there are none. -/
theorem dropped_closed_iff {kvCfg : KVCacheConfig} {size : Nat} {t : NodeState}
    (h : NodeState.Reached cfg kvCfg size t) (hended : ∀ r ∈ t.dropped, r ∉ t.ended) :
    (∀ r ∈ t.dropped, Closed t r) ↔ t.dropped = [] := by
  apply Iff.intro
  · intro hclosed
    by_contra hne
    obtain ⟨r, hr⟩ := exists_mem_of_ne_nil _ hne
    exact (hclosed r hr).forgotten (h.dropped_stays hr (hended r hr)).1
  · intro hnone r hr
    rw [hnone] at hr
    cases hr

/-! ## Concrete runs -/

instance (t : NodeState) (c : EngineCall) : Decidable (t.StopsInPlace cfg c) := by
  obtain ⟨op, env⟩ := c
  unfold NodeState.StopsInPlace Scheduler.stopsAllInPlace
  cases op <;> cases t.inFlight <;> infer_instance

def droppingCache (numBlocks : Nat) : KVCacheConfig :=
  { decodeCache numBlocks with enableCaching := false }

def twoRequests (numBlocks steps : Nat) : Option NodeState :=
  (KVCacheManager.init (droppingCache numBlocks)).toOption.bind fun kv =>
    Reaches.replay (fun t c => (NodeState.exec smallConsumer t c).toOption)
      (fun t c => decide (t.StopsInPlace smallConsumer c))
      ⟨Scheduler.init kv 8 noObjects, [], [], [], [], []⟩
      (([EngineOp.addRequest (smallRequest 0 [1, 2] 4), .addRequest (smallRequest 1 [3, 4] 4)] ++
        (replicate steps
          [EngineOp.schedule, .updateFromOutput (sampledOutput fun _ => [7])]).flatten
        ).map EngineOp.quiet)

theorem twoRequests_reached {numBlocks steps : Nat} {t : NodeState}
    (h : twoRequests numBlocks steps = some t) :
    NodeState.Reached smallConsumer (droppingCache numBlocks) 8 t := by
  obtain ⟨kv, hkv, hrun⟩ := Option.bind_eq_some_iff.mp h
  exact Reaches.replay_reaches (fun _ _ _ hs => toOption_eq_some hs)
    (fun _ _ hg => of_decide_eq_true hg) _ (.start ⟨kv, noObjects, toOption_eq_some hkv, rfl⟩) hrun

/-- With three blocks the second request is dropped in the second step and reported.  After three
steps it is still registered as running, and the worker has not been told. -/
theorem dropped_request_stays :
    ∃ t, NodeState.Reached smallConsumer (droppingCache 4) 8 t ∧ t.dropped = [1] ∧
      t.outputs.count (.recomputed 1) = 1 ∧ ¬ Closed t 1 ∧ 1 ∈ t.sched.requests ∧
      (t.sched.objects 1).status = .running ∧ 1 ∉ t.announced ++ t.sched.finishedReqIds := by
  have hbad : ∃ t ∈ twoRequests 4 3, t.dropped = [1] ∧ t.outputs.count (.recomputed 1) = 1 ∧
      1 ∈ t.sched.requests ∧ (t.sched.objects 1).status = .running ∧
      1 ∉ t.announced ++ t.sched.finishedReqIds := by decide +kernel
  obtain ⟨t, ht, hdropped, hreported, hstays, hrest⟩ := hbad
  exact ⟨t, twoRequests_reached ht, hdropped, hreported,
    fun hclosed => hclosed.forgotten hstays, hstays, hrest⟩

/-- The same run, after the step that drops the request. -/
theorem dropped_not_closed :
    ∃ t, NodeState.Reached smallConsumer (droppingCache 4) 8 t ∧ t.dropped ≠ [] ∧
      ¬ ∀ r ∈ t.dropped, Closed t r := by
  have hdrop : ∃ t ∈ twoRequests 4 2, t.dropped ≠ [] ∧ ∀ r ∈ t.dropped, r ∉ t.ended := by
    decide +kernel
  obtain ⟨t, ht, hdropped, hended⟩ := hdrop
  exact ⟨t, twoRequests_reached ht, hdropped,
    fun hclosed => hdropped ((dropped_closed_iff (twoRequests_reached ht) hended).mp hclosed)⟩

end RecomputeScheduler

end VllmEcho
