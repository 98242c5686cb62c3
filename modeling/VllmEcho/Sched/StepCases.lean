import VllmEcho.Sched.Schedule

/-!
# What a round of the scheduling loops can do

One inversion lemma for a round of each loop of `schedule`, and the invariant rules for the loops
and for the whole step, of either variant.  Everything later that is proved about `schedule` goes
through these.
-/

namespace VllmEcho

open Lib List RequestQueue

variable {request : ReqId} {fuel : Nat} {st st' : StepState} {i : Nat} {r : ReqId}
  {which : WaitingQueue} {s s' : Scheduler}

variable {v : ScheduleVariant} {cfg : SchedulerConfig} {env : CallEnv}

/-! ## The running loop -/

inductive MakesRoom (v : ScheduleVariant) (cfg : SchedulerConfig) (request : ReqId) (n : Int) :
    StepState → Nat → StepState → Nat → Prop
  | refl (st : StepState) (i : Nat) : MakesRoom v cfg request n st i st i
  | step {st st₁ st₂ : StepState} {i i₁ i₂ : Nat} {kv : KVCacheManager} {r : ReqId}
      (hbefore : MakesRoom v cfg request n st i st₁ i₁)
      (hrefused : st₁.sched.kvCacheManager.allocateSlotsFor (st₁.req request)
        (runningSlotArgs cfg n) = .ok (kv, none))
      (hroom : v.makeRoom (st₁.setKV kv) i₁ = .ok (r, st₂, i₂)) (hne : r ≠ request) :
      MakesRoom v cfg request n st i st₂ i₂

inductive RoomEnd (v : ScheduleVariant) (cfg : SchedulerConfig) (request : ReqId) (n : Int)
    (st : StepState) (i : Nat) : StepState → Nat → Option (List (List BlockRef)) → Prop
  | got {st₁ : StepState} {i₁ : Nat} {kv : KVCacheManager} {blocks : List (List BlockRef)}
      (hbefore : MakesRoom v cfg request n st i st₁ i₁)
      (halloc : st₁.sched.kvCacheManager.allocateSlotsFor (st₁.req request)
        (runningSlotArgs cfg n) = .ok (kv, some blocks)) :
      RoomEnd v cfg request n st i (st₁.setKV kv) i₁ (some blocks)
  | lost {st₁ st₂ : StepState} {i₁ i₂ : Nat} {kv : KVCacheManager}
      (hbefore : MakesRoom v cfg request n st i st₁ i₁)
      (hrefused : st₁.sched.kvCacheManager.allocateSlotsFor (st₁.req request)
        (runningSlotArgs cfg n) = .ok (kv, none))
      (hroom : v.makeRoom (st₁.setKV kv) i₁ = .ok (request, st₂, i₂)) :
      RoomEnd v cfg request n st i st₂ i₂ none

variable {i' : Nat}

theorem allocateOrMakeRoom_cases {n : Int} {st₀ : StepState} {i₀ : Nat}
    {res : Option (List (List BlockRef))} (hbefore : MakesRoom v cfg request n st₀ i₀ st i)
    (h : allocateOrMakeRoom v cfg request n fuel st i = .ok (st', i', res)) :
    RoomEnd v cfg request n st₀ i₀ st' i' res := by
  induction fuel generalizing st i with
  | zero => cases h
  | succ fuel ih =>
    obtain ⟨⟨kv, newBlocks⟩, halloc, h⟩ := of_bind h
    cases newBlocks with
    | some blocks =>
      cases h
      exact .got hbefore halloc
    | none =>
      obtain ⟨⟨r, st₂, i₂⟩, hroom, h⟩ := of_bind h
      dsimp only at h
      split at h
      · rename_i hr
        cases h
        rw [hr] at hroom
        exact .lost hbefore halloc hroom
      · rename_i hr
        exact ih (.step hbefore halloc hroom hr) h

inductive RunningRound (v : ScheduleVariant) (cfg : SchedulerConfig) (env : CallEnv)
    (st : StepState) (i : Nat) (request : ReqId) : StepState → Option Nat → Prop
  | idle {cache : EncoderCacheManager} :
      RunningRound v cfg env st i request (st.setEncoderCache cache) (some (i + 1))
  | scheduled {p : EncoderPlan} {st₁ st₂ : StepState} {i₁ : Nat} {blocks : List (List BlockRef)}
      (hplan : planRunning cfg env (st.req request) st.tokenBudget st.encoderComputeBudget
        st.sched.encoderCacheManager = .ok p) (hne : p.numNewTokens ≠ 0)
      (hend : RoomEnd v cfg request p.numNewTokens (st.setEncoderCache p.cache) i st₁ i₁
        (some blocks))
      (hrecord : st₁.scheduleRunning request p blocks = .ok st₂) :
      RunningRound v cfg env st i request st₂ (some (i₁ + 1))
  | lost {p : EncoderPlan} {st₁ : StepState} {i₁ : Nat}
      (hend : RoomEnd v cfg request p.numNewTokens (st.setEncoderCache p.cache) i st₁ i₁ none) :
      RunningRound v cfg env st i request st₁ none

theorem runningRound_cases {next : Option Nat}
    (h : runningRound cfg env st i request v = .ok (st', next)) :
    RunningRound v cfg env st i request st' next := by
  unfold runningRound at h
  split at h
  · cases h
    exact .idle
  obtain ⟨p, hplan, h⟩ := of_bind h
  split at h
  · cases h
    exact .idle
  rename_i hne
  obtain ⟨⟨st₁, i₁, newBlocks⟩, hloop, h⟩ := of_bind h
  have hend := allocateOrMakeRoom_cases (.refl _ _) hloop
  cases newBlocks with
  | some blocks =>
    obtain ⟨st₂, hrecord, h⟩ := of_bind h
    cases h
    exact .scheduled hplan hne hend hrecord
  | none =>
    cases h
    exact .lost hend

section

variable {Q : StepState → Prop} {n : Int} {i₁ : Nat} {res : Option (List (List BlockRef))}
  (hkv : ∀ {st} kv, Q st → Q (st.setKV kv))
  (hcache : ∀ {st} cache, Q st → Q (st.setEncoderCache cache))
  (hroom : ∀ {st i r st' i'}, Q st → v.makeRoom st i = .ok (r, st', i') → Q st')

include hkv hroom

theorem MakesRoom.keeps (hQ : Q st) (h : MakesRoom v cfg request n st i st' i₁) : Q st' := by
  induction h with
  | refl => exact hQ
  | step _ _ hmade _ ih => exact hroom (hkv _ ih) hmade

theorem RoomEnd.keeps (hQ : Q st) (h : RoomEnd v cfg request n st i st' i₁ res) : Q st' := by
  cases h with
  | got hbefore _ => exact hkv _ (hbefore.keeps hkv hroom hQ)
  | lost hbefore _ hmade => exact hroom (hkv _ (hbefore.keeps hkv hroom hQ)) hmade

include hcache

theorem RunningRound.keeps {next : Option Nat}
    (hrecord : ∀ {st p blocks st'}, Q st → st.scheduleRunning request p blocks = .ok st' → Q st')
    (hQ : Q st) (h : RunningRound v cfg env st i request st' next) : Q st' := by
  cases h with
  | idle => exact hcache _ hQ
  | scheduled _ _ hend hscheduled =>
    exact hrecord (hend.keeps hkv hroom (hcache _ hQ)) hscheduled
  | lost hend => exact hend.keeps hkv hroom (hcache _ hQ)

end

variable {I : StepState → Nat → Prop} {J : StepState → Prop}

theorem runningLoop_rule (hdone : ∀ st i, I st i → J st)
    (hround : ∀ st i request st' next, I st i → st.sched.running[i]? = some request →
      RunningRound v cfg env st i request st' next → next.elim (J st') (I st'))
    (hI : I st i) (h : runningLoop v cfg env fuel st i = .ok st') : J st' := by
  induction fuel generalizing st i with
  | zero =>
    cases h
    exact hdone _ _ hI
  | succ fuel ih =>
    rw [runningLoop] at h
    split at h
    · split at h
      · cases h
        exact hdone _ _ hI
      rename_i request hget
      obtain ⟨⟨st₁, next⟩, hrun, h⟩ := of_bind h
      have hnext := hround st i request st₁ next hI hget (runningRound_cases hrun)
      cases next with
      | none =>
        cases h
        exact hnext
      | some j => exact ih hnext h
    · cases h
      exact hdone _ _ hI

/-! ## The waiting loop -/

structure HeadPlanned (v : ScheduleVariant) (cfg : SchedulerConfig) (env : CallEnv)
    (st : StepState) (which : WaitingQueue) (request : ReqId) (s₁ : Scheduler) (f : FoundTokens)
    (plan : Option EncoderPlan) (cache : EncoderCacheManager) : Prop where
  peek : peekRequest (st.sched.queue which) = .ok request
  promoted : v.promote st.sched request = .ok (s₁, true)
  found : findTokens cfg env s₁ (s₁.objects request) = .ok (some f)
  plan : planWaiting cfg env (f.record cfg (s₁.objects request)) f v st.tokenBudget
    st.encoderComputeBudget s₁.encoderCacheManager = .ok (plan, cache)

def StepState.atHead (cfg : SchedulerConfig) (st : StepState) (request : ReqId) (s₁ : Scheduler)
    (f : FoundTokens) (cache : EncoderCacheManager) : StepState :=
  (({ st with sched := s₁ } : StepState).modify request (f.record cfg)).setEncoderCache cache

inductive WaitingRound (v : ScheduleVariant) (cfg : SchedulerConfig) (env : CallEnv)
    (st : StepState) (which : WaitingQueue) : StepState → Bool → Prop
  | skipped {request : ReqId} {s₁ : Scheduler} {ready : Bool} {st₂ : StepState}
      (hpeek : peekRequest (st.sched.queue which) = .ok request)
      (hpromoted : v.promote st.sched request = .ok (s₁, ready))
      (hskip : ({ st with sched := s₁ } : StepState).skip cfg which = .ok st₂) :
      WaitingRound v cfg env st which st₂ true
  | stopped {request : ReqId} {s₁ : Scheduler} {f : FoundTokens} {cache : EncoderCacheManager}
      (hhead : HeadPlanned v cfg env st which request s₁ f none cache) :
      WaitingRound v cfg env st which (st.atHead cfg request s₁ f cache) false
  | refused {request : ReqId} {s₁ : Scheduler} {f : FoundTokens} {p : EncoderPlan}
      {cache : EncoderCacheManager} {kv : KVCacheManager}
      (hhead : HeadPlanned v cfg env st which request s₁ f (some p) cache) :
      WaitingRound v cfg env st which
        (((st.atHead cfg request s₁ f cache).setKV kv).refuse request) false
  | allocated {request : ReqId} {s₁ : Scheduler} {f : FoundTokens} {p : EncoderPlan}
      {cache : EncoderCacheManager} {kv : KVCacheManager} {blocks : List (List BlockRef)}
      {q : List ReqId} {st₂ st₃ : StepState}
      (hhead : HeadPlanned v cfg env st which request s₁ f (some p) cache)
      (halloc : v.allocateWaiting s₁.kvCacheManager (f.record cfg (s₁.objects request))
        (waitingSlotArgs cfg (f.record cfg (s₁.objects request)) f p.numNewTokens) =
          .ok (kv, some blocks)) (hst₂ : st₂ = (st.atHead cfg request s₁ f cache).setKV kv)
      (hpop : popRequest cfg.policy st₂.sched.before (st₂.sched.queue which) =
        .ok (request, q))
      (hkind : (f.loadKvAsync = true ∧
          st₃ = ({ st₂ with sched := st₂.sched.setQueue q which } : StepState).awaitRemoteKvs cfg
            request f) ∨
        (f.loadKvAsync = false ∧
          (v.takeDrafts { st₂ with sched := st₂.sched.setQueue q which } request
            p.numNewTokens).admitRequest cfg request f p = .ok st₃)) :
      WaitingRound v cfg env st which st₃ true

/-- A promotion leaves the queues alone. -/
def ScheduleVariant.KeepsWaiting (v : ScheduleVariant) : Prop :=
  ∀ {s r s' ready}, v.promote s r = .ok (s', ready) → ∀ which, s'.queue which = s.queue which

variable (f : Request → Request)

theorem modify_objects_self : (s.modify r f).objects r = f (s.objects r) := if_pos rfl

theorem modify_objects_ne {q : ReqId} (hne : q ≠ r) :
    (s.modify r f).objects q = s.objects q := if_neg hne

/-- All ways in which a round of the second loop can end. -/
theorem waitingRound_cases (hv : v.KeepsWaiting) {goOn : Bool}
    (h : waitingRound cfg env st which v = .ok (st', goOn)) :
    WaitingRound v cfg env st which st' goOn := by
  obtain ⟨request, hpeek, h⟩ := of_bind h
  obtain ⟨⟨s₁, ready⟩, hpromoted, h⟩ := of_bind h
  dsimp only at h
  split at h
  · obtain ⟨st₂, hskip, h⟩ := of_bind h
    cases h
    exact .skipped hpeek hpromoted hskip
  rename_i hready
  obtain rfl : ready = true := (by simpa using hready : _ ∧ _).1
  obtain ⟨found, hfound, h⟩ := of_bind h
  cases found with
  | none =>
    obtain ⟨st₂, hskip, h⟩ := of_bind h
    cases h
    exact .skipped hpeek hpromoted hskip
  | some f =>
    obtain ⟨⟨plan, cache⟩, hplan, h⟩ := of_bind h
    have hreq : (({ st with sched := s₁ } : StepState).modify request (f.record cfg)).req request =
        f.record cfg (s₁.objects request) := modify_objects_self _
    rw [hreq] at hplan
    cases plan with
    | none =>
      cases h
      exact .stopped ⟨hpeek, hpromoted, hfound, hplan⟩
    | some p =>
      obtain ⟨⟨kv, newBlocks⟩, halloc, h⟩ := of_bind h
      have hreq' : (st.atHead cfg request s₁ f cache).req request =
          f.record cfg (s₁.objects request) := hreq
      rw [← StepState.atHead, hreq'] at halloc
      cases newBlocks with
      | none =>
        cases h
        exact .refused ⟨hpeek, hpromoted, hfound, hplan⟩
      | some blocks =>
        obtain ⟨⟨request', q⟩, hpop, h⟩ := of_bind h
        -- what is popped is the request that was looked at
        have hsame : request' = request := by
          have hpeek' := (popRequest_spec hpop).1
          have hq : ((st.atHead cfg request s₁ f cache).setKV kv).sched.queue which =
              s₁.queue which := by cases which <;> rfl
          rw [← StepState.atHead, hq, hv hpromoted, hpeek] at hpeek'
          exact (Except.ok.inj hpeek').symm
        subst hsame
        dsimp only at h
        split at h
        · rename_i hasync
          cases h
          exact .allocated ⟨hpeek, hpromoted, hfound, hplan⟩ halloc rfl hpop (Or.inl ⟨hasync, rfl⟩)
        · rename_i hasync
          obtain ⟨st₃, hadmitted, h⟩ := of_bind h
          cases h
          exact .allocated ⟨hpeek, hpromoted, hfound, hplan⟩ halloc rfl hpop
            (Or.inr ⟨Bool.eq_false_iff.mpr hasync, hadmitted⟩)

theorem waitingLoop_rule (hv : v.KeepsWaiting) {W E : StepState → Prop} (hdone : ∀ st, W st → E st)
    (hround : ∀ st which st' goOn, W st → WaitingRound v cfg env st which st' goOn →
      if goOn then W st' else E st') (hW : W st) (h : waitingLoop v cfg env fuel st = .ok st') :
    E st' := by
  induction fuel generalizing st with
  | zero =>
    cases h
    exact hdone _ hW
  | succ fuel ih =>
    rw [waitingLoop] at h
    split at h
    · split at h
      · cases h
        exact hdone _ hW
      rename_i which _
      obtain ⟨⟨st₁, goOn⟩, hrun, h⟩ := of_bind h
      have hnext := hround st which st₁ goOn hW (waitingRound_cases hv hrun)
      cases goOn with
      | true => exact ih hnext h
      | false =>
        cases h
        exact hnext
    · cases h
      exact hdone _ hW

/-! ## Promotion in the base class -/

inductive RemoteKvUpdate (s : Scheduler) (r : ReqId) : Scheduler → Prop
  | failed {kv : KVCacheManager} (hfailed : r ∈ s.failedRecvingKvReqIds)
      (hkv : s.keepValidBlocks r = .ok kv) :
      RemoteKvUpdate s r
        { s with
          kvCacheManager := kv
          failedRecvingKvReqIds := s.failedRecvingKvReqIds.filter (· ≠ r)
          finishedRecvingKvReqIds := s.finishedRecvingKvReqIds.filter (· ≠ r) }
  | loaded {kv : KVCacheManager} (hfailed : r ∉ s.failedRecvingKvReqIds)
      (hkv : s.kvCacheManager.cacheBlocks (s.objects r).view
        (s.objects r).numComputedTokens.toNat = .ok kv) :
      RemoteKvUpdate s r
        { s.modify r Scheduler.loaded with
          kvCacheManager := kv
          finishedRecvingKvReqIds := s.finishedRecvingKvReqIds.filter (· ≠ r) }

theorem updateWaitingForRemoteKv_cases (h : s.updateWaitingForRemoteKv cfg r = .ok s') :
    RemoteKvUpdate s r s' := by
  obtain ⟨-, -, h⟩ := of_bind h
  split at h
  · rename_i hfailed
    obtain ⟨kv, hkv, h⟩ := of_bind h
    cases h
    exact .failed hfailed hkv
  · rename_i hfailed
    obtain ⟨kv, hkv, h⟩ := of_bind h
    cases h
    exact .loaded hfailed hkv

inductive PromoteEffect (env : CallEnv) (s : Scheduler) (r : ReqId) : Scheduler → Bool → Prop
  | notYet : PromoteEffect env s r s false
  | grammar (hstatus : (s.objects r).status = .waitingForStructuredOutputGrammar)
      (hready : env.grammarReady r = true) :
      PromoteEffect env s r (s.modify r fun q => { q with status := .waiting }) true
  | remoteKvs {s₁ : Scheduler} (hstatus : (s.objects r).status = .waitingForRemoteKvs)
      (hrecv : r ∈ s.finishedRecvingKvReqIds) (hupdate : RemoteKvUpdate s r s₁) :
      PromoteEffect env s r
        (s₁.modify r fun q =>
          { q with status := if q.numPreemptions ≠ 0 then .preempted else .waiting }) true

theorem tryPromote_cases {ready : Bool}
    (h : s.tryPromoteBlockedWaitingRequest cfg env r = .ok (s', ready)) :
    PromoteEffect env s r s' ready := by
  unfold Scheduler.tryPromoteBlockedWaitingRequest at h
  split at h
  · rename_i hstatus
    split at h
    · rename_i hrecv
      obtain ⟨s₁, hs₁, h⟩ := of_bind h
      cases h
      exact .remoteKvs hstatus hrecv (updateWaitingForRemoteKv_cases hs₁)
    · cases h
      exact .notYet
  · rename_i hstatus
    split at h
    · rename_i hready
      cases h
      exact .grammar hstatus hready
    · cases h
      exact .notYet
  · obtain ⟨-, -, h⟩ := of_bind h
    cases h
    exact .notYet
  · cases h

theorem promote_cases {ready : Bool} (h : s.promote cfg env r = .ok (s', ready)) :
    ((s.objects r).status.isBlockedWaiting = false ∧ s' = s) ∨ PromoteEffect env s r s' ready := by
  unfold Scheduler.promote at h
  split at h <;> rename_i hblocked
  · exact Or.inr (tryPromote_cases h)
  · cases h
    exact Or.inl ⟨Bool.eq_false_iff.mpr hblocked, rfl⟩

theorem Scheduler.variant_keepsWaiting : (Scheduler.variant cfg env).KeepsWaiting := by
  intro s r s' ready h which
  obtain ⟨-, rfl⟩ | heffect := promote_cases h
  · rfl
  · cases heffect with
    | notYet => rfl
    | grammar _ _ => cases which <;> rfl
    | remoteKvs _ _ hupdate => cases hupdate <;> cases which <;> rfl

/-! ## The whole step -/

theorem recordLoras_cases (h : st.recordLoras cfg = .ok st') :
    ∃ loras, st' = { st with scheduledLoras := loras } := by
  unfold StepState.recordLoras at h
  split at h
  · cases h
    exact ⟨st.scheduledLoras, rfl⟩
  · obtain ⟨-, -, h⟩ := of_bind h
    cases h
    exact ⟨_, rfl⟩

def StepState.requeue (cfg : SchedulerConfig) (st : StepState) : StepState :=
  { st with
    sched :=
      { st.sched with
        skippedWaiting := prependRequests cfg.policy st.sched.before
          st.sched.skippedWaiting st.stepSkippedWaiting } }

/-- The invariant rule of `schedule`: `I` along the running loop, `J` after it, `W` along the
waiting loop, which runs only if nobody was preempted or dropped, `E` after it, `K` once the skipped
requests are back in their queue. -/
theorem schedule_rule (hv : v.KeepsWaiting) {W E K : StepState → Prop} {out : SchedulerOutput}
    {dropped : List ReqId} (hstart : I (StepState.start cfg s) 0) (hdone : ∀ st i, I st i → J st)
    (hrunning : ∀ st i request st' next, I st i → st.sched.running[i]? = some request →
      RunningRound v cfg env st i request st' next → next.elim (J st') (I st'))
    (hpaused : ∀ st loras, J st → K { st with scheduledLoras := loras })
    (henter : ∀ st loras, J st → st.preemptedReqs = [] → st.recomputedReqs = [] →
      W { st with scheduledLoras := loras })
    (hended : ∀ st, W st → E st)
    (hwaiting : ∀ st which st' goOn, W st → WaitingRound v cfg env st which st' goOn →
      if goOn then W st' else E st')
    (hrequeue : ∀ st, E st → K (st.requeue cfg))
    (h : s.scheduleAs cfg env v = .ok (s', out, dropped)) :
    ∃ st s₁, K st ∧ st.finish cfg = .ok (s₁, out) ∧ s' = s₁.updateAfterSchedule cfg out ∧
      dropped = st.recomputedReqs := by
  obtain ⟨st₁, hrun, h⟩ := of_bind h
  obtain ⟨st₂, hlora, h⟩ := of_bind h
  obtain ⟨st₃, hwait, h⟩ := of_bind h
  obtain ⟨⟨s₁, out₁⟩, hfinish, h⟩ := of_bind h
  cases h
  refine ⟨st₃, s₁, ?_, hfinish, rfl, rfl⟩
  have hJ₁ : J st₁ := runningLoop_rule hdone hrunning hstart hrun
  obtain ⟨loras, rfl⟩ := recordLoras_cases hlora
  unfold scheduleWaiting at hwait
  split at hwait
  · rename_i hcond
    obtain ⟨st₄, hloop, hwait⟩ := of_bind hwait
    cases hwait
    rw [Bool.and_eq_true, Bool.and_eq_true, List.isEmpty_iff, List.isEmpty_iff] at hcond
    have hW := henter st₁ loras hJ₁ hcond.1.1 hcond.1.2
    exact hrequeue st₄ (waitingLoop_rule hv hended hwaiting hW hloop)
  · cases hwait
    exact hpaused st₁ loras hJ₁

/-! ## The parts of a round -/

variable {p : EncoderPlan}

theorem scheduleRunning_cases {blocks : List (List BlockRef)}
    (h : st.scheduleRunning request p blocks = .ok st') :
    ∃ cache inputs budget, st' =
        { st with
          sched :=
            { st.sched.modify request (fun r => { r with specTokenIds := [] }) with
              encoderCacheManager := cache }
          scheduledRunningReqs := st.scheduledRunningReqs ++ [request]
          reqToNewBlocks := st.reqToNewBlocks.set request blocks
          numScheduledTokens := st.numScheduledTokens.set request p.numNewTokens
          tokenBudget := st.tokenBudget - p.numNewTokens
          scheduledSpecDecodeTokens :=
            if scheduledDrafts (st.req request) p.numNewTokens = [] then
              st.scheduledSpecDecodeTokens
            else st.scheduledSpecDecodeTokens.set request
              (scheduledDrafts (st.req request) p.numNewTokens)
          scheduledEncoderInputs := inputs
          encoderComputeBudget := budget } := by
  obtain ⟨_, -, h⟩ := of_bind h
  obtain ⟨cache, -, h⟩ := of_bind h
  cases h
  exact ⟨cache, _, _, rfl⟩

theorem admitRequest_cases {f : FoundTokens} (h : st.admitRequest cfg request f p = .ok st') :
    ∃ cache loras newReqs resumedReqs inputs budget,
      (((st.req request).status = .waiting ∧ newReqs = st.scheduledNewReqs ++ [request] ∧
          resumedReqs = st.scheduledResumedReqs) ∨
        ((st.req request).status = .preempted ∧ newReqs = st.scheduledNewReqs ∧
          resumedReqs = st.scheduledResumedReqs ++ [request])) ∧
      st' =
        { st with
          sched :=
            { st.sched.modify request (startRunning f) with
              running := st.sched.running ++ [request]
              encoderCacheManager := cache }
          scheduledNewReqs := newReqs
          scheduledResumedReqs := resumedReqs
          scheduledLoras := loras
          reqToNewBlocks := st.reqToNewBlocks.set request
            (st.sched.kvCacheManager.getBlocks request)
          numScheduledTokens := st.numScheduledTokens.set request p.numNewTokens
          tokenBudget := st.tokenBudget - p.numNewTokens
          scheduledEncoderInputs := inputs
          encoderComputeBudget := budget } := by
  obtain ⟨st₁, hrec, h⟩ := of_bind h
  obtain ⟨_, -, h⟩ := of_bind h
  obtain ⟨cache, -, h⟩ := of_bind h
  unfold StepState.recordAdmitted at hrec
  split at hrec
  · rename_i hstatus
    cases hrec
    cases h
    exact ⟨cache, _, _, _, _, _, Or.inl ⟨hstatus, rfl, rfl⟩, rfl⟩
  · rename_i hstatus
    cases hrec
    cases h
    exact ⟨cache, _, _, _, _, _, Or.inr ⟨hstatus, rfl, rfl⟩, rfl⟩
  · cases hrec

theorem lowestPriority_mem (objects : ReqId → Request) (rs : List ReqId) (best : ReqId) :
    lowestPriority objects rs best ∈ best :: rs := by
  induction rs generalizing best with
  | nil => exact mem_singleton.mpr rfl
  | cons r rs ih =>
    rw [lowestPriority]
    split
    · exact mem_cons_of_mem _ (ih r)
    · rcases mem_cons.mp (ih best) with heq | hmem
      · rw [heq]
        exact mem_cons_self
      · exact mem_cons_of_mem _ (mem_cons_of_mem _ hmem)

theorem victim_perm (h : victim cfg s = .ok r) :
    (cfg.policy = .fcfs → (r :: s.running.dropLast).Perm s.running) ∧
      (cfg.policy = .priority → (r :: s.running.erase r).Perm s.running) := by
  unfold victim at h
  split at h
  · rename_i hpolicy
    refine ⟨fun hp => absurd (hpolicy.symm.trans hp) (by decide), fun _ => ?_⟩
    split at h
    · cases h
    · rename_i x xs hrun
      cases h
      rw [hrun]
      exact (perm_cons_erase (lowestPriority_mem s.objects xs x)).symm
  · rename_i hpolicy
    refine ⟨fun _ => ?_, fun hp => absurd (hpolicy.symm.trans hp) (by decide)⟩
    split at h
    · cases h
    · rename_i x hlast
      cases h
      have happ := dropLast_append_getLast? r hlast
      nth_rewrite 2 [← happ]
      exact (perm_append_singleton r _).symm

theorem takeBack_cases (h : st.takeBack r = .ok st') : ∃ n budget, st' = { st with
          scheduledRunningReqs := st.scheduledRunningReqs.erase r
          tokenBudget := st.tokenBudget + n
          numScheduledTokens := st.numScheduledTokens.erase r
          reqToNewBlocks := st.reqToNewBlocks.erase r
          scheduledSpecDecodeTokens := st.scheduledSpecDecodeTokens.erase r
          scheduledEncoderInputs := st.scheduledEncoderInputs.erase r
          encoderComputeBudget := budget } := by
  unfold StepState.takeBack at h
  split at h
  · cases h
  · rename_i n _
    split at h
    · cases h
      exact ⟨n, _, rfl⟩
    · cases h

inductive VictimRemoved (cfg : SchedulerConfig) (st : StepState) (i : Nat) (r : ReqId) :
    StepState → Nat → Prop
  | other {run : List ReqId} (hperm : (r :: run).Perm st.sched.running)
      (hrun : (cfg.policy = .fcfs ∧ run = st.sched.running.dropLast) ∨
        (cfg.policy = .priority ∧ run = st.sched.running.erase r ∧ r ∉ st.scheduledRunningReqs)) :
      VictimRemoved cfg st i r { st with sched := { st.sched with running := run } } i
  | scheduled {st' : StepState} (hpolicy : cfg.policy = .priority)
      (hperm : (r :: st.sched.running.erase r).Perm st.sched.running)
      (hmem : r ∈ st.scheduledRunningReqs)
      (hback : ({ st with sched := { st.sched with running := st.sched.running.erase r } } :
        StepState).takeBack r = .ok st') :
      VictimRemoved cfg st i r st' (i - 1)

theorem removeVictim_cases (hvictim : victim cfg st.sched = .ok r)
    (h : removeVictim cfg st i r = .ok (st', i')) : VictimRemoved cfg st i r st' i' := by
  have hperm := victim_perm hvictim
  unfold removeVictim at h
  split at h
  · rename_i hpolicy
    cases h
    exact .other (hperm.1 hpolicy) (Or.inl ⟨hpolicy, rfl⟩)
  rename_i hpolicy
  dsimp only at h
  split at h
  · rename_i hmem
    obtain ⟨st₁, hback, h⟩ := of_bind h
    cases h
    exact .scheduled hpolicy (hperm.2 hpolicy) hmem hback
  · rename_i hmem
    cases h
    exact .other (hperm.2 hpolicy) (Or.inr ⟨hpolicy, rfl, hmem⟩)

theorem preemptOne_cases (h : preemptOne cfg st i = .ok (r, st', i')) :
    ∃ st₁ sched, VictimRemoved cfg st i r st₁ i' ∧ st₁.sched.preemptRequest cfg r = .ok sched ∧
      st' = { st₁ with sched := sched, preemptedReqs := st₁.preemptedReqs ++ [r] } := by
  obtain ⟨r₁, hvictim, h⟩ := of_bind h
  obtain ⟨⟨st₁, i₁⟩, hremove, h⟩ := of_bind h
  obtain ⟨sched, hpre, h⟩ := of_bind h
  cases h
  exact ⟨st₁, sched, removeVictim_cases hvictim hremove, hpre, rfl⟩

theorem skip_cases (h : st.skip cfg which = .ok st') :
    ∃ r q, popRequest cfg.policy st.sched.before (st.sched.queue which) = .ok (r, q) ∧
      st' =
        { st with
          sched := st.sched.setQueue q which
          stepSkippedWaiting :=
            prependRequest cfg.policy st.sched.before st.stepSkippedWaiting r } := by
  obtain ⟨⟨r, q⟩, hpop, h⟩ := of_bind h
  cases h
  exact ⟨r, q, hpop, rfl⟩

end VllmEcho
