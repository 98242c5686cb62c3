import VllmEcho.Recompute.DraftCount

/-!
# Every scheduled token exists

Along `RecomputeScheduler.schedule`, a request that is part of the step is scheduled over its
tokens, its placeholders and the drafts that go with it, unless the waiting loop finds tokens of it
in a cache while it counts the drafts.
-/

namespace VllmEcho

open Lib List RequestQueue StepState Scheduler

variable {α : Type} {n : Int} {i i' : Nat} {st st' : StepState} {r v request : ReqId}
  {s s' s₁ : Scheduler} {lost kept : List ReqId} {q : Request}

/-! ## Positions in the list of running requests -/

theorem mem_drop_of_getLast? {l : List α} {x y : α} (hx : x ∈ l.drop i)
    (hlast : l.getLast? = some y) : y ∈ l.drop i := by
  have hne : l.drop i ≠ [] := ne_nil_of_mem hx
  rw [← take_append_drop i l, getLast?_append_of_ne_nil _ hne] at hlast
  exact mem_of_getLast? hlast

theorem mem_drop_dropLast {l : List α} {x y : α} (hx : x ∈ l.drop i)
    (hlast : l.getLast? = some y) (hne : x ≠ y) : x ∈ l.dropLast.drop i := by
  rw [← dropLast_append_getLast? y hlast, drop_append] at hx
  rcases mem_append.mp hx with hmem | hmem
  · exact hmem
  · exact absurd (mem_singleton.mp (mem_of_mem_drop hmem)) hne

theorem getLast?_of_perm {l : List α} {v : α} (h : (v :: l.dropLast).Perm l) :
    l.getLast? = some v := by
  cases hlast : l.getLast? with
  | none =>
    rw [getLast?_eq_none_iff.mp hlast] at h
    exact absurd h.eq_nil (cons_ne_nil _ _)
  | some x =>
    have hperm := h.trans (dropLast_append_getLast? x hlast ▸ perm_append_singleton x l.dropLast)
    have hone : [v].Perm [x] := (perm_append_right_iff l.dropLast).mp hperm
    rw [singleton_perm_singleton.mp hone]

/-- Erasing an element that stands before position `i` moves what comes later one to the left. -/
theorem drop_erase_subset [DecidableEq α] {l : List α} {v : α} (hmem : v ∈ l)
    (hnot : v ∉ l.drop i) : ∀ x ∈ (l.erase v).drop (i - 1), x ∈ l.drop i := by
  have hsplit : v ∈ l.take i := by
    rw [← take_append_drop i l] at hmem
    exact (mem_append.mp hmem).resolve_right hnot
  have herase : l.erase v = (l.take i).erase v ++ l.drop i := by
    nth_rewrite 1 [← take_append_drop i l]
    exact erase_append_left _ hsplit
  have hlen : ((l.take i).erase v).length ≤ i - 1 := by
    rw [length_erase_of_mem hsplit, length_take]
    omega
  intro x hx
  rw [herase, drop_append, drop_eq_nil_of_le hlen] at hx
  exact mem_of_mem_drop hx

/-! ## What has been scheduled so far -/

structure SameTokens (q q' : Request) : Prop where
  tokens : q'.numTokens = q.numTokens
  placeholders : q'.numOutputPlaceholders = q.numOutputPlaceholders

theorem SameTokens.refl (q : Request) : SameTokens q q := ⟨rfl, rfl⟩

theorem SameTokens.trans {q₁ q₂ q₃ : Request} (h : SameTokens q₁ q₂) (h' : SameTokens q₂ q₃) :
    SameTokens q₁ q₃ :=
  ⟨h'.tokens.trans h.tokens, h'.placeholders.trans h.placeholders⟩

namespace StepState

structure Counted (s : Scheduler) (st : StepState) : Prop where
  same : ∀ r, SameTokens (s.objects r) (st.req r)
  tokensExist : ∀ r n, st.numScheduledTokens.get? r = some n → st.TokensExist r n
  running : ∀ r n, st.numScheduledTokens.get? r = some n → r ∈ st.sched.running
  noDrafts : ∀ r, st.numScheduledTokens.get? r = none → st.scheduledSpecDecodeTokens.get? r = none

theorem TokensExist.congr (h : st.TokensExist r n) (hdrafts : st'.drafts r = st.drafts r)
    (hsame : SameTokens (st.req r) (st'.req r))
    (hcomputed : (st'.req r).numComputedTokens = (st.req r).numComputedTokens) :
    st'.TokensExist r n := by
  unfold TokensExist
  rw [hdrafts, hsame.tokens, hsame.placeholders, hcomputed]
  exact h

namespace Counted

/-- A change that schedules nothing; of the scheduled requests it keeps the computed tokens. -/
theorem keep (h : st.Counted s) (htokens : st'.numScheduledTokens = st.numScheduledTokens)
    (hdrafts : st'.scheduledSpecDecodeTokens = st.scheduledSpecDecodeTokens)
    (hsame : ∀ r, SameTokens (st.req r) (st'.req r))
    (hscheduled : ∀ r n, st.numScheduledTokens.get? r = some n →
      (st'.req r).numComputedTokens = (st.req r).numComputedTokens ∧ r ∈ st'.sched.running) :
    st'.Counted s where
  same r := (h.same r).trans (hsame r)
  tokensExist r n hr := by
    rw [htokens] at hr
    refine (h.tokensExist r n hr).congr ?_ (hsame r) (hscheduled r n hr).1
    unfold drafts
    rw [hdrafts]
  running r n hr := by
    rw [htokens] at hr
    exact (hscheduled r n hr).2
  noDrafts r hr := by
    rw [htokens] at hr
    rw [hdrafts]
    exact h.noDrafts r hr

/-- One more request is scheduled. -/
theorem add (h : st.Counted s)
    (htokens : st'.numScheduledTokens = st.numScheduledTokens.set request n)
    (hdrafts : ∀ r, r ≠ request →
      st'.scheduledSpecDecodeTokens.get? r = st.scheduledSpecDecodeTokens.get? r)
    (hsame : ∀ r, SameTokens (st.req r) (st'.req r))
    (hcomputed : ∀ r, r ≠ request →
      (st'.req r).numComputedTokens = (st.req r).numComputedTokens)
    (hrunning : ∀ r ∈ st.sched.running, r ∈ st'.sched.running)
    (hmem : request ∈ st'.sched.running) (hexist : st'.TokensExist request n) :
    st'.Counted s := by
  refine ⟨fun r => (h.same r).trans (hsame r), fun r n' hr => ?_, fun r n' hr => ?_, fun r hr => ?_⟩
  · rw [htokens, Dict.get?_set] at hr
    split at hr <;> rename_i hne
    · cases hr
      rw [hne]
      exact hexist
    · refine (h.tokensExist r n' hr).congr ?_ (hsame r) (hcomputed r hne)
      unfold drafts
      rw [hdrafts r hne]
  · rw [htokens, Dict.get?_set] at hr
    split at hr <;> rename_i hne
    · rw [hne]
      exact hmem
    · exact hrunning r (h.running r n' hr)
  · rw [htokens, Dict.get?_set] at hr
    split at hr <;> rename_i hne
    · cases hr
    · rw [hdrafts r hne]
      exact h.noDrafts r hr

end Counted

end StepState

theorem preempted_sameTokens (s : Scheduler) (v r : ReqId) :
    SameTokens (s.objects r) ((s.modify v preempted).objects r) := by
  by_cases hr : r = v
  · rw [hr, modify_objects_self]
    exact ⟨rfl, rfl⟩
  · rw [modify_objects_ne _ hr]
    exact .refl _

theorem takeBack_scheduled (h : st.takeBack r = .ok st') :
    ∃ n, st.numScheduledTokens.get? r = some n := by
  unfold StepState.takeBack at h
  split at h
  · cases h
  · rename_i n hget
    exact ⟨n, hget⟩

/-! ## The running loop -/

namespace RecomputeScheduler

variable {cfg : RecomputeConfig} {env : CallEnv} {next : Option Nat}

structure Untouched (s : Scheduler) (st : StepState) : Prop where
  config : st.sched.kvCacheManager.config = s.kvCacheManager.config
  object : ∀ r ∈ st.sched.waiting ++ st.sched.skippedWaiting,
    r ∈ s.waiting ++ s.skippedWaiting ∧ st.req r = s.objects r

structure LoopEnd (s : Scheduler) (lost kept : List ReqId) (st : StepState) : Prop where
  queued : st.Queued (lost ++ st.recomputedReqs) kept
  skipped : st.stepSkippedWaiting = []
  counted : st.Counted s
  untouched : st.preemptedReqs = [] → st.recomputedReqs = [] → Untouched s st

structure LoopInv (s : Scheduler) (lost kept : List ReqId) (st : StepState) (i : Nat) : Prop
    extends LoopEnd s lost kept st where
  pending : ∀ r ∈ st.sched.running.drop i, st.numScheduledTokens.get? r = none
  recorded : ∀ r n, st.numScheduledTokens.get? r = some n → r ∈ st.scheduledRunningReqs

/-- Inside a round for `request`, whose object is `q`.  While the last running request makes room,
the request keeps its position; by priority, others may leave from before it. -/
structure RoundInv (cfg : RecomputeConfig) (s : Scheduler) (lost kept : List ReqId)
    (request : ReqId) (q : Request) (st : StepState) (i : Nat) : Prop
    extends LoopInv s lost kept st i where
  notYet : st.numScheduledTokens.get? request = none
  object : st.req request = q
  runs : request ∈ st.sched.running
  place : cfg.drops = true ∨ cfg.policy = .fcfs → request ∈ st.sched.running.drop i
  beyond : request ∉ st.sched.running.drop (i + 1)

structure Removed (st : StepState) (i : Nat) (v : ReqId) (st' : StepState) (i' : Nat) : Prop where
  object : ∀ r, r ≠ v → st'.req r = st.req r
  same : ∀ r, SameTokens (st.req r) (st'.req r)
  others : ∀ r, r ≠ v → st'.numScheduledTokens.get? r = st.numScheduledTokens.get? r ∧
    st'.scheduledSpecDecodeTokens.get? r = st.scheduledSpecDecodeTokens.get? r
  victim : st'.numScheduledTokens.get? v = none ∧ st'.scheduledSpecDecodeTokens.get? v = none
  recorded : ∀ r, r ≠ v → r ∈ st.scheduledRunningReqs → r ∈ st'.scheduledRunningReqs
  running : ∀ r, r ≠ v → r ∈ st.sched.running → r ∈ st'.sched.running
  later : ∀ r ∈ st'.sched.running.drop i', r ∈ st.sched.running.drop i
  beyond : ∀ r ∈ st'.sched.running.drop (i' + 1), r ∈ st.sched.running.drop (i + 1)

namespace Removed

variable {run : List ReqId} {sched : Scheduler}

/-- A victim outside the step leaves `running`, wherever it stood. -/
theorem unscheduled (h : st.Counted s) (hnot : st.numScheduledTokens.get? v = none)
    (hrun : run.Sublist st.sched.running) (hkeep : ∀ r, r ≠ v → r ∈ st.sched.running → r ∈ run)
    (hsched : sched.running = run)
    (hobj : ∀ r, r ≠ v → sched.objects r = st.sched.objects r)
    (hsame : ∀ r, SameTokens (st.sched.objects r) (sched.objects r))
    (preempted recomputed : List ReqId) :
    Removed st i v
      { st with sched := sched, preemptedReqs := preempted, recomputedReqs := recomputed } i where
  object := hobj
  same := hsame
  others _ _ := ⟨rfl, rfl⟩
  victim := ⟨hnot, h.noDrafts v hnot⟩
  recorded _ _ hr := hr
  running r hne hr := by
    rw [hsched]
    exact hkeep r hne hr
  later r hr := by
    rw [hsched] at hr
    exact (hrun.drop i).mem hr
  beyond r hr := by
    rw [hsched] at hr
    exact (hrun.drop (i + 1)).mem hr

theorem counted (h : st.Counted s) (hremoved : Removed st i v st' i') : st'.Counted s := by
  have hne : ∀ {r n}, st'.numScheduledTokens.get? r = some n → r ≠ v := by
    rintro r n hr rfl
    rw [hremoved.victim.1] at hr
    cases hr
  refine ⟨fun r => (h.same r).trans (hremoved.same r), fun r n hr => ?_, fun r n hr => ?_,
    fun r hr => ?_⟩
  · have hold := hr
    rw [(hremoved.others r (hne hr)).1] at hold
    refine (h.tokensExist r n hold).congr ?_ (hremoved.same r) ?_
    · unfold drafts
      rw [(hremoved.others r (hne hr)).2]
    · rw [hremoved.object r (hne hr)]
  · have hold := hr
    rw [(hremoved.others r (hne hr)).1] at hold
    exact hremoved.running r (hne hr) (h.running r n hold)
  · by_cases hrv : r = v
    · rw [hrv]
      exact hremoved.victim.2
    · rw [(hremoved.others r hrv).1] at hr
      rw [(hremoved.others r hrv).2]
      exact h.noDrafts r hr

theorem pending (h : ∀ r ∈ st.sched.running.drop i, st.numScheduledTokens.get? r = none)
    (hremoved : Removed st i v st' i') :
    ∀ r ∈ st'.sched.running.drop i', st'.numScheduledTokens.get? r = none := by
  intro r hr
  by_cases hrv : r = v
  · rw [hrv]
    exact hremoved.victim.1
  · rw [(hremoved.others r hrv).1]
    exact h r (hremoved.later r hr)

end Removed

/-- Whoever makes room: it is removed, and the request stays in place if the last one was taken. -/
theorem MadeRoom.removed (h : RoundInv cfg s lost kept request q st i)
    (hroom : MadeRoom cfg st i v st' i') :
    Removed st i v st' i' ∧
      (st'.preemptedReqs ≠ [] ∨ st'.recomputedReqs ≠ []) ∧
      (v ≠ request → cfg.drops = true ∨ cfg.policy = .fcfs →
        request ∈ st'.sched.running.drop i') := by
  have hlastCase : ∀ {v}, cfg.drops = true ∨ cfg.policy = .fcfs →
      st.sched.running.getLast? = some v → st.numScheduledTokens.get? v = none :=
    fun hlast hv => h.pending _ (mem_drop_of_getLast? (h.place hlast) hv)
  have hdropLast : ∀ {v r}, st.sched.running.getLast? = some v → r ≠ v →
      r ∈ st.sched.running → r ∈ st.sched.running.dropLast := by
    intro v r hv hne hr
    rw [← dropLast_append_getLast? v hv] at hr
    exact (mem_append.mp hr).resolve_right fun hmem => hne (mem_singleton.mp hmem)
  cases hroom with
  | dropped hdrops hlast =>
    refine ⟨Removed.unscheduled h.counted (hlastCase (Or.inl hdrops) hlast) (dropLast_sublist _)
      (fun r => hdropLast hlast) ?_ ?_ ?_ _ _,
      Or.inr (append_ne_nil_of_right_ne_nil _ (cons_ne_nil _ _)), fun hne _ => ?_⟩
    · rfl
    · exact fun _ _ => rfl
    · exact fun _ => .refl _
    · exact mem_drop_dropLast (h.place (Or.inl hdrops)) hlast hne.symm
  | preempted hdrops hpreempt =>
    obtain ⟨st₁, sched, hremoved, hpre, rfl⟩ := preemptOne_cases hpreempt
    obtain ⟨kv, rfl⟩ := preemptRequest_cases hpre
    have hothers : ∀ r, r ≠ v → (st₁.sched.modify v Scheduler.preempted).objects r =
        st₁.sched.objects r := fun r hr => modify_objects_ne _ hr
    cases hremoved with
    | @other run hperm hrun =>
      -- the victim is not part of the step yet: nothing is taken back
      have hsub : run.Sublist st.sched.running := by
        rcases hrun with ⟨-, rfl⟩ | ⟨-, rfl, -⟩
        · exact dropLast_sublist _
        · exact erase_sublist
      have hnot : st.numScheduledTokens.get? v = none := by
        rcases hrun with ⟨hfcfs, rfl⟩ | ⟨-, -, hmem⟩
        · exact hlastCase (Or.inr hfcfs) (getLast?_of_perm hperm)
        · cases hget : st.numScheduledTokens.get? v with
          | none => rfl
          | some n => exact absurd (h.recorded v n hget) hmem
      refine ⟨Removed.unscheduled h.counted hnot hsub (fun r hne hr => ?_) ?_ ?_ ?_ _ _,
        Or.inl (append_ne_nil_of_right_ne_nil _ (cons_ne_nil _ _)), fun hne hplace => ?_⟩
      · exact (mem_cons.mp (hperm.mem_iff.mpr hr)).resolve_left hne
      · rfl
      · exact hothers
      · exact preempted_sameTokens st.sched v
      · rcases hrun with ⟨hfcfs, rfl⟩ | ⟨hpriority, -, -⟩
        · exact mem_drop_dropLast (h.place hplace) (getLast?_of_perm hperm) hne.symm
        · rw [hdrops, hpriority] at hplace
          simp at hplace
    | scheduled hpolicy hperm _ hback =>
      -- by priority: the victim was scheduled before, so it stands in front of position `i`
      obtain ⟨n, hget⟩ := takeBack_scheduled hback
      obtain ⟨n₁, budget, rfl⟩ := takeBack_cases hback
      have hmem : v ∈ st.sched.running := hperm.mem_iff.mp mem_cons_self
      have hearlier : v ∉ st.sched.running.drop i := by
        intro hin
        have hnone := h.pending v hin
        rw [hget] at hnone
        cases hnone
      have hpos : i - 1 + 1 = i := by
        cases i with
        | zero => exact absurd hmem hearlier
        | succ i => rfl
      refine ⟨⟨hothers, preempted_sameTokens st.sched v, fun r hr => ⟨?_, ?_⟩, ⟨?_, ?_⟩,
        fun r hr hin => (mem_erase_of_ne hr).mpr hin, fun r hr hin => (mem_erase_of_ne hr).mpr hin,
        drop_erase_subset hmem hearlier, ?_⟩,
        Or.inl (append_ne_nil_of_right_ne_nil _ (cons_ne_nil _ _)), fun hne hplace => ?_⟩
      · exact Dict.get?_erase_ne _ hr
      · exact Dict.get?_erase_ne _ hr
      · exact Dict.get?_erase_self _
      · exact Dict.get?_erase_self _
      · rw [hpos]
        refine drop_erase_subset (i := i + 1) hmem fun hin => hearlier ?_
        rw [← drop_drop] at hin
        exact mem_of_mem_drop hin
      · rw [hdrops, hpolicy] at hplace
        simp at hplace

section

variable (h : RoundInv cfg s lost kept request q st i)
include h

theorem RoundInv.setKV {kv : KVCacheManager}
    (hconfig : kv.config = st.sched.kvCacheManager.config) :
    RoundInv cfg s lost kept request q (st.setKV kv) i :=
  { h with
    queued := h.queued.setKV kv
    counted := h.counted.keep rfl rfl (fun _ => .refl _) fun r n hr =>
      ⟨rfl, h.counted.running r n hr⟩
    untouched := fun hpre hrec =>
      ⟨hconfig.trans (h.untouched hpre hrec).config, (h.untouched hpre hrec).object⟩ }

theorem MadeRoom.loopEnd (hroom : MadeRoom cfg st i v st' i') : LoopEnd s lost kept st' := by
  obtain ⟨hremoved, hmade, -⟩ := hroom.removed h
  obtain ⟨hqueued, hskip⟩ := hroom.queued h.queued
  refine ⟨hqueued, hskip.trans h.skipped, hremoved.counted h.counted, fun hpre hrec => ?_⟩
  exact absurd hmade (not_or.mpr ⟨not_not.mpr hpre, not_not.mpr hrec⟩)

theorem MadeRoom.round (hroom : MadeRoom cfg st i v st' i') (hne : v ≠ request) :
    RoundInv cfg s lost kept request q st' i' := by
  obtain ⟨hremoved, -, hplace⟩ := hroom.removed h
  have hnot : ∀ {r n}, st'.numScheduledTokens.get? r = some n → r ≠ v := by
    rintro r n hr rfl
    rw [hremoved.victim.1] at hr
    cases hr
  refine
    { hroom.loopEnd h with
      pending := hremoved.pending h.pending
      recorded := fun r n hr => ?_
      notYet := ?_
      object := (hremoved.object request hne.symm).trans h.object
      runs := hremoved.running request hne.symm h.runs
      place := hplace hne
      beyond := fun hin => h.beyond (hremoved.beyond request hin) }
  · refine hremoved.recorded r (hnot hr) (h.recorded r n ?_)
    rw [← (hremoved.others r (hnot hr)).1]
    exact hr
  · rw [(hremoved.others request hne.symm).1]
    exact h.notYet

end

theorem makesRoom_round {n : Int} (h : RoundInv cfg s lost kept request q st i)
    (hroom : MakesRoom (variant cfg env) cfg.toSchedulerConfig request n st i st' i') :
    RoundInv cfg s lost kept request q st' i' := by
  induction hroom with
  | refl => exact h
  | step _ hrefused hmade hne ih =>
    exact (makeRoom_cases hmade).round
      ((ih h).setKV (KVCacheManager.allocateSlotsFor_config hrefused)) hne

theorem LoopEnd.setEncoderCache (h : LoopEnd s lost kept st) (cache : EncoderCacheManager) :
    LoopEnd s lost kept (st.setEncoderCache cache) where
  queued := h.queued.setEncoderCache cache
  skipped := h.skipped
  counted := h.counted.keep rfl rfl (fun _ => .refl _) fun r n hr => ⟨rfl, h.counted.running r n hr⟩
  untouched hpre hrec := ⟨(h.untouched hpre hrec).config, (h.untouched hpre hrec).object⟩

theorem LoopInv.round (h : LoopInv s lost kept st i)
    (hget : st.sched.running[i]? = some request) (cache : EncoderCacheManager) :
    RoundInv cfg s lost kept request (st.req request) (st.setEncoderCache cache) i := by
  obtain ⟨hlt, heq⟩ := List.getElem?_eq_some_iff.mp hget
  have hmem : request ∈ st.sched.running.drop i := by
    rw [drop_eq_getElem_cons hlt, heq]
    exact mem_cons_self
  have hnodup : st.sched.running.Nodup :=
    (nodup_append.mp (nodup_append.mp h.queued.nodup).1).1
  refine
    { h.toLoopEnd.setEncoderCache cache with
      pending := h.pending
      recorded := h.recorded
      notYet := h.pending request hmem
      object := rfl
      runs := mem_of_mem_drop hmem
      place := fun _ => hmem
      beyond := fun hin => ?_ }
  have hdrop := hnodup.sublist (drop_sublist i _)
  rw [drop_eq_getElem_cons hlt, heq] at hdrop
  exact (nodup_cons.mp hdrop).1 hin

theorem scheduleRunning_tokensExist {p : EncoderPlan} {budget : Int}
    {encoderBudget : Int} {cache : EncoderCacheManager} {blocks : List (List BlockRef)}
    (hplan : planRunning cfg.toSchedulerConfig env (st.req r) budget encoderBudget cache = .ok p)
    (hne : p.numNewTokens ≠ 0) (hnew : st.scheduledSpecDecodeTokens.get? r = none)
    (hrecord : st.scheduleRunning r p blocks = .ok st') : st'.TokensExist r p.numNewTokens := by
  obtain ⟨cache, inputs, budget, rfl⟩ := scheduleRunning_cases hrecord
  have hlen := scheduledDrafts_length (st.req r) p.numNewTokens
  have hle := (planRunning_le hplan).resolve_right hne
  refine (tokensExist_iff { st.req r with specTokenIds := [] }
    (scheduledDrafts (st.req r) p.numNewTokens) ?_ ?_).mpr ?_
  · exact if_pos rfl
  · exact get?_recorded hnew _
  · rw [hlen]
    unfold Request.numTokensWithSpec at hle
    unfold Request.numTokens
    dsimp only
    omega

/-- The request of the round becomes part of the step. -/
theorem RoundInv.scheduled (h : RoundInv cfg s lost kept request q st i) {p : EncoderPlan}
    {blocks : List (List BlockRef)} (hqueued : st'.Queued (lost ++ st'.recomputedReqs) kept)
    (hexist : st'.TokensExist request p.numNewTokens)
    (hrecord : st.scheduleRunning request p blocks = .ok st') :
    LoopInv s lost kept st' (i + 1) := by
  obtain ⟨cache, inputs, budget, rfl⟩ := scheduleRunning_cases hrecord
  have hothers : ∀ r, r ≠ request → (st.sched.modify request
      fun r => { r with specTokenIds := [] }).objects r = st.req r :=
    fun r hr => modify_objects_ne _ hr
  have hsame : ∀ r, SameTokens (st.req r) ((st.sched.modify request
      fun r => { r with specTokenIds := [] }).objects r) := by
    intro r
    by_cases hr : r = request
    · rw [hr, modify_objects_self]
      exact ⟨rfl, rfl⟩
    · rw [hothers r hr]
      exact .refl _
  refine ⟨⟨hqueued, h.skipped, ?_, fun hpre hrec => ?_⟩, fun r hr => ?_, fun r n hr => ?_⟩
  · refine h.counted.add rfl (fun r hr => ?_) hsame (fun r hr => ?_) (fun _ hr => hr) h.runs hexist
    · show Dict.get? (if _ then _ else _) r = _
      split
      · rfl
      · exact Dict.get?_set_ne _ hr
    · exact congrArg Request.numComputedTokens (hothers r hr)
  · obtain ⟨hconfig, hqueues⟩ := h.untouched hpre hrec
    refine ⟨hconfig, fun r hr => ⟨(hqueues r hr).1, (hothers r ?_).trans (hqueues r hr).2⟩⟩
    rintro rfl
    -- it runs, so it is in no queue
    refine disjoint_of_nodup_append h.queued.nodup (mem_append_left _ h.runs) ?_
    rw [others, h.skipped, append_nil]
    exact hr
  · have hne : r ≠ request := by
      rintro rfl
      exact h.beyond hr
    show (st.numScheduledTokens.set request _).get? r = none
    rw [Dict.get?_set_ne _ hne]
    apply h.pending r
    rw [← drop_drop] at hr
    exact mem_of_mem_drop hr
  · rw [Dict.get?_set] at hr
    split at hr <;> rename_i hne
    · rw [hne]
      exact mem_append_right _ mem_cons_self
    · exact mem_append_left _ (h.recorded r n hr)

/-- One round of the first loop, in all the ways it can end. -/
theorem runningRound_loop (h : LoopInv s lost kept st i)
    (hget : st.sched.running[i]? = some request)
    (hround : RunningRound (variant cfg env) cfg.toSchedulerConfig env st i request st' next) :
    next.elim (LoopEnd s lost kept st') (LoopInv s lost kept st') := by
  obtain ⟨hqueued, -, -⟩ := hround.queued variant_keepsQueues h.queued trivial h.skipped
  cases hround with
  | idle =>
    refine { h.toLoopEnd.setEncoderCache _ with pending := fun r hr => h.pending r ?_
                                                recorded := h.recorded }
    exact mem_of_mem_drop (by rw [drop_drop]; exact hr)
  | @scheduled p st₁ _ i₁ blocks hplan hne hend hrecord =>
    obtain ⟨hbefore, halloc⟩ := hend
    have hround := (makesRoom_round (h.round hget p.cache) hbefore).setKV
      (KVCacheManager.allocateSlotsFor_config halloc)
    rw [← hround.object] at hplan
    have hexist := scheduleRunning_tokensExist hplan hne
      (hround.counted.noDrafts request hround.notYet) hrecord
    exact hround.scheduled hqueued hexist hrecord
  | lost hend =>
    obtain ⟨⟩ | ⟨hbefore, hrefused, hroom⟩ := hend
    exact (makeRoom_cases hroom).loopEnd ((makesRoom_round (h.round hget _) hbefore).setKV
      (KVCacheManager.allocateSlotsFor_config hrefused))

/-! ## The waiting loop -/

/-- No token of the request is found in a cache when it is taken from its queue: the prefix cache is
off or not read, and the connector has none of its tokens or loads them asynchronously. -/
def NothingFound (cfg : RecomputeConfig) (env : CallEnv) (s : Scheduler) (r : ReqId) : Prop :=
  (s.kvCacheManager.config.enableCaching = false ∨ (s.objects r).skipReadingPrefixCache = true) ∧
    (cfg.hasConnector = true →
      (env.getNumNewMatchedTokens (s.objects r).requestId 0).1.getD 0 = 0 ∨
        (env.getNumNewMatchedTokens (s.objects r).requestId 0).2 = true)

/-- The drafts of a queued request are counted from the number of computed tokens that the worker is
sent: there are none to count, that number is known already, or it stays zero. -/
def CountsDrafts (cfg : RecomputeConfig) (env : CallEnv) (s : Scheduler) (r : ReqId) : Prop :=
  cfg.isMtpKvConsumer = true → (s.objects r).specTokenIds ≠ [] →
    (s.objects r).numComputedTokens = 0 ∨ (s.objects r).status = .waitingForRemoteKvs →
    NothingFound cfg env s r

structure PromotedObject (s : Scheduler) (r : ReqId) (s' : Scheduler) : Prop where
  others : ∀ q, q ≠ r → s'.objects q = s.objects q
  object : ∃ status computed cached, s'.objects r = { s.objects r with
      status := status, numComputedTokens := computed, numCachedTokens := cached } ∧
    ((s.objects r).status ≠ .waitingForRemoteKvs → computed = (s.objects r).numComputedTokens)
  running : s'.running = s.running
  config : s'.kvCacheManager.config = s.kvCacheManager.config

theorem Promoted.object {ready : Bool} (h : Promoted cfg env s r s' ready) :
    PromotedObject s r s' := by
  have hrefl : PromotedObject s r s := ⟨fun _ _ => rfl, ⟨_, _, _, rfl, fun _ => rfl⟩, rfl, rfl⟩
  cases h with
  | base hpromote hstatus =>
    obtain ⟨-, rfl⟩ | heffect := VllmEcho.promote_cases hpromote
    · exact hrefl
    cases heffect with
    | notYet => exact hrefl
    | grammar _ _ =>
      exact ⟨fun _ hq => modify_objects_ne _ hq, ⟨_, _, _, modify_objects_self _, fun _ => rfl⟩,
        rfl, rfl⟩
    | remoteKvs hremote _ _ => exact absurd hremote hstatus
  | notYet => exact hrefl
  | loaded hstatus hupdate =>
    obtain ⟨hunmoved, hothers, ⟨computed, cached, hself⟩, hconfig⟩ :=
      updateWaitingForRemoteKv_cases hupdate
    refine ⟨fun q hq => (modify_objects_ne _ hq).trans (hothers q hq),
      ⟨(promotedStatus (s.objects r)).status, computed, cached, ?_, fun hno => absurd hstatus hno⟩,
      hunmoved.running, hconfig⟩
    rw [modify_objects_self, hself]
    rfl

variable {f : FoundTokens}

/-- Only the object of a request outside the step changes. -/
theorem Counted.touch (h : st.Counted s) (hnot : st.numScheduledTokens.get? request = none)
    (htokens : st'.numScheduledTokens = st.numScheduledTokens)
    (hdrafts : st'.scheduledSpecDecodeTokens = st.scheduledSpecDecodeTokens)
    (hrunning : st'.sched.running = st.sched.running)
    (hothers : ∀ r, r ≠ request → st'.req r = st.req r)
    (hself : SameTokens (st.req request) (st'.req request)) : st'.Counted s := by
  refine h.keep htokens hdrafts (fun r => ?_) fun r n hr => ⟨?_, ?_⟩
  · by_cases hr : r = request
    · rw [hr]
      exact hself
    · rw [hothers r hr]
      exact .refl _
  · rw [hothers r]
    rintro rfl
    rw [hnot] at hr
    cases hr
  · rw [hrunning]
    exact h.running r n hr

/-- The head of a queue is taken out of it. -/
theorem Untouched.pop (h : Untouched s st)
    (hnodup : (st.sched.waiting ++ st.sched.skippedWaiting).Nodup)
    (hperm : (request :: (st'.sched.waiting ++ st'.sched.skippedWaiting)).Perm
      (st.sched.waiting ++ st.sched.skippedWaiting))
    (hothers : ∀ r, r ≠ request → st'.req r = st.req r)
    (hconfig : st'.sched.kvCacheManager.config = st.sched.kvCacheManager.config) :
    Untouched s st' := by
  refine ⟨hconfig.trans h.config, fun r hr => ?_⟩
  have hne : r ≠ request := by
    rintro rfl
    exact (nodup_cons.mp (hperm.nodup_iff.mpr hnodup)).1 hr
  rw [hothers r hne]
  exact h.object r (hperm.mem_iff.mp (mem_cons_of_mem _ hr))

/-- Nothing is found without a prefix cache and with a connector that has no tokens. -/
theorem findTokens_nothing {q : Request}
    (h : findTokens cfg.toSchedulerConfig env s q = .ok (some f))
    (hsync : f.loadKvAsync = false)
    (hlocal : s.kvCacheManager.config.enableCaching = false ∨ q.skipReadingPrefixCache = true)
    (hconnector : cfg.hasConnector = true →
      (env.getNumNewMatchedTokens q.requestId 0).1.getD 0 = 0 ∨
        (env.getNumNewMatchedTokens q.requestId 0).2 = true) :
    f.numComputedTokens = q.numComputedTokens := by
  unfold findTokens at h
  split at h <;> rename_i hzero
  · obtain ⟨⟨blocks, numLocal⟩, hblocks, h⟩ := of_bind h
    have hnone : numLocal = 0 := by
      have hoff : (!s.kvCacheManager.config.enableCaching || q.skipReadingPrefixCache) = true := by
        rw [Bool.or_eq_true, Bool.not_eq_true']
        exact hlocal
      cases (if_pos hoff).symm.trans hblocks
      rfl
    subst hnone
    dsimp only at h
    split at h
    · cases h
    rename_i numExternal hext
    obtain ⟨-, -, h⟩ := of_bind h
    cases h
    have hexternal : numExternal = 0 := by
      split at hext <;> rename_i hcon
      · rcases hconnector hcon with hno | hasync
        · rw [hext] at hno
          exact hno
        · rw [if_pos hcon, hasync] at hsync
          cases hsync
      · exact (Option.some.inj hext).symm
    rw [hzero, hexternal]
    rfl
  · cases h
    rfl

structure WaitInv (s : Scheduler) (lost kept : List ReqId) (st : StepState) : Prop where
  queued : st.Queued lost kept
  counted : st.Counted s
  untouched : Untouched s st

variable {which : WaitingQueue} {p : EncoderPlan} {cache : EncoderCacheManager}
  {plan : Option EncoderPlan} {goOn : Bool}

theorem WaitInv.head (h : WaitInv s lost kept st)
    (hpeek : peekRequest (st.sched.queue which) = .ok request) :
    st.numScheduledTokens.get? request = none ∧
      request ∈ st.sched.waiting ++ st.sched.skippedWaiting := by
  have hmem := peekRequest_mem hpeek
  refine ⟨?_, ?_⟩
  · cases hget : st.numScheduledTokens.get? request with
    | none => rfl
    | some n =>
      have hrunning := mem_append_left lost (h.counted.running request n hget)
      exact absurd (peek_mem_others hpeek) (disjoint_of_nodup_append h.queued.nodup hrunning)
  · cases which with
    | waiting => exact mem_append_left _ hmem
    | skippedWaiting => exact mem_append_right _ hmem

/-- What the worker is sent and what the drafts are counted from agree, or no draft is reached. -/
theorem headPlanned_noOverrun
    (hhead : HeadPlanned (variant cfg env) cfg.toSchedulerConfig env st which request s₁ f (some p)
      cache)
    (hobj : st.req request = s.objects request)
    (hconfig : st.sched.kvCacheManager.config = s.kvCacheManager.config)
    (hcond : CountsDrafts cfg env s request) (hsync : f.loadKvAsync = false)
    (hcount : 0 ≤ (s.objects request).numOutputPlaceholders) :
    f.numComputedTokens = (s₁.objects request).numComputedTokens ∨
      f.numComputedTokens + p.numNewTokens ≤
        ((s₁.objects request).numTokens : Int) + (s₁.objects request).numOutputPlaceholders := by
  obtain ⟨-, ⟨status, computed, cached, hself, hcomputed⟩, -, hconfig₁⟩ :=
    (promote_cases hhead.promoted).object
  rw [show st.sched.objects request = s.objects request from hobj] at hself hcomputed
  obtain ⟨numExternal, hrecord⟩ := record_eq cfg f (s₁.objects request)
  have hle := planWaiting_le hsync hhead.plan
  have hfound := findTokens_computed hhead.found
  rw [hrecord, hself] at hle
  unfold waitingNumTokens Request.numTokensWithSpec Request.numTokens at hle
  dsimp only at hle
  by_cases hmtp : cfg.isMtpKvConsumer = true ∧ (s.objects request).specTokenIds ≠ []
  · by_cases hfresh : (s.objects request).numComputedTokens = 0 ∨
        (s.objects request).status = .waitingForRemoteKvs
    · left
      obtain ⟨hlocal, hconnector⟩ := hcond hmtp.1 hmtp.2 hfresh
      apply findTokens_nothing hhead.found hsync
      · rw [hconfig₁, hconfig, hself]
        exact hlocal
      · rw [hself]
        exact hconnector
    · rw [not_or] at hfresh
      rw [hself, hcomputed hfresh.2] at hfound ⊢
      exact Or.inl (hfound.resolve_left fun hno => hfresh.1 hno.1)
  · rw [hself]
    unfold Request.numTokens
    dsimp only
    split at hle <;> rename_i hdrafts
    · rw [not_and, not_not] at hmtp
      rw [hmtp hdrafts, length_nil] at hle
      omega
    · omega

theorem headPlanned_atHead
    (hhead : HeadPlanned (variant cfg env) cfg.toSchedulerConfig env st which request s₁ f plan
      cache) :
    (∀ r, r ≠ request → (st.atHead cfg.toSchedulerConfig request s₁ f cache).req r = st.req r) ∧
      SameTokens (st.req request)
        ((st.atHead cfg.toSchedulerConfig request s₁ f cache).req request) ∧
      (st.atHead cfg.toSchedulerConfig request s₁ f cache).sched.running = st.sched.running := by
  obtain ⟨hothers, ⟨status, computed, cached, hself, -⟩, hrunning, -⟩ :=
    (promote_cases hhead.promoted).object
  obtain ⟨numExternal, hrecord⟩ := record_eq cfg f (s₁.objects request)
  refine ⟨fun r hr => (modify_objects_ne _ hr).trans (hothers r hr), ?_, hrunning⟩
  have hobj : (st.atHead cfg.toSchedulerConfig request s₁ f cache).req request =
      f.record cfg.toSchedulerConfig (s₁.objects request) := modify_objects_self _
  rw [hobj, hrecord, hself]
  exact ⟨rfl, rfl⟩

/-- The head of a queue leaves it. -/
theorem WaitInv.leave (h : WaitInv s lost kept st) {q : List ReqId}
    (hqueue : ∀ which, s₁.queue which = st.sched.queue which)
    (hpop : (request :: q).Perm (s₁.queue which))
    (hsched : st'.sched.waiting = (s₁.setQueue q which).waiting ∧
      st'.sched.skippedWaiting = (s₁.setQueue q which).skippedWaiting)
    (hothers : ∀ r, r ≠ request → st'.req r = st.req r)
    (hconfig : st'.sched.kvCacheManager.config = st.sched.kvCacheManager.config) :
    Untouched s st' := by
  have hperm := setQueue_others_perm s₁ hpop
  rw [← hsched.1, ← hsched.2, show s₁.waiting = st.sched.waiting from hqueue .waiting,
    show s₁.skippedWaiting = st.sched.skippedWaiting from hqueue .skippedWaiting] at hperm
  have hnodup := (nodup_append.mp h.queued.nodup).2.1
  exact h.untouched.pop (nodup_append.mp hnodup).1 hperm hothers hconfig

/-- The tokens of an admitted request exist, if its drafts are counted as they should be. -/
theorem headPlanned_tokensExist
    (hhead : HeadPlanned (variant cfg env) cfg.toSchedulerConfig env st which request s₁ f (some p)
      cache)
    (hobj : st.req request = s.objects request)
    (hconfig : st.sched.kvCacheManager.config = s.kvCacheManager.config)
    (hcond : CountsDrafts cfg env s request) (hsync : f.loadKvAsync = false)
    (hcount : 0 ≤ (s.objects request).numOutputPlaceholders) {stp : StepState}
    (hreq : stp.req request = (st.atHead cfg.toSchedulerConfig request s₁ f cache).req request)
    (hnew : stp.scheduledSpecDecodeTokens.get? request = none)
    (hadmitted : (takeDrafts cfg stp request p.numNewTokens).admitRequest cfg.toSchedulerConfig
      request f p = .ok st') : st'.TokensExist request p.numNewTokens := by
  have hrecorded : stp.req request = f.record cfg.toSchedulerConfig (s₁.objects request) :=
    hreq.trans (modify_objects_self _)
  obtain ⟨-, ⟨status, computed, cached, hself, -⟩, -, -⟩ := (promote_cases hhead.promoted).object
  obtain ⟨numExternal, hrecord⟩ := record_eq cfg f (s₁.objects request)
  have hfound := findTokens_computed hhead.found
  have hle := planWaiting_le hsync hhead.plan
  rw [hrecord] at hrecorded hle
  refine (admit_tokensExist_iff hadmitted hnew hrecorded ?_ hfound hle).2.mpr fun hover => ?_
  · rw [hself, show st.sched.objects request = s.objects request from hobj]
    exact hcount
  · rcases headPlanned_noOverrun hhead hobj hconfig hcond hsync hcount with hsame | hle
    · exact hover.1 hsame
    · exact absurd hover.2 (Int.not_lt.mpr hle)

/-- The admitted request joins the step, with its drafts. -/
theorem admit_counted (h : st.Counted s)
    (hadmitted : (takeDrafts cfg st request p.numNewTokens).admitRequest cfg.toSchedulerConfig
      request f p = .ok st') (hexist : st'.TokensExist request p.numNewTokens) : st'.Counted s := by
  obtain ⟨cache, loras, newReqs, resumedReqs, inputs, budget, -, rfl⟩ :=
    admitRequest_cases hadmitted
  obtain ⟨htokens, hrunning, hothers, spec, hself⟩ :=
    takeDrafts_frame cfg st request p.numNewTokens
  have hobj : ∀ r, r ≠ request → ((takeDrafts cfg st request p.numNewTokens).sched.modify request
      (startRunning f)).objects r = st.req r :=
    fun r hr => (modify_objects_ne _ hr).trans (hothers r hr).1
  refine h.add (by rw [← htokens]) (fun r hr => (hothers r hr).2) (fun r => ?_)
    (fun r hr => congrArg Request.numComputedTokens (hobj r hr)) (fun r hr => ?_) ?_ hexist
  · by_cases hr : r = request
    · show SameTokens _ ((Scheduler.modify _ request (startRunning f)).objects r)
      rw [hr, modify_objects_self]
      show SameTokens _ (startRunning f ((takeDrafts cfg st request p.numNewTokens).req request))
      rw [hself]
      exact ⟨rfl, rfl⟩
    · show SameTokens _ ((Scheduler.modify _ request (startRunning f)).objects r)
      rw [hobj r hr]
      exact .refl _
  · exact mem_append_left _ (hrunning ▸ hr)
  · exact mem_append_right _ mem_cons_self

theorem awaitRemoteKvs_req (cfg : RecomputeConfig) (st : StepState) (request : ReqId)
    (f : FoundTokens) :
    (∀ r, r ≠ request →
        (st.awaitRemoteKvs cfg.toSchedulerConfig request f).req r = st.req r) ∧
      (st.awaitRemoteKvs cfg.toSchedulerConfig request f).req request = { st.req request with
        status := .waitingForRemoteKvs, numComputedTokens := f.numComputedTokens } :=
  ⟨fun _ hr => if_neg hr, if_pos rfl⟩

theorem admit_frame (h : (takeDrafts cfg st request p.numNewTokens).admitRequest
      cfg.toSchedulerConfig request f p = .ok st') :
    st'.sched.waiting = st.sched.waiting ∧ st'.sched.skippedWaiting = st.sched.skippedWaiting ∧
      st'.sched.kvCacheManager = st.sched.kvCacheManager ∧
      ∀ r, r ≠ request → st'.req r = st.req r := by
  obtain ⟨-, -, hothers, -⟩ := takeDrafts_frame cfg st request p.numNewTokens
  obtain ⟨cache, loras, newReqs, resumedReqs, inputs, budget, -, rfl⟩ := admitRequest_cases h
  refine ⟨?_, ?_, ?_, fun r hr => (modify_objects_ne _ hr).trans (hothers r hr).1⟩ <;>
    (unfold takeDrafts; split <;> rfl)

/-- One round of the second loop. -/
theorem waitingRound_wait (h : WaitInv s lost kept st)
    (hcond : ∀ r ∈ s.waiting ++ s.skippedWaiting,
      CountsDrafts cfg env s r ∧ 0 ≤ (s.objects r).numOutputPlaceholders)
    (hround : WaitingRound (variant cfg env) cfg.toSchedulerConfig env st which st' goOn) :
    if goOn then WaitInv s lost kept st' else st'.Queued lost kept ∧ st'.Counted s := by
  have hqueued := (hround.queued variant_keepsQueues h.queued).1
  cases hround with
  | @skipped request s₁ ready st₂ hpeek hpromoted hskip =>
    -- the head leaves its queue, with the status and the counters that the promotion set
    obtain ⟨r, q, hpop, rfl⟩ := skip_cases hskip
    obtain ⟨hhead, hperm⟩ := popRequest_spec hpop
    obtain rfl : request = r := by
      rw [show ({ st with sched := s₁ } : StepState).sched.queue which = st.sched.queue which from
        variant_keepsWaiting hpromoted which, hpeek] at hhead
      exact Except.ok.inj hhead
    obtain ⟨hothers, ⟨status, computed, cached, hself, -⟩, hrunning, hconfig⟩ :=
      (promote_cases hpromoted).object
    obtain ⟨hobj, -, hrun, -⟩ := setQueue_frame s₁ q which
    have hobjects : ∀ r, r ≠ request → (s₁.setQueue q which).objects r = st.req r :=
      fun r hr => (congrFun hobj r).trans (hothers r hr)
    have hconfig' : (s₁.setQueue q which).kvCacheManager.config =
        st.sched.kvCacheManager.config := by
      rw [← hconfig]
      cases which <;> rfl
    refine ⟨hqueued, Counted.touch h.counted (h.head hpeek).1 rfl rfl (hrun.trans hrunning) hobjects
      ?_, h.leave (variant_keepsWaiting hpromoted) hperm ⟨rfl, rfl⟩ hobjects hconfig'⟩
    show SameTokens _ ((s₁.setQueue q which).objects request)
    rw [hobj, hself]
    exact ⟨rfl, rfl⟩
  | stopped hhead =>
    obtain ⟨hothers, hself, hrunning⟩ := headPlanned_atHead hhead
    exact ⟨hqueued, Counted.touch h.counted (h.head hhead.peek).1 rfl rfl hrunning hothers hself⟩
  | refused hhead =>
    obtain ⟨hothers, hself, hrunning⟩ := headPlanned_atHead hhead
    refine ⟨hqueued, ?_⟩
    unfold refuse
    split <;>
      exact Counted.touch h.counted (h.head hhead.peek).1 rfl rfl hrunning hothers hself
  | @allocated request s₁ f p cache kv blocks q st₂ st₃ hhead halloc hst₂ hpop hkind =>
    -- `st₂` has the blocks; of the requests only the head has changed so far
    obtain ⟨hothers, hself, hrunning⟩ := headPlanned_atHead hhead
    have hperm := (popRequest_spec hpop).2
    obtain ⟨-, -, hrun, -⟩ := setQueue_frame st₂.sched q which
    have hqueue : ∀ which, st₂.sched.queue which = st.sched.queue which := by
      intro which
      rw [← variant_keepsWaiting hhead.promoted which, hst₂]
      cases which <;> rfl
    have hreq : ∀ r, req { st₂ with sched := st₂.sched.setQueue q which } r =
        (st.atHead cfg.toSchedulerConfig request s₁ f cache).req r := by
      intro r
      rw [setQueue_req, hst₂]
      rfl
    have hconfig₂ : (st₂.sched.setQueue q which).kvCacheManager.config =
        st.sched.kvCacheManager.config := by
      refine Eq.trans ?_ ((KVCacheManager.allocateSlotsFor_config halloc).trans
        (promote_cases hhead.promoted).object.config)
      rw [hst₂]
      cases which <;> rfl
    have htokens : st₂.numScheduledTokens = st.numScheduledTokens := by
      rw [hst₂]
      rfl
    have hdrafts : st₂.scheduledSpecDecodeTokens = st.scheduledSpecDecodeTokens := by
      rw [hst₂]
      rfl
    have hrunning₂ : (st₂.sched.setQueue q which).running = st.sched.running := by
      rw [hrun, ← hrunning, hst₂]
      rfl
    obtain ⟨hnot, hmem⟩ := h.head hhead.peek
    have hothers₂ : ∀ r, r ≠ request →
        req { st₂ with sched := st₂.sched.setQueue q which } r = st.req r :=
      fun r hr => (hreq r).trans (hothers r hr)
    rcases hkind with ⟨-, rfl⟩ | ⟨hsync, hadmitted⟩
    -- it waits for its load, or it joins the step with its drafts
    · obtain ⟨hawaiting, hawait⟩ := awaitRemoteKvs_req cfg
        { st₂ with sched := st₂.sched.setQueue q which } request f
      have hothers₃ := fun r hr => (hawaiting r hr).trans (hothers₂ r hr)
      refine ⟨hqueued, Counted.touch h.counted hnot htokens hdrafts hrunning₂ hothers₃ ?_,
        h.leave hqueue hperm ⟨rfl, rfl⟩ hothers₃ hconfig₂⟩
      rw [hawait, hreq]
      exact ⟨hself.tokens, hself.placeholders⟩
    · obtain ⟨hwaiting, hskipped, hkv, hframe⟩ := admit_frame hadmitted
      obtain ⟨hqueue₀, hobj⟩ := h.untouched.object request hmem
      obtain ⟨hcounts, hcount⟩ := hcond request hqueue₀
      have hpopped : Counted s { st₂ with sched := st₂.sched.setQueue q which } :=
        Counted.touch h.counted hnot htokens hdrafts hrunning₂ hothers₂ (by rw [hreq]; exact hself)
      have hexist := headPlanned_tokensExist hhead hobj h.untouched.config hcounts hsync hcount
        (hreq request) (hpopped.noDrafts request (htokens ▸ hnot)) hadmitted
      exact ⟨hqueued, admit_counted hpopped hadmitted hexist,
        h.leave hqueue hperm ⟨hwaiting, hskipped⟩
          (fun r hr => (hframe r hr).trans (hothers₂ r hr)) (hkv ▸ hconfig₂)⟩

/-! ## The whole step -/

variable {out : Output}

theorem LoopInv.start (h : s.Queued lost kept) :
    LoopInv s lost kept (StepState.start cfg.toSchedulerConfig s) 0 where
  skipped := rfl
  queued := by
    show Scheduler.QueuedIn _ kept (s.running ++ (lost ++ [])) (s.waiting ++ s.skippedWaiting ++ [])
    rw [append_nil, append_nil]
    exact QueuedIn.congr h rfl rfl fun _ => rfl
  counted := ⟨fun _ => .refl _, nofun, nofun, fun _ _ => rfl⟩
  untouched _ _ := ⟨rfl, fun _ hr => ⟨hr, rfl⟩⟩
  pending _ _ := rfl
  recorded := nofun

/-- What `schedule` returns comes from a step whose scheduled tokens all exist. -/
theorem schedule_counted (h : s.Queued lost kept)
    (hcond : ∀ r ∈ s.waiting ++ s.skippedWaiting,
      CountsDrafts cfg env s r ∧ 0 ≤ (s.objects r).numOutputPlaceholders)
    (hsched : schedule cfg env s = .ok (s', out)) :
    ∃ st s₁, StepState.Counted s st ∧
      st.finish cfg.toSchedulerConfig = .ok (s₁, out.toSchedulerOutput) ∧
      s' = s₁.updateAfterSchedule cfg.toSchedulerConfig out.toSchedulerOutput := by
  obtain ⟨⟨s₁, out₁, dropped⟩, hrun, hsched⟩ := of_bind hsched
  cases hsched
  obtain ⟨st, s₁, hst, hfinish, hs', -⟩ := schedule_rule variant_keepsWaiting
    (K := fun st => st.Counted s) (.start h) (fun _ _ hI => hI.toLoopEnd)
    (fun st i request st' next hI hget hround => runningRound_loop hI hget hround)
    (fun st loras hJ => hJ.counted.keep rfl rfl (fun _ => .refl _)
      fun r n hr => ⟨rfl, hJ.counted.running r n hr⟩)
    (fun st loras hJ hpreempted hnone => by
      have hqueued := hJ.queued
      rw [hnone] at hqueued
      obtain ⟨hconfig, hobject⟩ := hJ.untouched hpreempted hnone
      exact ⟨hqueued, hJ.counted.keep rfl rfl (fun _ => .refl _)
        fun r n hr => ⟨rfl, hJ.counted.running r n hr⟩, hconfig, hobject⟩)
    (fun _ hW => ⟨hW.queued, hW.counted⟩)
    (fun st which st' goOn hW hround => waitingRound_wait hW hcond hround)
    (fun st hE => hE.2.keep rfl rfl (fun _ => .refl _) fun r n hr => ⟨rfl, hE.2.running r n hr⟩)
    hrun
  exact ⟨st, s₁, hst, hfinish, hs'⟩

/-- Every scheduled token of a request exists, and every scheduled draft is one of them: after
`schedule`, `num_computed_tokens` is what the worker was sent and what was scheduled, and exactly
the positions beyond the tokens and the placeholders of the request are drafts. -/
def ScheduledExist (s s' : Scheduler) (out : Output) (r : ReqId) : Prop :=
  ((out.drafts r).length : Int) = max 0 ((s'.objects r).numComputedTokens -
    ((s.objects r).numTokens + (s.objects r).numOutputPlaceholders))

instance (s s' : Scheduler) (out : Output) (r : ReqId) : Decidable (ScheduledExist s s' out r) :=
  inferInstanceAs (Decidable (_ = _))

def draftingConsumer : RecomputeConfig :=
  { smallConsumer with isMtpKvConsumer := true, numSpecTokens := 2 }

def hitEnv (numExternal : Nat) : CallEnv :=
  { quietEnv with getNumNewMatchedTokens := fun _ _ => (some numExternal, false) }

def arrivedNode : Option Scheduler :=
  (KVCacheManager.init (droppingCache 8)).toOption.bind fun kv =>
    (Request.init none (smallRequest 0 [1, 2, 3, 4, 5, 6] 1)).toOption.bind fun request =>
      (addRequest draftingConsumer quietEnv (Scheduler.init kv 8 noObjects) request).toOption

theorem arrivedNode_queued (h : arrivedNode = some s) : s.Queued [] [] := by
  obtain ⟨kv, -, h⟩ := Option.bind_eq_some_iff.mp h
  obtain ⟨request, hrequest, h⟩ := Option.bind_eq_some_iff.mp h
  exact addRequest_queued (init_queued kv 8 noObjects []) (init_status (toOption_eq_some hrequest))
    (fun _ hq => absurd hq not_mem_nil) (toOption_eq_some h)

end RecomputeScheduler

end VllmEcho
