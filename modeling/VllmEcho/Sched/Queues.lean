import VllmEcho.Sched.UpdateCases

/-!
# The queues of the scheduler

Every unfinished request is queued exactly once.  The invariant does not say in which of the two
waiting queues a request stands, so it is stated for a list of running requests and a list of the
others, and is kept by any rearrangement of these.
-/

namespace VllmEcho

open Request

open List hiding beq_eq_decide
open Lib Scheduler

variable {f : Request → Request}

variable {cfg : SchedulerConfig} {env : CallEnv} {s s' : Scheduler} {r : ReqId}
  {kept run run' rest rest' : List ReqId}

namespace Scheduler

def streamingReqs (s : Scheduler) : List ReqId :=
  s.requests.filter fun r => decide ((s.objects r).status = .waitingForStreamingReq)

/-- The requests of `run` are the running ones, those of `rest` the other unfinished ones, and the
finished requests the scheduler still knows are among `kept`. -/
structure QueuedIn (s : Scheduler) (kept run rest : List ReqId) : Prop where
  requests : s.requests.Nodup
  nodup : (run ++ rest).Nodup
  mem_iff : ∀ r, r ∈ run ++ rest ↔ s.isLive r = true
  running : ∀ r ∈ run, (s.objects r).status = .running
  notRunning : ∀ r ∈ rest, (s.objects r).status ≠ .running
  streaming : s.numWaitingForStreamingInput = s.streamingReqs.length
  settled : ∀ r ∈ s.requests, (s.objects r).isFinished = true → r ∈ kept

/-- Every unfinished request is queued exactly once, in `running` if and only if it is running; the
finished ones that are left are those of `kept`.  Requests of `lost` run but are in no queue, which
only a subclass that drops requests makes happen. -/
def Queued (s : Scheduler) (lost kept : List ReqId) : Prop :=
  s.QueuedIn kept (s.running ++ lost) (s.waiting ++ s.skippedWaiting)

theorem Queued.runningNodup {lost : List ReqId} (h : s.Queued lost kept) : s.running.Nodup :=
  (nodup_append.mp (nodup_append.mp h.nodup).1).1

theorem Queued.lost_live {lost : List ReqId} (h : s.Queued lost kept) (hr : r ∈ lost) :
    s.isLive r = true :=
  (h.mem_iff r).mp (mem_append_left _ (mem_append_right _ hr))

structure Placed (s : Scheduler) (kept run rest : List ReqId) (q : ReqId) : Prop where
  once : run.count q + rest.count q = if s.isLive q then 1 else 0
  running : q ∈ run → (s.objects q).status = .running
  notRunning : q ∈ rest → (s.objects q).status ≠ .running
  settled : q ∈ s.requests → (s.objects q).isFinished = true → q ∈ kept

def waits (s : Scheduler) (q : ReqId) : Bool :=
  decide (q ∈ s.requests ∧ (s.objects q).status = .waitingForStreamingReq)

theorem mem_streamingReqs {q : ReqId} : q ∈ s.streamingReqs ↔ s.waits q = true := by
  rw [streamingReqs, waits, mem_filter, decide_eq_true_iff, decide_eq_true_iff]

theorem nodup_streamingReqs (hreq : s.requests.Nodup) : s.streamingReqs.Nodup := hreq.filter _

/-- The sessions that wait are those of `moved` and the others. -/
theorem length_streamingReqs {moved : List ReqId} (hreq : s.requests.Nodup) (hmoved : moved.Nodup) :
    s.streamingReqs.length =
      (s.streamingReqs.filter (· ∉ moved)).length + (moved.filter s.waits).length := by
  have hperm : (s.streamingReqs.filter (· ∈ moved)).Perm (moved.filter s.waits) := by
    apply (perm_ext_iff_of_nodup ((nodup_streamingReqs hreq).filter _) (hmoved.filter _)).mpr
    intro q
    rw [mem_filter, mem_filter, mem_streamingReqs, decide_eq_true_iff, and_comm]
  rw [length_eq_length_filter_add fun q => decide (q ∈ moved), hperm.length_eq, Nat.add_comm]
  simp only [decide_not]

theorem count_of_perm_cons {l l' : List ReqId} (h : l'.Perm (r :: l)) :
    l'.count r = l.count r + 1 ∧ ∀ q, q ≠ r → l'.count q = l.count q := by
  refine ⟨?_, fun q hq => ?_⟩
  · rw [h.count_eq, count_cons_self]
  · rw [h.count_eq, count_cons_of_ne hq.symm]

theorem count_filter_ne (l : List ReqId) :
    (l.filter (· ≠ r)).count r = 0 ∧ ∀ q, q ≠ r → (l.filter (· ≠ r)).count q = l.count q := by
  refine ⟨count_eq_zero.mpr fun hmem => ?_, fun q hq => count_filter (decide_eq_true hq)⟩
  exact of_decide_eq_true (mem_filter.mp hmem).2 rfl

namespace QueuedIn

theorem isLive_iff (s : Scheduler) (q : ReqId) :
    s.isLive q = true ↔ q ∈ s.requests ∧ (s.objects q).isFinished = false := by
  rw [Scheduler.isLive, Bool.and_eq_true, decide_eq_true_iff, Bool.not_eq_true']

theorem of_placed (hreq : s.requests.Nodup)
    (hcount : s.numWaitingForStreamingInput = s.streamingReqs.length)
    (h : ∀ q, s.Placed kept run rest q) : s.QueuedIn kept run rest where
  requests := hreq
  nodup := nodup_iff_count_le_one.mpr fun q => by
    rw [count_append, (h q).once]
    split <;> omega
  mem_iff q := by
    rw [← count_pos_iff, count_append, (h q).once]
    cases s.isLive q <;> decide
  running q := (h q).running
  notRunning q := (h q).notRunning
  streaming := hcount
  settled q := (h q).settled

section

variable (h : s.QueuedIn kept run rest)
include h

theorem placed (q : ReqId) : s.Placed kept run rest q := by
  refine ⟨?_, h.running q, h.notRunning q, h.settled q⟩
  rw [← count_append]
  split
  · rename_i hlive
    exact count_eq_one_of_mem h.nodup ((h.mem_iff q).mpr hlive)
  · rename_i hlive
    exact count_eq_zero.mpr (mt (h.mem_iff q).mp hlive)

theorem live {q : ReqId} (hq : q ∈ run ++ rest) :
    q ∈ s.requests ∧ (s.objects q).isFinished = false :=
  (isLive_iff s q).mp ((h.mem_iff q).mp hq)

/-- The requests of `moved` change, and nothing is new about the others. -/
theorem change (moved : List ReqId) (hmoved : moved.Nodup) (hnodup : s'.requests.Nodup)
    (hreq : ∀ q ∉ moved, (q ∈ s'.requests ↔ q ∈ s.requests))
    (hsame : ∀ q ∉ moved, (s'.objects q).status = (s.objects q).status)
    (hcount : s'.numWaitingForStreamingInput = s.numWaitingForStreamingInput -
      (moved.filter s.waits).length + (moved.filter s'.waits).length)
    (hrun : ∀ q ∉ moved, run'.count q = run.count q)
    (hrest : ∀ q ∉ moved, rest'.count q = rest.count q)
    (hplaced : ∀ q ∈ moved, s'.Placed kept run' rest' q) : s'.QueuedIn kept run' rest' := by
  have hothers : (s'.streamingReqs.filter (· ∉ moved)).Perm
      (s.streamingReqs.filter (· ∉ moved)) := by
    apply (perm_ext_iff_of_nodup ((nodup_streamingReqs hnodup).filter _)
      ((nodup_streamingReqs h.requests).filter _)).mpr
    intro q
    rw [mem_filter, mem_filter, mem_streamingReqs, mem_streamingReqs, waits, waits,
      decide_eq_true_iff, decide_eq_true_iff, decide_eq_true_iff]
    apply and_congr_left
    intro hq
    rw [hreq q hq, hsame q hq]
  apply of_placed hnodup
  · have hlen := length_streamingReqs h.requests hmoved
    have hlen' := length_streamingReqs hnodup hmoved
    have := hothers.length_eq
    have := h.streaming
    omega
  intro q
  by_cases hq : q ∈ moved
  · exact hplaced q hq
  have hold := h.placed q
  have hfin : (s'.objects q).isFinished = (s.objects q).isFinished := by
    rw [isFinished, hsame q hq, isFinished]
  have hlive : s'.isLive q = s.isLive q := by
    rw [Scheduler.isLive, hfin, decide_eq_decide.mpr (hreq q hq), Scheduler.isLive]
  refine ⟨?_, fun hmem => ?_, fun hmem => ?_, fun hmem hdone => ?_⟩
  · rw [hrun q hq, hrest q hq, hlive]
    exact hold.once
  · rw [← count_pos_iff, hrun q hq, count_pos_iff] at hmem
    rw [hsame q hq]
    exact hold.running hmem
  · rw [← count_pos_iff, hrest q hq, count_pos_iff] at hmem
    rw [hsame q hq]
    exact hold.notRunning hmem
  · exact hold.settled ((hreq q hq).mp hmem) (hfin.symm.trans hdone)

theorem congr (hreq : s'.requests = s.requests)
    (hcount : s'.numWaitingForStreamingInput = s.numWaitingForStreamingInput)
    (hstatus : ∀ q, (s'.objects q).status = (s.objects q).status) : s'.QueuedIn kept run rest := by
  refine h.change [] nodup_nil (by rw [hreq]; exact h.requests) (fun q _ => by rw [hreq])
    (fun q _ => hstatus q) ?_ (fun _ _ => rfl) (fun _ _ => rfl) nofun
  rw [hcount]
  simp

theorem perm (hrun : run'.Perm run) (hrest : rest'.Perm rest) : s.QueuedIn kept run' rest' := by
  refine h.change [] nodup_nil h.requests (fun _ _ => Iff.rfl) (fun _ _ => rfl) ?_
    (fun q _ => hrun.count_eq q) (fun q _ => hrest.count_eq q) nofun
  simp

theorem mono {kept' : List ReqId} (hsub : ∀ q ∈ kept, q ∈ kept') : s.QueuedIn kept' run rest :=
  { h with settled := fun q hq hfin => hsub q (h.settled q hq hfin) }

/-- One request changes its status and stays unfinished. -/
theorem restatus (hsame : ∀ q, q ≠ r → (s'.objects q).status = (s.objects q).status)
    (hreq : s'.requests = s.requests)
    (hcount : s'.numWaitingForStreamingInput = s.numWaitingForStreamingInput -
      (if (s.objects r).status = .waitingForStreamingReq then 1 else 0) +
      if (s'.objects r).status = .waitingForStreamingReq then 1 else 0)
    (hr : s.isLive r = true) (hunfin : (s'.objects r).isFinished = false)
    (hrun : ∀ q, q ≠ r → run'.count q = run.count q)
    (hrest : ∀ q, q ≠ r → rest'.count q = rest.count q)
    (honce : run'.count r + rest'.count r = 1)
    (hplace : (s'.objects r).status = .running ↔ r ∈ run') : s'.QueuedIn kept run' rest' := by
  have hmem := ((isLive_iff s r).mp hr).1
  refine h.change [r] (nodup_singleton r) (by rw [hreq]; exact h.requests)
    (fun q _ => by rw [hreq]) (fun q hq => hsame q (mt mem_singleton.mpr hq)) ?_
    (fun q hq => hrun q (mt mem_singleton.mpr hq))
    (fun q hq => hrest q (mt mem_singleton.mpr hq)) fun q hq => ?_
  · rw [hcount, filter_singleton, filter_singleton, waits, waits]
    split <;> split <;> simp_all
  obtain rfl := mem_singleton.mp hq
  refine ⟨?_, hplace.mpr, fun hin hrunning => ?_, fun _ hdone => ?_⟩
  · rw [honce, (isLive_iff s' q).mpr ⟨by rw [hreq]; exact hmem, hunfin⟩, if_pos rfl]
  · have := count_pos_iff.mpr (hplace.mp hrunning)
    have := count_pos_iff.mpr hin
    omega
  · rw [hunfin] at hdone
    cases hdone

section

variable (hobj : s'.objects = (s.modify r f).objects) (hreq : s'.requests = s.requests)
  (hcount : s'.numWaitingForStreamingInput = s.numWaitingForStreamingInput)
include hobj hreq hcount

theorem modified (hr : s.isLive r = true) (hwait : (s.objects r).status ≠ .waitingForStreamingReq)
    (hlive' : (f (s.objects r)).isFinished = false)
    (hwait' : (f (s.objects r)).status ≠ .waitingForStreamingReq)
    (hrun : ∀ q, q ≠ r → run'.count q = run.count q)
    (hrest : ∀ q, q ≠ r → rest'.count q = rest.count q)
    (honce : run'.count r + rest'.count r = run.count r + rest.count r)
    (hplace : (f (s.objects r)).status = .running ↔ r ∈ run') : s'.QueuedIn kept run' rest' := by
  have hself : s'.objects r = f (s.objects r) := by rw [hobj, modify_objects_self]
  refine h.restatus (fun q hq => by rw [hobj, modify_objects_ne f hq]) hreq ?_ hr
    (by rw [hself]; exact hlive') hrun hrest ?_ (by rw [hself]; exact hplace)
  · rw [hcount, hself, if_neg hwait, if_neg hwait']
    simp
  · rw [honce, (h.placed r).once, if_pos hr]

theorem suspend (hrun : (r :: run').Perm run) (hrest : rest'.Perm (r :: rest))
    (hlive' : (f (s.objects r)).isFinished = false)
    (hwait' : (f (s.objects r)).status ≠ .waitingForStreamingReq)
    (hstatus' : (f (s.objects r)).status ≠ .running) : s'.QueuedIn kept run' rest' := by
  have hr : r ∈ run := hrun.mem_iff.mp mem_cons_self
  have hlive := (h.mem_iff r).mp (mem_append_left _ hr)
  have honce := (h.placed r).once
  rw [if_pos hlive] at honce
  obtain ⟨hrunSelf, hrunOthers⟩ := count_of_perm_cons hrun.symm
  obtain ⟨hrestSelf, hrestOthers⟩ := count_of_perm_cons hrest
  refine h.modified hobj hreq hcount hlive (by rw [h.running r hr]; decide) hlive' hwait'
    (fun q hq => (hrunOthers q hq).symm) hrestOthers (by omega)
    ⟨fun hno => absurd hno hstatus', fun hmem => ?_⟩
  have := count_pos_iff.mpr hmem
  omega

theorem resume (hrun : run'.Perm (r :: run)) (hrest : (r :: rest').Perm rest)
    (hwait : (s.objects r).status ≠ .waitingForStreamingReq)
    (hstatus' : (f (s.objects r)).status = .running) : s'.QueuedIn kept run' rest' := by
  have hr : r ∈ rest := hrest.mem_iff.mp mem_cons_self
  obtain ⟨hrunSelf, hrunOthers⟩ := count_of_perm_cons hrun
  obtain ⟨hrestSelf, hrestOthers⟩ := count_of_perm_cons hrest.symm
  exact h.modified hobj hreq hcount ((h.mem_iff r).mp (mem_append_right _ hr)) hwait
    (by rw [isFinished, hstatus']; rfl) (by rw [hstatus']; decide) hrunOthers
    (fun q hq => (hrestOthers q hq).symm) (by omega)
    ⟨fun _ => hrun.mem_iff.mpr mem_cons_self, fun _ => hstatus'⟩

theorem relabel (hr : r ∈ rest)
    (hrest : rest'.Perm rest) (hwait : (s.objects r).status ≠ .waitingForStreamingReq)
    (hlive' : (f (s.objects r)).isFinished = false)
    (hwait' : (f (s.objects r)).status ≠ .waitingForStreamingReq)
    (hstatus' : (f (s.objects r)).status ≠ .running) : s'.QueuedIn kept run rest' := by
  refine h.modified hobj hreq hcount ((h.mem_iff r).mp (mem_append_right _ hr)) hwait hlive' hwait'
    (fun _ _ => rfl) (fun q _ => hrest.count_eq q) (by rw [hrest.count_eq])
    ⟨fun hno => absurd hno hstatus', fun hmem => ?_⟩
  exact absurd (h.running r hmem) (h.notRunning r hr)

end

theorem leaveAll {gone dropped : List ReqId}
    (hnodup : gone.Nodup) (hlive : ∀ q ∈ gone, s.isLive q = true)
    (hsame : ∀ q, q ∉ gone → (s'.objects q).status = (s.objects q).status)
    (hfin : ∀ q ∈ gone, (s'.objects q).isFinished = true) (hdropped : ∀ q ∈ dropped, q ∈ gone)
    (hreq : s'.requests = s.requests.filter (· ∉ dropped))
    (hkept : ∀ q ∈ gone, q ∉ dropped → q ∈ kept)
    (hcount : s'.numWaitingForStreamingInput = s.numWaitingForStreamingInput -
      (gone.filter fun q => decide ((s.objects q).status = .waitingForStreamingReq)).length)
    (hrun : run'.Perm (run.filter (· ∉ gone))) (hrest : rest'.Perm (rest.filter (· ∉ gone))) :
    s'.QueuedIn kept run' rest' := by
  have hmem : ∀ q, q ∈ s'.requests ↔ q ∈ s.requests ∧ q ∉ dropped := by
    intro q
    rw [hreq, mem_filter, decide_eq_true_iff]
  have hnot : ∀ {l l' : List ReqId}, l'.Perm (l.filter (· ∉ gone)) → ∀ q ∈ gone, q ∉ l' :=
    fun hperm q hq hin => of_decide_eq_true (mem_filter.mp (hperm.mem_iff.mp hin)).2 hq
  have hothers : ∀ {l l' : List ReqId}, l'.Perm (l.filter (· ∉ gone)) →
      ∀ q, q ∉ gone → l'.count q = l.count q := by
    intro l l' hperm q hq
    rw [hperm.count_eq, count_filter (by simpa using hq)]
  refine h.change gone hnodup (by rw [hreq]; exact h.requests.filter _) (fun q hq => ?_) hsame ?_
    (hothers hrun) (hothers hrest) fun q hq => ?_
  · rw [hmem]
    exact and_iff_left fun hd => hq (hdropped q hd)
  · -- those gone are live before and finished after
    have hbefore : gone.filter s.waits =
        gone.filter fun q => decide ((s.objects q).status = .waitingForStreamingReq) := by
      apply filter_congr
      intro q hq
      exact decide_eq_decide.mpr (and_iff_right ((isLive_iff s q).mp (hlive q hq)).1)
    have hafter : gone.filter s'.waits = [] := by
      apply filter_eq_nil_iff.mpr
      intro q hq hw
      have hdone := hfin q hq
      rw [isFinished, (of_decide_eq_true hw).2] at hdone
      cases hdone
    rw [hcount, hbefore, hafter]
    simp
  · have hrunning := hnot hrun q hq
    have hwaiting := hnot hrest q hq
    refine ⟨?_, fun hin => absurd hin hrunning, fun hin => absurd hin hwaiting,
      fun hin _ => hkept q hq ((hmem q).mp hin).2⟩
    rw [count_eq_zero.mpr hrunning, count_eq_zero.mpr hwaiting, if_neg]
    rw [isLive_iff, hfin q hq]
    exact fun hno => nomatch hno.2

theorem leave (hr : r ∈ run ++ rest) (hstatus : (s.objects r).status ≠ .waitingForStreamingReq)
    (hsame : ∀ q, q ≠ r → (s'.objects q).status = (s.objects q).status)
    (hfin : (s'.objects r).isFinished = true)
    (hreq : (s'.requests = s.requests ∧ r ∈ kept) ∨ s'.requests = s.requests.filter (· ≠ r))
    (hcount : s'.numWaitingForStreamingInput = s.numWaitingForStreamingInput)
    (hrun : run'.Perm (run.filter (· ≠ r))) (hrest : rest'.Perm (rest.filter (· ≠ r))) :
    s'.QueuedIn kept run' rest' := by
  have hfilter : ∀ l : List ReqId, l.filter (· ≠ r) = l.filter (· ∉ [r]) := by
    intro l
    simp only [mem_singleton]
  rw [hfilter] at hrun hrest
  have hleave : ∀ dropped : List ReqId, (∀ q ∈ dropped, q ∈ [r]) →
      s'.requests = s.requests.filter (· ∉ dropped) → (r ∉ dropped → r ∈ kept) →
      s'.QueuedIn kept run' rest' := by
    intro dropped hdropped hreq hkept
    refine h.leaveAll (nodup_singleton r) ?_ (fun q hq => hsame q (mt mem_singleton.mpr hq)) ?_
      hdropped hreq ?_ ?_ hrun hrest
    · exact forall_mem_singleton.mpr ((h.mem_iff r).mp hr)
    · exact forall_mem_singleton.mpr hfin
    · exact forall_mem_singleton.mpr hkept
    · rw [filter_singleton, decide_eq_false hstatus, hcount]
      simp
  rcases hreq with ⟨hreq, hkept⟩ | hreq
  · exact hleave [] nofun (by simp [hreq]) fun _ => hkept
  · exact hleave [r] (fun _ hq => hq) (hreq.trans (hfilter _)) fun hno => absurd mem_cons_self hno

section

variable (hsame : ∀ q, q ≠ r → (s'.objects q).status = (s.objects q).status)
include hsame

theorem pause (hreq : s'.requests = s.requests)
    (hcount : s'.numWaitingForStreamingInput = s.numWaitingForStreamingInput +
      if (s'.objects r).status = .waitingForStreamingReq then 1 else 0)
    (hr : r ∈ run ++ rest) (hstatus : (s.objects r).status ≠ .waitingForStreamingReq)
    (hunfin : (s'.objects r).isFinished = false) (hstatus' : (s'.objects r).status ≠ .running)
    (hrun : run'.Perm (run.filter (· ≠ r))) (hrest : rest'.Perm (r :: rest.filter (· ≠ r))) :
    s'.QueuedIn kept run' rest' := by
  obtain ⟨hrunSelf, hrunOthers⟩ := @count_filter_ne r run
  obtain ⟨hrestSelf, hrestOthers⟩ := @count_filter_ne r rest
  obtain ⟨hconsSelf, hconsOthers⟩ := count_of_perm_cons hrest
  refine h.restatus hsame hreq ?_ ((h.mem_iff r).mp hr) hunfin
    (fun q hq => by rw [hrun.count_eq, hrunOthers q hq])
    (fun q hq => by rw [hconsOthers q hq, hrestOthers q hq])
    (by rw [hrun.count_eq, hrunSelf, hconsSelf, hrestSelf]) ⟨fun hno => absurd hno hstatus', ?_⟩
  · rw [hcount, if_neg hstatus, Int.sub_zero]
  · rw [hrun.mem_iff]
    simp

theorem wake (hreq : s'.requests = s.requests)
    (hcount : s'.numWaitingForStreamingInput = s.numWaitingForStreamingInput - 1)
    (hr : r ∈ s.requests) (hstatus : (s.objects r).status = .waitingForStreamingReq)
    (hstatus' : (s'.objects r).status = .waiting) : s'.QueuedIn kept run rest := by
  have hlive : s.isLive r = true :=
    (isLive_iff s r).mpr ⟨hr, by rw [isFinished, hstatus]; rfl⟩
  have honce := (h.placed r).once
  rw [if_pos hlive] at honce
  refine h.restatus hsame hreq ?_ hlive (by rw [isFinished, hstatus']; rfl)
    (fun _ _ => rfl) (fun _ _ => rfl) honce ?_
  · rw [hcount, if_pos hstatus, hstatus']
    simp
  · rw [hstatus']
    exact ⟨nofun, fun hin => nomatch hstatus.symm.trans (h.running r hin)⟩

theorem arrive (hreq : s'.requests = s.requests ++ [r])
    (hcount : s'.numWaitingForStreamingInput = s.numWaitingForStreamingInput)
    (hnew : r ∉ s.requests) (hunfin : (s'.objects r).isFinished = false)
    (hwait : (s'.objects r).status ≠ .waitingForStreamingReq)
    (hnotRunning : (s'.objects r).status ≠ .running) (hrest : rest'.Perm (r :: rest)) :
    s'.QueuedIn kept run rest' := by
  have hnotMem : r ∉ run ++ rest := fun hmem => hnew (h.live hmem).1
  have honce := count_eq_zero.mpr hnotMem
  rw [count_append] at honce
  obtain ⟨hself, hothers⟩ := count_of_perm_cons hrest
  have hmem : r ∈ s'.requests := by
    rw [hreq]
    exact mem_append_right _ mem_cons_self
  refine h.change [r] (nodup_singleton r) ?_ (fun q hq => ?_)
    (fun q hq => hsame q (mt mem_singleton.mpr hq)) ?_ (fun _ _ => rfl)
    (fun q hq => hothers q (mt mem_singleton.mpr hq)) fun q hq => ?_
  · rw [hreq]
    exact List.Nodup.append h.requests (nodup_singleton r) (disjoint_singleton.mpr hnew)
  · rw [hreq, mem_append]
    exact or_iff_left hq
  · rw [hcount, filter_singleton, filter_singleton, waits, waits,
      decide_eq_false (fun hno => hnew hno.1), decide_eq_false (fun hno => hwait hno.2)]
    simp
  · obtain rfl := mem_singleton.mp hq
    refine ⟨?_, fun hin => absurd (mem_append_left _ hin) hnotMem, fun _ => hnotRunning,
      fun _ hdone => nomatch hunfin.symm.trans hdone⟩
    rw [(isLive_iff s' q).mpr ⟨hmem, hunfin⟩, if_pos rfl]
    omega

end

end

end QueuedIn

end Scheduler

end VllmEcho
