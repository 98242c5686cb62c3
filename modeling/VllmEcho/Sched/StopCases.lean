import VllmEcho.Sched.Update

/-!
# When appended tokens stop a request

`stopsOn` says whether a list of sampled tokens stops a request.  It reads the tokens, the sampling
parameters and the length limits of the request, none of the scheduler's counters.
-/

namespace VllmEcho

open List

variable {ts appended : List TokenId} {stopped : Bool}

def Request.push (r : Request) (t : TokenId) : Request :=
  { r with outputTokenIds := r.outputTokenIds ++ [t], allTokenIds := r.allTokenIds ++ [t] }

def Request.stopsNow (maxModelLen : Nat) (r : Request) : Bool :=
  match r.samplingParams with
  | none => false
  | some sp => (stopOutcome r sp maxModelLen).isSome

def stopsOn (maxModelLen : Nat) : Request → List TokenId → Bool
  | _, [] => false
  | r, t :: ts => (r.push t).stopsNow maxModelLen || stopsOn maxModelLen (r.push t) ts

def upToStop (maxModelLen : Nat) : Request → List TokenId → List TokenId
  | _, [] => []
  | r, t :: ts =>
    if (r.push t).stopsNow maxModelLen then [t] else t :: upToStop maxModelLen (r.push t) ts

variable {maxModelLen : Nat} {r r' : Request} {hasher : Option BlockHasher}

theorem stopOutcome_finished {sp : SamplingParams} {status : RequestStatus}
    {reason : Option StopReason} (h : stopOutcome r sp maxModelLen = some (status, reason)) :
    status.isFinished = true := by
  unfold stopOutcome at h
  split at h
  · cases h
  dsimp only at h
  split at h
  · cases h
    rfl
  split at h
  · cases h
    rfl
  split at h
  · cases h
    rfl
  split at h
  · cases h
  · split at h
    · cases h
      rfl
    · cases h

structure SameStops (r r' : Request) : Prop where
  outputs : r'.outputTokenIds = r.outputTokenIds
  tokens : r'.allTokenIds = r.allTokenIds
  params : r'.samplingParams = r.samplingParams
  maxTokens : r'.maxTokens = r.maxTokens

theorem SameStops.stopsNow (h : SameStops r r') :
    r'.stopsNow maxModelLen = r.stopsNow maxModelLen := by
  have hout : ∀ sp, (stopOutcome r' sp maxModelLen).isSome =
      (stopOutcome r sp maxModelLen).isSome := by
    intro sp
    unfold stopOutcome Request.numOutputTokens Request.numTokens
    rw [h.outputs, h.tokens, h.maxTokens]
    split
    · rfl
    dsimp only
    split
    · rfl
    · split
      · rfl
      · split <;> rfl
  unfold Request.stopsNow
  rw [h.params]
  cases r.samplingParams with
  | none => rfl
  | some sp => exact hout sp

theorem SameStops.push (h : SameStops r r') (t : TokenId) : SameStops (r.push t) (r'.push t) where
  outputs := congrArg (· ++ [t]) h.outputs
  tokens := congrArg (· ++ [t]) h.tokens
  params := h.params
  maxTokens := h.maxTokens

theorem SameStops.stopsOn (h : SameStops r r') (ts : List TokenId) :
    stopsOn maxModelLen r' ts = stopsOn maxModelLen r ts := by
  induction ts generalizing r r' with
  | nil => rfl
  | cons t ts ih =>
    show (_ || _) = (_ || _)
    rw [(h.push t).stopsNow, ih (h.push t)]

theorem SameStops.upToStop (h : SameStops r r') (ts : List TokenId) :
    upToStop maxModelLen r' ts = upToStop maxModelLen r ts := by
  induction ts generalizing r r' with
  | nil => rfl
  | cons t ts ih =>
    show (if _ then _ else _) = (if _ then _ else _)
    rw [(h.push t).stopsNow, ih (h.push t)]

structure Appended (maxModelLen : Nat) (r r' : Request) (ts appended : List TokenId)
    (stopped : Bool) : Prop where
  stops : stopped = stopsOn maxModelLen r ts
  emitted : appended = upToStop maxModelLen r ts
  initial : appended <+: ts
  all : stopped = false → appended = ts
  status : stopped = false → r'.status = r.status
  finished : stopped = true → r'.status.isFinished = true
  fields : ∃ hashes reason, r' =
    { r with
      outputTokenIds := r.outputTokenIds ++ appended
      allTokenIds := r.allTokenIds ++ appended
      blockHashes := hashes
      status := r'.status
      stopReason := reason }

theorem Appended.not_stopped (h : Appended maxModelLen r r' ts appended stopped)
    (hlive : r'.status.isFinished = false) : stopped = false := by
  cases hs : stopped with
  | false => rfl
  | true =>
    rw [h.finished hs] at hlive
    cases hlive

theorem checkStop_cases (h : checkStop r maxModelLen = .ok (r', stopped)) :
    stopped = r.stopsNow maxModelLen ∧ (stopped = false → r' = r) ∧
      (stopped = true → ∃ status reason, status.isFinished = true ∧
        r' = { r with status := status, stopReason := reason }) := by
  unfold checkStop at h
  split at h
  · cases h
  · cases h
  rename_i sp _ hsp
  have hnow : r.stopsNow maxModelLen = (stopOutcome r sp maxModelLen).isSome := by
    rw [Request.stopsNow, hsp]
  split at h
  · rename_i hnone
    cases h
    rw [hnow, hnone]
    exact ⟨rfl, fun _ => rfl, nofun⟩
  · rename_i status reason hsome
    cases h
    rw [hnow, hsome]
    exact ⟨rfl, nofun, fun _ =>
      ⟨status, reason, stopOutcome_finished hsome, rfl⟩⟩

theorem appendUntilStop_cases
    (h : appendUntilStop hasher maxModelLen r ts = .ok (r', appended, stopped)) :
    Appended maxModelLen r r' ts appended stopped := by
  induction ts generalizing r appended with
  | nil =>
    cases h
    refine ⟨rfl, rfl, prefix_rfl, fun _ => rfl, fun _ => rfl, nofun,
      r'.blockHashes, r'.stopReason, ?_⟩
    rw [append_nil, append_nil]
  | cons t ts ih =>
    obtain ⟨r₁, happend, h⟩ := of_bind h
    obtain ⟨hashes, rfl⟩ := updateBlockHashes_fields happend
    obtain ⟨⟨r₂, stopped₂⟩, hcheck, h⟩ := of_bind h
    obtain ⟨hnow, hgo, hstop⟩ := checkStop_cases hcheck
    -- the new hashes play no part in stopping
    have hsame : SameStops (r.push t) ({ r.push t with blockHashes := hashes } : Request) :=
      ⟨rfl, rfl, rfl, rfl⟩
    have hnow' : stopped₂ = (r.push t).stopsNow maxModelLen := hnow.trans hsame.stopsNow
    dsimp only at h
    split at h
    · rename_i htrue
      cases h
      obtain ⟨status, reason, hfin, rfl⟩ := hstop htrue
      refine ⟨?_, ?_, ⟨ts, rfl⟩, nofun, nofun, fun _ => hfin, hashes, reason, rfl⟩
      · show true = ((r.push t).stopsNow maxModelLen || _)
        rw [← hnow', htrue, Bool.true_or]
      · show _ = if (r.push t).stopsNow maxModelLen then _ else _
        rw [← hnow', if_pos htrue]
    rename_i hfalse
    have hfalse' : stopped₂ = false := Bool.eq_false_iff.mpr hfalse
    obtain ⟨⟨r₃, appended₃, stopped₃⟩, hrest, h⟩ := of_bind h
    cases h
    rw [hgo hfalse'] at hrest
    obtain ⟨hstops, hemitted, hinitial, hall, hstatus, hfinished, hashes₃, reason₃, hfields⟩ :=
      ih hrest
    refine ⟨?_, ?_, ?_, fun heq => ?_, hstatus, hfinished, hashes₃, reason₃, ?_⟩
    · show stopped₃ = ((r.push t).stopsNow maxModelLen || _)
      rw [← hnow', hfalse']
      exact hstops.trans (hsame.stopsOn ts)
    · show _ = if (r.push t).stopsNow maxModelLen then _ else _
      rw [← hnow', if_neg hfalse, hemitted]
      exact congrArg (t :: ·) (hsame.upToStop ts)
    · exact cons_prefix_cons.mpr ⟨rfl, hinitial⟩
    · rw [hall heq]
    · rw [hfields]
      show ({ r with
        outputTokenIds := r.outputTokenIds ++ [t] ++ appended₃
        allTokenIds := r.allTokenIds ++ [t] ++ appended₃
        blockHashes := hashes₃
        status := r₃.status
        stopReason := reason₃ } : Request) = _
      rw [append_assoc, append_assoc]
      rfl

end VllmEcho
