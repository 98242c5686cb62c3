import VllmEcho.Recompute.Dropped

/-!
# Scheduled tokens and scheduled drafts

A step may schedule a request beyond its known tokens only over drafts that it also schedules.  The
running loop counts the drafts from the number of computed tokens that the worker is sent.  The
waiting loop counts them before that number is replaced by the length of the prefix hit.
-/

namespace VllmEcho

open Lib Option RequestQueue StepState

variable {n : Int} {i : Nat} {budget : Int} {cache : EncoderCacheManager} {st : StepState}
  {r : ReqId} {q : Request} {f : FoundTokens}

/-! ## Plans only take tokens away -/

namespace EncoderPlan

variable {cfg : SchedulerConfig} {env : CallEnv} {id : ReqId} {computed : Int} {shift : Nat}
  {p p' : EncoderPlan} {goOn : Bool}

def Within (p : EncoderPlan) (n : Int) : Prop :=
  p.numNewTokens = n ∨ p.numNewTokens = 0 ∨ (0 < p.numNewTokens ∧ p.numNewTokens ≤ n)

theorem Within.trans (h : p.Within n) (h' : p'.Within p.numNewTokens) : p'.Within n := by
  unfold Within at *
  omega

theorem place_within {f : MMFeature} (hstart : f.offset < computed + p.numNewTokens + shift)
    (h : p.place cfg env computed shift f i = .ok (p', goOn)) : p'.Within p.numNewTokens := by
  unfold place at h
  split at h
  · cases h
    dsimp only [Within]
    omega
  obtain ⟨⟨fits, cache⟩, -, h⟩ := of_bind h
  dsimp only at h
  split at h
  · cases h
    dsimp only [Within]
    omega
  split at h
  · cases h
    exact Or.inl rfl
  · cases h
    left
    unfold take
    split <;> rfl

theorem item_within {f : MMFeature} (h : p.item cfg env id computed shift f i = .ok (p', goOn)) :
    p'.Within p.numNewTokens := by
  unfold item at h
  split at h
  · cases h
    exact Or.inl rfl
  rename_i hstart
  split at h
  · cases h
    exact Or.inl rfl
  split at h
  · cases h
    exact Or.inl rfl
  obtain ⟨⟨hit, cache⟩, -, h⟩ := of_bind h
  dsimp only at h
  split at h
  · cases h
    exact Or.inl rfl
  · exact place_within (p := { p with cache := cache }) (Int.not_le.mp hstart) h

theorem loop_within {fs : List (MMFeature × Nat)} (hp : p.Within n)
    (h : loop cfg env id computed shift fs p = .ok p') : p'.Within n := by
  induction fs generalizing p with
  | nil =>
    cases h
    exact hp
  | cons f fs ih =>
    obtain ⟨⟨p₁, goOn⟩, hitem, h⟩ := of_bind h
    have hp₁ : p₁.Within n := hp.trans (item_within hitem)
    dsimp only at h
    split at h
    · exact ih hp₁ h
    · cases h
      exact hp₁

end EncoderPlan

variable {env : CallEnv} {p : EncoderPlan} {cfg : SchedulerConfig}

theorem tryScheduleEncoderInputs_within {r : Request} {computed : Int}
    (h : tryScheduleEncoderInputs cfg env r computed n budget cache = .ok p) : p.Within n := by
  unfold tryScheduleEncoderInputs at h
  split at h
  · cases h
    exact Or.inl rfl
  · exact EncoderPlan.loop_within (Or.inl rfl) h

theorem mambaBlockAlignedSplit_le {r : Request} {n' : Int} {numLocal numExternal : Nat}
    (h : mambaBlockAlignedSplit cfg r n numLocal numExternal = .ok n') :
    (n' ≤ n ∨ n' = 0) ∧ (0 ≤ n → 0 ≤ n') := by
  unfold mambaBlockAlignedSplit at h
  split at h
  · cases h
    exact ⟨Or.inl (Int.le_refl _), id⟩
  rename_i blockSize _
  obtain ⟨-, -, h⟩ := of_bind h
  dsimp only at h
  generalize (if cfg.useEagle = true then _ else _ : Int) = last at h
  split at h
  · split at h
    · cases h
      by_cases hzero : (blockSize : Int) = 0
      · rw [hzero, Int.mul_zero]
        exact ⟨Or.inr rfl, fun _ => Int.le_refl 0⟩
      · refine ⟨Or.inl (Int.ediv_mul_le n hzero), fun hn => ?_⟩
        exact Int.mul_nonneg (Int.ediv_nonneg hn (Int.natCast_nonneg _)) (Int.natCast_nonneg _)
    · split at h
      · cases h
        omega
      · cases h
        exact ⟨Or.inl (Int.le_refl _), id⟩
  · cases h
    exact ⟨Or.inl (Int.le_refl _), id⟩

variable {encoderBudget : Int}

theorem planRunning_le {r : Request}
    (h : planRunning cfg env r budget encoderBudget cache = .ok p) :
    p.numNewTokens ≤ r.numTokensWithSpec + r.numOutputPlaceholders - r.numComputedTokens ∨
      p.numNewTokens = 0 := by
  obtain ⟨p₁, hencoder, h⟩ := of_bind h
  obtain ⟨n, hsplit, h⟩ := of_bind h
  cases h
  have hwithin := tryScheduleEncoderInputs_within hencoder
  have hle := mambaBlockAlignedSplit_le hsplit
  have hcap : runningNumNewTokens cfg r budget ≤
      r.numTokensWithSpec + r.numOutputPlaceholders - r.numComputedTokens := by
    unfold runningNumNewTokens capLongPrefill
    dsimp only
    split <;> omega
  unfold EncoderPlan.Within at hwithin
  show n ≤ _ ∨ n = 0
  omega

/-! ## Which drafts a step schedules -/

def StepState.drafts (st : StepState) (r : ReqId) : List TokenId :=
  (st.scheduledSpecDecodeTokens.get? r).getD []

/-- The step schedules `n` tokens of the request, and exactly those beyond its tokens and
placeholders are scheduled drafts. -/
def StepState.TokensExist (st : StepState) (r : ReqId) (n : Int) : Prop :=
  ((st.drafts r).length : Int) = max 0 ((st.req r).numComputedTokens + n -
    ((st.req r).numTokens + (st.req r).numOutputPlaceholders))

theorem StepState.tokensExist_iff (q : Request) (drafts : List TokenId) (hreq : st.req r = q)
    (hdrafts : st.drafts r = drafts) :
    st.TokensExist r n ↔ (drafts.length : Int) = max 0 (q.numComputedTokens + n -
      (q.numTokens + q.numOutputPlaceholders)) := by
  unfold TokensExist
  rw [hreq, hdrafts]

theorem scheduledDrafts_length (r : Request) (n : Int) :
    ((scheduledDrafts r n).length : Int) = min (r.specTokenIds.length : Int)
      (max 0 (n + r.numComputedTokens - r.numTokens - r.numOutputPlaceholders)) := by
  unfold scheduledDrafts
  rw [List.length_take]
  omega

theorem get?_recorded {d : Dict ReqId (List TokenId)} (hnew : d.get? r = none)
    (drafts : List TokenId) :
    ((if drafts = [] then d else d.set r drafts).get? r).getD [] = drafts := by
  split
  · rename_i hnil
    rw [hnew, hnil]
    rfl
  · rw [Dict.get?_set_self]
    rfl

variable {s : Scheduler} (numExternal : Nat) {i' : Nat}

namespace RecomputeScheduler

variable {cfg : RecomputeConfig}

/-! ## Waiting requests -/

/-- A plan never exceeds the tokens that the request has beyond the computed ones. -/
theorem planWaiting_le {cache' : EncoderCacheManager} (hsync : f.loadKvAsync = false)
    (h : planWaiting cfg.toSchedulerConfig env q f (variant cfg env) budget encoderBudget cache =
      .ok (some p, cache')) :
    p.numNewTokens ≤ (waitingNumTokens cfg q : Int) - f.numComputedTokens := by
  obtain ⟨⟨plan, cache₁⟩, htokens, h⟩ := of_bind h
  cases plan with
  | none => cases h
  | some p₁ =>
    obtain ⟨n, hsplit, h⟩ := of_bind h
    split at h
    · cases h
    cases h
    unfold planWaitingTokens at htokens
    rw [hsync, if_neg Bool.false_ne_true] at htokens
    dsimp only at htokens
    split at htokens
    · cases htokens
    obtain ⟨_, hpos, htokens⟩ := of_bind htokens
    have hpos := of_decide_eq_true (assertThat_eq_ok.mp hpos)
    obtain ⟨p₂, hencoder, htokens⟩ := of_bind htokens
    have hwithin := tryScheduleEncoderInputs_within hencoder
    have hle := mambaBlockAlignedSplit_le hsplit
    have hp : p₁ = p₂ := by
      split at htokens
      · cases htokens
      · cases htokens
        rfl
    subst hp
    unfold EncoderPlan.Within at hwithin
    have hcap : ∀ n, capLongPrefill cfg.toSchedulerConfig n ≤ n := by
      intro n
      unfold capLongPrefill
      split <;> omega
    have hcap := hcap (((variant cfg env).waitingNumTokens q : Int) - f.numComputedTokens)
    show n ≤ ((variant cfg env).waitingNumTokens q : Int) - f.numComputedTokens
    omega

theorem findTokens_computed (h : findTokens cfg.toSchedulerConfig env s q = .ok (some f)) :
    q.numComputedTokens = 0 ∧ 0 ≤ f.numComputedTokens ∨
      f.numComputedTokens = q.numComputedTokens := by
  unfold findTokens at h
  split at h
  · rename_i hzero
    obtain ⟨⟨blocks, numLocal⟩, -, h⟩ := of_bind h
    dsimp only at h
    split at h
    · cases h
    · obtain ⟨-, -, h⟩ := of_bind h
      cases h
      exact Or.inl ⟨hzero, Int.add_nonneg (Int.natCast_nonneg _) (Int.natCast_nonneg _)⟩
  · cases h
    exact Or.inr rfl

theorem takeDrafts_frame (cfg : RecomputeConfig) (st : StepState) (r : ReqId) (n : Int) :
    (takeDrafts cfg st r n).numScheduledTokens = st.numScheduledTokens ∧
      (takeDrafts cfg st r n).sched.running = st.sched.running ∧
      (∀ q, q ≠ r → (takeDrafts cfg st r n).req q = st.req q ∧
        (takeDrafts cfg st r n).scheduledSpecDecodeTokens.get? q =
          st.scheduledSpecDecodeTokens.get? q) ∧
      ∃ spec, (takeDrafts cfg st r n).req r = { st.req r with specTokenIds := spec } := by
  unfold takeDrafts
  split
  · refine ⟨rfl, rfl, fun q hq => ⟨if_neg hq, ?_⟩, [], if_pos rfl⟩
    dsimp only
    split
    · rfl
    · exact Dict.get?_set_ne _ hq
  · exact ⟨rfl, rfl, fun _ _ => ⟨rfl, rfl⟩, (st.req r).specTokenIds, rfl⟩

theorem takeDrafts_spec (hnew : st.scheduledSpecDecodeTokens.get? r = none) :
    (takeDrafts cfg st r n).drafts r =
      if cfg.isMtpKvConsumer then scheduledDrafts (st.req r) n else [] := by
  unfold takeDrafts
  split
  · exact get?_recorded hnew _
  · unfold drafts
    rw [hnew]
    rfl

/-- The tokens exist unless some were found and the request is scheduled past its own. -/
theorem admit_tokensExist_iff {st' : StepState}
    (h : (takeDrafts cfg st r p.numNewTokens).admitRequest cfg.toSchedulerConfig r f p = .ok st')
    (hnew : st.scheduledSpecDecodeTokens.get? r = none) (hq : st.req r = q)
    (hcount : 0 ≤ q.numOutputPlaceholders)
    (hfound : q.numComputedTokens = 0 ∧ 0 ≤ f.numComputedTokens ∨
      f.numComputedTokens = q.numComputedTokens)
    (hle : p.numNewTokens ≤ (waitingNumTokens cfg q : Int) - f.numComputedTokens) :
    st'.numScheduledTokens.get? r = some p.numNewTokens ∧ (st'.TokensExist r p.numNewTokens ↔
      ¬ (f.numComputedTokens ≠ q.numComputedTokens ∧
        (q.numTokens : Int) + q.numOutputPlaceholders < f.numComputedTokens + p.numNewTokens)) := by
  have hdrafts : (takeDrafts cfg st r p.numNewTokens).drafts r = _ := takeDrafts_spec hnew
  obtain ⟨-, -, -, spec, hreq⟩ := takeDrafts_frame cfg st r p.numNewTokens
  obtain ⟨cache, loras, newReqs, resumedReqs, inputs, budget, -, rfl⟩ := admitRequest_cases h
  rw [hq] at hdrafts hreq
  apply And.intro (Dict.get?_set_self _)
  refine Iff.trans (tokensExist_iff (startRunning f { q with specTokenIds := spec })
    (if cfg.isMtpKvConsumer then scheduledDrafts q p.numNewTokens else []) ?_ hdrafts) ?_
  · rw [← hreq]
    exact if_pos rfl
  have hlen := scheduledDrafts_length q p.numNewTokens
  unfold waitingNumTokens Request.numTokensWithSpec at hle
  unfold startRunning Request.numTokens
  unfold Request.numTokens at hle hlen
  dsimp only
  split at hle <;> rename_i hmtp
  · rw [if_pos hmtp]
    omega
  · rw [if_neg hmtp, List.length_nil]
    omega

theorem setQueue_req (q : List ReqId) (which : WaitingQueue) :
    req { st with sched := st.sched.setQueue q which } r = st.req r := by
  cases which <;> rfl

theorem record_eq (cfg : RecomputeConfig) (f : FoundTokens) (q : Request) :
    ∃ n, f.record cfg.toSchedulerConfig q = { q with numExternalComputedTokens := n } := by
  unfold FoundTokens.record
  split
  · exact ⟨_, rfl⟩
  · exact ⟨q.numExternalComputedTokens, rfl⟩

end RecomputeScheduler

end VllmEcho
