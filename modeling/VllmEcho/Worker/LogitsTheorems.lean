import VllmEcho.Lib.Runs
import VllmEcho.Worker.BatchReplay
import VllmEcho.Worker.LogitsRows

/-!
# The logits processors follow the batch

A run of steps of the batch, each handed to the processors.  Beside the rows we keep, for every
request in the batch, what it was added with and the output tokens that the processors saw at each
update since; this determines the state that belongs to it.
-/

namespace VllmEcho

open Lib Function List RowBatch ThinkingBudget

variable (outputs : ReqId → List TokenId) (cfg : ThinkingConfig) {s : ThinkState}

namespace ThinkState

theorem update_congr {outputs outputs' : ReqId → List TokenId}
    (h : outputs s.outputTokIds = outputs' s.outputTokIds) :
    s.update cfg outputs = s.update cfg outputs' := by
  unfold update
  rw [h]

theorem outputTokIds_update (outputs : ReqId → List TokenId) :
    (s.update cfg outputs).outputTokIds = s.outputTokIds := by
  unfold update forceEnd countDown scanMarkers
  dsimp only
  repeat' split
  all_goals rfl

theorem outputTokIds_foldl (seen : List (List TokenId)) (s : ThinkState) :
    (seen.foldl (fun s out => s.update cfg fun _ => out) s).outputTokIds = s.outputTokIds := by
  induction seen generalizing s with
  | nil => rfl
  | cons out seen ih => rw [foldl_cons, ih, outputTokIds_update]

end ThinkState

structure Resident where
  request : NewRequest
  seen : List (List TokenId)

variable (g : Resident) (q : NewRequest)

namespace Resident

def reqId (g : Resident) : ReqId := g.request.reqId

def enter : Resident := ⟨q, []⟩

def tick : Resident :=
  { g with seen := g.seen ++ [outputs g.reqId] }

def minTokens (g : Resident) : Option MinTokens :=
  if g.request.params.minTokens = 0 ∨ ∃ out ∈ g.seen, g.request.params.minTokens ≤ out.length then
    none
  else some ⟨g.request.params.minTokens, g.reqId, g.request.params.allStopTokenIds⟩

def thinkState : Option ThinkState :=
  if cfg.isEnabled then
    (newState cfg g.request).map fun state =>
      g.seen.foldl (fun s out => s.update cfg fun _ => out) state
  else none

theorem minTokens_tick :
    (g.tick outputs).minTokens = g.minTokens.filter (MinTokens.pending outputs) := by
  unfold minTokens
  by_cases hdone : g.request.params.minTokens = 0 ∨
      ∃ out ∈ g.seen, g.request.params.minTokens ≤ out.length
  · rw [if_pos hdone, Option.filter_none, if_pos]
    exact hdone.imp id fun ⟨out, hout, hle⟩ => ⟨out, mem_append_left _ hout, hle⟩
  rw [if_neg hdone, Option.filter_some]
  unfold MinTokens.pending
  by_cases hlt : (outputs g.reqId).length < g.request.params.minTokens
  · rw [if_pos (decide_eq_true hlt), if_neg]
    · rfl
    rintro (hzero | ⟨out, hout, hle⟩)
    · exact hdone (Or.inl hzero)
    · rcases mem_append.mp hout with hold | hnew
      · exact hdone (Or.inr ⟨out, hold, hle⟩)
      · rw [mem_singleton.mp hnew] at hle
        exact absurd hlt (Nat.not_lt.mpr hle)
  · have hnow : (g.tick outputs).request.params.minTokens = 0 ∨
        ∃ out ∈ (g.tick outputs).seen, (g.tick outputs).request.params.minTokens ≤ out.length :=
      Or.inr ⟨outputs g.reqId, mem_append_right _ (mem_singleton_self _),
        Nat.not_lt.mp hlt⟩
    rw [if_pos hnow, if_neg (by simpa using hlt)]

theorem thinkState_tick (outputs : ReqId → List TokenId) (g : Resident) :
    (g.tick outputs).thinkState cfg = (g.thinkState cfg).map (ThinkState.update cfg outputs) := by
  unfold thinkState
  split
  · unfold newState
    rw [Option.map_map, Option.map_map, Option.map_map]
    congr 1
    funext budget
    show (g.seen ++ [outputs g.reqId]).foldl _ _ = _
    rw [foldl_append]
    have href := ThinkState.outputTokIds_foldl cfg g.seen
      (ThinkState.initStateEntry cfg g.request.promptTokenIds g.request.reqId budget)
    show ThinkState.update cfg (fun _ => outputs g.reqId) _ = ThinkState.update cfg outputs _
    apply ThinkState.update_congr
    exact congrArg outputs href.symm
  · rfl

theorem filter_addRequest : (MinTokens.addRequest outputs q).filter (MinTokens.pending outputs) =
      (enter q).minTokens.filter (MinTokens.pending outputs) := by
  rw [← minTokens_tick]
  unfold MinTokens.addRequest minTokens
  by_cases hdone : q.params.minTokens = 0 ∨ q.params.minTokens ≤ (outputs q.reqId).length
  · rw [if_pos hdone, Option.filter_none, if_pos]
    exact hdone.imp id fun hle => ⟨_, mem_singleton_self _, hle⟩
  rw [if_neg hdone, if_neg, Option.filter_some, if_pos]
  · rfl
  · exact decide_eq_true (Nat.not_le.mp fun hle => hdone (Or.inr hle))
  · rintro (hzero | ⟨out, hout, hle⟩)
    · exact hdone (Or.inl hzero)
    · rw [mem_singleton.mp hout] at hle
      exact hdone (Or.inr hle)

theorem thinkState_enter {cfg : ThinkingConfig} (henabled : cfg.isEnabled = true) (q : NewRequest) :
    (enter q).thinkState cfg = newState cfg q := by
  unfold thinkState
  rw [if_pos henabled]
  exact Option.map_id'

end Resident

open Resident

structure LogitsRun where
  batch : RowBatch
  minP : MinPLogitsProcessor
  biases : Dict Nat (List (TokenId × ℚ))
  minToks : Dict Nat MinTokens
  think : Dict Nat ThinkState
  residents : ReqId → Option Resident

structure LogitsStep where
  removals : List ReqId
  additions : List NewRequest
  swaps : List (Nat × Nat)
  outputs : ReqId → List TokenId

variable (budget : Option Int) {a : LogitsStep}

namespace LogitsRun

def init (maxNumReqs : Nat) : LogitsRun :=
  ⟨RowBatch.init maxNumReqs, .init, Dict.empty, Dict.empty, Dict.empty, fun _ => none⟩

def residentsAfter (residents : ReqId → Option Resident) (a : LogitsStep) (r : ReqId) :
    Option Resident :=
  let resident := match a.additions.find? fun q => q.reqId = r with
    | some q => some (enter q)
    | none => if r ∈ a.removals then none else residents r
  resident.map (tick a.outputs)

variable (cfg : ThinkingConfig) (s : LogitsRun) (toFloat32 : ℚ → ℚ)

def exec (s : LogitsRun) (a : LogitsStep) : Except PyError LogitsRun := do
  let b ← s.batch.updateStates a.removals a.additions a.swaps
  let (update, batch) := b.refreshMetadata
  return {
    batch := batch
    minP := s.minP.updateState toFloat32 update
    biases := LogitBias.updateState s.biases update
    minToks := MinTokens.updateState a.outputs s.minToks update
    think := updateState cfg a.outputs s.think update
    residents := residentsAfter s.residents a }

def Fresh (a : LogitsStep) : Prop :=
  (a.additions.map NewRequest.reqId).Nodup ∧
    ∀ q ∈ a.additions, s.batch.reqIdToIndex.get? q.reqId ≠ none → q.reqId ∈ a.removals

def Step (s : LogitsRun) (a : LogitsStep) (s' : LogitsRun) : Prop :=
  s.Fresh a ∧ s.exec cfg toFloat32 a = .ok s'

def requestAt (i : Nat) : Option NewRequest :=
  ((s.batch.reqIds[i]?).join.bind s.residents).map request

def rowsAtMoves (u : BatchUpdateBuilder) : Nat → Option NewRequest :=
  clearRows none (fillRows s.requestAt (u.added.map fun a => (a.1, some a.2))) u.removed

def hasBudget (q : Option NewRequest) : Bool :=
  (q.bind fun q => q.params.thinkingTokenBudget).isSome

/-- No one-way move brings a request without a thinking budget to the row of one with a budget, and
no added min-p rounds to zero. -/
def TidyUpdate (s : LogitsRun) (u : BatchUpdateBuilder) : Prop :=
  (cfg.isEnabled = true → ∀ m ∈ u.moved, m.direction = .unidirectional →
    hasBudget (s.rowsAtMoves u m.dst) = true → hasBudget (s.rowsAtMoves u m.src) = true) ∧
  ∀ x ∈ u.added, x.2.params.minP ≠ 0 → toFloat32 x.2.params.minP ≠ 0

instance (cfg : ThinkingConfig) (toFloat32 : ℚ → ℚ) (s : LogitsRun) (u : BatchUpdateBuilder) :
    Decidable (s.TidyUpdate cfg toFloat32 u) := by
  unfold TidyUpdate
  infer_instance

def Tidy (s : LogitsRun) (a : LogitsStep) : Prop :=
  ∀ b, s.batch.updateStates a.removals a.additions a.swaps = .ok b →
    s.TidyUpdate cfg toFloat32 b.builder

/-- Every row has the states of its request, and nothing else has a state. -/
structure Follows (s : LogitsRun) : Prop where
  resident : ∀ r, (s.residents r).isSome = true ↔ ∃ i : Nat, s.batch.reqIds[i]? = some (some r)
  row : ∀ (i : Nat) (r : ReqId), s.batch.reqIds[i]? = some (some r) →
    ∃ g, s.residents r = some g ∧ g.reqId = r ∧
      s.minP.minPCpu i = toFloat32 g.request.params.minP ∧
      s.biases.get? i = logitBiasOf g.request.params ∧
      s.minToks.get? i = g.minTokens ∧
      s.think.get? i = g.thinkState cfg
  noRow : ∀ i : Nat, (∀ r, s.batch.reqIds[i]? ≠ some (some r)) →
    s.minP.minPCpu i = 0 ∧ s.biases.get? i = none ∧ s.minToks.get? i = none ∧
      s.think.get? i = none
  count : s.minP.minPCount =
    ((range s.batch.reqIds.length).filter fun i => s.minP.minPCpu i ≠ 0).length

/-! ## One step -/

def minPRow (o : Option Resident) : ℚ :=
  (o.map fun g => toFloat32 g.request.params.minP).getD 0

structure Tracks (s : LogitsRun) (live : List Resident) : Prop where
  settled : RowBatch.Settled reqId s.batch live
  residents : ∀ r g, s.residents r = some g ↔ g ∈ live ∧ g.reqId = r
  counted : s.minP.Counted
  minP : s.minP.minPCpu = minPRow toFloat32 ∘ rowsOf (live.map some)
  biases : s.biases.get? =
    (fun o => o.bind fun g => logitBiasOf g.request.params) ∘ rowsOf (live.map some)
  minToks : s.minToks.get? = (fun o => o.bind minTokens) ∘ rowsOf (live.map some)
  think : s.think.get? = (fun o => o.bind (thinkState cfg)) ∘ rowsOf (live.map some)

section Step

variable {cfg : ThinkingConfig} {toFloat32 : ℚ → ℚ} {base : Nat → Option Resident} {b : RowBatch}
    {live : List Resident} {ms : List Move}

theorem rowsOf_tick (live : List Resident) (i : Nat) :
    rowsOf ((live.map (tick outputs)).map some) i =
      (rowsOf (live.map some) i).map (tick outputs) := by
  unfold rowsOf
  rw [getElem?_map, getElem?_map, getElem?_map]
  cases live[i]? <;> rfl

theorem processDictUpdates_refresh {T : Type} {start : Nat → Option Resident}
    (h : RowBatch.Reported reqId start b live ms) (d : Dict Nat T)
    (newState : NewRequest → Option T) : (processDictUpdates d newState b.refreshMetadata.1).get? =
      replayRows none d.get? (b.builder.added.map fun a => (a.1, newState a.2)) b.builder.removed
        b.builder.moved := by
  rw [(refreshMetadata_settled h).2]
  split
  · rename_i hempty
    rw [hempty.1, hempty.2.1, hempty.2.2]
    rfl
  · exact get?_processDictUpdates d newState _

def atMoves (base : Nat → Option Resident) (u : BatchUpdateBuilder) : Nat → Option Resident :=
  clearRows none (fillRows base (entered enter u.added)) u.removed

section

variable (h : RowBatch.Reported reqId (fillRows base (entered enter b.builder.added)) b live ms)
include h

theorem replay_image {V : Type} (φ : Option Resident → V) :
    replayRows (φ none) (φ ∘ base) (b.builder.added.map fun a => (a.1, φ (some (enter a.2))))
        b.builder.removed b.builder.moved = φ ∘ rowsOf (live.map some) := by
  rw [h.replayed]
  have himage := comp_replayRows φ none base (entered enter b.builder.added)
    b.builder.removed b.builder.moved
  unfold entered at himage
  rw [map_map] at himage
  exact himage.symm

theorem biases_step {d : Dict Nat (List (TokenId × ℚ))}
    (hd : d.get? = (fun o => o.bind fun g => logitBiasOf g.request.params) ∘ base)
    {outputs : ReqId → List TokenId} : (LogitBias.updateState d b.refreshMetadata.1).get? =
      (fun o => o.bind fun g => logitBiasOf g.request.params) ∘
        rowsOf ((live.map (tick outputs)).map some) := by
  unfold LogitBias.updateState
  rw [processDictUpdates_refresh h, hd]
  have himage := replay_image h fun o => o.bind fun g => logitBiasOf g.request.params
  refine himage.trans ?_
  funext i
  rw [comp_apply, comp_apply, rowsOf_tick]
  cases rowsOf (live.map some) i <;> rfl

theorem minToks_step {d : Dict Nat MinTokens}
    (hd : d.get? = (fun o => o.bind minTokens) ∘ base) {outputs : ReqId → List TokenId} :
    (MinTokens.updateState outputs d b.refreshMetadata.1).get? =
      (fun o => o.bind minTokens) ∘
        rowsOf ((live.map (tick outputs)).map some) := by
  -- dropping the finished entries first makes an added request an image like the others
  have hdrop := comp_replayRows (Option.filter (MinTokens.pending outputs)) none d.get?
    (b.builder.added.map fun a => (a.1, MinTokens.addRequest outputs a.2)) b.builder.removed
    b.builder.moved
  have himage := replay_image h fun o =>
    (o.bind minTokens).filter (MinTokens.pending outputs)
  rw [map_map, hd] at hdrop
  funext i
  rw [MinTokens.get?_updateState, processDictUpdates_refresh h, comp_apply, rowsOf_tick, hd]
  have hat := congrFun hdrop i
  rw [comp_apply] at hat
  rw [hat]
  have hadded : (b.builder.added.map ((fun a => (a.1, a.2.filter (MinTokens.pending outputs))) ∘
      fun a => (a.1, MinTokens.addRequest outputs a.2))) =
      b.builder.added.map fun a => (a.1, ((some (enter a.2)).bind
        minTokens).filter (MinTokens.pending outputs)) := by
    apply map_congr_left
    intro a _
    exact congrArg (Prod.mk a.1) (filter_addRequest outputs a.2)
  rw [hadded]
  refine (congrFun himage i).trans ?_
  rw [comp_apply]
  cases rowsOf (live.map some) i with
  | none => rfl
  | some g => exact (minTokens_tick outputs g).symm

theorem think_step {d : Dict Nat ThinkState}
    (hd : d.get? = (fun o => o.bind (thinkState cfg)) ∘ base)
    (hkeep : cfg.isEnabled = true → ∀ m ∈ ms,
      (atMoves base b.builder m.src).bind (thinkState cfg) = none →
      (atMoves base b.builder m.dst).bind (thinkState cfg) = none)
    {outputs : ReqId → List TokenId} :
    (updateState cfg outputs d b.refreshMetadata.1).get? =
      (fun o => o.bind (thinkState cfg)) ∘
        rowsOf ((live.map (tick outputs)).map some) := by
  unfold updateState
  by_cases henabled : cfg.isEnabled = true
  · rw [if_pos henabled]
    have hfollow : (followBatch cfg d b.refreshMetadata.1).get? =
        (fun o => o.bind (thinkState cfg)) ∘ rowsOf (live.map some) := by
      rw [(refreshMetadata_settled h).2]
      split
      · rename_i hempty
        have hrows := h.replayed
        rw [hempty.1, hempty.2.1, hempty.2.2] at hrows
        rw [hrows]
        exact hd
      rw [get?_followBatch, h.replayed, comp_moveRows, comp_clearRows,
        comp_fillRows, hd]
      obtain ⟨ns, hns, hswap⟩ := h.swaps
      have hadded : (entered enter b.builder.added).map
          (fun a => (a.1, a.2.bind (thinkState cfg))) =
          b.builder.added.map fun a => (a.1, newState cfg a.2) := by
        unfold entered
        rw [map_map]
        apply map_congr_left
        intro a _
        exact congrArg (Prod.mk a.1) (thinkState_enter henabled a.2)
      rw [hadded]
      rw [hns]
      apply keepRows_eq h.apart hswap
      intro m hm _
      have himage : clearRows none (fillRows
          ((fun o => o.bind (thinkState cfg)) ∘ base)
          (b.builder.added.map fun a => (a.1, newState cfg a.2)))
          b.builder.removed = (fun o => o.bind (thinkState cfg)) ∘ atMoves base b.builder := by
        rw [atMoves, comp_clearRows, comp_fillRows, hadded]
        rfl
      rw [himage]
      exact hkeep henabled m hm
    funext i
    rw [get?_advance, hfollow, comp_apply, comp_apply, rowsOf_tick]
    cases rowsOf (live.map some) i with
    | none => rfl
    | some g => exact (thinkState_tick cfg outputs g).symm
  · -- without a reasoning configuration there are no states
    rw [if_neg henabled, hd]
    have hnone : thinkState cfg = fun _ => none := by
      funext g
      unfold thinkState
      rw [if_neg henabled]
    funext i
    simp [hnone]

theorem minP_step (hzero : toFloat32 0 = 0) (hidem : ∀ x, toFloat32 (toFloat32 x) = toFloat32 x)
    {p : MinPLogitsProcessor} (hcounted : p.Counted) (hcpu : p.minPCpu = minPRow toFloat32 ∘ base)
    (hround : ∀ a ∈ b.builder.added, a.2.params.minP ≠ 0 → toFloat32 a.2.params.minP ≠ 0)
    (outputs : ReqId → List TokenId) :
    (p.updateState toFloat32 b.refreshMetadata.1).Counted ∧
      (p.updateState toFloat32 b.refreshMetadata.1).minPCpu =
        minPRow toFloat32 ∘ rowsOf ((live.map (tick outputs)).map some) := by
  have himage := replay_image h (minPRow toFloat32)
  have htick : minPRow toFloat32 ∘ rowsOf ((live.map (tick outputs)).map some) =
      minPRow toFloat32 ∘ rowsOf (live.map some) := by
    funext i
    rw [comp_apply, comp_apply, rowsOf_tick]
    cases rowsOf (live.map some) i <;> rfl
  rw [htick, ← himage, (refreshMetadata_settled h).2]
  split
  · rename_i hempty
    rw [hempty.1, hempty.2.1, hempty.2.2]
    exact ⟨hcounted, hcpu⟩
  have hrounded : p.Rounded toFloat32 := by
    intro i
    rw [hcpu, comp_apply]
    unfold minPRow
    cases base i with
    | none => exact hzero
    | some g => exact hidem _
  rw [← hcpu]
  refine MinPLogitsProcessor.updateState_replay hcounted hrounded hzero hidem ?_ hround
  intro m hm hdir
  obtain ⟨ns, hns, hswap⟩ := h.swaps
  rw [hns] at hm
  cases mem_append.mp hm with
  | inl hcondense => exact Nat.ne_of_lt (h.oneWay m hcondense).2
  | inr hreorder =>
    rw [hswap m hreorder] at hdir
    cases hdir

end

theorem residents_step {residents : ReqId → Option Resident} {live' : List Resident}
    (hres : ∀ r g, residents r = some g ↔ g ∈ live ∧ g.reqId = r)
    (hnodup : (a.additions.map NewRequest.reqId).Nodup)
    (hfresh : ∀ q ∈ a.additions, ∀ g ∈ live, g.reqId = q.reqId → q.reqId ∈ a.removals)
    (hmem : ∀ g, g ∈ live' ↔ g ∈ live ∧ g.reqId ∉ a.removals ∨
      ∃ q ∈ a.additions, g = enter q) (r : ReqId) (g : Resident) :
    residentsAfter residents a r = some g ↔
      g ∈ live'.map (tick a.outputs) ∧ g.reqId = r := by
  have hbefore : ∀ g₀, (match a.additions.find? fun q => q.reqId = r with
      | some q => some (enter q)
      | none => if r ∈ a.removals then none else residents r) = some g₀ ↔
      g₀ ∈ live' ∧ g₀.reqId = r := by
    intro g₀
    rw [hmem]
    cases hfind : a.additions.find? fun q => q.reqId = r with
    | some q =>
      have hq := mem_of_find?_eq_some hfind
      have hqr : q.reqId = r := by simpa using find?_some hfind
      constructor
      · intro heq
        cases heq
        exact ⟨Or.inr ⟨q, hq, rfl⟩, hqr⟩
      · rintro ⟨⟨hlive, hkept⟩ | ⟨p, hp, rfl⟩, hr⟩
        · exact absurd (hfresh q hq g₀ hlive (hr.trans hqr.symm)) (by rw [hqr, ← hr]; exact hkept)
        · rw [inj_on_of_nodup_map hnodup hp hq (hr.trans hqr.symm)]
    | none =>
      have hnone : ∀ q ∈ a.additions, q.reqId ≠ r := by
        simpa using find?_eq_none.mp hfind
      dsimp only
      constructor
      · intro heq
        split at heq
        · cases heq
        · rename_i hkept
          obtain ⟨hlive, hr⟩ := (hres r g₀).mp heq
          exact ⟨Or.inl ⟨hlive, by rw [hr]; exact hkept⟩, hr⟩
      · rintro ⟨⟨hlive, hkept⟩ | ⟨p, hp, rfl⟩, hr⟩
        · rw [if_neg (hr ▸ hkept)]
          exact (hres r g₀).mpr ⟨hlive, hr⟩
        · exact absurd hr (hnone p hp)
  unfold residentsAfter
  rw [Option.map_eq_some_iff, mem_map]
  constructor
  · rintro ⟨g₀, hg₀, rfl⟩
    obtain ⟨hlive, hr⟩ := (hbefore g₀).mp hg₀
    exact ⟨⟨g₀, hlive, rfl⟩, hr⟩
  · rintro ⟨⟨g₀, hlive, rfl⟩, hr⟩
    exact ⟨g₀, (hbefore g₀).mpr ⟨hlive, hr⟩, rfl⟩

theorem settled_tick {b : RowBatch} (h : RowBatch.Settled reqId b live)
    (outputs : ReqId → List TokenId) :
    RowBatch.Settled reqId b (live.map (tick outputs)) := by
  refine ⟨⟨?_, h.holds.index⟩, h.reset⟩
  rw [h.holds.reqIds]
  simp only [map_map]
  rfl

theorem requestAt_eq {s : LogitsRun} (h : s.Tracks cfg toFloat32 live) :
    s.requestAt = Option.map request ∘ rowsOf (live.map some) := by
  funext i
  unfold requestAt
  rw [comp_apply, rowsOf, h.settled.holds.reqIds, getElem?_map,
    getElem?_map]
  cases hi : live[i]? with
  | none => rfl
  | some g =>
    have hres := (h.residents g.reqId g).mpr ⟨mem_of_getElem? hi, rfl⟩
    simp [hres]

theorem rowsAtMoves_eq {s : LogitsRun} (h : s.Tracks cfg toFloat32 live) (u : BatchUpdateBuilder) :
    s.rowsAtMoves u = Option.map request ∘ atMoves (rowsOf (live.map some)) u := by
  unfold rowsAtMoves atMoves entered
  rw [comp_clearRows, comp_fillRows, requestAt_eq h, map_map]
  rfl

theorem hasBudget_iff (henabled : cfg.isEnabled = true) (o : Option Resident) :
    hasBudget (o.map request) = true ↔ o.bind (thinkState cfg) ≠ none := by
  cases o with
  | none => simp [hasBudget]
  | some g =>
    unfold hasBudget thinkState newState
    rw [Option.bind_some, if_pos henabled]
    simp [Option.isSome_iff_ne_none]

/-- One step of a tidy run. -/
theorem Tracks.step {s s' : LogitsRun} (hzero : toFloat32 0 = 0)
    (hidem : ∀ x, toFloat32 (toFloat32 x) = toFloat32 x) (h : s.Tracks cfg toFloat32 live)
    (htidy : s.Tidy cfg toFloat32 a) (hstep : s.Step cfg toFloat32 a s') :
    ∃ live', s'.Tracks cfg toFloat32 live' := by
  obtain ⟨⟨hnodup, hfresh⟩, hexec⟩ := hstep
  obtain ⟨b, hb, hexec⟩ := of_bind hexec
  cases hexec
  obtain ⟨hbudget, hround⟩ := htidy b hb
  have hfreshLive : ∀ q ∈ a.additions, ∀ g ∈ live, g.reqId = q.reqId → q.reqId ∈ a.removals := by
    intro q hq g hg hgq
    apply hfresh q hq
    obtain ⟨i, hi⟩ := mem_iff_getElem?.mp hg
    have hid := h.settled.holds.getElem? (by rw [getElem?_map, hi]; rfl)
    rw [← hgq, (h.settled.holds.index g.reqId i).mpr hid]
    simp
  obtain ⟨live', ms, hrep, hadded, hrows, hmem⟩ := updateStates_replay
    (show ∀ q, (enter q).reqId = q.reqId from fun q => rfl) h.settled hnodup hfreshLive hb
  have hsettled := (refreshMetadata_settled hrep).1
  have hminP := minP_step hrep hzero hidem h.counted h.minP hround a.outputs
  refine ⟨live'.map (tick a.outputs), ?_⟩
  constructor
  case settled => exact settled_tick hsettled a.outputs
  case residents => exact residents_step h.residents hnodup hfreshLive hmem
  case counted => exact hminP.1
  case minP => exact hminP.2
  case biases => exact biases_step hrep h.biases
  case minToks => exact minToks_step hrep h.minToks
  case think =>
    apply think_step hrep h.think
    intro henabled m hm hsrc
    obtain ⟨ns, hns, _⟩ := hrep.swaps
    have hmoved : m ∈ b.builder.moved := hns ▸ mem_append_left ns hm
    by_contra hdst
    have hbudget := hbudget henabled m hmoved (hrep.oneWay m hm).1
    rw [rowsAtMoves_eq h, comp_apply, comp_apply, hasBudget_iff henabled,
      hasBudget_iff henabled] at hbudget
    exact hbudget hdst hsrc

end Step

/-! ## Whole runs -/

theorem Tracks.init (cfg : ThinkingConfig) (toFloat32 : ℚ → ℚ) (maxNumReqs : Nat) :
    (init maxNumReqs).Tracks cfg toFloat32 [] := by
  constructor
  case settled =>
    refine ⟨⟨rfl, fun r i => ?_⟩, rfl⟩
    simp [LogitsRun.init, RowBatch.init]
  case residents =>
    intro r g
    simp [LogitsRun.init]
  case counted =>
    have hempty : support (LogitsRun.init maxNumReqs).minP.minPCpu = ∅ :=
      support_eq_empty_iff.mpr rfl
    unfold MinPLogitsProcessor.Counted
    rw [hempty]
    exact ⟨Set.finite_empty, by rw [Set.ncard_empty]; rfl⟩
  case minP => rfl
  case biases => rfl
  case minToks => rfl
  case think => rfl

theorem Tracks.follows {cfg : ThinkingConfig} {toFloat32 : ℚ → ℚ} {s : LogitsRun}
    {live : List Resident} (h : s.Tracks cfg toFloat32 live) : s.Follows cfg toFloat32 := by
  have hids : ∀ i : Nat, s.batch.reqIds[i]? = (live[i]?).map fun g => some g.reqId := by
    intro i
    rw [h.settled.holds.reqIds, map_map, getElem?_map]
    rfl
  have hlive : ∀ (i : Nat) (r : ReqId), s.batch.reqIds[i]? = some (some r) →
      ∃ g, live[i]? = some g ∧ g.reqId = r := by
    intro i r hr
    rw [hids] at hr
    obtain ⟨g, hg, hgr⟩ := Option.map_eq_some_iff.mp hr
    exact ⟨g, hg, Option.some.inj hgr⟩
  have hrow : ∀ i : Nat, rowsOf (live.map some) i = live[i]? := by
    intro i
    unfold rowsOf
    rw [getElem?_map]
    cases live[i]? <;> rfl
  constructor
  case resident =>
    intro r
    constructor
    · intro hsome
      obtain ⟨g, hg⟩ := Option.isSome_iff_exists.mp hsome
      obtain ⟨hmem, hgr⟩ := (h.residents r g).mp hg
      obtain ⟨i, hi⟩ := mem_iff_getElem?.mp hmem
      exact ⟨i, by rw [hids, hi, ← hgr]; rfl⟩
    · rintro ⟨i, hi⟩
      obtain ⟨g, hg, hgr⟩ := hlive i r hi
      rw [(h.residents r g).mpr ⟨mem_of_getElem? hg, hgr⟩]
      rfl
  case row =>
    intro i r hr
    obtain ⟨g, hg, hgr⟩ := hlive i r hr
    refine ⟨g, (h.residents r g).mpr ⟨mem_of_getElem? hg, hgr⟩, hgr, ?_⟩
    rw [h.minP, h.biases, h.minToks, h.think]
    simp only [comp_apply, hrow, hg]
    exact ⟨rfl, rfl, rfl, rfl⟩
  case noRow =>
    intro i hi
    have hnone : live[i]? = none := by
      cases hg : live[i]? with
      | none => rfl
      | some g => exact absurd (by rw [hids, hg]; rfl) (hi g.reqId)
    rw [h.minP, h.biases, h.minToks, h.think]
    simp only [comp_apply, hrow, hnone]
    exact ⟨rfl, rfl, rfl, rfl⟩
  case count =>
    have hlen : s.batch.reqIds.length = live.length := by
      rw [h.settled.holds.reqIds, length_map, length_map]
    have hsupport : support s.minP.minPCpu =
        ↑((range s.batch.reqIds.length).filter fun i => s.minP.minPCpu i ≠ 0).toFinset := by
      ext i
      rw [Finset.mem_coe, mem_toFinset, mem_filter, mem_range,
        decide_eq_true_eq]
      refine ⟨fun hne => ⟨?_, hne⟩, fun hmem => hmem.2⟩
      by_contra hge
      apply hne
      rw [h.minP, comp_apply, hrow, getElem?_eq_none (by omega)]
      rfl
    rw [h.counted.2, hsupport, Set.ncard_coe_finset,
      toFinset_card_of_nodup (nodup_range.filter _)]

/-- In every run whose steps are all tidy, the processors follow the batch. -/
theorem logitsProcessors_follow (cfg : ThinkingConfig) (toFloat32 : ℚ → ℚ) (hzero : toFloat32 0 = 0)
    (hidem : ∀ x, toFloat32 (toFloat32 x) = toFloat32 x) (maxNumReqs : Nat) (s : LogitsRun)
    (h : Reaches (· = init maxNumReqs) (Step cfg toFloat32) (Tidy cfg toFloat32) s) :
    s.Follows cfg toFloat32 := by
  have htracks : ∃ live, s.Tracks cfg toFloat32 live := by
    apply h.invariant
    · rintro s rfl
      exact ⟨[], Tracks.init cfg toFloat32 maxNumReqs⟩
    · rintro s a s' ⟨live, hlive⟩ htidy hstep
      exact hlive.step hzero hidem htidy hstep
  obtain ⟨live, hlive⟩ := htracks
  exact hlive.follows

/-! ## Two requests, the first of them with a thinking budget -/

def markers : ThinkingConfig := ⟨true, [1], [2]⟩

def budgeted (reqId : ReqId) (budget : Option Int) : NewRequest :=
  ⟨reqId, ⟨1 / 2, none, 0, [], budget⟩, some [7]⟩

def enterBoth : LogitsStep :=
  ⟨[], [budgeted 0 (some 5), budgeted 1 budget], [], fun _ => []⟩

def leaveFirst : LogitsStep := ⟨[0], [], [], fun _ => []⟩

theorem fresh_enterBoth : (init 2).Fresh (enterBoth budget) :=
  ⟨(by decide : [0, 1].Nodup), fun q _ hin => absurd (Dict.get?_empty) hin⟩

theorem fresh_leaveFirst : s.Fresh leaveFirst :=
  ⟨nodup_nil, nofun⟩

/-- Both requests have a budget: the run is tidy, and row 0 has the state of request 1. -/
theorem follow_after_move : ∃ s, Reaches (· = init 2) (Step markers id) (Tidy markers id) s ∧
    s.batch.reqIds = [some 1] ∧ s.Follows markers id := by
  have hrun : ∃ s₁, (init 2).exec markers id (enterBoth (some 3)) = .ok s₁ ∧
      (∃ b, (init 2).batch.updateStates [] (enterBoth (some 3)).additions [] = .ok b ∧
        (init 2).TidyUpdate markers id b.builder) ∧
      (∃ b, s₁.batch.updateStates [0] [] [] = .ok b ∧ s₁.TidyUpdate markers id b.builder) ∧
      ∃ s₂, s₁.exec markers id leaveFirst = .ok s₂ ∧ s₂.batch.reqIds = [some 1] := by decide +kernel
  obtain ⟨s₁, hs₁, ⟨b₁, hb₁, htidy₁⟩, ⟨b₂, hb₂, htidy₂⟩, s₂, hs₂, hids⟩ := hrun
  have h₁ : Reaches (· = init 2) (Step markers id) (Tidy markers id) s₁ := by
    refine Reaches.next (.start rfl) ?_
      ⟨fresh_enterBoth _, hs₁⟩
    intro b hb
    exact Except.ok.inj (hb₁.symm.trans hb) ▸ htidy₁
  have h₂ : Reaches (· = init 2) (Step markers id) (Tidy markers id) s₂ := by
    refine h₁.next ?_ ⟨fresh_leaveFirst s₁, hs₂⟩
    intro b hb
    exact Except.ok.inj (hb₂.symm.trans hb) ▸ htidy₂
  exact ⟨s₂, h₂, hids, logitsProcessors_follow markers id rfl (fun _ => rfl) 2 s₂ h₂⟩

/-- Request 1 has no budget: it gets the thinking state of request 0, which has left. -/
theorem stale_thinkState : ∃ s, Reaches (· = init 2) (Step markers id) (fun _ _ => True) s ∧
    ¬ s.Follows markers id := by
  have hrun : ∃ s₁, (init 2).exec markers id (enterBoth none) = .ok s₁ ∧
      ∃ s₂, s₁.exec markers id leaveFirst = .ok s₂ ∧ s₂.batch.reqIds = [some 1] ∧
        (s₂.think.get? 0).map ThinkState.outputTokIds = some 0 ∧
        (s₂.residents 1).map (thinkState markers) = some none := by decide +kernel
  obtain ⟨s₁, hs₁, s₂, hs₂, hids, hstale, hown⟩ := hrun
  have h₁ : Reaches (· = init 2) (Step markers id) (fun _ _ => True) s₁ :=
    Reaches.next (.start rfl) trivial
      ⟨fresh_enterBoth none, hs₁⟩
  have h₂ : Reaches (· = init 2) (Step markers id) (fun _ _ => True) s₂ :=
    h₁.next trivial ⟨fresh_leaveFirst s₁, hs₂⟩
  refine ⟨s₂, h₂, fun hfollows => ?_⟩
  obtain ⟨g, hg, _, _, _, _, hthink⟩ := hfollows.row 0 1 (by rw [hids]; rfl)
  rw [hg, Option.map_some, Option.some.injEq] at hown
  rw [hthink, hown] at hstale
  cases hstale

end LogitsRun

end VllmEcho
