import VllmEcho.Lib.Runs
import VllmEcho.Worker.Condense

/-!
# Runs of the persistent batch

A run starts from the empty batch and takes steps of removals, additions and `condense`.  The batch
stays a faithful map from requests to rows as long as no request with prompt embeddings is removed,
and the requests behind a removed one whose row no addition fills share its pooling flag and have no
mask of allowed tokens.
-/

namespace VllmEcho

open Lib List InputBatch

structure BatchState where
  batch : InputBatch
  live : List CachedRequestState

structure BatchStep where
  removals : List ReqId
  additions : List CachedRequestState

variable (s : BatchState) (a : BatchStep) (reqId : ReqId) {b : InputBatch}

namespace BatchState

/-- What the model runner promises: it adds requests of the model's kind, each once and none that
is still in the batch. -/
structure Offered : Prop where
  suits : ∀ q ∈ a.additions, s.batch.config.Suits q
  nodup : (a.additions.map CachedRequestState.reqId).Nodup
  fresh : ∀ q ∈ a.additions, ∀ p ∈ s.live, p.reqId ∉ a.removals → p.reqId ≠ q.reqId

structure Step (s' : BatchState) : Prop where
  offered : s.Offered a
  batch : s.batch.updateStates a.removals a.additions = .ok s'.batch
  live : s'.live = (s.live.filter fun q => decide (q.reqId ∉ a.removals)) ++ a.additions

def Behind (q p : CachedRequestState) : Prop :=
  ∃ i j, s.batch.reqIdToIndex.get? q.reqId = some i ∧
    s.batch.reqIdToIndex.get? p.reqId = some j ∧ i < j

/-- The step leaves the row of `q` open for `condense`: the additions fill the lowest of the removed
rows, and at least as many of these are in front of it. -/
def LeftOpen (q : CachedRequestState) : Prop :=
  ∀ i, s.batch.reqIdToIndex.get? q.reqId = some i →
    a.additions.length ≤ (s.batch.reqIds.take i).countP (Option.any (· ∈ a.removals))

/-- No request with prompt embeddings is removed, and the requests that stay behind a removed one
whose row is left open share its pooling flag and have no allowed tokens. -/
def Orderly : Prop :=
  ∀ q ∈ s.live, q.reqId ∈ a.removals → q.promptEmbeds = none ∧
    (s.LeftOpen a q → ∀ p ∈ s.live, p.reqId ∉ a.removals → s.Behind q p →
      p.needsTokenIds = q.needsTokenIds ∧ p.allowedTokenIds = [])

/-- The rows are exactly the live requests, `req_id_to_index` inverts `req_ids`, and everything a
row holds is what was stored for its request. -/
def Faithful : Prop :=
  ∃ rows : List CachedRequestState, rows.Perm s.live ∧ s.batch.numReqs = rows.length ∧
    s.batch.reqIds = rows.map (fun q => some q.reqId) ∧
    (∀ (r : ReqId) (i : Nat),
      s.batch.reqIdToIndex.get? r = some i ↔ s.batch.reqIds[i]? = some (some r)) ∧
    ∀ (i : Nat) (q : CachedRequestState), rows[i]? = some q →
      RowOf s.batch.config (s.batch.rows i) q ∧
        s.batch.reqOutputTokenIds[i]? = some (some q.outputTokenIds) ∧
        s.batch.specTokenIds[i]? = some [] ∧
        s.batch.marks q.reqId = s.batch.config.marksOf q

structure Settled (rows : List CachedRequestState) : Prop where
  layout : Layout s.batch (rows.map some)
  live : rows.Perm s.live
  removed : s.batch.removed = []
  unsorted : s.batch.isRemovedSorted = false

variable {s s' : BatchState} {rows : List CachedRequestState}

theorem reduceOption_map_some {α : Type} (l : List α) : (l.map some).reduceOption = l := by
  induction l with
  | nil => rfl
  | cons a l ih => rw [map_cons, reduceOption_cons_of_some, ih]

theorem Settled.faithful (h : s.Settled rows) : s.Faithful := by
  have hlay := h.layout
  have hget : ∀ (i : Nat) (q : CachedRequestState),
      (rows.map some)[i]? = some (some q) ↔ rows[i]? = some q := by
    intro i q
    rw [getElem?_map]
    cases rows[i]? <;> simp
  refine ⟨rows, h.live, ?_, ?_, ?_, ?_⟩
  · rw [hlay.numReqs_eq, reduceOption_map_some]
  · rw [hlay.reqIds, map_map]
    rfl
  · intro r i
    rw [hlay.index, hlay.reqIds, getElem?_map (l := rows.map some)]
    constructor
    · rintro ⟨q, hq, rfl⟩
      rw [hq]
      rfl
    · intro hr
      obtain ⟨o, ho, hor⟩ := Option.map_eq_some_iff.mp hr
      obtain ⟨q, rfl, rfl⟩ := Option.map_eq_some_iff.mp hor
      exact ⟨q, ho, rfl⟩
  · intro i q hi
    have hq := (hget i q).mpr hi
    have hlen : i < (rows.map some).length := lt_of_getElem? hq
    have hspec : i < s.batch.specTokenIds.length := Nat.lt_of_lt_of_le hlen hlay.specLength
    obtain ⟨hrow, hmarks, -⟩ := hlay.live i q hq
    refine ⟨hrow, ?_, ?_, hmarks⟩
    · rw [hlay.outputs, getElem?_map, hq]
      rfl
    · rw [getElem?_eq_getElem hspec, hlay.specNil _ (getElem_mem hspec)]

theorem additions_spec {b' : InputBatch} {slots : Slots} {qs : List CachedRequestState}
    (hlay : Layout b slots) (hholes : Holes b slots) (hmov : Movable b slots qs.length)
    (hsuits : ∀ q ∈ qs, b.config.Suits q) (hnodup : (qs.map CachedRequestState.reqId).Nodup)
    (hfresh : ∀ q ∈ qs, ∀ p ∈ slots.reduceOption, p.reqId ≠ q.reqId)
    (h : qs.foldlM addRequest b = .ok b') :
    ∃ slots', Layout b' slots' ∧ Holes b' slots' ∧ Movable b' slots' 0 ∧
      slots'.reduceOption.Perm (slots.reduceOption ++ qs) ∧ b'.config = b.config := by
  induction qs generalizing b slots with
  | nil =>
    cases h
    exact ⟨slots, hlay, hholes, hmov, by rw [append_nil], rfl⟩
  | cons q qs ih =>
    obtain ⟨b₁, hb₁, h⟩ := of_bind h
    rw [map_cons, nodup_cons] at hnodup
    have hnew : b.reqIdToIndex.get? q.reqId = none := by
      cases hget : b.reqIdToIndex.get? q.reqId with
      | none => rfl
      | some i =>
        obtain ⟨p, hp, hid⟩ := (hlay.index q.reqId i).mp hget
        exact absurd hid (hfresh q mem_cons_self p
          (reduceOption_mem_iff.mpr (mem_of_getElem? hp)))
    obtain ⟨slots₁, hlay₁, hholes₁, hmov₁, hperm₁, hconf₁⟩ := addRequest_spec hlay hholes
      hmov (hsuits q mem_cons_self) hnew hb₁
    obtain ⟨slots', hlay', hholes', hmov', hperm', hconf'⟩ := ih hlay₁ hholes₁ hmov₁
      (fun p hp => hconf₁ ▸ hsuits p (mem_cons_of_mem q hp)) hnodup.2
      (fun p hp o ho hid => by
        rcases mem_cons.mp (hperm₁.mem_iff.mp ho) with rfl | ho
        · exact hnodup.1 (hid ▸ mem_map_of_mem hp)
        · exact hfresh p (mem_cons_of_mem q hp) o ho hid) h
    refine ⟨slots', hlay', hholes', hmov', ?_, hconf'.trans hconf₁⟩
    calc slots'.reduceOption.Perm (slots₁.reduceOption ++ qs) := hperm'
      _ |>.Perm (q :: slots.reduceOption ++ qs) := hperm₁.append_right qs
      _ |>.Perm (slots.reduceOption ++ q :: qs) := perm_middle.symm

theorem reduceOption_without (rows : List CachedRequestState) (rs : List ReqId) :
    (without (rows.map some) rs).reduceOption = rows.filter fun q => decide (q.reqId ∉ rs) := by
  induction rows with
  | nil => rfl
  | cons q rows ih =>
    by_cases hq : q.reqId ∈ rs
    · simpa [without, Option.filter, hq] using ih
    · simpa [without, Option.filter, hq] using ih

theorem movable_of_orderly {a : BatchStep} (h : s.Settled rows) (hord : s.Orderly a)
    (hflags : ∀ i, (b.rows i).needsTokenIds = (s.batch.rows i).needsTokenIds) :
    Movable b (without (rows.map some) a.removals) a.additions.length := by
  have hlay := h.layout
  have hget : ∀ (i : Nat) (o : Option CachedRequestState),
      (without (rows.map some) a.removals)[i]? = some o →
        ∃ q, rows[i]? = some q ∧ o = if q.reqId ∈ a.removals then none else some q := by
    intro i o ho
    rw [without, getElem?_map, getElem?_map] at ho
    obtain ⟨o', ho', rfl⟩ := Option.map_eq_some_iff.mp ho
    obtain ⟨q, hq, rfl⟩ := Option.map_eq_some_iff.mp ho'
    refine ⟨q, hq, ?_⟩
    by_cases hr : q.reqId ∈ a.removals <;> simp [Option.filter, hr]
  intro i j p hi hj hij hopen
  obtain ⟨q, hq, hqnone⟩ := hget i none hi
  obtain ⟨p', hp', hpsome⟩ := hget j (some p) hj
  have hqr : q.reqId ∈ a.removals := by
    by_contra hnot
    rw [if_neg hnot] at hqnone
    cases hqnone
  have hpr : p'.reqId ∉ a.removals := by
    intro hmem
    rw [if_pos hmem] at hpsome
    cases hpsome
  rw [if_neg hpr] at hpsome
  cases hpsome
  have hslot : ∀ {k : Nat} {o : CachedRequestState}, rows[k]? = some o →
      (rows.map some)[k]? = some (some o) := fun {k o} ho => by rw [getElem?_map, ho]; rfl
  have hbehind : s.Behind q p := ⟨i, j, (hlay.index _ i).mpr ⟨q, hslot hq, rfl⟩,
    (hlay.index _ j).mpr ⟨p, hslot hp', rfl⟩, hij⟩
  have hleft : s.LeftOpen a q := by
    intro k hk
    obtain rfl : i = k := Option.some.inj
      (((hlay.index _ i).mpr ⟨q, hslot hq, rfl⟩).symm.trans hk)
    refine hopen.trans (Nat.le_of_eq ?_)
    simp only [without, hlay.reqIds, ← map_take, countP_map]
    apply countP_congr
    intro p _
    by_cases hp : p.reqId ∈ a.removals <;> simp [Option.filter, hp]
  obtain ⟨-, hrest⟩ := hord q (h.live.mem_iff.mp (mem_of_getElem? hq)) hqr
  obtain ⟨hneeds, hallowed⟩ := hrest hleft p (h.live.mem_iff.mp (mem_of_getElem? hp')) hpr hbehind
  refine ⟨?_, hallowed⟩
  rw [hflags, (hlay.live i q (hslot hq)).1.needsTokenIds, hneeds]

/-- One step of an orderly run. -/
theorem Settled.step {a : BatchStep} (h : s.Settled rows) (hord : s.Orderly a)
    (hstep : s.Step a s') : ∃ rows', s'.Settled rows' := by
  have hbatch := hstep.batch
  obtain ⟨b₁, hb₁, hbatch⟩ := of_bind hbatch
  obtain ⟨b₂, hb₂, hbatch⟩ := of_bind hbatch
  obtain ⟨b₃, hb₃, hbatch⟩ := of_bind hbatch
  have hholes : Holes s.batch (rows.map some) := by
    rw [Holes, h.removed]
    exact Gaps.of_live rows
  have hremoved := removals_spec h.layout hholes h.unsorted
    (fun q hq hr => (hord q (h.live.mem_iff.mp (by simpa using hq)) hr).1) hb₁
  have hmov₁ := movable_of_orderly h hord hremoved.needsTokenIds
  have hlive₁ := reduceOption_without rows a.removals
  obtain ⟨slots₂, hlay₂, hholes₂, hmov₂, hperm₂, hconf₂⟩ := additions_spec hremoved.layout
    hremoved.holes hmov₁ (fun q hq => hremoved.config ▸ hstep.offered.suits q hq)
    hstep.offered.nodup
    (fun q hq p hp => by
      rw [hlive₁, mem_filter, decide_eq_true_iff] at hp
      exact hstep.offered.fresh q hq p (h.live.mem_iff.mp hp.1) hp.2) hb₂
  obtain ⟨rows', hlay₃, hperm₃, hconf₃⟩ := condense_spec hlay₂ hholes₂ hmov₂ hb₃
  refine ⟨rows', ?_⟩
  have hs' : s'.batch = b₃.refreshMetadata := (Except.ok.inj hbatch).symm
  constructor
  · rw [hs']
    exact hlay₃.frame _ _ _ _
  · rw [hstep.live]
    refine (hperm₃.trans hperm₂).trans ?_
    rw [hlive₁]
    exact (h.live.filter _).append_right _
  · rw [hs']
    rfl
  · rw [hs']
    rfl

def Initial (s : BatchState) : Prop :=
  (∃ config uninitialised, s.batch = init config uninitialised) ∧ s.live = []

theorem Initial.settled (h : s.Initial) : s.Settled [] := by
  obtain ⟨⟨config, uninitialised, hbatch⟩, hlive⟩ := h
  refine ⟨?_, by rw [hlive], by rw [hbatch]; rfl, by rw [hbatch]; rfl⟩
  rw [hbatch]
  constructor
  case toRowsHold =>
    constructor
    case specNil =>
      intro l hl
      exact (mem_replicate.mp hl).2
    case clean =>
      intro i _
      exact ⟨rfl, rfl, rfl, rfl, rfl, fun _ => rfl⟩
    all_goals simp [init]
  case inverts =>
    intro r i
    simp [init]
  case unmarked => simp [init]

/-- In every run of orderly steps the batch is a faithful map from requests to rows. -/
theorem reaches_faithful (h : Reaches Initial Step Orderly s) : s.Faithful := by
  have hsettled : ∃ rows, s.Settled rows := by
    apply h.invariant
    · exact fun s hs => ⟨[], hs.settled⟩
    · rintro s a s' ⟨rows, hrows⟩ hord hstep
      exact hrows.step hord hstep
  obtain ⟨rows, hrows⟩ := hsettled
  exact hrows.faithful

/-! Small batches. -/

def zeroRow : BatchRow where
  tokenIds := fun _ => 0
  isTokenIds := fun _ => false
  promptEmbeds := none
  numTokensNoSpec := 0
  numPromptTokens := 0
  numComputedTokens := 0
  numAcceptedTokens := 1
  blockTable := fun _ _ => 0
  numBlocksPerRow := fun _ => 0
  temperature := 0
  topP := 0
  topK := 0
  frequencyPenalty := 0
  presencePenalty := 0
  repetitionPenalty := 0
  loraId := 0
  generator := none
  allowedTokenIdsMask := fun _ => false
  badWordsTokenIds := none
  needsTokenIds := false

def smallBatch (isPoolingModel : Bool) : InputBatch :=
  init ⟨isPoolingModel, 4, 3, [1]⟩ fun _ => zeroRow

def generation (allowedTokenIds : List Nat) : CachedRequestState where
  reqId := reqId
  promptTokenIds := some [2]
  samplingParams := some ⟨false, 1, 1, 0, 0, 0, 1, none, allowedTokenIds, []⟩
  poolingParams := none
  generator := none
  blockIds := [[reqId]]
  numComputedTokens := 0
  outputTokenIds := []
  loraRequest := none
  promptEmbeds := none

def pooling (requiresTokenIds : Bool) : CachedRequestState :=
  { generation reqId [] with samplingParams := none, poolingParams := some ⟨requiresTokenIds⟩ }

def embedded : CachedRequestState :=
  { generation reqId [] with promptTokenIds := none, promptEmbeds := some [[1]] }

/-- Request 1 moves into the row of request 0. -/
theorem reaches_faithful_move :
    ∃ s, Reaches Initial Step Orderly s ∧ s.live = [generation 1 []] ∧ s.Faithful := by
  have hrun : ∃ b₁, (smallBatch false).updateStates [] [generation 0 [], generation 1 []] = .ok b₁ ∧
      ∃ b₂, b₁.updateStates [0] [] = .ok b₂ ∧ b₂.reqIds = [some 1] := by decide +kernel
  obtain ⟨b₁, hb₁, b₂, hb₂, -⟩ := hrun
  have h₀ : Reaches Initial Step Orderly ⟨smallBatch false, []⟩ :=
    Reaches.start ⟨⟨_, _, rfl⟩, rfl⟩
  have h₁ : Reaches Initial Step Orderly ⟨b₁, [generation 0 [], generation 1 []]⟩ := by
    refine h₀.next (i := ⟨[], [generation 0 [], generation 1 []]⟩) ?_ ⟨⟨?_, ?_, ?_⟩, hb₁, rfl⟩
    · exact fun q hq => (nomatch hq)
    · intro q hq
      fin_cases hq <;> rfl
    · decide
    · exact fun q _ p hp => (nomatch hp)
  have h₂ : Reaches Initial Step Orderly ⟨b₂, [generation 1 []]⟩ := by
    refine h₁.next (i := ⟨[0], []⟩) ?_ ⟨⟨?_, ?_, ?_⟩, hb₂, rfl⟩
    · intro q hq _
      refine ⟨?_, fun _ p hp _ _ => ?_⟩
      · fin_cases hq <;> rfl
      · fin_cases hp <;> fin_cases hq <;> exact ⟨rfl, rfl⟩
    · exact fun q hq => (nomatch hq)
    · exact nodup_nil
    · exact fun q hq => (nomatch hq)
  exact ⟨_, h₂, rfl, reaches_faithful h₂⟩

/-- Three ways to another request's record: a moved pooling request loses the flag for its token
ids, the mask of a moved request stays in its old row, and so do the prompt embeddings of a removed
one. -/
theorem condense_mixes_rows :
    ((smallBatch true).updateStates [] [pooling 0 false, pooling 1 true] >>= fun b =>
        b.updateStates [0] []).map (fun b => (b.reqIds, (b.rows 0).needsTokenIds)) =
        .ok ([some 1], false) ∧
      ((smallBatch false).updateStates [] [generation 0 [], generation 1 [1]] >>= fun b =>
        b.updateStates [0] [] >>= fun b => b.updateStates [] [generation 2 []]).map
          (fun b => (b.reqIds, (b.rows 1).allowedTokenIdsMask 0)) = .ok ([some 1, some 2], true) ∧
      ((smallBatch false).updateStates [] [embedded 0] >>= fun b =>
        b.updateStates [0] [generation 1 []]).map
          (fun b => (b.reqIds, (b.rows 0).promptEmbeds)) = .ok ([some 1], some [[1]]) := by
  refine ⟨?_, ?_, ?_⟩ <;> decide +kernel

end BatchState

end VllmEcho
