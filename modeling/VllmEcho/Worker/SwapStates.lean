import VllmEcho.Lib.Heap
import VllmEcho.Worker.BatchRun

/-!
# Swapping two rows

`swap_states` exchanges two requests of the batch.  Lists, dictionaries and numpy arrays are
exchanged through copies; the rows of the mask of allowed token ids are tensor views.
-/

namespace VllmEcho

open Lib List BatchConfig

variable (c : BatchConfig) (numTokens : Nat) (src dst : BatchRow) {mask : Nat → Bool} (r : BatchRow)

namespace BatchConfig

def swapShared : BatchRow :=
  { dst with
    tokenIds := fun col => if col < numTokens then src.tokenIds col else dst.tokenIds col
    isTokenIds := fun col => if col < numTokens then src.isTokenIds col else dst.isTokenIds col
    promptEmbeds := src.promptEmbeds
    numTokensNoSpec := src.numTokensNoSpec
    numPromptTokens := src.numPromptTokens
    numComputedTokens := src.numComputedTokens
    blockTable := src.blockTable
    numBlocksPerRow := src.numBlocksPerRow
    loraId := src.loraId }

def swapSampling : BatchRow :=
  { dst with
    temperature := src.temperature
    topP := src.topP
    topK := src.topK
    frequencyPenalty := src.frequencyPenalty
    presencePenalty := src.presencePenalty
    repetitionPenalty := src.repetitionPenalty
    numAcceptedTokens := src.numAcceptedTokens
    generator := src.generator
    badWordsTokenIds := src.badWordsTokenIds }

def swappedRow : BatchRow :=
  if c.isPoolingModel then swapShared numTokens src dst
  else swapSampling src (swapShared numTokens src dst)

/-- `mask[i1], mask[i2] = mask[i2], mask[i1]`: the right-hand sides are views, so the second
assignment reads the row that the first one has written. -/
def assignMasks (rows : Nat → BatchRow) (i1 i2 : Nat) : Nat → BatchRow :=
  let rows := Function.update rows i1
    { rows i1 with allowedTokenIdsMask := (rows i2).allowedTokenIdsMask }
  Function.update rows i2 { rows i2 with allowedTokenIdsMask := (rows i1).allowedTokenIdsMask }

def listed : BatchRow :=
  if c.isPoolingModel then
    { r with
      temperature := 0
      topP := 0
      topK := 0
      frequencyPenalty := 0
      presencePenalty := 0
      repetitionPenalty := 0
      numAcceptedTokens := 0
      generator := none
      allowedTokenIdsMask := fun _ => false
      badWordsTokenIds := none }
  else r

def SameRecords (r' : BatchRow) : Prop :=
  (∀ col < numTokens, r.tokenIds col = r'.tokenIds col ∧ r.isTokenIds col = r'.isTokenIds col) ∧
    c.listed { r with tokenIds := r'.tokenIds, isTokenIds := r'.isTokenIds } = c.listed r'

theorem sameRecords_swappedRow {n m : Nat} (hnm : n ≤ m) {src dst : BatchRow}
    (hneeds : dst.needsTokenIds = src.needsTokenIds)
    (hmask : c.isPoolingModel = false → mask = src.allowedTokenIdsMask) :
    c.SameRecords n { c.swappedRow m src dst with allowedTokenIdsMask := mask } src := by
  have htokens : ∀ col < n, col < m := fun col hcol => hcol.trans_le hnm
  unfold SameRecords listed swappedRow
  cases hpool : c.isPoolingModel with
  | true =>
    refine ⟨fun col hcol => ?_, ?_⟩
    · simp [swapShared, htokens col hcol]
    · simp [swapShared, hneeds]
  | false =>
    refine ⟨fun col hcol => ?_, ?_⟩
    · simp [swapShared, swapSampling, htokens col hcol]
    · simp [swapShared, swapSampling, hneeds, hmask hpool]

theorem swappedRow_swappedRow (n : Nat) (r r' : BatchRow) {mask₁ mask₂ : Nat → Bool}
    (hmask : mask = r.allowedTokenIdsMask) :
    { c.swappedRow n { c.swappedRow n r r' with allowedTokenIdsMask := mask₁ }
        { c.swappedRow n r' r with allowedTokenIdsMask := mask₂ } with
      allowedTokenIdsMask := mask } = r := by
  subst hmask
  have hback : ∀ {β : Type} (f g : Nat → β),
      (fun col => if col < n then (if col < n then f col else g col)
        else if col < n then g col else f col) = f := by
    intro β f g
    funext col
    split <;> rfl
  unfold swappedRow
  split <;> simp only [swapShared, swapSampling, hback]

end BatchConfig

variable {d : Dict ReqId Nat} {α : Type} {xs : List α}

namespace InputBatch

variable {s s' : InputBatch} {i1 i2 : Nat}

def swapRows (s : InputBatch) (i1 i2 : Nat) : Nat → BatchRow :=
  let numTokens := max (s.activeTokenCount i1) (s.activeTokenCount i2)
  let rows := Function.update
    (Function.update s.rows i1 (s.config.swappedRow numTokens (s.rows i2) (s.rows i1)))
    i2 (s.config.swappedRow numTokens (s.rows i1) (s.rows i2))
  if s.config.isPoolingModel then rows else assignMasks rows i1 i2

def swapped (s : InputBatch) (i1 i2 : Nat) (reqIdToIndex : Dict ReqId Nat) : InputBatch :=
  { s with
    reqIds := Heap.swap s.reqIds i1 i2
    reqOutputTokenIds := Heap.swap s.reqOutputTokenIds i1 i2
    specTokenIds := Heap.swap s.specTokenIds i1 i2
    reqIdToIndex := reqIdToIndex
    rows := s.swapRows i1 i2 }

def swapStates (s : InputBatch) (i1 i2 : Nat) : Except PyError InputBatch :=
  match s.reqIds.getD i1 none, s.reqIds.getD i2 none with
  | some id1, some id2 =>
    match s.reqIdToIndex.get? id1, s.reqIdToIndex.get? id2 with
    | some index1, some index2 =>
      .ok (s.swapped i1 i2 ((s.reqIdToIndex.set id1 index2).set id2 index1))
    | _, _ => .error .keyError
  | _, _ => .error (.assertionError "")

structure Swappable (s : InputBatch) (i1 i2 : Nat) : Prop where
  distinct : i1 ≠ i2
  index : Inverts s.reqIdToIndex s.reqIds
  left : ∃ r, s.reqIds[i1]? = some (some r)
  right : ∃ r, s.reqIds[i2]? = some (some r)
  outputs : s.reqIds.length ≤ s.reqOutputTokenIds.length
  spec : s.reqIds.length ≤ s.specTokenIds.length

structure Transposed (s s' : InputBatch) (i1 i2 : Nat) : Prop where
  reqIds : ∀ j, s'.reqIds[j]? = s.reqIds[Equiv.swap i1 i2 j]?
  outputs : ∀ j, s'.reqOutputTokenIds[j]? = s.reqOutputTokenIds[Equiv.swap i1 i2 j]?
  spec : ∀ j, s'.specTokenIds[j]? = s.specTokenIds[Equiv.swap i1 i2 j]?
  index : Inverts s'.reqIdToIndex s'.reqIds
  rows : ∀ j, s.config.SameRecords (s.activeTokenCount (Equiv.swap i1 i2 j)) (s'.rows j)
    (s.rows (Equiv.swap i1 i2 j))
  others : ∀ j, j ≠ i1 → j ≠ i2 → s'.rows j = s.rows j

structure Restored (s s' : InputBatch) : Prop where
  same : s' = { s with reqIdToIndex := s'.reqIdToIndex }
  index : ∀ r, s'.reqIdToIndex.get? r = s.reqIdToIndex.get? r

theorem getElem?_swap (h1 : i1 < xs.length) (h2 : i2 < xs.length) (j : Nat) :
    (Heap.swap xs i1 i2)[j]? = xs[Equiv.swap i1 i2 j]? := by
  rw [Heap.swap, List.getElem?_eq_getElem h1, List.getElem?_eq_getElem h2]
  rw [getElem?_set, Equiv.swap_apply_def]
  by_cases hj2 : j = i2
  · by_cases hj1 : j = i1
    · simp [← hj2, ← hj1, hj2 ▸ h2]
    · simp [← hj2, hj1, hj2 ▸ h2, List.getElem?_eq_getElem h1]
  · by_cases hj1 : j = i1
    · simp [← hj1, Ne.symm hj2, hj1 ▸ h1, List.getElem?_eq_getElem h2]
    · simp [hj1, hj2, Ne.symm hj1, Ne.symm hj2]

theorem length_swap : (Heap.swap xs i1 i2).length = xs.length :=
  (Heap.swap_perm xs i1 i2).length_eq

theorem swap_swap {α : Type} {xs : List α} (h1 : i1 < xs.length) (h2 : i2 < xs.length) :
    Heap.swap (Heap.swap xs i1 i2) i1 i2 = xs := by
  apply ext_getElem?
  intro j
  rw [getElem?_swap (by rwa [length_swap]) (by rwa [length_swap]), getElem?_swap h1 h2]
  exact congrArg (xs[·]?) (Equiv.congr_fun (Equiv.swap_swap i1 i2) j)

theorem swapRows_left (hne : i1 ≠ i2) : s.swapRows i1 i2 i1 =
    { s.config.swappedRow (max (s.activeTokenCount i1) (s.activeTokenCount i2)) (s.rows i2)
        (s.rows i1) with
      allowedTokenIdsMask := if s.config.isPoolingModel then (s.rows i1).allowedTokenIdsMask
        else (s.rows i2).allowedTokenIdsMask } := by
  unfold swapRows swappedRow assignMasks
  split <;> simp [hne, swapShared, swapSampling]

theorem swapRows_right (hne : i1 ≠ i2) : s.swapRows i1 i2 i2 =
    { s.config.swappedRow (max (s.activeTokenCount i1) (s.activeTokenCount i2)) (s.rows i1)
        (s.rows i2) with allowedTokenIdsMask := (s.rows i2).allowedTokenIdsMask } := by
  unfold swapRows swappedRow assignMasks
  split <;> simp [hne, Ne.symm hne, swapShared, swapSampling]

theorem swapRows_ne {j : Nat} (h1 : j ≠ i1) (h2 : j ≠ i2) : s.swapRows i1 i2 j = s.rows j := by
  unfold swapRows assignMasks
  split <;> simp [h1, h2]

section Swappable

variable (h : s.Swappable i1 i2)
include h

theorem Swappable.lt : i1 < s.reqIds.length ∧ i2 < s.reqIds.length := by
  obtain ⟨⟨r1, h1⟩, ⟨r2, h2⟩⟩ := And.intro h.left h.right
  exact ⟨(lt_of_getElem? h1), (lt_of_getElem? h2)⟩

theorem swapStates_eq : ∃ d, s.swapStates i1 i2 = .ok (s.swapped i1 i2 d) ∧
    Inverts d (Heap.swap s.reqIds i1 i2) := by
  obtain ⟨r1, h1⟩ := h.left
  obtain ⟨r2, h2⟩ := h.right
  have hinv := h.index.swap h1 h2
  have hswap : Heap.swap s.reqIds i1 i2 = (s.reqIds.set i1 (some r2)).set i2 (some r1) := by
    rw [Heap.swap, h1, h2]
  refine ⟨_, ?_, hswap ▸ hinv⟩
  rw [swapStates, getD_eq_getElem?_getD, getD_eq_getElem?_getD, h1, h2]
  dsimp only [Option.getD_some]
  rw [(h.index r1 i1).mpr h1, (h.index r2 i2).mpr h2]

theorem Swappable.swap (hd : Inverts d (Heap.swap s.reqIds i1 i2)) :
    Swappable (s.swapped i1 i2 d) i1 i2 where
  distinct := h.distinct
  index := hd
  left := by simpa [swapped, getElem?_swap h.lt.1 h.lt.2] using h.right
  right := by simpa [swapped, getElem?_swap h.lt.1 h.lt.2] using h.left
  outputs := by simpa [swapped, length_swap] using h.outputs
  spec := by simpa [swapped, length_swap] using h.spec

theorem activeTokenCount_swapped : (s.swapped i1 i2 d).activeTokenCount i1 = s.activeTokenCount i2 ∧
      (s.swapped i1 i2 d).activeTokenCount i2 = s.activeTokenCount i1 := by
  have h1 := h.lt.1.trans_le h.spec
  have h2 := h.lt.2.trans_le h.spec
  unfold activeTokenCount swapped
  simp only [getD_eq_getElem?_getD, getElem?_swap h1 h2, Equiv.swap_apply_left,
    Equiv.swap_apply_right]
  rw [swapRows_left h.distinct, swapRows_right h.distinct]
  unfold swappedRow
  constructor <;> split <;> rfl

/-- The two rows agree in what is not exchanged: the flag for token ids and, unless the model
pools, the mask. -/
def MaskShared (s : InputBatch) (i1 i2 : Nat) : Prop :=
  (s.rows i1).needsTokenIds = (s.rows i2).needsTokenIds ∧
    (s.config.isPoolingModel = false →
      (s.rows i1).allowedTokenIdsMask = (s.rows i2).allowedTokenIdsMask)

theorem transposed_iff (hd : Inverts d (Heap.swap s.reqIds i1 i2)) :
    Transposed s (s.swapped i1 i2 d) i1 i2 ↔ s.MaskShared i1 i2 := by
  constructor
  · intro ht
    have hrow := (ht.rows i2).2
    dsimp only [swapped] at hrow
    rw [Equiv.swap_apply_right, swapRows_right h.distinct] at hrow
    refine ⟨?_, fun hpool => ?_⟩
    · have := congrArg BatchRow.needsTokenIds hrow
      unfold listed swappedRow at this
      split at this <;> exact this.symm
    · have := congrArg BatchRow.allowedTokenIdsMask hrow
      unfold listed swappedRow at this
      simp only [hpool, Bool.false_eq_true, if_false] at this
      exact this.symm
  rintro ⟨hneeds, hmask⟩
  refine ⟨getElem?_swap h.lt.1 h.lt.2, getElem?_swap (h.lt.1.trans_le h.outputs)
    (h.lt.2.trans_le h.outputs), getElem?_swap (h.lt.1.trans_le h.spec) (h.lt.2.trans_le h.spec),
    hd, fun j => ?_, fun j => swapRows_ne⟩
  dsimp only [swapped]
  by_cases hj1 : j = i1
  · rw [hj1, Equiv.swap_apply_left, swapRows_left h.distinct]
    exact s.config.sameRecords_swappedRow (le_max_right ..) hneeds fun hpool => by simp [hpool]
  by_cases hj2 : j = i2
  · rw [hj2, Equiv.swap_apply_right, swapRows_right h.distinct]
    exact s.config.sameRecords_swappedRow (le_max_left ..) hneeds.symm fun hpool =>
      (hmask hpool).symm
  · rw [Equiv.swap_apply_of_ne_of_ne hj1 hj2, swapRows_ne hj1 hj2]
    exact ⟨fun _ _ => ⟨rfl, rfl⟩, rfl⟩

theorem swapRows_swapped (hshared : s.MaskShared i1 i2) :
    (s.swapped i1 i2 d).swapRows i1 i2 = s.rows := by
  obtain ⟨hcount1, hcount2⟩ := activeTokenCount_swapped h
  funext j
  by_cases hj1 : j = i1
  · rw [hj1, swapRows_left h.distinct, hcount1, hcount2, max_comm]
    dsimp only [swapped]
    rw [swapRows_left h.distinct, swapRows_right h.distinct]
    refine s.config.swappedRow_swappedRow _ (s.rows i1) (s.rows i2) ?_
    by_cases hpool : s.config.isPoolingModel = true
    · exact (if_pos hpool).trans (if_pos hpool)
    · exact (if_neg hpool).trans (hshared.2 (Bool.eq_false_iff.mpr hpool)).symm
  · by_cases hj2 : j = i2
    · rw [hj2, swapRows_right h.distinct, hcount1, hcount2, max_comm]
      dsimp only [swapped]
      rw [swapRows_left h.distinct, swapRows_right h.distinct]
      exact s.config.swappedRow_swappedRow _ (s.rows i2) (s.rows i1) rfl
    · rw [swapRows_ne hj1 hj2]
      exact swapRows_ne hj1 hj2

end Swappable

/-- `swap_states` is an exact transposition, undone by a second call, exactly when the two rows have
the same mask and the same flag for their token ids. -/
theorem swapStates_transposes_iff (h : s.Swappable i1 i2) :
    (∃ s' s'', s.swapStates i1 i2 = .ok s' ∧ s'.swapStates i1 i2 = .ok s'' ∧
      Transposed s s' i1 i2 ∧ Restored s s'') ↔ s.MaskShared i1 i2 := by
  obtain ⟨d, hok, hd⟩ := swapStates_eq h
  constructor
  · rintro ⟨s', _, hs', _, ht, _⟩
    obtain rfl := Except.ok.inj (hs'.symm.trans hok)
    exact (transposed_iff h hd).mp ht
  intro hshared
  obtain ⟨d', hok', hd'⟩ := swapStates_eq (h.swap hd)
  have hids : Heap.swap (s.swapped i1 i2 d).reqIds i1 i2 = s.reqIds := swap_swap h.lt.1 h.lt.2
  refine ⟨_, _, hok, hok', (transposed_iff h hd).mpr hshared, ?_, fun r => ?_⟩
  · rw [swapped, swapRows_swapped h hshared, hids]
    dsimp only [swapped]
    rw [swap_swap (h.lt.1.trans_le h.outputs) (h.lt.2.trans_le h.outputs),
      swap_swap (h.lt.1.trans_le h.spec) (h.lt.2.trans_le h.spec)]
  · rw [hids] at hd'
    exact Option.ext fun j => (hd' r j).trans (h.index r j).symm

end InputBatch

namespace BatchState

def twoRows (masks : Nat → Nat → Bool) : InputBatch :=
  { smallBatch false with
    reqIds := [some 0, some 1]
    reqOutputTokenIds := [some [], some []]
    reqIdToIndex := ⟨[(0, 0), (1, 1)], by decide⟩
    rows := fun i => { zeroRow with loraId := i, allowedTokenIdsMask := masks i } }

/-- Two rows with equal masks. -/
theorem swapStates_transposes_two : ∃ s' s'',
    (twoRows fun _ _ => false).swapStates 0 1 = .ok s' ∧ s'.swapStates 0 1 = .ok s'' ∧
      InputBatch.Transposed (twoRows fun _ _ => false) s' 0 1 ∧
      InputBatch.Restored (twoRows fun _ _ => false) s'' := by
  refine (InputBatch.swapStates_transposes_iff ⟨by decide, ?_, ⟨0, rfl⟩, ⟨1, rfl⟩, by decide,
    by decide⟩).mpr ⟨rfl, fun _ => rfl⟩
  intro r i
  rcases r with _ | _ | r <;> rcases i with _ | _ | i <;>
    simp [twoRows, Dict.get?, Dict.lookup]

/-- Request 0 may not use token 2; after the swap its row has the mask of request 1. -/
theorem swapStates_loses_mask :
    ((twoRows fun i t => decide (i = 0 ∧ t = 2)).swapStates 0 1).map (fun s =>
      (s.reqIds, (s.rows 0).allowedTokenIdsMask 2, (s.rows 1).allowedTokenIdsMask 2)) =
        .ok ([some 1, some 0], false, false) := by
  decide

end BatchState

end VllmEcho
