import VllmEcho.Lib.Slots
import VllmEcho.Worker.InputBatch

/-!
# What a row of the batch holds

`RowOf` says that every array of a row is what `add_request` stored for a request, `CleanRow` that
a row without a request has no leftovers that a new request would inherit.
-/

namespace VllmEcho

open Lib CachedRequestState

variable (q : CachedRequestState)

namespace CachedRequestState

def numPromptTokens : Nat :=
  match q.promptTokenIds with
  | some ids => ids.length
  | none => (q.promptEmbeds.getD []).length

def numTokens : Nat := q.numPromptTokens + q.outputTokenIds.length

def tokenAt (col : Nat) : TokenId :=
  if col < q.numPromptTokens then (q.promptTokenIds.getD []).getD col 0
  else q.outputTokenIds.getD (col - q.numPromptTokens) 0

def knownAt (col : Nat) : Bool :=
  decide (q.numPromptTokens ≤ col) || q.promptTokenIds.isSome

def ownGenerator : Option Nat :=
  if q.samplingParams.isSome then q.generator else none

def allowedTokenIds (q : CachedRequestState) : List Nat :=
  match q.samplingParams with
  | some p => p.allowedTokenIds
  | none => []

def badWords : Option (List (List TokenId)) :=
  match q.samplingParams with
  | some p => if p.badWordsTokenIds.isEmpty then none else some p.badWordsTokenIds
  | none => none

def needsTokenIds : Bool :=
  match q.samplingParams, q.poolingParams with
  | none, some p => p.requiresTokenIds
  | _, _ => false

end CachedRequestState

variable (c : BatchConfig)

def BatchConfig.Suits (q : CachedRequestState) : Prop :=
  q.samplingParams.isSome = !c.isPoolingModel

structure RowOf (row : BatchRow) (q : CachedRequestState) : Prop where
  isTokenIds : ∀ col < q.numTokens, row.isTokenIds col = q.knownAt col
  tokenIds : ∀ col < q.numTokens, q.knownAt col = true → row.tokenIds col = q.tokenAt col
  promptEmbeds : row.promptEmbeds = q.promptEmbeds
  numTokensNoSpec : row.numTokensNoSpec = q.numTokens
  numPromptTokens : row.numPromptTokens = q.numPromptTokens
  numComputedTokens : row.numComputedTokens = q.numComputedTokens
  numAcceptedTokens : row.numAcceptedTokens = 1
  numBlocks : ∀ group < c.blocksPerKvBlock.length,
    row.numBlocksPerRow group = (c.kernelBlocks q group).length
  blocks : ∀ group < c.blocksPerKvBlock.length, ∀ col < (c.kernelBlocks q group).length,
    row.blockTable group col = (c.kernelBlocks q group).getD col 0
  loraId : row.loraId = (q.loraRequest.map LoRARequest.loraIntId).getD 0
  temperature : ∀ p, q.samplingParams = some p →
    row.temperature = if p.greedy then 0 else p.temperature
  topP : ∀ p, q.samplingParams = some p → row.topP = p.topP
  topK : ∀ p, q.samplingParams = some p → row.topK = c.effectiveTopK p.topK
  penalties : ∀ p, q.samplingParams = some p →
    row.frequencyPenalty = p.frequencyPenalty ∧ row.presencePenalty = p.presencePenalty ∧
      row.repetitionPenalty = p.repetitionPenalty
  generator : row.generator = q.ownGenerator
  allowedTokenIdsMask : row.allowedTokenIdsMask =
    if q.allowedTokenIds.isEmpty then fun _ => false else c.allowedMask q.allowedTokenIds
  badWordsTokenIds : row.badWordsTokenIds = q.badWords
  needsTokenIds : row.needsTokenIds = q.needsTokenIds

structure CleanRow (row : BatchRow) : Prop where
  promptEmbeds : row.promptEmbeds = none
  numAcceptedTokens : row.numAcceptedTokens = 1
  generator : row.generator = none
  allowedTokenIdsMask : row.allowedTokenIdsMask = fun _ => false
  badWordsTokenIds : row.badWordsTokenIds = none
  needsTokenIds : c.isPoolingModel = false → row.needsTokenIds = false

def BatchConfig.marksOf (q : CachedRequestState) : BatchMarks :=
  match q.samplingParams with
  | some p => c.markSampling p BatchMarks.blank
  | none => { BatchMarks.blank with poolingParams := q.poolingParams }

namespace BatchConfig

variable {c : BatchConfig} {q : CachedRequestState} {row src dst : BatchRow}

theorem lengthFromPrompt_eq {n : Nat}
    (h : lengthFromPrompt q.promptTokenIds q.promptEmbeds = .ok n) : n = q.numPromptTokens := by
  unfold lengthFromPrompt at h
  rw [numPromptTokens]
  cases ht : q.promptTokenIds with
  | none =>
    cases he : q.promptEmbeds with
    | none => simp [ht, he] at h
    | some e => simpa [ht, he] using h.symm
  | some t =>
    cases he : q.promptEmbeds with
    | none => simpa [ht, he] using h.symm
    | some e =>
      simp only [ht, he] at h
      split at h
      · cases h
      · exact (Except.ok.inj h).symm

theorem Suits.cases (hsuits : c.Suits q) :
    (c.isPoolingModel = false ∧ ∃ p, q.samplingParams = some p) ∨
      (c.isPoolingModel = true ∧ q.samplingParams = none) := by
  rw [Suits] at hsuits
  cases hp : q.samplingParams with
  | none =>
    rw [hp] at hsuits
    exact Or.inr ⟨by simpa using hsuits.symm, rfl⟩
  | some p =>
    rw [hp] at hsuits
    exact Or.inl ⟨by simpa using hsuits.symm, p, rfl⟩

theorem fillTokens_isTokenIds (c : BatchConfig) (row : BatchRow) {col : Nat}
    (hcol : col < q.numTokens) :
    (c.fillTokens q q.numPromptTokens row).isTokenIds col = q.knownAt col := by
  rw [numTokens] at hcol
  rw [fillTokens, knownAt]
  dsimp only
  by_cases hlt : col < q.numPromptTokens
  · rw [if_pos hlt, decide_eq_false (by omega), Bool.false_or]
  · rw [if_neg hlt, if_pos hcol, decide_eq_true (by omega), Bool.true_or]

theorem fillTokens_tokenIds (c : BatchConfig) (row : BatchRow) {col : Nat}
    (hcol : col < q.numTokens) (hknown : q.knownAt col = true) :
    (c.fillTokens q q.numPromptTokens row).tokenIds col = q.tokenAt col := by
  rw [numTokens] at hcol
  rw [fillTokens, tokenAt]
  dsimp only
  by_cases hlt : col < q.numPromptTokens
  · rw [if_pos hlt, if_pos hlt]
    rw [knownAt, decide_eq_false (by omega)] at hknown
    obtain ⟨ids, hids⟩ := Option.isSome_iff_exists.mp hknown
    rw [hids]
    rfl
  · rw [if_neg hlt, if_pos hcol, if_neg hlt]

theorem rowOf_fill {marks' : BatchMarks} {row' : BatchRow} (hclean : CleanRow c row)
    (hsuits : c.Suits q)
    (h : c.fillParams q (c.fillTokens q q.numPromptTokens row) BatchMarks.blank =
      .ok (row', marks')) : RowOf c (fillLora q row') q ∧ marks' = c.marksOf q := by
  rw [fillParams] at h
  rcases hsuits.cases with ⟨hmodel, p, hp⟩ | ⟨hmodel, hp⟩
  · rw [hp] at h
    cases h
    refine ⟨?_, by rw [marksOf, hp]⟩
    constructor
    case isTokenIds => exact fun col hcol => fillTokens_isTokenIds c row hcol
    case tokenIds => exact fun col hcol hknown => fillTokens_tokenIds c row hcol hknown
    case promptEmbeds => simp [fillLora, fillSampling, fillTokens, hclean.promptEmbeds]
    case generator =>
      simp [fillLora, fillSampling, fillTokens, hclean.generator, ownGenerator,
        hp]
    case allowedTokenIdsMask =>
      simp [fillLora, fillSampling, fillTokens, hclean.allowedTokenIdsMask,
        allowedTokenIds, hp]
    case badWordsTokenIds =>
      simp [fillLora, fillSampling, fillTokens, hclean.badWordsTokenIds,
        badWords, hp]
    case needsTokenIds =>
      simp [fillLora, fillSampling, fillTokens, hclean.needsTokenIds hmodel,
        needsTokenIds, hp]
    all_goals simp +contextual [fillLora, fillSampling, fillTokens, hp,
      numTokens]
  · rw [hp] at h
    cases hpool : q.poolingParams with
    | none => simp [hpool] at h
    | some p =>
      rw [hpool] at h
      cases h
      refine ⟨?_, by rw [marksOf, hp, hpool]⟩
      constructor
      case isTokenIds => exact fun col hcol => fillTokens_isTokenIds c row hcol
      case tokenIds => exact fun col hcol hknown => fillTokens_tokenIds c row hcol hknown
      case promptEmbeds => simp [fillLora, fillTokens, hclean.promptEmbeds]
      case generator =>
        simp [fillLora, fillTokens, hclean.generator, ownGenerator, hp]
      case allowedTokenIdsMask =>
        simp [fillLora, fillTokens, hclean.allowedTokenIdsMask,
          allowedTokenIds, hp]
      case badWordsTokenIds =>
        simp [fillLora, fillTokens, hclean.badWordsTokenIds, badWords, hp]
      case needsTokenIds =>
        simp [fillLora, fillTokens, needsTokenIds, hp, hpool]
      all_goals simp +contextual [fillLora, fillTokens, hp, numTokens]

theorem cleanRow_vacate (hrow : RowOf c row q) (hsuits : c.Suits q)
    (hembeds : q.promptEmbeds = none) : CleanRow c (c.vacateRow row) := by
  rcases hsuits.cases with ⟨hmodel, p, hp⟩ | ⟨hmodel, hp⟩
  · constructor
    case promptEmbeds => simp [vacateRow, hmodel, clearRow, hrow.promptEmbeds, hembeds]
    case needsTokenIds =>
      intro _
      simp [vacateRow, hmodel, clearRow, hrow.needsTokenIds, needsTokenIds, hp]
    all_goals simp [vacateRow, hmodel, clearRow, hrow.numAcceptedTokens]
  constructor
  case promptEmbeds => simp [vacateRow, hmodel, clearRow, hrow.promptEmbeds, hembeds]
  case numAcceptedTokens => simp [vacateRow, hmodel, clearRow, hrow.numAcceptedTokens]
  case generator =>
    simp [vacateRow, hmodel, clearRow, hrow.generator, ownGenerator, hp]
  case allowedTokenIdsMask =>
    simp [vacateRow, hmodel, clearRow, hrow.allowedTokenIdsMask,
      allowedTokenIds, hp]
  case badWordsTokenIds =>
    simp [vacateRow, hmodel, clearRow, hrow.badWordsTokenIds, badWords, hp]
  case needsTokenIds =>
    intro hgen
    rw [hmodel] at hgen
    cases hgen

theorem vacateMarks_marksOf (hsuits : c.Suits q) :
    c.vacateMarks (c.marksOf q) = BatchMarks.blank := by
  rcases hsuits.cases with ⟨hmodel, p, hp⟩ | ⟨hmodel, hp⟩
  · simp [vacateMarks, hmodel, marksOf, hp, markSampling, BatchMarks.blank]
  · simp [vacateMarks, hmodel, marksOf, hp, BatchMarks.blank]

theorem rowOf_moved (hrow : RowOf c src q) (hclean : CleanRow c dst) (hsuits : c.Suits q)
    (hflag : dst.needsTokenIds = q.needsTokenIds) : RowOf c (c.movedRow q.numTokens src dst) q := by
  have hnum := hrow.numBlocks
  have hblocks := hrow.blocks
  rcases hsuits.cases with ⟨hmodel, p, hp⟩ | ⟨hmodel, hp⟩
  · constructor
    case isTokenIds =>
      intro col hcol
      simp [movedRow, hmodel, moveSampling, moveShared, hcol, hrow.isTokenIds col hcol]
    case tokenIds =>
      intro col hcol hknown
      simp [movedRow, hmodel, moveSampling, moveShared, hcol, hrow.tokenIds col hcol hknown]
    case blocks =>
      intro group hgroup col hcol
      simp [movedRow, hmodel, moveSampling, moveShared, hgroup, hnum group hgroup, hcol,
        hblocks group hgroup col hcol]
    case numBlocks =>
      intro group hgroup
      simp [movedRow, hmodel, moveSampling, moveShared, hgroup, hnum group hgroup]
    case temperature =>
      simpa [movedRow, hmodel, moveSampling] using hrow.temperature
    case topP => simpa [movedRow, hmodel, moveSampling] using hrow.topP
    case topK => simpa [movedRow, hmodel, moveSampling] using hrow.topK
    case penalties => simpa [movedRow, hmodel, moveSampling] using hrow.penalties
    all_goals simp [movedRow, hmodel, moveSampling, moveShared, hflag, hclean.promptEmbeds,
      hclean.generator, hclean.badWordsTokenIds, hrow.promptEmbeds, hrow.generator,
      hrow.badWordsTokenIds, hrow.numTokensNoSpec, hrow.numPromptTokens, hrow.numComputedTokens,
      hrow.numAcceptedTokens, hrow.loraId, hrow.allowedTokenIdsMask]
  · constructor
    case isTokenIds =>
      intro col hcol
      simp [movedRow, hmodel, moveShared, hcol, hrow.isTokenIds col hcol]
    case tokenIds =>
      intro col hcol hknown
      simp [movedRow, hmodel, moveShared, hcol, hrow.tokenIds col hcol hknown]
    case blocks =>
      intro group hgroup col hcol
      simp [movedRow, hmodel, moveShared, hgroup, hnum group hgroup, hcol,
        hblocks group hgroup col hcol]
    case numBlocks =>
      intro group hgroup
      simp [movedRow, hmodel, moveShared, hgroup, hnum group hgroup]
    all_goals simp [movedRow, hmodel, moveShared, hp, hflag, hclean.promptEmbeds,
      hclean.generator, hclean.badWordsTokenIds, hclean.allowedTokenIdsMask,
      hclean.numAcceptedTokens, hrow.promptEmbeds, hrow.numTokensNoSpec, hrow.numPromptTokens,
      hrow.numComputedTokens, hrow.loraId, ownGenerator,
      badWords, allowedTokenIds]

theorem cleanRow_left (hrow : RowOf c src q) (hsuits : c.Suits q)
    (hallowed : q.allowedTokenIds = []) : CleanRow c (c.leftRow src) := by
  have hmask : src.allowedTokenIdsMask = fun _ => false := by
    rw [hrow.allowedTokenIdsMask, hallowed]
    rfl
  rcases hsuits.cases with ⟨hmodel, p, hp⟩ | ⟨hmodel, hp⟩
  · constructor
    case needsTokenIds =>
      intro _
      simp [leftRow, hmodel, hrow.needsTokenIds, needsTokenIds, hp]
    all_goals simp [leftRow, hmodel, hrow.numAcceptedTokens, hmask]
  constructor
  case needsTokenIds =>
    intro hgen
    rw [hmodel] at hgen
    cases hgen
  all_goals simp [leftRow, hmodel, hrow.numAcceptedTokens, hmask, hrow.generator,
    hrow.badWordsTokenIds, ownGenerator, badWords, hp]

end BatchConfig

end VllmEcho
