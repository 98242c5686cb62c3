import VllmEcho.Lib.Runs
import VllmEcho.Request.Separation

/-!
# Streaming sessions

`Scheduler._update_request_as_session` turns a stopped session into the request for its next input
chunk: it cuts the tokens at `num_computed_tokens`, relabels what is kept as prompt, and appends to
the block hashes.  A session is followed here through the arrivals of output tokens, every change
of `num_computed_tokens` (scheduling, rejection, preemption) and its updates, next to the number of
its tokens that have ever been computed.
-/

namespace VllmEcho

open Lib List Request

def pyBound (n : Nat) (i : Int) : Nat :=
  if i < 0 then ((n : Int) + i).toNat else min i.toNat n

def shiftFeatures (base : Nat) (fs : List MMFeature) : List MMFeature :=
  fs.map fun f => { f with offset := f.offset + base }

variable (r : Request)

def Request.retained : List TokenId :=
  r.allTokenIds.take (pyBound r.allTokenIds.length r.numComputedTokens)

def Request.keptOutputs : List TokenId :=
  slice r.allTokenIds r.numPromptTokens (pyBound r.allTokenIds.length r.numComputedTokens)

def StreamingUpdate.tokens (u : StreamingUpdate) : List TokenId := u.promptTokenIds.getD []

def Request.rewound (session : Request) (prompt : List TokenId) (update : StreamingUpdate) :
    Request :=
  { session with
    allTokenIds := session.retained ++ update.tokens
    outputTokenIds := []
    promptTokenIds := some (prompt ++ session.keptOutputs ++ update.tokens)
    mmFeatures := session.mmFeatures ++ shiftFeatures session.retained.length update.mmFeatures }

def updateRequestAsSession (hasher : Option BlockHasher) (session : Request)
    (update : StreamingUpdate) : Except PyError Request :=
  match session.promptTokenIds with
  | none => throw (.assertionError "session.prompt_token_ids is not None")
  | some prompt => do
    let r ← (session.rewound prompt update).updateBlockHashes hasher
    pure { r with
      numPromptTokens := (prompt ++ session.keptOutputs ++ update.tokens).length
      arrivalTime := update.arrivalTime
      samplingParams := update.samplingParams
      status := .waiting }

/-! ## Sessions as the scheduler drives them -/

structure SessionState where
  request : Request
  computed : Nat

inductive SessionOp
  /-- `append_output_token_ids` -/
  | outputs (ts : List TokenId)
  /-- `num_computed_tokens` becomes `c`: scheduled, rolled back, resumed or preempted -/
  | compute (c : Nat)
  /-- the next input chunk -/
  | update (u : StreamingUpdate)

variable (h : BlockHasher) (s : SessionState)

/-- A session is created by `AsyncLLM._add_streaming_input_request`, which refuses prompt
embeddings and pooling parameters.  That placeholders do not overlap is an assumption about the
processor that made the features, here and for the updates. -/
def SessionStart : Prop :=
  ∃ (a : RequestArgs) (prompt : List TokenId), a.promptTokenIds = some prompt ∧
    a.promptEmbeds = none ∧ a.poolingParams = none ∧ a.resumable = true ∧
    Spaced a.mmFeatures ∧ (∀ f ∈ a.mmFeatures, f.stop ≤ prompt.length) ∧
    init (some h) a = .ok s.request ∧ s.computed = 0

inductive SessionStep (h : BlockHasher) : SessionState → SessionOp → SessionState → Prop
  | outputs {s : SessionState} {ts : List TokenId} {r' : Request}
      (hrun : s.request.appendOutputTokenIds (some h) ts = .ok r') :
      SessionStep h s (.outputs ts) ⟨r', s.computed⟩
  | compute {s : SessionState} {c : Nat} :
      SessionStep h s (.compute c) ⟨{ s.request with numComputedTokens := c },
        max s.computed (min c s.request.numTokens)⟩
  | update {s : SessionState} {u : StreamingUpdate} {r' : Request}
      (hrun : updateRequestAsSession (some h) s.request u = .ok r') :
      SessionStep h s (.update u) ⟨r', s.request.retained.length⟩

variable (u : StreamingUpdate)

structure StreamingUpdate.Valid : Prop where
  prompt : u.promptTokenIds.isSome
  spaced : Spaced u.mmFeatures
  fits : ∀ f ∈ u.mmFeatures, f.stop ≤ u.tokens.length
  limits : ∃ sp, u.samplingParams = some sp ∧ sp.maxTokens = some u.maxTokens

def MeetsBlock (bs : Nat) (f : MMFeature) (k : Nat) : Prop :=
  f.offset < (k + 1) * bs ∧ k * bs < f.stop

variable (retained : List TokenId)

def freshArgs : RequestArgs where
  requestId := r.requestId
  promptTokenIds := some (retained ++ u.tokens)
  samplingParams := u.samplingParams
  poolingParams := r.poolingParams
  arrivalTime := u.arrivalTime
  promptEmbeds := r.promptEmbeds
  mmFeatures := r.mmFeatures ++ shiftFeatures retained.length u.mmFeatures
  loraRequest := r.loraRequest
  cacheSalt := r.cacheSalt
  priority := r.priority
  resumable := r.resumable

/-- The updated session is a fresh request over everything it had computed and the new chunk. -/
structure LikeFresh (fresh r' : Request) : Prop where
  kept : retained <+: s.request.allTokenIds
  computed : s.request.allTokenIds.take s.computed <+: retained
  built : init (some h) (freshArgs s.request u retained) = .ok fresh
  allTokenIds : r'.allTokenIds = fresh.allTokenIds
  promptTokenIds : r'.promptTokenIds = fresh.promptTokenIds
  numPromptTokens : r'.numPromptTokens = fresh.numPromptTokens
  blockHashes : r'.blockHashes = fresh.blockHashes
  mmFeatures : r'.mmFeatures = fresh.mmFeatures
  samplingParams : r'.samplingParams = fresh.samplingParams
  maxTokens : r'.maxTokens = fresh.maxTokens

/-- When an update may be applied: the prompt and everything once computed is computed now, the
limit stays, and the hashes in place are not overtaken. -/
structure Continues : Prop where
  prompt : (s.request.numPromptTokens : Int) ≤ s.request.numComputedTokens
  computed : (s.computed : Int) ≤ s.request.numComputedTokens
  maxTokens : s.request.maxTokens = u.maxTokens
  hashedTokens : s.request.allTokenIds.take (numFullBlocks h s.request * h.blockSize) =
    (s.request.retained ++ u.tokens).take (numFullBlocks h s.request * h.blockSize)
  hashedItems : ∀ k < numFullBlocks h s.request,
    ∀ f ∈ shiftFeatures s.request.retained.length u.mmFeatures, ¬ MeetsBlock h.blockSize f k
  laterItems : 0 < numFullBlocks h s.request → ∀ k, numFullBlocks h s.request ≤ k →
    k < (s.request.retained ++ u.tokens).length / h.blockSize →
    ∀ f ∈ (s.request.mmFeatures ++
      shiftFeatures s.request.retained.length u.mmFeatures).dropLast, ¬ MeetsBlock h.blockSize f k

/-- The condition on each step of a run: updates continue the session, and arriving outputs
complete no block that meets an item other than the last. -/
def SessionGuard : SessionOp → Prop
  | .outputs ts => 0 < numFullBlocks h s.request → ∀ k, numFullBlocks h s.request ≤ k →
      k < (s.request.numTokens + ts.length) / h.blockSize →
      ∀ f ∈ s.request.mmFeatures.dropLast, ¬ MeetsBlock h.blockSize f k
  | .compute _ => True
  | .update u => u.Valid ∧ Continues h s u

/-! ## Hashes of the rewound session -/

variable {prompt : List TokenId} {new fs : List MMFeature} {k n : Nat} {r₁ : Request} {n₁ : Nat}

section

variable {h : BlockHasher} {r : Request}

section

variable (hlora : r₁.loraRequest = r.loraRequest) (hsalt : r₁.cacheSalt = r.cacheSalt)
  (hembeds : r₁.promptEmbeds = r.promptEmbeds)
include hlora hsalt hembeds

theorem blockContent_eq_iff :
    blockContent h r n k = blockContent h r₁ n₁ k ↔
      slice r.allTokenIds (k * h.blockSize) ((k + 1) * h.blockSize) =
          slice r₁.allTokenIds (k * h.blockSize) ((k + 1) * h.blockSize) ∧
        (itemsHashed r.mmFeatures (seenFrom r.mmFeatures n k) (k * h.blockSize)
          ((k + 1) * h.blockSize)).map (mmKey (k * h.blockSize)) =
        (itemsHashed r₁.mmFeatures (seenFrom r₁.mmFeatures n₁ k) (k * h.blockSize)
          ((k + 1) * h.blockSize)).map (mmKey (k * h.blockSize)) := by
  have hl : genLoraExtraHashKeys r₁ = genLoraExtraHashKeys r := by
    simp only [genLoraExtraHashKeys, hlora]
  have hs : ∀ i, cacheSaltKeys r₁ i = cacheSaltKeys r i := by
    intro i
    simp only [cacheSaltKeys, hsalt]
  have he : ∀ i j, genPromptEmbedsExtraHashKeys h.fn r₁ i j =
      genPromptEmbedsExtraHashKeys h.fn r i j := by
    intro i j
    simp only [genPromptEmbedsExtraHashKeys, hembeds]
  rw [blockContent, blockContent, Prod.mk.injEq, packKeys_inj, blockKeys, blockKeys, hl, hs, he,
    append_left_inj, append_left_inj, append_right_inj]

omit hlora hsalt hembeds in
theorem laterBlock_eq_iff (hspaced : Spaced r.mmFeatures) (hk : n ≤ k) (hk₁ : k < n₁) :
    blockContent h r n k = blockContent h r n₁ k ↔
      ∀ f ∈ r.mmFeatures.dropLast, ¬ MeetsBlock h.blockSize f k := by
  rw [blockContent_eq_iff rfl rfl rfl, seenFrom, seenFrom, if_neg (Nat.not_lt.mpr hk), if_pos hk₁,
    itemsHashed_of_spaced hspaced, itemsHashed_of_spaced hspaced, drop_zero,
    itemsIn_split r.mmFeatures]
  refine Iff.trans ?_ itemsIn_eq_nil_iff
  simp

theorem hashedBlock_eq_iff (hmm : r₁.mmFeatures = r.mmFeatures ++ new)
    (hspaced : Spaced r₁.mmFeatures) (hk : k < n) (hk₁ : k < n₁) :
    blockContent h r n k = blockContent h r₁ n₁ k ↔
      slice r.allTokenIds (k * h.blockSize) ((k + 1) * h.blockSize) =
          slice r₁.allTokenIds (k * h.blockSize) ((k + 1) * h.blockSize) ∧
        ∀ f ∈ new, ¬ MeetsBlock h.blockSize f k := by
  have hold : Spaced r.mmFeatures := (pairwise_append.mp (hmm ▸ hspaced)).1
  rw [blockContent_eq_iff hlora hsalt hembeds, seenFrom, seenFrom, if_pos hk, if_pos hk₁,
    itemsHashed_of_spaced hold, itemsHashed_of_spaced hspaced, drop_zero, drop_zero, hmm,
    itemsIn_append, map_append, self_eq_append_right, map_eq_nil_iff, itemsIn_eq_nil_iff]
  rfl

variable (r₁) in
/-- The hashes in place, continued, are those of hashing from scratch exactly when no content behind
the old hashes has changed and the new blocks hide no item. -/
theorem continuedHashes_eq_iff (hmm : r₁.mmFeatures = r.mmFeatures ++ new)
    (hspaced : Spaced r₁.mmFeatures) {m M : Nat} (hm : m = numFullBlocks h r)
    (hM : M = numFullBlocks h r₁) (hn : n = if m = 0 then M else m) :
    chain h.fn.hash h.fn.noneHash (blockContents h r m m ++
        (range' m (M - m)).map (blockContent h r₁ n)) =
      chain h.fn.hash h.fn.noneHash (blockContents h r₁ M M) ↔
    r.allTokenIds.take (m * h.blockSize) = r₁.allTokenIds.take (m * h.blockSize) ∧
      (∀ k < m, ∀ f ∈ new, ¬ MeetsBlock h.blockSize f k) ∧
      (0 < m → ∀ k, m ≤ k → k < M → ∀ f ∈ r₁.mmFeatures.dropLast,
        ¬ MeetsBlock h.blockSize f k) := by
  -- Equal chains are chains over equal contents.
  have hchain : ∀ {xs ys}, chain h.fn.hash h.fn.noneHash xs = chain h.fn.hash h.fn.noneHash ys ↔
      xs = ys := ⟨chain_injective h.fn.injective _, congrArg _⟩
  rw [hchain]
  by_cases hle : m ≤ M
  · have hold : blockContents h r m m = blockContents h r₁ M m ↔
        r.allTokenIds.take (m * h.blockSize) = r₁.allTokenIds.take (m * h.blockSize) ∧
          ∀ k < m, ∀ f ∈ new, ¬ MeetsBlock h.blockSize f k := by
      rw [blockContents, blockContents, map_inj_left, take_mul_eq_iff]
      simp only [mem_range]
      constructor
      · intro hall
        have hblock := fun k hk => (hashedBlock_eq_iff hlora hsalt hembeds hmm hspaced hk
          (Nat.lt_of_lt_of_le hk hle)).mp (hall k hk)
        exact ⟨fun k hk => (hblock k hk).1, fun k hk => (hblock k hk).2⟩
      · rintro ⟨htok, hitems⟩ k hk
        exact (hashedBlock_eq_iff hlora hsalt hembeds hmm hspaced hk
          (Nat.lt_of_lt_of_le hk hle)).mpr ⟨htok k hk, hitems k hk⟩
    have hnew : (range' m (M - m)).map (blockContent h r₁ n) =
          (range' m (M - m)).map (blockContent h r₁ M) ↔
        (0 < m → ∀ k, m ≤ k → k < M → ∀ f ∈ r₁.mmFeatures.dropLast,
          ¬ MeetsBlock h.blockSize f k) := by
      rw [map_inj_left]
      simp only [mem_range'_1]
      by_cases hzero : m = 0
      · -- The first batch: it is the hashing from scratch.
        rw [hn, if_pos hzero]
        exact ⟨fun _ hpos => absurd hpos (by omega), fun _ _ _ => rfl⟩
      rw [hn, if_neg hzero]
      constructor
      · intro hall _ k hk hkM
        exact (laterBlock_eq_iff hspaced hk hkM).mp (hall k ⟨hk, by omega⟩)
      · intro hall k hk
        exact (laterBlock_eq_iff hspaced hk.1 (by omega)).mpr (hall (by omega) k hk.1 (by omega))
    rw [blockContents_split h hle, ← and_assoc, ← hold, ← hnew]
    constructor
    · intro heq
      exact append_inj heq (by simp)
    · rintro ⟨h₁, h₂⟩
      rw [h₁, h₂]
  · -- Fewer full blocks than hashes: neither side can hold.
    have hlong : m * h.blockSize ≤ r.allTokenIds.length := by
      rw [hm]
      exact Nat.div_mul_le_self ..
    constructor
    · intro heq
      have := congrArg List.length heq
      simp at this
      omega
    rintro ⟨htok, -⟩
    exfalso
    have hlen := congrArg List.length htok
    rw [length_take, length_take] at hlen
    apply hle
    rw [hM, numFullBlocks, Nat.le_div_iff_mul_le h.blockSize_pos, numTokens]
    omega

end

/-! ## What holds along a run -/

structure SessionInv (h : BlockHasher) (s : SessionState) : Prop where
  prompt : ∃ prompt, s.request.promptTokenIds = some prompt ∧
    prompt.length = s.request.numPromptTokens ∧
    s.request.allTokenIds = prompt ++ s.request.outputTokenIds
  embeds : s.request.promptEmbeds = none
  pooling : s.request.poolingParams = none
  spaced : Spaced s.request.mmFeatures
  fits : ∀ f ∈ s.request.mmFeatures, f.stop ≤ s.request.numPromptTokens
  exact : Hashed h (numFullBlocks h s.request) s.request
  nonneg : 0 ≤ s.request.numComputedTokens
  computed_le : s.computed ≤ s.request.numTokens

variable {hasher : Option BlockHasher} {r' : Request}

theorem updateBlockHashes_fields (hrun : r.updateBlockHashes hasher = .ok r') :
    ∃ hashes, r' = { r with blockHashes := hashes } := by
  cases hasher with
  | none =>
    cases hrun
    exact ⟨r.blockHashes, rfl⟩
  | some h =>
    obtain ⟨new, -, hrun⟩ := of_bind hrun
    cases hrun
    exact ⟨_, rfl⟩

theorem init_fields {a : RequestArgs} (hrun : init hasher a = .ok r) :
    ∃ maxTokens status hashes, initialLimits a = .ok (maxTokens, status) ∧
      r = { unhashed a maxTokens status a.promptLength with blockHashes := hashes } := by
  obtain ⟨⟨maxTokens, status⟩, hlim, hrun⟩ := of_bind hrun
  obtain ⟨n, hlen, hrun⟩ := of_bind hrun
  cases lengthFromPrompt_eq hlen
  obtain ⟨hashes, rfl⟩ := updateBlockHashes_fields hrun
  exact ⟨maxTokens, status, hashes, hlim, rfl⟩

/-- A new request hashes its tokens in one batch. -/
theorem init_hashes {a : RequestArgs} (hrun : init (some h) a = .ok r)
    (hctx : SameContext r' r) (htok : r.allTokenIds = r'.allTokenIds)
    (hlen : a.promptLength = r'.numTokens) : r.blockHashes = chain h.fn.hash h.fn.noneHash
      (blockContents h r' (numFullBlocks h r') (numFullBlocks h r')) := by
  have hfull : numFullBlocks h r = numFullBlocks h r' := by
    rw [numFullBlocks, numFullBlocks, numTokens, numTokens, htok]
  have hfirst : firstBatch h.blockSize a.promptLength [] = numFullBlocks h r' := by
    rw [hlen]
    rfl
  have hhash := (init_spec hrun).hashed
  rw [Hashed, hfirst, hfull, blockContents_append hctx (htok.trans (append_nil _).symm) _
    (Nat.le_refl _)] at hhash
  exact hhash

theorem updateRequestAsSession_fields {u : StreamingUpdate}
    (hprompt : r.promptTokenIds = some prompt) (hrun : updateRequestAsSession hasher r u = .ok r') :
    ∃ hashes, (r.rewound prompt u).updateBlockHashes hasher =
        .ok { r.rewound prompt u with blockHashes := hashes } ∧
      r' = { r.rewound prompt u with
        blockHashes := hashes
        numPromptTokens := (prompt ++ r.keptOutputs ++ u.tokens).length
        arrivalTime := u.arrivalTime
        samplingParams := u.samplingParams
        status := .waiting } := by
  rw [updateRequestAsSession, hprompt] at hrun
  obtain ⟨r₁, hup, hrun⟩ := of_bind hrun
  obtain ⟨hashes, rfl⟩ := updateBlockHashes_fields hup
  cases hrun
  exact ⟨hashes, hup, rfl⟩

theorem spaced_shift (hs : Spaced fs) (base : Nat) : Spaced (shiftFeatures base fs) := by
  rw [Spaced, shiftFeatures, pairwise_map]
  apply List.Pairwise.imp _ hs
  intro f g hfg
  rw [MMFeature.stop] at hfg ⊢
  show f.offset + base + f.length ≤ g.offset + base
  omega

theorem Request.retained_eq (r : Request) : r.retained = r.allTokenIds.take r.retained.length := by
  rw [retained, length_take, take_eq_take_iff]
  omega

variable {s : SessionState}

namespace SessionInv

section

variable (hinv : SessionInv h s)
include hinv

theorem retained_length :
    s.request.retained.length = min s.request.numComputedTokens.toNat s.request.numTokens := by
  have hneg : ¬ s.request.numComputedTokens < 0 := Int.not_lt.mpr hinv.nonneg
  rw [retained, length_take, pyBound, if_neg hneg, numTokens]
  omega

theorem prompt_le : s.request.numPromptTokens ≤ s.request.numTokens := by
  obtain ⟨prompt, -, hlen, hall⟩ := hinv.prompt
  rw [numTokens, hall, length_append]
  omega

theorem prompt_kept_iff (hprompt : s.request.promptTokenIds = some prompt) :
    prompt ++ s.request.keptOutputs = s.request.retained ↔
      (s.request.numPromptTokens : Int) ≤ s.request.numComputedTokens := by
  obtain ⟨prompt', hprompt', hlen, hall⟩ := hinv.prompt
  obtain rfl : prompt = prompt' := by
    rw [hprompt] at hprompt'
    exact Option.some.inj hprompt'
  have hret := hinv.retained_length
  have hple := hinv.prompt_le
  have hnn := hinv.nonneg
  constructor
  · intro heq
    have hl := congrArg List.length heq
    rw [length_append] at hl
    omega
  intro hle
  have hcut : prompt = s.request.retained.take s.request.numPromptTokens := by
    rw [retained_eq, take_take, Nat.min_eq_left (by omega), hall, ← hlen,
      take_left]
  conv_lhs => rw [hcut]
  exact take_append_drop ..

variable {u : StreamingUpdate}

theorem spaced_append (hu : u.Valid)
    (hle : (s.request.numPromptTokens : Int) ≤ s.request.numComputedTokens) :
    Spaced (s.request.mmFeatures ++ shiftFeatures s.request.retained.length u.mmFeatures) := by
  have hret := hinv.retained_length
  have hple := hinv.prompt_le
  apply pairwise_append.mpr
  refine ⟨hinv.spaced, spaced_shift hu.spaced _, ?_⟩
  intro f hf g hg
  have hstop := hinv.fits f hf
  obtain ⟨g₀, -, rfl⟩ := mem_map.mp hg
  show f.stop ≤ g₀.offset + s.request.retained.length
  omega

theorem rewound_hashes {u : StreamingUpdate} {m M : Nat}
    (hm : m = numFullBlocks h s.request) (hM : M = numFullBlocks h (s.request.rewound prompt u)) :
    (s.request.rewound prompt u).updateBlockHashes (some h) = .ok { s.request.rewound prompt u with
        blockHashes := chain h.fn.hash h.fn.noneHash (blockContents h s.request m m ++
          (range' m (M - m)).map
            (blockContent h (s.request.rewound prompt u) (if m = 0 then M else m))) } := by
  have hexact := hinv.exact
  rw [Hashed, ← hm] at hexact
  have hlen : (s.request.rewound prompt u).blockHashes.length = m := by
    show s.request.blockHashes.length = m
    rw [hexact, chain_length, blockContents_length]
  have hnew := requestBlockHasher_spec hlen (n := if m = 0 then M else m)
    (fun hzero => by rw [if_pos hzero, hM]) (fun hpos => by rw [if_neg (by omega)])
  have hparent : parentOrNone h.fn (s.request.rewound prompt u).blockHashes.getLast? =
      (blockContents h s.request m m).foldl h.fn.hash h.fn.noneHash := by
    show parentOrNone h.fn s.request.blockHashes.getLast? = _
    rw [hexact, parentOrNone_chain]
  rw [updateBlockHashes, hnew, hparent, ← hM, chain_append, ← hexact]
  rfl

/-- An update that keeps the prompt and everything computed makes a fresh request of the session
exactly when the rest of the condition holds. -/
theorem update_likeFresh_iff (hu : u.Valid) :
    (∃ r', updateRequestAsSession (some h) s.request u = .ok r' ∧
        ∃ retained fresh, LikeFresh h s u retained fresh r') ↔ Continues h s u := by
  obtain ⟨prompt, hprompt, hlen, hall⟩ := hinv.prompt
  obtain ⟨sp, hsp, hmax⟩ := hu.limits
  have hret := hinv.retained_length
  have hcomp := hinv.computed_le
  obtain ⟨m, hm⟩ : ∃ m, m = numFullBlocks h s.request := ⟨_, rfl⟩
  obtain ⟨M, hM⟩ : ∃ M, M = numFullBlocks h (s.request.rewound prompt u) := ⟨_, rfl⟩
  have hhashes := hinv.rewound_hashes hm hM
  have hcont := fun hle => continuedHashes_eq_iff (r := s.request) (s.request.rewound prompt u)
    rfl rfl rfl rfl (hinv.spaced_append hu hle) hm hM rfl
  have hlim : initialLimits (freshArgs s.request u s.request.retained) =
      .ok (u.maxTokens, if sp.structuredOutputs then .waitingForStructuredOutputGrammar
        else .waiting) := by
    simp [initialLimits, freshArgs, hinv.pooling, hsp, hmax]
  -- A fresh request over the retained tokens hashes them from scratch.
  have hfresh : ∀ fresh,
      init (some h) (freshArgs s.request u s.request.retained) = .ok fresh →
      fresh.blockHashes = chain h.fn.hash h.fn.noneHash
        (blockContents h (s.request.rewound prompt u) M M) := by
    intro fresh hinit
    obtain ⟨maxTokens, status, fhashes, -, rfl⟩ := init_fields hinit
    rw [hM]
    exact init_hashes hinit ⟨rfl, rfl, rfl, rfl⟩ rfl rfl
  constructor
  · rintro ⟨r', hrun, retained, fresh, hlike⟩
    obtain ⟨hashes, hup, rfl⟩ := updateRequestAsSession_fields hprompt hrun
    obtain ⟨maxTokens, status, fhashes, hflim, rfl⟩ := init_fields hlike.built
    -- The tokens of the update's result leave no choice for the retained ones.
    obtain rfl : retained = s.request.retained := (append_cancel_right hlike.allTokenIds).symm
    have hle : (s.request.numPromptTokens : Int) ≤ s.request.numComputedTokens :=
      (hinv.prompt_kept_iff hprompt).mp (append_cancel_right (Option.some.inj hlike.promptTokenIds))
    have hkept := hlike.computed.length_le
    rw [length_take] at hkept
    rw [hlim] at hflim
    cases hflim
    have hsame := hlike.blockHashes
    rw [hfresh _ hlike.built] at hsame
    have hchain := congrArg blockHashes (Except.ok.inj (hhashes.symm.trans hup))
    obtain ⟨htok, hitems, hlater⟩ := (hcont hle).mp (hchain.trans hsame)
    rw [hm] at htok hitems hlater
    have hcount : s.request.numTokens = s.request.allTokenIds.length := rfl
    refine ⟨hle, by omega, hlike.maxTokens, htok, hitems, fun hpos k hk hkM => hlater hpos k hk ?_⟩
    rw [hM]
    exact hkM
  · intro hc
    have hle := hc.prompt
    have hpr := (hinv.prompt_kept_iff hprompt).mpr hle
    obtain ⟨fresh, hinit⟩ := exists_build hlim
      (show lengthFromPromptTokenIdsOrEmbeds
          (freshArgs s.request u s.request.retained).promptTokenIds
        (freshArgs s.request u s.request.retained).promptEmbeds =
          .ok (s.request.retained ++ u.tokens).length by
        simp [freshArgs, hinv.embeds, lengthFromPromptTokenIdsOrEmbeds]) []
    have hinit : init (some h) (freshArgs s.request u s.request.retained) = .ok fresh := by
      obtain ⟨r₁, hr₁, hnil⟩ := of_bind hinit
      cases hnil
      exact hr₁
    obtain ⟨maxTokens, status, fhashes, hflim, rfl⟩ := init_fields hinit
    rw [hlim] at hflim
    cases hflim
    have hhash := hfresh _ hinit
    rw [updateRequestAsSession, hprompt]
    dsimp only
    rw [hhashes]
    refine ⟨_, rfl, s.request.retained, _,
      ⟨ take_prefix _ _, ?_, hinit, rfl, ?_, ?_, ?_, rfl, rfl, hc.maxTokens⟩⟩
    · have hcomputed := hc.computed
      rw [retained_eq]
      exact take_prefix_take_left (by omega)
    · exact congrArg (some <| · ++ u.tokens) hpr
    · exact congrArg (length <| · ++ u.tokens) hpr
    rw [hhash]
    have hitems := hc.hashedItems
    have htok := hc.hashedTokens
    have hlater := hc.laterItems
    rw [← hm] at hitems htok hlater
    refine (hcont hle).mpr ⟨htok, hitems, fun hpos k hk hkM => hlater hpos k hk ?_⟩
    rw [hM] at hkM
    exact hkM

end

theorem start (hs : SessionStart h s) : SessionInv h s := by
  obtain ⟨request, computed⟩ := s
  obtain ⟨a, prompt, hprompt, hembeds, hpool, -, hspaced, hfits, hinit, rfl⟩ := hs
  have hhashed := (init_spec hinit).hashed
  obtain ⟨maxTokens, status, hashes, -, rfl⟩ := init_fields hinit
  have hlen : a.promptLength = prompt.length := by rw [RequestArgs.promptLength, hprompt]
  have htok : a.promptTokenIds.getD (replicate a.promptLength 0) = prompt := by
    rw [hprompt]
    rfl
  refine ⟨⟨prompt, hprompt, hlen.symm, htok.trans (append_nil _).symm⟩, hembeds, hpool, hspaced,
    ?_, ?_, Int.le_refl 0, Nat.zero_le _⟩
  · intro f hf
    exact Nat.le_trans (hfits f hf) hlen.ge
  · show Hashed h ((a.promptTokenIds.getD (replicate a.promptLength 0)).length / h.blockSize) _
    rw [promptTokens_length]
    exact hhashed

/-- Output tokens keep the invariant of the session. -/
theorem outputs (hinv : SessionInv h s) {ts : List TokenId}
    (hrun : s.request.appendOutputTokenIds (some h) ts = .ok r')
    (hguard : SessionGuard h s (.outputs ts)) : SessionInv h ⟨r', s.computed⟩ := by
  obtain ⟨r₁, hrun₁, hctx, htok, hhash⟩ := appendOutputTokenIds_hashed hinv.exact
    (fun _ => Nat.le_refl _) ts
  rw [hrun] at hrun₁
  cases hrun₁
  obtain ⟨hashes, rfl⟩ := updateBlockHashes_fields hrun
  obtain ⟨prompt, hprompt, hlen, hall⟩ := hinv.prompt
  refine ⟨⟨prompt, hprompt, hlen, ?_⟩, hinv.embeds, hinv.pooling, hinv.spaced, hinv.fits, ?_,
    hinv.nonneg, ?_⟩
  · rw [hall, append_assoc]
  · by_cases hzero : numFullBlocks h s.request = 0
    · rw [if_pos hzero] at hhash
      exact hhash
    rw [if_neg hzero] at hhash
    rw [Hashed] at hhash ⊢
    rw [hhash]
    congr 1
    apply map_congr_left
    intro k hk
    rw [mem_range] at hk
    rcases Nat.lt_or_ge k (numFullBlocks h s.request) with hold | hnew
    · rw [blockContent_eq_iff rfl rfl rfl, seenFrom, seenFrom, if_pos hold, if_pos hk]
      exact ⟨rfl, rfl⟩
    · refine (laterBlock_eq_iff ?_ hnew hk).mpr ?_
      · exact hinv.spaced
      apply hguard (by omega) k hnew
      rwa [numFullBlocks, numTokens, length_append] at hk
  · apply Nat.le_trans hinv.computed_le
    show _ ≤ List.length _
    rw [length_append]
    exact Nat.le_add_right ..

/-- So does an update that continues the session. -/
theorem update (hinv : SessionInv h s) {u : StreamingUpdate} (hu : u.Valid) (hc : Continues h s u)
    (hrun : updateRequestAsSession (some h) s.request u = .ok r') :
    SessionInv h ⟨r', s.request.retained.length⟩ := by
  obtain ⟨r₁, hrun₁, retained, fresh, hlike⟩ := (hinv.update_likeFresh_iff hu).mpr hc
  rw [hrun] at hrun₁
  cases hrun₁
  obtain ⟨prompt, hprompt, -, -⟩ := hinv.prompt
  obtain ⟨hashes, -, rfl⟩ := updateRequestAsSession_fields hprompt hrun
  have hpr := congrArg (· ++ u.tokens) ((hinv.prompt_kept_iff hprompt).mpr hc.prompt)
  have hnum := congrArg List.length hpr
  refine ⟨⟨s.request.retained ++ u.tokens, congrArg some hpr, hnum.symm, (append_nil _).symm⟩,
    hinv.embeds, hinv.pooling, hinv.spaced_append hu hc.prompt, ?_, ?_, hinv.nonneg, ?_⟩
  · have hple := hinv.prompt_le
    have hret := hinv.retained_length
    have hcp := hc.prompt
    intro f hf
    apply Nat.le_trans _ hnum.ge
    rw [length_append]
    rcases mem_append.mp hf with hf | hf
    · have := hinv.fits f hf
      omega
    · obtain ⟨g, hg, rfl⟩ := mem_map.mp hf
      have := hu.fits g hg
      rw [MMFeature.stop] at this ⊢
      show g.offset + s.request.retained.length + g.length ≤ _
      omega
  · -- The fresh request it is like was hashed in one batch.
    obtain ⟨maxTokens, status, fhashes, -, rfl⟩ := init_fields hlike.built
    obtain rfl : retained = s.request.retained := (append_cancel_right hlike.allTokenIds).symm
    exact hlike.blockHashes.trans
      (init_hashes hlike.built ⟨rfl, rfl, rfl, rfl⟩ rfl rfl)
  · exact (length_append ..).ge.trans' (Nat.le_add_right ..)

theorem step (hinv : SessionInv h s) {op : SessionOp} {s' : SessionState}
    (hguard : SessionGuard h s op) (hstep : SessionStep h s op s') : SessionInv h s' := by
  cases hstep with
  | outputs hrun => exact hinv.outputs hrun hguard
  | compute =>
    refine ⟨hinv.prompt, hinv.embeds, hinv.pooling, hinv.spaced, hinv.fits, hinv.exact,
      Int.natCast_nonneg _, ?_⟩
    have := hinv.computed_le
    exact Nat.max_le.mpr ⟨this, Nat.min_le_right ..⟩
  | update hrun => exact hinv.update hguard.1 hguard.2 hrun

end SessionInv

end

/-- In every run of a session whose steps meet the condition, the next update makes a fresh request
of it exactly when the update meets the condition. -/
theorem sessionRun_likeFresh_iff (h : BlockHasher) (s : SessionState)
    (hrun : Reaches (SessionStart h) (SessionStep h) (SessionGuard h) s) (u : StreamingUpdate)
    (hu : u.Valid) : (∃ r', updateRequestAsSession (some h) s.request u = .ok r' ∧
        ∃ retained fresh, LikeFresh h s u retained fresh r') ↔ Continues h s u := by
  have hinv : SessionInv h s :=
    hrun.invariant (fun _ => SessionInv.start) (fun _ _ _ hinv hg hs => hinv.step hg hs)
  exact hinv.update_likeFresh_iff hu

/-! ## A session with one output -/

def chunkArgs : RequestArgs :=
  { tenant none none with promptTokenIds := some [1, 2], resumable := true }

def chunkSession (c : Nat) (ts : List TokenId) : Request :=
  { unhashed chunkArgs 16 .waiting 2 with
    numComputedTokens := c
    outputTokenIds := ts
    allTokenIds := [1, 2] ++ ts }

def nextChunk : StreamingUpdate := ⟨[], some [4], 16, 1, chunkArgs.samplingParams⟩

variable (fn : HashFunction)

def wideHasher : BlockHasher := ⟨fn, 16, Nat.succ_pos 15⟩

theorem nextChunk_valid : nextChunk.Valid :=
  ⟨rfl, List.Pairwise.nil, by simp [nextChunk], ⟨_, rfl, rfl⟩⟩

theorem chunkSession_noBlocks (c : Nat) (ts : List TokenId) (hts : ts.length < 14) :
    numFullBlocks (wideHasher fn) (chunkSession c ts) = 0 := by
  apply Nat.div_eq_of_lt
  show ([1, 2] ++ ts).length < 16
  rw [length_append]
  simp only [length_cons, length_nil]
  omega

theorem chunkSession_reached : Reaches (SessionStart (wideHasher fn)) (SessionStep (wideHasher fn))
      (SessionGuard (wideHasher fn)) ⟨chunkSession 2 [3], 2⟩ := by
  have hstart : SessionStart (wideHasher fn) ⟨chunkSession 0 [], 0⟩ :=
    ⟨chunkArgs, [1, 2], rfl, rfl, rfl, rfl, List.Pairwise.nil, by simp [chunkArgs, tenant],
      rfl, rfl⟩
  have hprompt : Reaches (SessionStart (wideHasher fn)) (SessionStep (wideHasher fn))
      (SessionGuard (wideHasher fn)) ⟨chunkSession 2 [], 2⟩ :=
    (Reaches.start hstart).next (i := .compute 2) trivial .compute
  apply hprompt.next (i := .outputs [3]) _ (.outputs rfl)
  intro hpos
  rw [chunkSession_noBlocks fn 2 _ (by decide)] at hpos
  omega

/-- Preempted before its stop was processed, the session loses every token it had computed. -/
theorem preemptedSession_drops_tokens :
    Nonempty HashFunction ∧ ∀ fn : HashFunction, ∃ s : SessionState, ∃ r' : Request,
      Reaches (SessionStart (wideHasher fn)) (SessionStep (wideHasher fn))
        (SessionGuard (wideHasher fn)) s ∧
      s.request.allTokenIds = [1, 2, 3] ∧ s.computed = 2 ∧ nextChunk.Valid ∧
      updateRequestAsSession (some (wideHasher fn)) s.request nextChunk = .ok r' ∧
      r'.allTokenIds = [4] ∧ r'.promptTokenIds = some [1, 2, 4] ∧
      ¬ ∃ retained fresh, LikeFresh (wideHasher fn) s nextChunk retained fresh r' := by
  refine ⟨exists_hashFunction, fun fn => ?_⟩
  refine ⟨⟨chunkSession 0 [3], 2⟩, _, ?_, rfl, rfl, nextChunk_valid, rfl, rfl, rfl, ?_⟩
  · exact (chunkSession_reached fn).next (i := .compute 0) trivial .compute
  rintro ⟨retained, fresh, hlike⟩
  obtain ⟨maxTokens, status, hashes, -, hfr⟩ := init_fields hlike.built
  -- The prompt it reports and its tokens differ; those of a fresh request never do.
  have htok : [4] = retained ++ nextChunk.tokens := by
    have := hlike.allTokenIds
    rw [hfr] at this
    exact this
  have hpr : some [1, 2, 4] = some (retained ++ nextChunk.tokens) := by
    have := hlike.promptTokenIds
    rw [hfr] at this
    exact this
  rw [← htok] at hpr
  exact absurd hpr (by decide)

/-- Not preempted, it continues like a fresh request. -/
theorem sessionRun_likeFresh_chunk : ∃ fn : HashFunction, ∃ r',
    updateRequestAsSession (some (wideHasher fn)) (chunkSession 2 [3]) nextChunk = .ok r' ∧
      ∃ retained fresh, LikeFresh (wideHasher fn) ⟨chunkSession 2 [3], 2⟩ nextChunk retained fresh
        r' := by
  obtain ⟨fn⟩ := exists_hashFunction
  refine ⟨fn, (sessionRun_likeFresh_iff (wideHasher fn) ⟨chunkSession 2 [3], 2⟩
    (chunkSession_reached fn) nextChunk nextChunk_valid).mpr ?_⟩
  have hnone := chunkSession_noBlocks fn 2 [3] (by decide)
  refine ⟨by decide, by decide, rfl, ?_, ?_, ?_⟩
  · rw [hnone, Nat.zero_mul, take_zero, take_zero]
  · intro k hk
    rw [hnone] at hk
    omega
  · intro hpos
    rw [hnone] at hpos
    omega

end VllmEcho
