import VllmEcho.Request.BlockHasher

/-!
# What the block hashes are the hashes of

The hasher walks the blocks with a cursor into the multimodal features.  The first batch of blocks
starts at the first feature; a later batch starts at the last one, so it sees no other.  In a block
it stops at the first feature that outlasts the block, and it looks at none once the last feature
has ended.  With that described, the hashes of a request are one chain over the contents of its full
blocks, however its tokens arrived.
-/

namespace VllmEcho

open Lib List Request RequestArgs

variable {fs : List MMFeature} {s : Nat} {idx : Int} {n : Nat} {a : RequestArgs}

def itemsIn (fs : List MMFeature) (lo hi : Nat) : List MMFeature :=
  fs.filter fun f => decide (f.offset < hi) && decide (lo < f.stop)

def itemsFrom (lo hi : Nat) : List MMFeature → List MMFeature
  | [] => []
  | f :: fs =>
    if f.offset < hi then
      if f.stop ≤ lo then itemsFrom lo hi fs
      else if f.stop ≤ hi then f :: itemsFrom lo hi fs
      else [f]
    else []

def itemsHashed (mm : List MMFeature) (b lo hi : Nat) : List MMFeature :=
  if ∃ last ∈ mm.getLast?, last.stop ≤ lo then [] else itemsFrom lo hi (mm.drop b)

def Spaced (fs : List MMFeature) : Prop := fs.Pairwise fun f g => f.stop ≤ g.offset

variable {lo : Nat}

theorem itemsIn_eq_nil_iff {hi : Nat} :
    itemsIn fs lo hi = [] ↔ ∀ f ∈ fs, ¬ (f.offset < hi ∧ lo < f.stop) := by
  rw [itemsIn]
  simp

theorem itemsIn_append (gs : List MMFeature) (hi : Nat) :
    itemsIn (fs ++ gs) lo hi = itemsIn fs lo hi ++ itemsIn gs lo hi :=
  filter_append ..

theorem itemsIn_split (fs : List MMFeature) (hi : Nat) : itemsIn fs lo hi =
    itemsIn fs.dropLast lo hi ++ itemsIn (fs.drop (fs.length - 1)) lo hi := by
  rw [← itemsIn_append, dropLast_eq_take, take_append_drop]

variable {e : Nat}

theorem Spaced.stop_le_getLast (hs : Spaced fs) {last : MMFeature}
    (hlast : fs.getLast? = some last) : ∀ f ∈ fs, f.stop ≤ last.stop := by
  intro f hf
  obtain ⟨init, rfl⟩ := getLast?_eq_some_iff.mp hlast
  rcases mem_append.mp hf with hf | hf
  · have hlt := (pairwise_append.mp hs).2.2 f hf last (by simp)
    exact Nat.le_trans hlt (Nat.le_add_right ..)
  · rw [mem_singleton.mp hf]

/-- No item is lost when the features before an item that meets the block end in it. -/
theorem itemsFrom_eq (hs : fs.Pairwise fun g f =>
      f.offset < e → s < f.stop → g.offset < e ∧ g.stop ≤ e) :
    itemsFrom s e fs = itemsIn fs s e := by
  induction fs with
  | nil => rfl
  | cons f fs ih =>
    obtain ⟨hf, hfs⟩ := pairwise_cons.mp hs
    rw [itemsFrom, ih hfs]
    split_ifs with hlt hpast hend
    · simp [itemsIn, hlt, Nat.not_lt.mpr hpast]
    · simp [itemsIn, hlt, Nat.lt_of_not_le hpast]
    · -- The item runs past the block, so no later item meets it.
      have hrest : itemsIn fs s e = [] :=
        itemsIn_eq_nil_iff.mpr fun g hg hmeets => hend (hf g hg hmeets.1 hmeets.2).2
      have hcons : itemsIn (f :: fs) s e = f :: itemsIn fs s e := by
        simp [itemsIn, hlt, Nat.lt_of_not_le hpast]
      rw [hcons, hrest]
    · refine (itemsIn_eq_nil_iff.mpr fun g hg hmeets => ?_).symm
      rcases mem_cons.mp hg with rfl | hg
      · exact hlt hmeets.1
      · exact hlt (hf g hg hmeets.1 hmeets.2).1

theorem itemsHashed_of_spaced (hs : Spaced fs) (b s e : Nat) :
    itemsHashed fs b s e = itemsIn (fs.drop b) s e := by
  rw [itemsHashed]
  split
  · rename_i hpast
    obtain ⟨last, hlast, hstop⟩ := hpast
    refine (itemsIn_eq_nil_iff.mpr fun f hf hmeets => ?_).symm
    have hle := hs.stop_le_getLast hlast f (mem_of_mem_drop hf)
    omega
  · refine itemsFrom_eq (List.Pairwise.imp ?_ (List.Pairwise.drop hs))
    intro g f hle hlt _
    have hoff : g.offset ≤ g.stop := Nat.le_add_right ..
    omega

theorem mmLoop_fst (fs : List MMFeature) (s i : Nat) :
    (mmLoop s e fs i).1 = (itemsFrom s e fs).map (mmKey s) := by
  induction fs generalizing i with
  | nil => rfl
  | cons f fs ih =>
    rw [mmLoop, itemsFrom]
    split_ifs
    · exact ih (i + 1)
    · rw [map_cons, ← ih (i + 1)]
    · rfl
    · rfl

theorem mmLoop_snd (fs : List MMFeature) (hse : s ≤ e) (i : Nat) :
    ∃ c, (mmLoop s e fs i).2 = i + c ∧ ∀ f ∈ fs.take c, f.offset < e ∧ f.stop ≤ e := by
  induction fs generalizing i with
  | nil => exact ⟨0, rfl, by simp⟩
  | cons f fs ih =>
    have hpass : f.offset < e → f.stop ≤ e → ∃ c, (mmLoop s e fs (i + 1)).2 = i + c ∧
        ∀ g ∈ (f :: fs).take c, g.offset < e ∧ g.stop ≤ e := by
      intro hlt hf
      obtain ⟨c, hc, hall⟩ := ih (i + 1)
      refine ⟨c + 1, by omega, ?_⟩
      intro g hg
      rcases mem_cons.mp hg with rfl | hg
      · exact ⟨hlt, hf⟩
      · exact hall g hg
    rw [mmLoop]
    split_ifs with hlt hpast hend
    · exact hpass hlt (Nat.le_trans hpast hse)
    · exact hpass hlt hend
    · exact ⟨0, rfl, by simp⟩
    · exact ⟨0, rfl, by simp⟩

/-- The cursor of a batch that started at feature `b`, before the block at `s`: it still says
"the last feature", or it has moved past features that all end before the block. -/
def Cursor (mm : List MMFeature) (b s : Nat) (idx : Int) : Prop :=
  (idx = -1 ∧ b = mm.length - 1) ∨
    ∃ c : Nat, idx = ((b + c : Nat) : Int) ∧
      ∀ f ∈ (mm.drop b).take c, f.offset < s ∧ f.stop ≤ s

variable {b : Nat} {mm : List MMFeature}

theorem Cursor.mono (h : Cursor mm b s idx) (hse : s ≤ e) : Cursor mm b e idx := by
  rcases h with h | ⟨c, hc, hall⟩
  · exact .inl h
  · refine .inr ⟨c, hc, fun f hf => ?_⟩
    have hpassed := hall f hf
    omega

theorem Cursor.resolve (h : Cursor mm b s idx) (hne : mm ≠ []) :
    ∃ c, resolveMMIdx mm idx = .ok (b + c) ∧
      ∀ f ∈ (mm.drop b).take c, f.offset < s ∧ f.stop ≤ s := by
  rcases h with ⟨rfl, hb⟩ | ⟨c, rfl, hall⟩
  · refine ⟨0, ?_, by simp⟩
    have hpos := length_pos_iff.mpr hne
    have hlen : (1 : Int) ≤ (mm.length : Int) := by omega
    simp [resolveMMIdx, hlen]
    omega
  · refine ⟨c, ?_, hall⟩
    rfl

theorem itemsFrom_skip {c : Nat} (hse : s ≤ e)
    (h : ∀ f ∈ fs.take c, f.offset < s ∧ f.stop ≤ s) :
    itemsFrom s e (fs.drop c) = itemsFrom s e fs := by
  induction c generalizing fs with
  | zero => rfl
  | succ c ih =>
    cases fs with
    | nil => rfl
    | cons f fs =>
      rw [take_succ_cons, forall_mem_cons] at h
      obtain ⟨⟨hoff, hstop⟩, hrest⟩ := h
      rw [drop_succ_cons, ih hrest, itemsFrom, if_pos (by omega), if_pos hstop]

/-- The walk over the items yields the keys of `itemsHashed` and the next cursor. -/
theorem genMMExtraHashKeys_spec (r : Request) (hse : s ≤ e)
    (hcur : Cursor r.mmFeatures b s idx) : ∃ idx', genMMExtraHashKeys r s e idx =
        .ok ((itemsHashed r.mmFeatures b s e).map (mmKey s), idx') ∧
      Cursor r.mmFeatures b e idx' := by
  rw [genMMExtraHashKeys, itemsHashed]
  cases hlast : r.mmFeatures.getLast? with
  | none =>
    have hnil := getLast?_eq_none_iff.mp hlast
    refine ⟨idx, ?_, hcur.mono hse⟩
    simp [hnil, itemsFrom]
  | some last =>
    by_cases hpast : last.stop ≤ s
    · refine ⟨idx, ?_, hcur.mono hse⟩
      simp [hpast]
    have hne : r.mmFeatures ≠ [] := by
      intro hnil
      simp [hnil] at hlast
    obtain ⟨c, hc, hall⟩ := hcur.resolve hne
    have hkeys : (mmLoop s e (r.mmFeatures.drop (b + c)) (b + c)).1 =
        (itemsFrom s e (r.mmFeatures.drop b)).map (mmKey s) := by
      rw [mmLoop_fst, ← drop_drop, itemsFrom_skip hse hall]
    obtain ⟨d, hd, hdall⟩ := mmLoop_snd (r.mmFeatures.drop (b + c)) hse (b + c)
    refine ⟨((b + (c + d) : Nat) : Int), ?_, .inr ⟨c + d, rfl, ?_⟩⟩
    · simp [hpast, hc, hkeys, hd, Nat.add_assoc]
    rw [← drop_drop] at hdall
    intro f hf
    rw [take_add] at hf
    rcases mem_append.mp hf with hf | hf
    · have hpassed := hall f hf
      omega
    · exact hdall f hf

/-! ## The chain -/

theorem packKeys_inj {ks ks' : List ExtraKey} : packKeys ks = packKeys ks' ↔ ks = ks' := by
  cases ks <;> cases ks' <;> simp [packKeys]

theorem take_succ_mul (xs : List TokenId) (bs : Nat) :
    xs.take ((n + 1) * bs) = xs.take (n * bs) ++ slice xs (n * bs) ((n + 1) * bs) := by
  have hle : n * bs ≤ (n + 1) * bs := Nat.mul_le_mul_right _ (Nat.le_succ n)
  conv_lhs => rw [← take_append_drop (n * bs) (xs.take ((n + 1) * bs))]
  rw [take_take, Nat.min_eq_left hle]
  rfl

theorem take_mul_eq_iff {xs ys : List TokenId} (bs : Nat) : xs.take (n * bs) = ys.take (n * bs) ↔
      ∀ k < n, slice xs (k * bs) ((k + 1) * bs) = slice ys (k * bs) ((k + 1) * bs) := by
  constructor
  · intro htake k hk
    have hle : (k + 1) * bs ≤ n * bs := Nat.mul_le_mul_right _ hk
    have hcut := congrArg (List.take ((k + 1) * bs)) htake
    rw [take_take, take_take, Nat.min_eq_left hle] at hcut
    rw [slice, slice, hcut]
  intro hblocks
  induction n with
  | zero => simp
  | succ n ih =>
    rw [take_succ_mul, take_succ_mul, ih fun k hk => hblocks k (by omega),
      hblocks n (by omega)]

variable {outputs : List (List TokenId)} {m : Nat} (fn : HashFunction)

section

variable (h : BlockHasher)

def seenFrom (mm : List MMFeature) (n k : Nat) : Nat :=
  if k < n then 0 else mm.length - 1

variable (r : Request)

def blockKeys (n k : Nat) : List ExtraKey :=
  genLoraExtraHashKeys r ++
    (itemsHashed r.mmFeatures (seenFrom r.mmFeatures n k) (k * h.blockSize)
      ((k + 1) * h.blockSize)).map (mmKey (k * h.blockSize)) ++
    cacheSaltKeys r (k * h.blockSize) ++
    genPromptEmbedsExtraHashKeys h.fn r (k * h.blockSize) ((k + 1) * h.blockSize)

def blockContent (n k : Nat) : BlockContent :=
  (slice r.allTokenIds (k * h.blockSize) ((k + 1) * h.blockSize), packKeys (blockKeys h r n k))

def blockContents (n m : Nat) : List BlockContent :=
  (range m).map (blockContent h r n)

@[simp] theorem blockContents_length : (blockContents h r n m).length = m := by
  simp [blockContents]

def numFullBlocks : Nat := r.numTokens / h.blockSize

variable {h} {r : Request}

theorem parentOrNone_some {d : BlockHash} (hd : d ≠ []) : parentOrNone fn (some d) = d := by
  simp [parentOrNone, hd]

/-- The hashes of one batch of blocks are a chain over the contents of the blocks. -/
theorem hashLoop_spec (k : Nat) (prev : Option BlockHash)
    (hb : ∀ i, k ≤ i → i < k + m → seenFrom r.mmFeatures n i = b)
    (hcur : Cursor r.mmFeatures b (k * h.blockSize) idx) :
    hashLoop h r m (k * h.blockSize) idx prev = .ok (chain h.fn.hash (parentOrNone h.fn prev)
        ((range' k m).map (blockContent h r n))) := by
  induction m generalizing k idx prev with
  | zero => rfl
  | succ m ih =>
    have hstop : k * h.blockSize + h.blockSize = (k + 1) * h.blockSize := by rw [Nat.succ_mul]
    obtain ⟨idx', hgen, hcur'⟩ := genMMExtraHashKeys_spec r
      (Nat.le_add_right (k * h.blockSize) h.blockSize) hcur
    rw [hstop] at hgen hcur'
    have hhere := hb k (Nat.le_refl k) (by omega)
    obtain ⟨d, hd⟩ : ∃ d, d = h.fn.hash (parentOrNone h.fn prev) (blockContent h r n k) :=
      ⟨_, rfl⟩
    have hrest := ih (k + 1) (some d) (fun i hki him => hb i (by omega) (by omega)) hcur'
    rw [parentOrNone_some h.fn (hd ▸ h.fn.hash_ne_nil _ _)] at hrest
    have hblock : hashBlockTokens h.fn prev
        (slice r.allTokenIds (k * h.blockSize) ((k + 1) * h.blockSize))
        (packKeys (blockKeys h r n k)) = d := hd.symm
    rw [blockKeys, hhere] at hblock
    rw [hashLoop, hstop, generateBlockHashExtraKeys, hgen, range'_succ, map_cons, chain]
    simp only [ok_bind, pure_eq_ok, hblock, hrest, ← hd]

def Hashed (h : BlockHasher) (n : Nat) (r : Request) : Prop :=
  r.blockHashes = chain h.fn.hash h.fn.noneHash (blockContents h r n (numFullBlocks h r))

theorem parentOrNone_chain (xs : List BlockContent) :
    parentOrNone fn (chain fn.hash fn.noneHash xs).getLast? = xs.foldl fn.hash fn.noneHash := by
  cases xs using reverseRecOn with
  | nil => rfl
  | append_singleton xs x =>
    rw [chain_append, foldl_concat]
    show parentOrNone fn (_ ++ [fn.hash _ x]).getLast? = _
    rw [getLast?_concat]
    exact parentOrNone_some fn (fn.hash_ne_nil _ _)

theorem blockContents_split (h : BlockHasher) {m' : Nat} (hm : m ≤ m') : blockContents h r n m' =
      blockContents h r n m ++ (range' m (m' - m)).map (blockContent h r n) := by
  rw [blockContents, blockContents, ← map_append, range_eq_range', range_eq_range']
  congr 1
  have := range'_append_1 (s := 0) (m := m) (n := m' - m)
  rw [Nat.zero_add, Nat.add_sub_cancel' hm] at this
  exact this.symm

/-- The new hashes continue the chain from the last old one: the first batch looks at every
feature, a later one only at the last. -/
theorem requestBlockHasher_spec (hlen : r.blockHashes.length = m)
    (hfirst : m = 0 → n = numFullBlocks h r) (hlater : 0 < m → n ≤ m) :
    requestBlockHasher h r = .ok (chain h.fn.hash (parentOrNone h.fn r.blockHashes.getLast?)
      ((range' m (numFullBlocks h r - m)).map (blockContent h r n))) := by
  have hpos := h.blockSize_pos
  have hfull : numFullBlocks h r * h.blockSize ≤ r.numTokens := Nat.div_mul_le_self ..
  rw [requestBlockHasher, hlen]
  rcases Nat.lt_or_ge m (numFullBlocks h r) with hlt | hge
  · have hnew : ¬ r.numTokens < m * h.blockSize + h.blockSize := by
      have := Nat.mul_le_mul_right h.blockSize (Nat.succ_le_of_lt hlt)
      rw [Nat.succ_mul] at this
      omega
    have hcount : (r.numTokens - m * h.blockSize) / h.blockSize = numFullBlocks h r - m := by
      rw [Nat.mul_comm m]
      apply Nat.sub_mul_div_of_le
      rw [Nat.mul_comm]
      exact Nat.le_trans (Nat.mul_le_mul_right _ (Nat.le_of_lt hlt)) hfull
    -- Which feature this batch starts from, and that the cursor it is handed says so.
    obtain ⟨b, hb, hcur⟩ : ∃ b, (∀ i, m ≤ i → i < m + (numFullBlocks h r - m) →
        seenFrom r.mmFeatures n i = b) ∧ Cursor r.mmFeatures b (m * h.blockSize)
          (if 0 < m * h.blockSize then -1 else 0) := by
      by_cases hm0 : m = 0
      · refine ⟨0, fun i _ hi => ?_, .inr ⟨0, by simp [hm0], by simp⟩⟩
        rw [seenFrom, if_pos (by omega)]
      · refine ⟨r.mmFeatures.length - 1, fun i hi _ => ?_, .inl ⟨?_, rfl⟩⟩
        · rw [seenFrom, if_neg (by omega)]
        · rw [if_pos (Nat.mul_pos (by omega) hpos)]
    rw [if_neg hnew, hcount]
    exact hashLoop_spec m _ hb hcur
  · have hnew : r.numTokens < m * h.blockSize + h.blockSize := by
      rw [← Nat.succ_mul]
      exact Nat.lt_mul_of_div_lt (Nat.lt_succ_of_le hge) hpos
    rw [if_pos hnew, Nat.sub_eq_zero_of_le hge]
    rfl

theorem updateBlockHashes_hashed
    (hold : r.blockHashes = chain h.fn.hash h.fn.noneHash (blockContents h r n m))
    (hm : m ≤ numFullBlocks h r) (hfirst : m = 0 → n = numFullBlocks h r) (hlater : 0 < m → n ≤ m) :
    ∃ hashes, r.updateBlockHashes (some h) = .ok { r with blockHashes := hashes } ∧
      Hashed h n { r with blockHashes := hashes } := by
  have hlen : r.blockHashes.length = m := by rw [hold, chain_length, blockContents_length]
  have hnew := requestBlockHasher_spec hlen hfirst hlater
  rw [hold, parentOrNone_chain] at hnew
  rw [updateBlockHashes, hnew]
  refine ⟨_, rfl, ?_⟩
  show _ ++ _ = chain _ _ (blockContents h r n (numFullBlocks h r))
  rw [blockContents_split h hm, chain_append, ← hold]

/-! ## Requests as they are built -/

/-- The number of blocks hashed by the first call that finds a full block, for a prompt of `n`
tokens and outputs arriving in the given pieces. -/
def firstBatch (blockSize n : Nat) : List (List TokenId) → Nat
  | [] => n / blockSize
  | c :: cs => if n / blockSize = 0 then firstBatch blockSize (n + c.length) cs else n / blockSize

theorem firstBatch_of_pos {bs : Nat} (hpos : n / bs ≠ 0) (cs : List (List TokenId)) :
    firstBatch bs n cs = n / bs := by
  cases cs with
  | nil => rfl
  | cons c cs => exact if_neg hpos

structure SameContext (r r' : Request) : Prop where
  lora : r'.loraRequest = r.loraRequest
  salt : r'.cacheSalt = r.cacheSalt
  features : r'.mmFeatures = r.mmFeatures
  embeds : r'.promptEmbeds = r.promptEmbeds

theorem SameContext.trans {r₁ r₂ r₃ : Request} (h₁ : SameContext r₁ r₂)
    (h₂ : SameContext r₂ r₃) : SameContext r₁ r₃ :=
  ⟨h₂.lora.trans h₁.lora, h₂.salt.trans h₁.salt, h₂.features.trans h₁.features,
    h₂.embeds.trans h₁.embeds⟩

theorem SameContext.blockKeys {r r' : Request} (hctx : SameContext r r') (h : BlockHasher)
    (n k : Nat) : blockKeys h r' n k = blockKeys h r n k := by
  simp only [VllmEcho.blockKeys, genLoraExtraHashKeys, cacheSaltKeys,
    genPromptEmbedsExtraHashKeys, hctx.lora, hctx.salt, hctx.features, hctx.embeds]

theorem blockContents_append {r' : Request} (hctx : SameContext r r') {ts : List TokenId}
    (hts : r'.allTokenIds = r.allTokenIds ++ ts) (n : Nat) (hm : m ≤ numFullBlocks h r) :
    blockContents h r' n m = blockContents h r n m := by
  apply map_congr_left
  intro k hk
  have hstop : (k + 1) * h.blockSize ≤ r.allTokenIds.length := by
    apply Nat.le_trans (Nat.mul_le_mul_right _ (show k + 1 ≤ numFullBlocks h r from ?_))
    · exact Nat.div_mul_le_self ..
    · have := mem_range.mp hk
      omega
  rw [blockContent, blockContent, hctx.blockKeys, hts, slice_append_left _ _ _ hstop]

/-- One step of decoding. -/
theorem appendOutputTokenIds_hashed (hr : Hashed h n r)
    (hn : 0 < numFullBlocks h r → n ≤ numFullBlocks h r) (ts : List TokenId) :
    ∃ r', r.appendOutputTokenIds (some h) ts = .ok r' ∧ SameContext r r' ∧
      r'.allTokenIds = r.allTokenIds ++ ts ∧
      Hashed h (if numFullBlocks h r = 0 then numFullBlocks h r' else n) r' := by
  obtain ⟨r₁, hr₁⟩ : ∃ r₁ : Request, r₁ =
      { r with
        outputTokenIds := r.outputTokenIds ++ ts
        allTokenIds := r.allTokenIds ++ ts } := ⟨_, rfl⟩
  have hctx : SameContext r r₁ := by subst hr₁; exact ⟨rfl, rfl, rfl, rfl⟩
  have htok : r₁.allTokenIds = r.allTokenIds ++ ts := by subst hr₁; rfl
  have hle : numFullBlocks h r ≤ numFullBlocks h r₁ := by
    apply Nat.div_le_div_right
    rw [numTokens, numTokens, htok, length_append]
    omega
  obtain ⟨n', hn'⟩ : ∃ n', n' = if numFullBlocks h r = 0 then numFullBlocks h r₁ else n :=
    ⟨_, rfl⟩
  have hold : r₁.blockHashes =
      chain h.fn.hash h.fn.noneHash (blockContents h r₁ n' (numFullBlocks h r)) := by
    have : r₁.blockHashes = r.blockHashes := by subst hr₁; rfl
    rw [this, hr, blockContents_append hctx htok n' (Nat.le_refl _), hn']
    split
    · rename_i hzero
      simp [hzero, blockContents]
    · rfl
  obtain ⟨hashes, hrun, hhashed⟩ := updateBlockHashes_hashed hold hle
    (fun hzero => by rw [hn', if_pos hzero])
    (fun hpos => by rw [hn', if_neg (by omega)]; exact hn hpos)
  refine ⟨{ r₁ with blockHashes := hashes }, ?_, ?_, htok, hn' ▸ hhashed⟩
  · rw [← hrun, hr₁]
    rfl
  · exact ⟨hctx.lora, hctx.salt, hctx.features, hctx.embeds⟩

/-- Any number of steps of decoding. -/
theorem appendAll_hashed (hr : Hashed h n r)
    (hn : 0 < numFullBlocks h r → n ≤ numFullBlocks h r) (cs : List (List TokenId)) :
    ∃ r', r.appendAll (some h) cs = .ok r' ∧ SameContext r r' ∧
      r'.allTokenIds = r.allTokenIds ++ cs.flatten ∧
      Hashed h (if numFullBlocks h r = 0 then firstBatch h.blockSize r.numTokens cs else n) r' := by
  induction cs generalizing r n with
  | nil =>
    refine ⟨r, rfl, ⟨rfl, rfl, rfl, rfl⟩, by simp, ?_⟩
    split
    · rename_i hzero
      rw [Hashed, hzero] at hr ⊢
      exact hr
    · exact hr
  | cons c cs ih =>
    obtain ⟨r₁, hrun₁, hctx₁, htok₁, hhash₁⟩ := appendOutputTokenIds_hashed hr hn c
    have hlen₁ : r₁.numTokens = r.numTokens + c.length := by
      rw [numTokens, htok₁, length_append]
      rfl
    have hle : numFullBlocks h r ≤ numFullBlocks h r₁ := Nat.div_le_div_right (by omega)
    obtain ⟨r₂, hrun₂, hctx₂, htok₂, hhash₂⟩ := ih hhash₁ (by
      intro _
      split
      · exact Nat.le_refl _
      · omega)
    refine ⟨r₂, ?_, hctx₁.trans hctx₂, ?_, ?_⟩
    · rw [appendAll, hrun₁]
      exact hrun₂
    · rw [htok₂, htok₁, flatten_cons, append_assoc]
    -- Either the first batch is still to come, or this call or an earlier one was it.
    by_cases hzero : numFullBlocks h r = 0
    · have hdiv : r.numTokens / h.blockSize = 0 := hzero
      rw [if_pos hzero, firstBatch, if_pos hdiv, ← hlen₁]
      rw [if_pos hzero] at hhash₂
      by_cases hzero₁ : numFullBlocks h r₁ = 0
      · rw [if_pos hzero₁] at hhash₂
        exact hhash₂
      · rw [if_neg hzero₁] at hhash₂
        rw [firstBatch_of_pos hzero₁]
        exact hhash₂
    · have hne₁ : ¬ numFullBlocks h r₁ = 0 := by omega
      rw [if_neg hzero, if_neg hne₁] at hhash₂
      rw [if_neg hzero]
      exact hhash₂

def RequestArgs.promptLength (a : RequestArgs) : Nat :=
  match a.promptTokenIds with
  | some ids => ids.length
  | none => (a.promptEmbeds.map List.length).getD 0

def RequestArgs.tokensWith (a : RequestArgs) (outputs : List (List TokenId)) : List TokenId :=
  a.promptTokenIds.getD (replicate a.promptLength 0) ++ outputs.flatten

theorem lengthFromPrompt_eq
    (hn : lengthFromPromptTokenIdsOrEmbeds a.promptTokenIds a.promptEmbeds = .ok n) :
    n = a.promptLength := by
  unfold lengthFromPromptTokenIdsOrEmbeds at hn
  rw [promptLength]
  split at hn <;> rename_i hids hembeds
  · cases hn
  · cases hn
    rw [hids, hembeds]
    rfl
  · cases hn
    rw [hids]
  · split at hn <;> cases hn
    rw [hids]

theorem promptTokens_length :
    (a.promptTokenIds.getD (replicate a.promptLength 0)).length = a.promptLength := by
  rw [promptLength]
  cases a.promptTokenIds with
  | none => exact length_replicate ..
  | some ids => rfl

structure Built (h : BlockHasher) (a : RequestArgs) (outputs : List (List TokenId))
    (r : Request) : Prop where
  lora : r.loraRequest = a.loraRequest
  salt : r.cacheSalt = a.cacheSalt
  features : r.mmFeatures = a.mmFeatures
  embeds : r.promptEmbeds = a.promptEmbeds
  tokens : r.allTokenIds = a.tokensWith outputs
  hashed : Hashed h (firstBatch h.blockSize a.promptLength outputs) r

theorem init_spec (hrun : init (some h) a = .ok r) : Built h a [] r := by
  obtain ⟨⟨maxTokens, status⟩, hlim, hrun⟩ := of_bind hrun
  obtain ⟨n, hlen, hrun⟩ := of_bind hrun
  cases lengthFromPrompt_eq hlen
  have hfull : numFullBlocks h (unhashed a maxTokens status a.promptLength) =
      a.promptLength / h.blockSize := by
    exact congrArg (· / h.blockSize) (promptTokens_length)
  -- No hash yet, so this is the first batch, if it finds a full block.
  obtain ⟨hashes, hup, hhashed⟩ := updateBlockHashes_hashed rfl (Nat.zero_le _)
    (fun _ => hfull.symm) (fun h => absurd h (by omega))
  rw [hup] at hrun
  cases hrun
  refine ⟨rfl, rfl, rfl, rfl, ?_, hhashed⟩
  simp [unhashed, tokensWith]

theorem exists_build {lim : Nat × RequestStatus}
    (hlim : initialLimits a = .ok lim)
    (hlen : lengthFromPromptTokenIdsOrEmbeds a.promptTokenIds a.promptEmbeds = .ok n)
    (outputs : List (List TokenId)) : ∃ r, build (some h) a outputs = .ok r := by
  obtain ⟨maxTokens, status⟩ := lim
  obtain ⟨hashes, hup, hhashed⟩ := updateBlockHashes_hashed
    (n := numFullBlocks h (unhashed a maxTokens status n)) rfl
    (Nat.zero_le _) (fun _ => rfl) (fun h => absurd h (by omega))
  obtain ⟨r, happ, -⟩ := appendAll_hashed hhashed (fun _ => Nat.le_refl _) outputs
  refine ⟨r, ?_⟩
  simp only [build, init, hlim, hlen, ok_bind, hup, happ]

theorem Built.numHashes (hb : Built h a outputs r) :
    r.blockHashes.length = (a.tokensWith outputs).length / h.blockSize := by
  have hhash := hb.hashed
  rw [hhash, chain_length, blockContents_length, numFullBlocks, numTokens, hb.tokens]

theorem build_spec (hrun : build (some h) a outputs = .ok r) :
    Built h a outputs r := by
  obtain ⟨r₁, hinit, happ⟩ := of_bind hrun
  have hbuilt := init_spec hinit
  have hnum : r₁.numTokens = a.promptLength := by
    rw [numTokens, hbuilt.tokens, tokensWith, flatten_nil,
      append_nil, promptTokens_length]
  have hfull : numFullBlocks h r₁ = a.promptLength / h.blockSize := by rw [numFullBlocks, hnum]
  obtain ⟨r₂, happ', hctx, htok, hhash⟩ := appendAll_hashed hbuilt.hashed
    (fun _ => Nat.le_of_eq hfull.symm) outputs
  rw [happ'] at happ
  cases happ
  refine ⟨hctx.lora.trans hbuilt.lora, hctx.salt.trans hbuilt.salt,
    hctx.features.trans hbuilt.features, hctx.embeds.trans hbuilt.embeds, ?_, ?_⟩
  · rw [htok, hbuilt.tokens]
    simp [tokensWith]
  rw [hnum] at hhash
  by_cases hzero : numFullBlocks h r₁ = 0
  · rw [if_pos hzero] at hhash
    exact hhash
  · rw [if_neg hzero] at hhash
    rw [firstBatch_of_pos (hfull ▸ hzero)]
    exact hhash

end

end VllmEcho
