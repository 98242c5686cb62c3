import VllmEcho.KVCache.Managers

/-!
# Longest prefix-cache hits

`find_longest_cache_hit` of each manager class.  The source keeps one list of blocks for each group
and changes them in parallel; here the lists are kept as rows, one entry for each group in a row,
and split into lists at the end.
-/

namespace VllmEcho

open Lib List BlockPool

variable {n align maxLength : Nat} {useEagle : Bool}

abbrev HitRow := List BlockRef

def hitColumn (nullBlock : BlockRef) (rows : List HitRow) (j : Nat) : List BlockRef :=
  rows.map fun row => row.getD j nullBlock

def alignedLength (blockSize alignmentTokens : Nat) : Nat → Nat
  | 0 => 0
  | k + 1 =>
    if (k + 1) * blockSize % alignmentTokens = 0 then k + 1
    else alignedLength blockSize alignmentTokens k

def trimToAlignment (blockSize alignmentTokens : Nat) (rows : List HitRow) : List HitRow :=
  if blockSize = alignmentTokens then rows
  else rows.take (alignedLength blockSize alignmentTokens rows.length)

namespace BlockPool

def scanHits (p : BlockPool) (groupIds : List Nat) : List BlockHash → List HitRow
  | [] => []
  | h :: hs =>
    match p.getCachedBlock h groupIds with
    | some row => row :: scanHits p groupIds hs
    | none => []

variable (p : BlockPool) (blockHashes : List BlockHash)

def fullAttentionHit (maxLength : Nat) (groupIds : List Nat) (blockSize : Nat) (useEagle : Bool)
    (alignmentTokens : Nat) : List HitRow :=
  let rows := p.scanHits groupIds (blockHashes.take (maxLength / blockSize))
  let rows := if useEagle && !rows.isEmpty then rows.dropLast else rows
  trimToAlignment blockSize alignmentTokens rows

/-- The right-to-left search of `SlidingWindowManager`: block indices below `i` are left,
`numContiguous` hits end the scanned part, `computed` holds the rows found so far. -/
def slidingLoop (p : BlockPool) (blockHashes : List BlockHash) (groupIds : List Nat)
    (blockSize alignmentTokens needed : Nat) :
    Nat → Nat → List HitRow → Except PyError (List HitRow × Nat × Bool)
  | 0, numContiguous, computed => .ok (computed, numContiguous, false)
  | i + 1, numContiguous, computed =>
    match blockHashes[i]? with
    | none => .error .indexError
    | some h =>
      match p.getCachedBlock h groupIds with
      | none => slidingLoop p blockHashes groupIds blockSize alignmentTokens needed i 0 computed
      | some row =>
        if numContiguous = 0 ∧ blockSize ≠ alignmentTokens ∧
            (i + 1) * blockSize % alignmentTokens ≠ 0 then
          slidingLoop p blockHashes groupIds blockSize alignmentTokens needed i numContiguous
            computed
        else if needed ≤ numContiguous + 1 then
          .ok ((computed.set i row).take (i + (numContiguous + 1)), numContiguous + 1, true)
        else
          slidingLoop p blockHashes groupIds blockSize alignmentTokens needed i
            (numContiguous + 1) (computed.set i row)

def slidingWindowHit (maxLength : Nat) (groupIds : List Nat) (blockSize slidingWindow : Nat)
    (useEagle : Bool) (alignmentTokens : Nat) : Except PyError (List HitRow) := do
  let contiguous := cdiv (slidingWindow - 1) blockSize
  let needed := if useEagle then contiguous + 1 else contiguous
  let maxNumBlocks := maxLength / blockSize
  let nullRow := replicate groupIds.length p.nullBlock
  let (rows, numContiguous, matchFound) ← p.slidingLoop blockHashes groupIds blockSize
    alignmentTokens needed maxNumBlocks 0 (replicate maxNumBlocks nullRow)
  let rows :=
    if matchFound then rows
    else trimToAlignment blockSize alignmentTokens (rows.take numContiguous)
  if useEagle && !rows.isEmpty then
    pure (trimToAlignment blockSize alignmentTokens rows.dropLast)
  else pure rows

def chunkedLoop (p : BlockPool) (groupIds : List Nat) :
    Nat → List BlockHash → Except PyError (List HitRow)
  | 0, _ => .ok []
  | _ + 1, [] => .error .indexError
  | n + 1, h :: hs =>
    match p.getCachedBlock h groupIds with
    | some row => (chunkedLoop p groupIds n hs).map (row :: ·)
    | none => .ok []

def chunkedLocalHit (maxLength : Nat) (groupIds : List Nat) (blockSize attentionChunkSize : Nat)
    (useEagle : Bool) (alignmentTokens : Nat) : Except PyError (List HitRow) := do
  assertThat (!useEagle) "Hybrid KV cache is not supported for eagle + chunked local attention."
  assertThat (decide (blockSize = alignmentTokens))
    ("KV cache groups with different block sizes are not compatible with " ++
      "chunked local attention now")
  let maxNumBlocks := maxLength / blockSize
  let localAttentionStartIdx :=
    if 0 < maxLength then maxLength / attentionChunkSize * attentionChunkSize else 0
  let startBlock := localAttentionStartIdx / blockSize
  let nullRow := replicate groupIds.length p.nullBlock
  let found ← p.chunkedLoop groupIds (maxNumBlocks - startBlock) (blockHashes.drop startBlock)
  pure (replicate startBlock nullRow ++ found)

def mambaLoop (p : BlockPool) (blockHashes : List BlockHash) (groupIds : List Nat)
    (blockSize alignmentTokens : Nat) : Nat → Except PyError (List HitRow)
  | 0 => .ok []
  | i + 1 =>
    match blockHashes[i]? with
    | none => .error .indexError
    | some h =>
      match p.getCachedBlock h groupIds with
      | none => mambaLoop p blockHashes groupIds blockSize alignmentTokens i
      | some row =>
        if blockSize ≠ alignmentTokens ∧ (i + 1) * blockSize % alignmentTokens ≠ 0 then
          mambaLoop p blockHashes groupIds blockSize alignmentTokens i
        else .ok (replicate i (replicate groupIds.length p.nullBlock) ++ [row])

def searchHits (maxLength : Nat) (groupIds : List Nat) (spec : KVCacheSpec) (useEagle : Bool)
    (alignmentTokens : Nat) : Except PyError (List HitRow) :=
  match spec.kind with
  | .full | .mla =>
    .ok (p.fullAttentionHit blockHashes maxLength groupIds spec.blockSize useEagle
      alignmentTokens)
  | .slidingWindow w =>
    p.slidingWindowHit blockHashes maxLength groupIds spec.blockSize w useEagle alignmentTokens
  | .chunkedLocal c =>
    p.chunkedLocalHit blockHashes maxLength groupIds spec.blockSize c useEagle alignmentTokens
  | .mamba _ _ =>
    p.mambaLoop blockHashes groupIds spec.blockSize alignmentTokens (maxLength / spec.blockSize)

def findLongestCacheHit (maxLength : Nat) (groupIds : List Nat) (spec : KVCacheSpec)
    (useEagle : Bool) (alignmentTokens : Nat) : Except PyError (List (List BlockRef)) := do
  let rows ← p.searchHits blockHashes maxLength groupIds spec useEagle alignmentTokens
  pure ((range groupIds.length).map (hitColumn p.nullBlock rows))

end BlockPool

/-! ## What a hit is -/

variable (p : BlockPool)

/-- Row `i` of a result: a row of null blocks, or the cached blocks of the `i`-th hash. -/
def RowsOk (groupIds : List Nat) (blockHashes : List BlockHash) (rows : List HitRow) : Prop :=
  ∀ (i : Nat) (row : HitRow), rows[i]? = some row →
    row = replicate groupIds.length p.nullBlock ∨
      ∃ h, blockHashes[i]? = some h ∧ p.getCachedBlock h groupIds = some row

def HitOk (groupId : Nat) (blockHashes : List BlockHash) (blocks : List BlockRef) : Prop :=
  ∀ (i : Nat) (b : BlockRef), blocks[i]? = some b →
    b = p.nullBlock ∨ ∃ h, blockHashes[i]? = some h ∧
      b ∈ p.cachedBlockHashToBlock.blocksAt (makeBlockHashWithGroupId h groupId)

theorem HitOk.take {p : BlockPool} {g : Nat} {hs : List BlockHash} {bs : List BlockRef}
    (h : HitOk p g hs bs) (n : Nat) : HitOk p g hs (bs.take n) := by
  intro i b hb
  rw [getElem?_take] at hb
  split at hb
  · exact h i b hb
  · cases hb

theorem hitOk_nil (g : Nat) (hs : List BlockHash) : HitOk p g hs [] := by
  intro i b hb
  simp at hb

variable {bs : Nat}

section Rows

variable {p : BlockPool} {gids : List Nat} {hs : List BlockHash} {rows : List HitRow}

structure HitRows (p : BlockPool) (gids : List Nat) (hs : List BlockHash) (n : Nat)
    (rows : List HitRow) : Prop where
  rowsOk : RowsOk p gids hs rows
  length_le : rows.length ≤ n

theorem hitRows_nil : HitRows p gids hs n [] := ⟨fun _ _ => nofun, Nat.zero_le n⟩

theorem HitRows.cons {k : BlockHash} {row : HitRow} (h : HitRows p gids hs n rows)
    (hrow : p.getCachedBlock k gids = some row) :
    HitRows p gids (k :: hs) (n + 1) (row :: rows) := by
  refine ⟨fun i r hr => ?_, Nat.succ_le_succ h.length_le⟩
  cases i with
  | zero =>
    cases hr
    exact Or.inr ⟨k, rfl, hrow⟩
  | succ i => exact h.rowsOk i r hr

theorem HitRows.take (h : HitRows p gids hs n rows) (k : Nat) :
    HitRows p gids hs n (rows.take k) := by
  refine ⟨fun i row hrow => ?_, (length_take_le' k rows).trans h.length_le⟩
  rw [getElem?_take] at hrow
  split at hrow
  · exact h.rowsOk i row hrow
  · cases hrow

theorem HitRows.dropLast (h : HitRows p gids hs n rows) : HitRows p gids hs n rows.dropLast := by
  rw [dropLast_eq_take]
  exact h.take _

theorem HitRows.trim (h : HitRows p gids hs n rows) (bs align : Nat) :
    HitRows p gids hs n (trimToAlignment bs align rows) := by
  unfold trimToAlignment
  split
  · exact h
  · exact h.take _

/-- Rows of null blocks in front of those found behind the first `k` hashes. -/
theorem HitRows.behind {k : Nat} (h : HitRows p gids (hs.drop k) n rows) :
    HitRows p gids hs (k + n) (replicate k (replicate gids.length p.nullBlock) ++ rows) := by
  refine ⟨fun i row hrow => ?_, ?_⟩
  · rw [getElem?_append] at hrow
    split at hrow <;> rename_i hi
    · exact Or.inl (eq_of_mem_replicate (mem_of_getElem? hrow))
    · rw [length_replicate] at hi hrow
      have hfound := h.rowsOk _ row hrow
      rwa [getElem?_drop, Nat.add_sub_cancel' (Nat.le_of_not_lt hi)] at hfound
  · rw [length_append, length_replicate]
    exact Nat.add_le_add_left h.length_le k

theorem HitRows.set (h : HitRows p gids hs n rows) {i : Nat} {k : BlockHash} {row : HitRow}
    (hk : hs[i]? = some k) (hrow : p.getCachedBlock k gids = some row) :
    HitRows p gids hs n (rows.set i row) := by
  refine ⟨fun j r hr => ?_, by rw [length_set]; exact h.length_le⟩
  rw [getElem?_set] at hr
  split at hr <;> rename_i hij
  · split at hr
    · cases hr
      exact Or.inr ⟨k, hij ▸ hk, hrow⟩
    · cases hr
  · exact h.rowsOk j r hr

theorem scanHits_getElem? {i : Nat} {row : HitRow} (h : (p.scanHits gids hs)[i]? = some row) :
    ∃ k, hs[i]? = some k ∧ p.getCachedBlock k gids = some row := by
  induction hs generalizing i with
  | nil => cases h
  | cons k hs ih =>
    rw [scanHits] at h
    split at h <;> rename_i hget
    · cases i with
      | zero =>
        cases h
        exact ⟨k, rfl, hget⟩
      | succ i => exact ih h
    · cases h

theorem scanHits_spec (n : Nat) (hs : List BlockHash) :
    HitRows p gids hs n (p.scanHits gids (hs.take n)) := by
  constructor
  · intro i row hrow
    obtain ⟨k, hk, hget⟩ := scanHits_getElem? hrow
    rw [getElem?_take] at hk
    split at hk
    · exact Or.inr ⟨k, hk, hget⟩
    · cases hk
  · by_contra hlt
    obtain ⟨k, hk, -⟩ := scanHits_getElem? (getElem?_eq_getElem (Nat.lt_of_not_le hlt))
    rw [getElem?_take, if_neg (Nat.lt_irrefl n)] at hk
    cases hk

theorem fullAttentionHit_spec (hs : List BlockHash) : HitRows p gids hs (maxLength / bs)
      (p.fullAttentionHit hs maxLength gids bs useEagle align) := by
  have hscan := @scanHits_spec p gids (maxLength / bs) hs
  unfold fullAttentionHit
  simp only
  split
  · exact hscan.dropLast.trim bs align
  · exact hscan.trim bs align

theorem slidingLoop_spec {needed : Nat} (i c : Nat) (h : HitRows p gids hs n rows)
    {r : List HitRow × Nat × Bool} (hok : p.slidingLoop hs gids bs align needed i c rows = .ok r) :
    HitRows p gids hs n r.1 := by
  induction i generalizing c rows with
  | zero =>
    cases hok
    exact h
  | succ i ih =>
    rw [slidingLoop] at hok
    split at hok
    · cases hok
    rename_i k hk
    split at hok <;> rename_i hget
    · exact ih 0 h hok
    split at hok
    · exact ih c h hok
    · split at hok
      · cases hok
        exact (h.set hk hget).take _
      · exact ih (c + 1) (h.set hk hget) hok

theorem slidingWindowHit_spec {w : Nat}
    (hok : p.slidingWindowHit hs maxLength gids bs w useEagle align = .ok rows) :
    HitRows p gids hs (maxLength / bs) rows := by
  rw [slidingWindowHit, bind_eq_ok] at hok
  obtain ⟨⟨rows', c, found⟩, hloop, hok⟩ := hok
  have hnull := @HitRows.behind 0 p gids hs [] (maxLength / bs) hitRows_nil
  rw [append_nil] at hnull
  have hrows := slidingLoop_spec _ _ hnull hloop
  have hmid : HitRows p gids hs (maxLength / bs)
      (if found then rows' else trimToAlignment bs align (rows'.take c)) := by
    split
    · exact hrows
    · exact (hrows.take c).trim bs align
  simp only at hok
  generalize (if found then rows' else trimToAlignment bs align (rows'.take c)) = mid at hok hmid
  split at hok
  · cases hok
    exact hmid.dropLast.trim bs align
  · cases hok
    exact hmid

/-- Running out of hashes raises, a miss does not. -/
theorem chunkedLoop_eq : p.chunkedLoop gids n hs =
    if (p.scanHits gids hs).length = hs.length ∧ hs.length < n then .error .indexError
    else .ok (p.scanHits gids (hs.take n)) := by
  induction n generalizing hs with
  | zero => exact (if_neg fun h => Nat.not_lt_zero _ h.2).symm
  | succ n ih =>
    cases hs with
    | nil => rfl
    | cons k hs =>
      rw [chunkedLoop, take_succ_cons, scanHits, scanHits]
      split
      · simp only [ih, length_cons, Nat.add_right_cancel_iff, Nat.add_lt_add_iff_right]
        split <;> rfl
      · rfl

theorem chunkedLocalHit_spec {c : Nat}
    (hok : p.chunkedLocalHit hs maxLength gids bs c useEagle align = .ok rows) :
    HitRows p gids hs (maxLength / bs) rows := by
  simp only [chunkedLocalHit, bind_eq_ok] at hok
  obtain ⟨-, -, -, -, found, hloop, hok⟩ := hok
  cases hok
  have hle : (if 0 < maxLength then maxLength / c * c else 0) / bs ≤ maxLength / bs := by
    refine Nat.div_le_div_right ?_
    split
    · exact Nat.div_mul_le_self maxLength c
    · exact Nat.zero_le _
  generalize (if 0 < maxLength then maxLength / c * c else 0) / bs = start at hloop hle ⊢
  rw [chunkedLoop_eq] at hloop
  split at hloop
  · cases hloop
  · cases hloop
    have hfound := (@scanHits_spec p gids (maxLength / bs - start) (hs.drop start)).behind
    rwa [Nat.add_sub_cancel' hle] at hfound

theorem mambaLoop_spec (i : Nat) (hok : p.mambaLoop hs gids bs align i = .ok rows) :
    HitRows p gids hs i rows := by
  induction i with
  | zero =>
    cases hok
    exact hitRows_nil
  | succ i ih =>
    have hmono : HitRows p gids hs i rows → HitRows p gids hs (i + 1) rows := fun h =>
      ⟨h.rowsOk, h.length_le.trans (Nat.le_succ i)⟩
    rw [mambaLoop] at hok
    split at hok
    · cases hok
    rename_i k hk
    split at hok <;> rename_i hget
    · exact hmono (ih hok)
    split at hok
    · exact hmono (ih hok)
    · cases hok
      obtain ⟨hi, rfl⟩ := List.getElem?_eq_some_iff.mp hk
      apply HitRows.behind
      rw [drop_eq_getElem_cons hi]
      exact hitRows_nil.cons hget

theorem mapM_getD_mem {f : Nat → Option BlockRef} {d : BlockRef} {gids : List Nat}
    {row : List BlockRef} (h : gids.mapM f = some row) (j g : Nat) (hg : gids[j]? = some g) :
    f g = some (row.getD j d) := by
  induction gids generalizing row j with
  | nil => simp at hg
  | cons g' gids ih =>
    simp only [mapM_cons, Option.pure_def, Option.bind_eq_bind, Option.bind_eq_some_iff,
      Option.some.injEq] at h
    obtain ⟨b, hb, rest, hrest, rfl⟩ := h
    cases j with
    | zero =>
      cases hg
      simpa using hb
    | succ j => simpa using ih hrest j hg

theorem RowsOk.column (h : RowsOk p gids hs rows) {j g : Nat} (hg : gids[j]? = some g) :
    HitOk p g hs (hitColumn p.nullBlock rows j) := by
  intro i b hb
  rw [hitColumn, getElem?_map, Option.map_eq_some_iff] at hb
  obtain ⟨row, hrow, rfl⟩ := hb
  rcases h i row hrow with rfl | ⟨k, hk, hget⟩
  · refine Or.inl ?_
    rw [getD_eq_getElem?_getD, getElem?_replicate]
    split <;> rfl
  · exact Or.inr ⟨k, hk, BlockHashToBlockMap.mem_blocksAt_of_getOneBlock
      (mapM_getD_mem hget j g hg)⟩

end Rows

/-- All lists have one length, and block `i` of each is null or cached under hash `i`. -/
theorem findLongestCacheHit_spec {p : BlockPool} {hs : List BlockHash} {gids : List Nat}
    {spec : KVCacheSpec} {lists : List (List BlockRef)}
    (hok : p.findLongestCacheHit hs maxLength gids spec useEagle align = .ok lists) :
    ∃ n, n ≤ maxLength / spec.blockSize ∧ lists.length = gids.length ∧ (∀ L ∈ lists, L.length = n) ∧
      ∀ (j g : Nat) (L : List BlockRef), gids[j]? = some g → lists[j]? = some L →
        HitOk p g hs L := by
  rw [findLongestCacheHit, bind_eq_ok] at hok
  obtain ⟨rows, hrows, hok⟩ := hok
  cases hok
  have hspec : HitRows p gids hs (maxLength / spec.blockSize) rows := by
    unfold searchHits at hrows
    split at hrows
    · cases hrows
      exact fullAttentionHit_spec hs
    · cases hrows
      exact fullAttentionHit_spec hs
    · exact slidingWindowHit_spec hrows
    · exact chunkedLocalHit_spec hrows
    · exact mambaLoop_spec _ hrows
  refine ⟨rows.length, hspec.length_le, by simp, ?_, ?_⟩
  · intro L hL
    obtain ⟨j, -, rfl⟩ := mem_map.mp hL
    rw [hitColumn, length_map]
  intro j g L hg hL
  rw [getElem?_map, Option.map_eq_some_iff] at hL
  obtain ⟨j', hj', rfl⟩ := hL
  obtain rfl : j = j' := by
    obtain ⟨hlt, hj⟩ := List.getElem?_eq_some_iff.mp hj'
    simpa using hj
  exact hspec.rowsOk.column hg

/-! ## Hits of chunked local attention -/

section ChunkedLocal

variable {p : BlockPool} {hs : List BlockHash} {gids : List Nat} {k : BlockHash}

structure CachedAt (p : BlockPool) (hs : List BlockHash) (group i : Nat) (b : BlockRef) : Prop where
  ne_null : b ≠ p.nullBlock
  cached : ∃ h, hs[i]? = some h ∧
    b ∈ p.cachedBlockHashToBlock.blocksAt (makeBlockHashWithGroupId h group)

/-- Every token from the start of the chunk of position `pos` up to that position satisfies `P`, a
property of its block index. -/
def ChunkBefore (chunkSize blockSize pos : Nat) (P : Nat → Prop) : Prop :=
  ∀ t, pos / chunkSize * chunkSize ≤ t → t < pos → P (t / blockSize)

theorem getCachedBlock_ne_none (h : ∀ g ∈ gids, ∃ b,
      b ∈ p.cachedBlockHashToBlock.blocksAt (makeBlockHashWithGroupId k g)) :
    p.getCachedBlock k gids ≠ none := by
  unfold getCachedBlock
  induction gids with
  | nil => nofun
  | cons g gids ih =>
    obtain ⟨hhead, htail⟩ := forall_mem_cons.mp h
    obtain ⟨row, hrow⟩ := Option.ne_none_iff_exists'.mp (ih htail)
    obtain ⟨b, hb⟩ := hhead
    rw [mapM_cons, BlockHashToBlockMap.getOneBlock_eq, head?_eq_some_head (ne_nil_of_mem hb), hrow]
    nofun

theorem scanHits_stop (h : hs[(p.scanHits gids hs).length]? = some k) :
    p.getCachedBlock k gids = none := by
  induction hs with
  | nil => cases h
  | cons k' hs ih =>
    rw [scanHits] at h
    split at h <;> rename_i hget
    · exact ih h
    · cases h
      exact hget

/-- A hit of chunked local attention is the longest one in the chunk of `max_length` whose chunk is
cached up to its end. -/
theorem chunkedLocal_longest_hit (p : BlockPool) (hs : List BlockHash) (gids : List Nat)
    (spec : KVCacheSpec) (m maxLength : Nat)
    (hkind : spec.kind = .chunkedLocal (m * spec.blockSize))
    (hnull : ∀ key, p.nullBlock ∉ p.cachedBlockHashToBlock.blocksAt key)
    (hhashes : maxLength / spec.blockSize ≤ hs.length) :
    ∃ (k : Nat) (lists : List (List BlockRef)),
      p.findLongestCacheHit hs maxLength gids spec false spec.blockSize = .ok lists ∧
      lists.length = gids.length ∧ (∀ L ∈ lists, L.length = k) ∧ k * spec.blockSize ≤ maxLength ∧
      (∀ (j g : Nat) (L : List BlockRef), gids[j]? = some g → lists[j]? = some L →
        ChunkBefore (m * spec.blockSize) spec.blockSize (k * spec.blockSize)
          fun i => ∃ b, L[i]? = some b ∧ CachedAt p hs g i b) ∧
      ∀ k', k < k' → k' ≤ maxLength / spec.blockSize →
        ¬ ChunkBefore (m * spec.blockSize) spec.blockSize (k' * spec.blockSize)
          fun i => ∀ g ∈ gids, ∃ b, CachedAt p hs g i b := by
  obtain ⟨bs, kind, layout, hbs, hwf⟩ := spec
  dsimp only at *
  subst hkind
  have hc : 0 < m * bs := of_decide_eq_true hwf
  generalize hq : maxLength / (m * bs) = q
  generalize hn : maxLength / bs = n at *
  have hnle : ∀ k, k ≤ n ↔ k * bs ≤ maxLength := fun k => hn ▸ Nat.le_div_iff_mul_le hbs
  have hqle : q * m * bs ≤ maxLength := by
    rw [Nat.mul_assoc, ← hq]
    exact Nat.div_mul_le_self _ _
  have hstart : (if 0 < maxLength then maxLength / (m * bs) * (m * bs) else 0) / bs = q * m := by
    rw [hq, ← Nat.mul_assoc]
    split
    · exact Nat.mul_div_cancel _ hbs
    · rw [← hq, show maxLength = 0 by omega]
      simp
  have hle : q * m ≤ n := (hnle _).mpr hqle
  set found := p.scanHits gids ((hs.drop (q * m)).take (n - q * m)) with hfound
  set rows := replicate (q * m) (replicate gids.length p.nullBlock) ++ found with hrows
  have hsearch :
    p.findLongestCacheHit hs maxLength gids ⟨bs, .chunkedLocal (m * bs), layout, hbs, hwf⟩
      false bs = .ok ((range gids.length).map (hitColumn p.nullBlock rows)) := by
    unfold findLongestCacheHit searchHits chunkedLocalHit
    dsimp only
    rw [hstart, hn, chunkedLoop_eq, if_neg fun hshort => by rw [length_drop] at hshort; omega]
    simp only [Bool.not_false, decide_true, assertThat_true, ok_bind, pure_eq_ok]
    rfl
  have hlen : rows.length = q * m + found.length := by rw [length_append, length_replicate]
  have hfoundLen : found.length ≤ n - q * m := (scanHits_spec _ _).length_le
  -- all lengths that are compared end in the chunk of `max_length`
  have hchunk : ∀ k', q * m ≤ k' → k' ≤ n → k' * bs / (m * bs) * (m * bs) = q * m * bs := by
    intro k' hge hlek
    have hupper : k' * bs ≤ maxLength := (hnle k').mp hlek
    have hdiv : k' * bs / (m * bs) = q := by
      apply Nat.le_antisymm
      · rw [← hq]
        exact Nat.div_le_div_right hupper
      · rw [Nat.le_div_iff_mul_le hc, ← Nat.mul_assoc]
        exact Nat.mul_le_mul_right bs hge
    rw [hdiv, Nat.mul_assoc]
  refine ⟨rows.length, _, hsearch, by simp, ?_, ?_, ?_, ?_⟩
  · intro L hL
    obtain ⟨j, -, rfl⟩ := mem_map.mp hL
    rw [hitColumn, length_map]
  · exact (hnle _).mp (by omega)
  · intro j g L hg hL t ht htk
    rw [hchunk _ (by omega) (by omega), ← Nat.le_div_iff_mul_le hbs] at ht
    rw [← Nat.div_lt_iff_lt_mul hbs] at htk
    have hrow : rows[t / bs]? = found[t / bs - q * m]? := by
      rw [getElem?_append_right (by rw [length_replicate]; exact ht), length_replicate]
    obtain ⟨row, hget⟩ : ∃ row, found[t / bs - q * m]? = some row :=
      ⟨_, getElem?_eq_getElem (by omega)⟩
    obtain ⟨k, hk, hcached⟩ := scanHits_getElem? hget
    rw [getElem?_take_of_lt (by omega), getElem?_drop, Nat.add_sub_cancel' ht] at hk
    have hmem := BlockHashToBlockMap.mem_blocksAt_of_getOneBlock
      (@mapM_getD_mem _ p.nullBlock _ _ hcached j g hg)
    rw [getElem?_map, getElem?_range (lt_of_getElem? hg)] at hL
    cases hL
    refine ⟨row.getD j p.nullBlock, ?_, fun heq => hnull _ (heq ▸ hmem), k, hk, hmem⟩
    rw [hitColumn, getElem?_map, hrow, hget]
    rfl
  · intro k' hk hk' hcov
    -- the lookup has stopped at block index `k`
    have hstop : ((hs.drop (q * m)).take (n - q * m))[found.length]? =
        hs[rows.length]? := by
      rw [getElem?_take_of_lt (by omega), getElem?_drop, hlen]
    rw [getElem?_eq_getElem (l := hs) (by omega)] at hstop
    refine getCachedBlock_ne_none (fun g hg => ?_) (scanHits_stop hstop)
    have hblock := hcov (rows.length * bs)
      (by rw [hchunk k' (by omega) hk']; exact Nat.mul_le_mul_right bs (by omega))
      (Nat.mul_lt_mul_of_pos_right hk hbs) g hg
    obtain ⟨b, -, k, hk, hb⟩ := hblock
    rw [Nat.mul_div_cancel _ hbs, getElem?_eq_getElem (by omega)] at hk
    cases hk
    exact ⟨b, hb⟩

def oneCached : BlockPool where
  numGpuBlocks := 3
  enableCaching := true
  hashBlockSize := 2
  blocks := fun _ => .new
  freeBlockQueue := .init 3
  cachedBlockHashToBlock := BlockHashToBlockMap.new.insert (makeBlockHashWithGroupId [7] 0) 1
  nullBlock := 0

/-- Seven tokens in chunks of four: the blocks of the first chunk are null, and of the second one
the first is cached. -/
theorem chunkedLocal_longest_hit_sample :
    ∃ (k : Nat) (lists : List (List BlockRef)),
      oneCached.findLongestCacheHit [[5], [6], [7], [8]] 7 [0]
        ⟨2, .chunkedLocal 4, 0, by decide, rfl⟩ false 2 = .ok lists ∧ lists = [[0, 0, 1]] ∧
      (∀ L ∈ lists, L.length = k) ∧ k * 2 ≤ 7 := by
  obtain ⟨k, lists, hok, -, hlen, hle, -⟩ := chunkedLocal_longest_hit oneCached
    [[5], [6], [7], [8]] [0] ⟨2, .chunkedLocal 4, 0, by decide, rfl⟩ 2 7 rfl (fun key hkey => by
      rcases (BlockHashToBlockMap.mem_blocksAt_insert _ _ key 0).mp hkey with hold | ⟨-, hnull⟩
      · cases hold
      · cases hnull) (by decide)
  exact ⟨k, lists, hok, (Except.ok.inj hok).symm, hlen, hle⟩

/-- The lookup reads one hash for each block of `max_length`, whether the list has it or not. -/
theorem chunkedLocal_short_hashes : oneCached.findLongestCacheHit [[7]] 5 [0]
    ⟨2, .chunkedLocal 8, 0, by decide, rfl⟩ false 2 = .error .indexError := by
  decide

end ChunkedLocal

end VllmEcho
