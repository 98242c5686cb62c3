import VllmEcho.Pcp.SplitTheorems

/-!
# Context-parallel attention sees the causal past

The index lists are concatenations of one block per prefill request.  A request with chunks of
`c` tokens after `s` chunk tokens of earlier requests has its local queries from `2 * s` on and its
gathered keys from `2 * w * s` on.
-/

namespace VllmEcho

variable {i : Nat} (w rank : Nat) (bs : List (Nat × Nat)) {n : Nat} (cs : List Nat) {j m c : Nat}

namespace PCPManager

open Lib List Req

variable {α : Type}

/-! ## The loop -/

theorem pyRange_add (a : Nat) : pyRange a (a + n) = range' a n := by
  unfold pyRange
  rw [Nat.add_sub_cancel_left]

theorem pyRange_chunk (kv c k : Nat) :
    pyRange (kv + c * k) (kv + c * (k + 1)) = range' (kv + c * k) c := by
  rw [Nat.mul_succ, ← Nat.add_assoc, pyRange_add]

def listsOf : PcpLists where
  qHeadIdx := bs.flatMap fun b => range' (2 * b.2) b.1
  qTailIdx := bs.flatMap fun b => range' (2 * b.2 + b.1) b.1
  kvWithQHeadNomaskIdx := bs.flatMap fun b => range' (2 * w * b.2) (b.1 * rank)
  kvWithQHeadMaskIdx := bs.flatMap fun b => range' (2 * w * b.2 + b.1 * rank) b.1
  kvWithQTailNomaskIdx := bs.flatMap fun b => range' (2 * w * b.2) (b.1 * (w * 2 - 1 - rank))
  kvWithQTailMaskIdx := bs.flatMap fun b =>
    range' (2 * w * b.2 + b.1 * (w * 2 - 1 - rank)) b.1
  kvTailProjIdx := bs.flatMap fun b => range' (2 * w * b.2) (b.1 * (w * 2 - 1 - rank + 1))
  kvWithQHeadAttnIdxInTail := bs.flatMap fun b =>
    range' (b.2 * (w * 2 - 1 - rank + 1)) (b.1 * (rank + 1))
  kvWithQTailAttnIdxInTail := bs.flatMap fun b =>
    range' (b.2 * (w * 2 - 1 - rank + 1)) (b.1 * (w * 2 - 1 - rank + 1))
  chunkSeqlens := bs.map fun b => b.1
  kvWithQHeadNomaskSeqlens := bs.map fun b => b.1 * rank
  kvWithQTailNomaskSeqlens := bs.map fun b => b.1 * (w * 2 - 1 - rank)
  headActualSeqLengthsKv := cumsumFrom 0 (bs.map fun b => b.1 * (rank + 1))
  tailActualSeqLengthsKv := cumsumFrom 0 (bs.map fun b => b.1 * (w * 2 - 1 - rank + 1))
  qReqOffset := 2 * (bs.map Prod.fst).sum
  kvReqOffset := 2 * w * (bs.map Prod.fst).sum

theorem length_flatMap_range' (f : Nat × Nat → Nat) (k : Nat) :
    (bs.flatMap fun b => range' (f b) (b.1 * k)).length = (bs.map Prod.fst).sum * k := by
  rw [length_flatMap, ← sum_map_mul_right]
  simp only [length_range']

/-- One round of the loop over the prefills appends the lists of one request. -/
theorem addRequest_listsOf (c : Nat) : (listsOf w rank bs).addRequest w rank (2 * c) =
      listsOf w rank (bs ++ [(c, (bs.map Prod.fst).sum)]) := by
  have hhalf : 2 * c / 2 = c := by omega
  have hproj : (listsOf w rank bs).kvTailProjIdx.length =
      (bs.map Prod.fst).sum * (w * 2 - 1 - rank + 1) := length_flatMap_range' bs _ _
  have hheadLen : (listsOf w rank bs).kvWithQHeadAttnIdxInTail.length =
      (bs.map fun b => b.1 * (rank + 1)).sum := by
    rw [sum_map_mul_right]
    exact length_flatMap_range' bs _ _
  have htailLen : (listsOf w rank bs).kvWithQTailAttnIdxInTail.length =
      (bs.map fun b => b.1 * (w * 2 - 1 - rank + 1)).sum := by
    rw [sum_map_mul_right]
    exact length_flatMap_range' bs _ _
  have htail : pyRange (2 * (bs.map Prod.fst).sum + c) (2 * (bs.map Prod.fst).sum + c * 2) =
      range' (2 * (bs.map Prod.fst).sum + c) c := by
    rw [Nat.mul_two, ← Nat.add_assoc, pyRange_add]
  have hkv : 2 * w * (bs.map Prod.fst).sum + 2 * c * w = 2 * w * ((bs.map Prod.fst).sum + c) := by
    ring
  unfold PcpLists.addRequest
  dsimp only
  rw [hhalf, hproj, length_append, length_append, hheadLen, htailLen]
  unfold listsOf
  simp only [pyRange_chunk, pyRange_add, htail, hkv, length_range', flatMap_append,
    flatMap_cons, flatMap_nil, append_nil, map_append, map_cons,
    map_nil, cumsumFrom_concat, Nat.zero_add, sum_append, sum_cons, sum_nil,
    Nat.add_zero]
  rw [Nat.mul_add 2 (bs.map Prod.fst).sum c]

theorem foldl_addRequest : (cs.map (2 * ·)).foldl (PcpLists.addRequest w rank) {} =
      listsOf w rank (cs.zip (startsFrom 0 cs)) := by
  induction cs using reverseRecOn with
  | nil => rfl
  | append_singleton cs c ih =>
    have hlen : cs.length = (startsFrom 0 cs).length := (length_startsFrom 0).symm
    rw [map_append, foldl_append, ih, map_cons, foldl_cons, addRequest_listsOf,
      map_fst_zip (Nat.le_of_eq hlen), startsFrom_concat, zip_append hlen, Nat.zero_add]
    rfl

/-! ## Queries -/

section Order

variable (cs : List Nat)

def chunkBlocks : List (Nat × Nat) := cs.zip (startsFrom 0 cs)

def headQueries : List Nat := (chunkBlocks cs).flatMap fun b => range' (2 * b.2) b.1

def tailQueries : List Nat := (chunkBlocks cs).flatMap fun b => range' (2 * b.2 + b.1) b.1

theorem getElem?_chunkBlocks {b : Nat × Nat} :
    (chunkBlocks cs)[i]? = some b ↔ cs[i]? = some b.1 ∧ b.2 = (cs.take i).sum := by
  unfold chunkBlocks
  rw [getElem?_zip_eq_some]
  apply and_congr_right
  intro hc
  obtain ⟨hlt, _⟩ := List.getElem?_eq_some_iff.mp hc
  rw [getElem?_startsFrom 0 hlt, Nat.zero_add, Option.some.injEq]
  exact eq_comm

theorem segment_chunkBlocks (hc : cs[i]? = some c) (f g : Nat × Nat → Nat) :
    segment (cumsumFrom 0 ((chunkBlocks cs).map g)) i
        ((chunkBlocks cs).flatMap fun b => range' (f b) (g b)) =
      range' (f (c, (cs.take i).sum)) (g (c, (cs.take i).sum)) := by
  have hblock : (chunkBlocks cs)[i]? = some (c, (cs.take i).sum) :=
    (getElem?_chunkBlocks cs).mpr ⟨hc, rfl⟩
  have hsegment := segment_flatMap (chunkBlocks cs) (fun b => range' (f b) (g b)) hblock
  simp only [length_range'] at hsegment
  exact hsegment

theorem map_fst_chunkBlocks : (chunkBlocks cs).map Prod.fst = cs :=
  map_fst_zip (Nat.le_of_eq (length_startsFrom 0).symm)

theorem segments_chunkBlocks (f : Nat × Nat → Nat) : (range cs.length).flatMap (segment
      (cumsumFrom 0 ((chunkBlocks cs).map fun b => b.1)) ·
        ((chunkBlocks cs).flatMap fun b => range' (f b) b.1)) =
    (chunkBlocks cs).flatMap fun b => range' (f b) b.1 := by
  have hall := flatMap_segment (chunkBlocks cs) fun b => range' (f b) b.1
  have hlen : (chunkBlocks cs).length = cs.length := by
    rw [← length_map Prod.fst, map_fst_chunkBlocks]
  simp only [length_range', hlen] at hall
  exact hall

theorem queries_perm : (headQueries cs ++ tailQueries cs).Perm (range (2 * cs.sum)) := by
  apply perm_range_of_mem
  · have hlen : ∀ f : Nat × Nat → Nat,
        ((chunkBlocks cs).flatMap fun b => range' (f b) b.1).length = cs.sum := by
      intro f
      rw [length_flatMap]
      simp only [length_range']
      exact congrArg List.sum (map_fst_chunkBlocks cs)
    rw [length_append]
    unfold headQueries tailQueries
    rw [hlen, hlen]
    omega
  intro k hk
  -- the place of the query, counted in chunk tokens
  obtain ⟨c, s, o, hmem, ho, hko⟩ := exists_block cs (fun c => c) 0 (k / 2) (Nat.zero_le _)
    (by rw [map_id']; omega)
  rw [map_id'] at hmem
  rw [mem_append]
  by_cases hhead : k < 2 * s + c
  · apply Or.inl
    exact mem_flatMap.mpr ⟨(c, s), hmem, mem_range'_1.mpr (by omega)⟩
  · apply Or.inr
    exact mem_flatMap.mpr ⟨(c, s), hmem, mem_range'_1.mpr (by omega)⟩

/-- Sorting the single-precision indices restores the local order, whatever becomes of equal keys,
exactly when single precision keeps all of them apart. -/
theorem queries_restored_iff :
    (∀ argsort : List Nat → List Nat, (∀ keys, IsArgsort keys (argsort keys)) →
        indexSelect (headQueries cs ++ tailQueries cs)
          (argsort ((headQueries cs ++ tailQueries cs).map toFloat32)) =
            some (range (2 * cs.sum))) ↔
      ∀ a < 2 * cs.sum, ∀ b < 2 * cs.sum, toFloat32 a = toFloat32 b → a = b :=
  indexSelect_restores_iff (fun _ _ => toFloat32_mono) (queries_perm cs)

end Order

/-! ## The batch -/

section Batch

variable {w : Nat} (decodes prefills : List (List α))

def prefillChunks (w : Nat) (prefills : List (List α)) : List Nat :=
  prefills.map fun tokens => chunk w ⟨tokens, false⟩

def kvStart (w : Nat) (prefills : List (List α)) (i : Nat) : Nat :=
  ((prefills.take i).map fun tokens => padded w ⟨tokens, false⟩).sum

theorem localCount_prefill (tokens : List α) :
    localCount w ⟨tokens, false⟩ = 2 * chunk w ⟨tokens, false⟩ := by
  unfold localCount
  rw [tailCount_of_prefill rfl]
  omega

theorem drop_localCounts :
    ((requests decodes prefills).map (localCount w)).drop decodes.length =
      (prefillChunks w prefills).map (2 * ·) := by
  unfold requests prefillChunks
  rw [map_append, drop_left' (by simp), map_map, map_map]
  apply map_congr_left
  intro tokens _
  exact localCount_prefill tokens

theorem getElem?_requests {tokens : List α} (hi : prefills[i]? = some tokens) :
    (requests decodes prefills)[decodes.length + i]? = some ⟨tokens, false⟩ := by
  unfold requests
  rw [getElem?_append_right (by simp), length_map, Nat.add_sub_cancel_left, getElem?_map, hi]
  rfl

theorem localStart :
    (((requests decodes prefills).take (decodes.length + i)).map (localCount w)).sum =
      (decodes.map List.length).sum + 2 * ((prefillChunks w prefills).take i).sum := by
  unfold requests prefillChunks
  have htake : (decodes.map (⟨·, true⟩ : List α → Req α) ++
      prefills.map (⟨·, false⟩ : List α → Req α)).take (decodes.length + i) =
      decodes.map (⟨·, true⟩) ++ (prefills.take i).map (⟨·, false⟩) := by
    rw [take_append, take_of_length_le (by simp), length_map,
      Nat.add_sub_cancel_left, map_take]
  have hprefills : ∀ ts : List (List α),
      (ts.map fun tokens => localCount w ⟨tokens, false⟩).sum =
        2 * (ts.map fun tokens => chunk w ⟨tokens, false⟩).sum := by
    intro ts
    rw [← sum_map_mul_left]
    simp only [localCount_prefill]
  rw [htake, map_append, map_map, map_map, sum_append, ← map_take]
  exact congrArg (_ + ·) (hprefills _)

theorem kvStart_eq : kvStart w prefills i = 2 * w * ((prefillChunks w prefills).take i).sum := by
  unfold kvStart prefillChunks
  rw [← map_take, ← sum_map_mul_left]
  congr 1
  apply map_congr_left
  intro tokens _
  rw [padded_of_prefill rfl, Nat.mul_comm]

structure LocalQuery (w : Nat) (split : Split) (i q p : Nat) : Prop where
  req : (repeatEach (range (decodes ++ prefills).length) split.pcpTokens)[
    (decodes.map List.length).sum + q]? = some (decodes.length + i)
  position : split.positions[(decodes.map List.length).sum + q]? = some p
  inside : ∀ tokens, prefills[i]? = some tokens → p < padded w ⟨tokens, false⟩

/-- The queries of prefill request `i` attend to the causal past, and the lists into
`kv_tail_proj_idx` select the same keys. -/
structure AttendsCausally (w : Nat) (split : Split) (md : PcpMetadata) (i : Nat) : Prop where
  head : ∀ j q : Nat, (segment md.attnMaskSeqlens i md.qHeadIdx)[j]? = some q →
    ∃ p, LocalQuery decodes prefills w split i q p ∧
      attendedKeys md.headAttnNomaskSeqlens md.attnMaskSeqlens md.kvWithQHeadNomaskIdx
        md.kvWithQHeadMaskIdx i j = range' (kvStart w prefills i) (p + 1)
  tail : ∀ j q : Nat, (segment md.attnMaskSeqlens i md.qTailIdx)[j]? = some q →
    ∃ p, LocalQuery decodes prefills w split i q p ∧
      attendedKeys md.tailAttnNomaskSeqlens md.attnMaskSeqlens md.kvWithQTailNomaskIdx
        md.kvWithQTailMaskIdx i j = range' (kvStart w prefills i) (p + 1)
  headInTail : (segment md.headActualSeqLengthsKv i md.kvWithQHeadAttnIdxInTail).map
      (md.kvTailProjIdx[·]?) =
    (segment md.headAttnNomaskSeqlens i md.kvWithQHeadNomaskIdx ++
      segment md.attnMaskSeqlens i md.kvWithQHeadMaskIdx).map some
  tailInTail : (segment md.tailActualSeqLengthsKv i md.kvWithQTailAttnIdxInTail).map
      (md.kvTailProjIdx[·]?) =
    (segment md.tailAttnNomaskSeqlens i md.kvWithQTailNomaskIdx ++
      segment md.attnMaskSeqlens i md.kvWithQTailMaskIdx).map some

def rankTokens (w rank : Nat) : Except PyError (List (Option α)) := do
  let split ← updateTokensForPcp w rank decodes.length ((decodes ++ prefills).map List.length)
  .ok (localTokens (decodes ++ prefills) split.pcpTokens split.positions)

def gatheredTokens (w : Nat) (restoreIdx : List Nat) : Except PyError (List (Option α)) := do
  let outputs ← (range w).mapM (rankTokens decodes prefills w)
  restoreHiddenStates outputs restoreIdx

def metadataOf (w rank : Nat) (argsort : List Nat → List Nat) : PcpMetadata :=
  { listsOf w rank (chunkBlocks (prefillChunks w prefills)) with
    qFullIdx := argsort ((headQueries (prefillChunks w prefills) ++
      tailQueries (prefillChunks w prefills)).map toFloat32)
    attnMaskSeqlens := cumsumFrom 0 ((chunkBlocks (prefillChunks w prefills)).map fun b => b.1)
    headAttnNomaskSeqlens :=
      cumsumFrom 0 ((chunkBlocks (prefillChunks w prefills)).map fun b => b.1 * rank)
    tailAttnNomaskSeqlens :=
      cumsumFrom 0 ((chunkBlocks (prefillChunks w prefills)).map fun b =>
        b.1 * (w * 2 - 1 - rank)) }

theorem generatePcpMetadata_eq (hw : 1 < w) (rank : Nat) (argsort : List Nat → List Nat) :
    generatePcpMetadata w rank decodes.length argsort (splitOf decodes prefills w rank).pcpTokens =
      some (metadataOf prefills w rank argsort) := by
  unfold generatePcpMetadata splitOf
  rw [if_pos hw, drop_localCounts, foldl_addRequest]
  rfl

theorem gatheredTokens_eq (hw : 0 < w) (hne : decodes ++ prefills ≠ [])
    (hpos : ∀ tokens ∈ prefills, tokens ≠ []) {rank : Nat} :
    gatheredTokens decodes prefills w (splitOf decodes prefills w rank).pcpAllgatherRestoreIdx =
      .ok ((requests decodes prefills).flatMap (restored w)) := by
  have hrank : ∀ rank ∈ range w, rankTokens decodes prefills w rank =
      .ok ((requests decodes prefills).flatMap fun q => q.onRank w rank) := by
    intro rank _
    unfold rankTokens
    rw [updateTokensForPcp_eq decodes prefills hw hne hpos, ← requests_tokens]
    exact congrArg _ (localTokens_eq _)
  unfold gatheredTokens
  rw [mapM_ok _ (range w) hrank, ok_bind]
  exact restoreHiddenStates_eq _ hw

theorem getElem?_gathered (hw : 0 < w) {tokens : List α} (hi : prefills[i]? = some tokens) {k : Nat}
    (hk : k < padded w ⟨tokens, false⟩) :
    ((requests decodes prefills).flatMap (restored w))[
      (decodes.map List.length).sum * w + kvStart w prefills i + k]? = some tokens[k]? := by
  have hreq := getElem?_requests decodes prefills hi
  have hlen : (((requests decodes prefills).take (decodes.length + i)).map
      fun q => (q.restored w).length).sum =
      (decodes.map List.length).sum * w + kvStart w prefills i := by
    simp only [length_restored hw]
    unfold padded
    rw [sum_map_mul_right, localStart, kvStart_eq]
    ring
  have hget := getElem?_flatMap_take (requests decodes prefills) (restored w) hreq
    (show k < _ by rw [length_restored hw]; exact hk)
  rw [hlen] at hget
  rw [hget]
  exact getElem?_restored rfl hk

theorem localQuery_of_position {rank : Nat} (hrank : rank < w) {i : Nat} {tokens : List α}
    (hi : prefills[i]? = some tokens) {o p : Nat}
    (hp : (Req.positions w ⟨tokens, false⟩ rank 0)[o]? = some p) :
    LocalQuery decodes prefills w (splitOf decodes prefills w rank) i
      (2 * ((prefillChunks w prefills).take i).sum + o) p := by
  have hreq := getElem?_requests decodes prefills hi
  have ho : o < localCount w ⟨tokens, false⟩ := by
    rw [← length_positions rank 0]
    exact lt_of_getElem? hp
  constructor
  case position =>
    have hget := getElem?_flatMap_take (requests decodes prefills) (fun q => q.ownPositions w rank)
      hreq (show o < _ by rw [length_ownPositions]; exact ho)
    simp only [length_ownPositions] at hget
    rw [localStart, Nat.add_assoc] at hget
    exact hget.trans hp
  case req =>
    have hcount : ((requests decodes prefills).map (localCount w))[decodes.length + i]? =
        some (localCount w ⟨tokens, false⟩) := by
      rw [getElem?_map, hreq]
      rfl
    have hget := getElem?_repeatEach_range _ hcount ho
    rw [← map_take, localStart, Nat.add_assoc, length_map,
      length_requests] at hget
    exact hget
  case inside =>
    intro tokens' htokens
    rw [hi, Option.some.injEq] at htokens
    rw [← htokens]
    exact position_lt hrank (mem_of_getElem? hp)

theorem range'_append_take {kv : Nat} (hj : j < c) :
    range' kv n ++ (range' (kv + n) c).take (j + 1) = range' kv (n + j + 1) := by
  rw [take_range'_of_length_ge (by omega : j + 1 ≤ c), range'_append_1, Nat.add_assoc]

theorem map_getElem?_proj (kv : Nat → Nat) (k : Nat) (hc : cs[i]? = some c) (hn : n ≤ c * k) :
    (range' ((cs.take i).sum * k) n).map
        (((chunkBlocks cs).flatMap fun b => range' (kv b.2) (b.1 * k))[·]?) =
      (range' (kv (cs.take i).sum) n).map some := by
  have hblock : (chunkBlocks cs)[i]? = some (c, (cs.take i).sum) :=
    (getElem?_chunkBlocks cs).mpr ⟨hc, rfl⟩
  have hstart : ((((chunkBlocks cs).take i)).map
      fun b => (range' (kv b.2) (b.1 * k)).length).sum = (cs.take i).sum * k := by
    simp only [length_range']
    rw [sum_map_mul_right]
    congr 2
    rw [map_take]
    exact congrArg (List.take i) (map_fst_chunkBlocks cs)
  apply ext_getElem
  · simp
  intro o h1 h2
  have ho : o < n := by simpa using h2
  have hget := getElem?_flatMap_take (chunkBlocks cs)
    (fun b => range' (kv b.2) (b.1 * k)) hblock
    (show o < _ by rw [length_range']; dsimp only; omega)
  rw [hstart] at hget
  simp only [getElem_map, getElem_range', Nat.one_mul]
  rw [hget, getElem?_range' (by dsimp only; omega), Nat.one_mul]

/-- Each query of a rank attends to the keys up to its own position and to no others. -/
theorem attendsCausally {rank : Nat} (hrank : rank < w) (hi : i < prefills.length)
    (argsort : List Nat → List Nat) :
    AttendsCausally decodes prefills w (splitOf decodes prefills w rank)
      (metadataOf prefills w rank argsort) i := by
  let tokens := prefills[i]
  let c := chunk w ⟨tokens, false⟩
  let s := ((prefillChunks w prefills).take i).sum
  have htokens : prefills[i]? = some tokens := getElem?_eq_getElem hi
  have hc : (prefillChunks w prefills)[i]? = some c := by
    unfold prefillChunks
    rw [getElem?_map, htokens]
    rfl
  have hseg := segment_chunkBlocks (prefillChunks w prefills) hc
  have hkv : kvStart w prefills i = 2 * w * s := kvStart_eq prefills
  -- the positions of the two chunks
  have hheadPos : ∀ j < c, (Req.positions w ⟨tokens, false⟩ rank 0)[j]? = some (c * rank + j) := by
    intro j hj
    unfold Req.positions
    rw [getElem?_append_left (by simpa using hj), getElem?_map, getElem?_range hj]
    show some (0 + rank * c + j) = _
    rw [Nat.zero_add, Nat.mul_comm]
  have htailPos : ∀ j < c, (Req.positions w ⟨tokens, false⟩ rank 0)[c + j]? =
      some (c * (w * 2 - 1 - rank) + j) := by
    intro j hj
    unfold Req.positions
    rw [getElem?_append_right (by simp [c]), length_map, length_range,
      Nat.add_sub_cancel_left, getElem?_map,
      getElem?_range (by exact hj)]
    show some (0 + (2 * w - rank - 1) * c + j) = _
    rw [Nat.zero_add, Nat.mul_comm, show 2 * w - rank - 1 = w * 2 - 1 - rank by omega]
  let md := metadataOf prefills w rank argsort
  have hqHead : segment md.attnMaskSeqlens i md.qHeadIdx = range' (2 * s) c := hseg _ _
  have hqTail : segment md.attnMaskSeqlens i md.qTailIdx = range' (2 * s + c) c := hseg _ _
  have hheadNomask : segment md.headAttnNomaskSeqlens i md.kvWithQHeadNomaskIdx =
      range' (2 * w * s) (c * rank) := hseg _ _
  have hheadMask : segment md.attnMaskSeqlens i md.kvWithQHeadMaskIdx =
      range' (2 * w * s + c * rank) c := hseg _ _
  have htailNomask : segment md.tailAttnNomaskSeqlens i md.kvWithQTailNomaskIdx =
      range' (2 * w * s) (c * (w * 2 - 1 - rank)) := hseg _ _
  have htailMask : segment md.attnMaskSeqlens i md.kvWithQTailMaskIdx =
      range' (2 * w * s + c * (w * 2 - 1 - rank)) c := hseg _ _
  have hheadIn : segment md.headActualSeqLengthsKv i md.kvWithQHeadAttnIdxInTail =
      range' (s * (w * 2 - 1 - rank + 1)) (c * (rank + 1)) := hseg _ _
  have htailIn : segment md.tailActualSeqLengthsKv i md.kvWithQTailAttnIdxInTail =
      range' (s * (w * 2 - 1 - rank + 1)) (c * (w * 2 - 1 - rank + 1)) := hseg _ _
  have hproj : ∀ n ≤ c * (w * 2 - 1 - rank + 1),
      (range' (s * (w * 2 - 1 - rank + 1)) n).map (md.kvTailProjIdx[·]?) =
        (range' (2 * w * s) n).map some :=
    fun n hn => map_getElem?_proj (prefillChunks w prefills) (2 * w * ·) _ hc hn
  constructor
  case head =>
    intro j q hq
    rw [hqHead] at hq
    have hj : j < c := by simpa using (lt_of_getElem? hq)
    rw [getElem?_range' hj, Option.some.injEq, Nat.one_mul] at hq
    refine ⟨c * rank + j, hq ▸ localQuery_of_position decodes prefills hrank htokens
      (hheadPos j hj), ?_⟩
    unfold attendedKeys
    rw [hheadNomask, hheadMask, hkv, range'_append_take hj]
  case tail =>
    intro j q hq
    rw [hqTail] at hq
    have hj : j < c := by simpa using (lt_of_getElem? hq)
    rw [getElem?_range' hj, Option.some.injEq, Nat.one_mul, Nat.add_assoc] at hq
    refine ⟨c * (w * 2 - 1 - rank) + j,
      hq ▸ localQuery_of_position decodes prefills hrank htokens (htailPos j hj), ?_⟩
    unfold attendedKeys
    rw [htailNomask, htailMask, hkv, range'_append_take hj]
  case headInTail =>
    rw [hheadIn, hheadNomask, hheadMask, range'_append_1,
      hproj _ (Nat.mul_le_mul_left c (by omega)), Nat.mul_succ]
  case tailInTail =>
    rw [htailIn, htailNomask, htailMask, range'_append_1, hproj _ (Nat.le_refl _), Nat.mul_succ]

theorem sum_drop_localCounts {rank : Nat} :
    ((splitOf decodes prefills w rank).pcpTokens.drop decodes.length).sum =
      2 * (prefillChunks w prefills).sum := by
  rw [show (splitOf decodes prefills w rank).pcpTokens.drop decodes.length = _ from
    drop_localCounts decodes prefills, sum_map_mul_left _ (fun c => c) 2, map_id']

/-- For every batch and rank, every local query is in exactly one of the head and tail lists and
attends to the causal past of its request.  `q_full_idx` restores the local order, whatever the sort
does with equal keys, exactly when single precision keeps all local indices apart. -/
theorem pcpMetadata_causal {rank : Nat} (hw : 1 < w) (hrank : rank < w)
    (hne : decodes ++ prefills ≠ []) (hpos : ∀ tokens ∈ prefills, tokens ≠ []) :
    ∃ (split : Split) (gathered : List (Option α)),
      updateTokensForPcp w rank decodes.length ((decodes ++ prefills).map List.length) = .ok split ∧
      gatheredTokens decodes prefills w split.pcpAllgatherRestoreIdx = .ok gathered ∧
      (∀ (i : Nat) (tokens : List α), prefills[i]? = some tokens →
        ∀ k < padded w ⟨tokens, false⟩,
          gathered[(decodes.map List.length).sum * w + kvStart w prefills i + k]? =
            some tokens[k]?) ∧
      (∀ argsort : List Nat → List Nat, ∃ md,
        generatePcpMetadata w rank decodes.length argsort split.pcpTokens = some md ∧
        (md.qHeadIdx ++ md.qTailIdx).Perm (range (split.pcpTokens.drop decodes.length).sum) ∧
        (range prefills.length).flatMap (segment md.attnMaskSeqlens · md.qHeadIdx) = md.qHeadIdx ∧
        (range prefills.length).flatMap (segment md.attnMaskSeqlens · md.qTailIdx) = md.qTailIdx ∧
        ∀ i < prefills.length, AttendsCausally decodes prefills w split md i) ∧
      ((∀ argsort : List Nat → List Nat, (∀ keys, IsArgsort keys (argsort keys)) → ∀ md,
          generatePcpMetadata w rank decodes.length argsort split.pcpTokens = some md →
          indexSelect (md.qHeadIdx ++ md.qTailIdx) md.qFullIdx =
            some (range (split.pcpTokens.drop decodes.length).sum)) ↔
        ∀ a < (split.pcpTokens.drop decodes.length).sum,
          ∀ b < (split.pcpTokens.drop decodes.length).sum, toFloat32 a = toFloat32 b → a = b) := by
  have hw0 : 0 < w := by omega
  have hsegments := segments_chunkBlocks (prefillChunks w prefills)
  rw [prefillChunks, length_map] at hsegments
  refine ⟨splitOf decodes prefills w rank, (requests decodes prefills).flatMap (restored w),
    updateTokensForPcp_eq decodes prefills hw0 hne hpos,
    gatheredTokens_eq decodes prefills hw0 hne hpos,
    fun i tokens hi k hk => getElem?_gathered decodes prefills hw0 hi hk,
    fun argsort => ⟨metadataOf prefills w rank argsort,
      generatePcpMetadata_eq decodes prefills hw rank argsort, ?_, hsegments _, hsegments _,
      fun i hi => attendsCausally decodes prefills hrank hi argsort⟩, ?_⟩
  · rw [sum_drop_localCounts]
    exact queries_perm (prefillChunks w prefills)
  · simp only [sum_drop_localCounts, generatePcpMetadata_eq decodes prefills hw rank,
      Option.some.injEq, forall_eq']
    exact queries_restored_iff (prefillChunks w prefills)

end Batch

/-- One decode request and two prefill requests, seen from the second of two ranks. -/
theorem pcpMetadata_causal_two_ranks : ∃ split : Split,
      updateTokensForPcp 2 1 1 [1, 5, 8] = .ok split ∧
      ∃ md, generatePcpMetadata 2 1 1 argsort split.pcpTokens = some md ∧
      (∀ i < 2,
        AttendsCausally [[7]] [[0, 1, 2, 3, 4], [0, 1, 2, 3, 4, 5, 6, 7]] 2 split md i) := by
  obtain ⟨split, _, hsplit, _, _, hall, _⟩ :=
    pcpMetadata_causal [[7]] [[0, 1, 2, 3, 4], [0, 1, 2, 3, 4, 5, 6, 7]]
      (by decide) (by decide : 1 < 2) (by decide) (by decide)
  obtain ⟨md, hmd, _, _, _, hcausal⟩ := hall argsort
  exact ⟨split, hsplit, md, hmd, hcausal⟩

/-- A batch of two prefill requests with two local indices that single precision identifies. -/
theorem qFullIdx_not_restored {a b : Nat} (hn : 0 < n) (hm : 0 < m) (hab : a < b)
    (hb : b < 2 * cdiv n 4 + 2 * cdiv m 4) (hkeys : toFloat32 a = toFloat32 b) :
    ∃ (argsort : List Nat → List Nat) (split : Split) (md : PcpMetadata),
      (∀ keys, IsArgsort keys (argsort keys)) ∧ updateTokensForPcp 2 0 0 [n, m] = .ok split ∧
      generatePcpMetadata 2 0 0 argsort split.pcpTokens = some md ∧
      split.pcpTokens = [2 * cdiv n 4, 2 * cdiv m 4] ∧
      indexSelect (md.qHeadIdx ++ md.qTailIdx) md.qFullIdx ≠ some (range split.pcpTokens.sum) := by
  let prefills := [replicate n (), replicate m ()]
  have hpos : ∀ tokens ∈ prefills, tokens ≠ [] := by
    intro tokens hmem
    apply length_pos_iff.mp
    rcases mem_pair.mp hmem with rfl | rfl <;> rw [length_replicate] <;> assumption
  have hcounts : ([] ++ prefills).map List.length = [n, m] := by
    simp only [prefills, nil_append, map_cons, map_nil, length_replicate]
  have htokens : (splitOf [] prefills 2 0).pcpTokens = [2 * cdiv n 4, 2 * cdiv m 4] := by
    show [localCount 2 ⟨replicate n (), false⟩,
      localCount 2 ⟨replicate m (), false⟩] = _
    rw [localCount_prefill, localCount_prefill, chunk_of_prefill rfl, chunk_of_prefill rfl]
    unfold Req.count
    rw [length_replicate, length_replicate]
  have hsplit : updateTokensForPcp 2 0 0 _ = _ :=
    updateTokensForPcp_eq [] prefills (by decide) (cons_ne_nil _ _) hpos
  rw [hcounts] at hsplit
  have hsum : (splitOf [] prefills 2 0).pcpTokens.sum = 2 * (prefillChunks 2 prefills).sum :=
    sum_drop_localCounts [] prefills
  have hlen : b < 2 * (prefillChunks 2 prefills).sum := by
    rw [← hsum, htokens]
    simpa using hb
  by_contra hnone
  -- then every sort would restore the order, and the two indices would be the same
  have hall := (queries_restored_iff (prefillChunks 2 prefills)).mp fun argsort hsort => by
    by_contra hne
    refine hnone ⟨argsort, _, _, hsort, hsplit,
      generatePcpMetadata_eq [] prefills (by decide) 0 argsort, htokens, ?_⟩
    rw [hsum]
    exact hne
  exact hab.ne (hall a (hab.trans hlen) b hlen hkeys)

/-- The first local token of the second request, `2 ^ 24 + 4`, and the token before it have the same
single-precision key, so that they can change places. -/
theorem qFullIdx_long_batch :
    ∃ (argsort : List Nat → List Nat) (split : Split) (md : PcpMetadata),
      (∀ keys, IsArgsort keys (argsort keys)) ∧
      updateTokensForPcp 2 0 0 [2 ^ 25 + 8, 4] = .ok split ∧
      generatePcpMetadata 2 0 0 argsort split.pcpTokens = some md ∧
      split.pcpTokens = [2 ^ 24 + 4, 2] ∧
      indexSelect (md.qHeadIdx ++ md.qTailIdx) md.qFullIdx ≠ some (range split.pcpTokens.sum) :=
  qFullIdx_not_restored (a := 2 ^ 24 + 3) (b := 2 ^ 24 + 4) (by decide) (by decide) (by decide)
    (by decide +kernel) (by decide +kernel)

end PCPManager

end VllmEcho
