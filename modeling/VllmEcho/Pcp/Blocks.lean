import VllmEcho.Pcp.Split

/-!
# The blocks of a split batch

Every array that `update_tokens_for_pcp` builds is the concatenation of one block per request.
This module describes the block of a request in the padded sequence and on a rank, and shows that
the positions of a rank are the concatenation of these blocks.
-/

namespace VllmEcho

variable (rank start : Nat) {β : Type} {n o : Nat} (a b : Nat)

namespace PCPManager

open Lib List

variable {α : Type}

/-! ## Blocks -/

structure Req (α : Type) where
  tokens : List α
  decode : Bool

namespace Req

variable (w : Nat) (q : Req α)

def count : Nat := q.tokens.length

def chunk : Nat := if q.decode then q.count else cdiv q.count (2 * w)

def tailCount : Nat := if q.decode then 0 else q.chunk w

def localCount : Nat := q.chunk w + q.tailCount w

def padded : Nat := q.localCount w * w

def positions (rank start : Nat) : List Nat :=
  ((range (q.chunk w)).map fun j => start + rank * q.chunk w + j) ++
    (range (q.tailCount w)).map fun j => start + (2 * w - rank - 1) * q.chunk w + j

def restored : List (Option α) :=
  if q.decode then (replicate w (q.tokens.map some)).flatten
  else q.tokens.map some ++ replicate (q.padded w - q.count) none

def ownPositions (rank : Nat) : List Nat :=
  if q.decode then range q.count else q.positions w rank 0

def onRank (rank : Nat) : List (Option α) :=
  (q.ownPositions w rank).map fun p => q.tokens[p]?

def unpadMask : List Bool :=
  replicate q.count true ++ replicate (q.padded w - q.count) false

end Req

def requests (decodes prefills : List (List α)) : List (Req α) :=
  decodes.map (⟨·, true⟩) ++ prefills.map (⟨·, false⟩)

namespace Req

variable {w : Nat} {q : Req α}

theorem chunk_of_decode (hdec : q.decode = true) : q.chunk w = q.count := if_pos hdec

theorem tailCount_of_decode (hdec : q.decode = true) : q.tailCount w = 0 := if_pos hdec

theorem padded_of_decode (hdec : q.decode = true) : q.padded w = q.count * w := by
  unfold padded localCount
  rw [chunk_of_decode hdec, tailCount_of_decode hdec, Nat.add_zero]

theorem chunk_of_prefill (hpre : q.decode = false) : q.chunk w = cdiv q.count (2 * w) := by
  unfold chunk
  rw [hpre, if_neg Bool.false_ne_true]

theorem tailCount_of_prefill (hpre : q.decode = false) : q.tailCount w = q.chunk w := by
  unfold tailCount
  rw [hpre, if_neg Bool.false_ne_true]

theorem padded_of_prefill (hpre : q.decode = false) : q.padded w = q.chunk w * (2 * w) := by
  unfold padded localCount
  rw [tailCount_of_prefill hpre, ← Nat.mul_two, Nat.mul_assoc]

theorem count_le_padded (hw : 0 < w) : q.count ≤ q.padded w := by
  cases hdec : q.decode with
  | true =>
    rw [padded_of_decode hdec]
    exact Nat.le_mul_of_pos_right _ hw
  | false =>
    rw [padded_of_prefill hdec, chunk_of_prefill hdec]
    exact cdiv_mul_ge _ (by omega)

theorem cdiv_pos (hw : 0 < w) (hn : 0 < n) : 0 < cdiv n (2 * w) := by
  have hge := cdiv_mul_ge n (b := 2 * w) (by omega)
  by_contra hzero
  have hcdiv : cdiv n (2 * w) = 0 := by omega
  rw [hcdiv] at hge
  omega

theorem length_positions : (q.positions w rank start).length = q.localCount w := by
  unfold positions localCount
  simp

theorem length_restored (hw : 0 < w) : (q.restored w).length = q.padded w := by
  have hle := q.count_le_padded hw
  unfold restored
  cases hdec : q.decode with
  | true =>
    rw [if_pos rfl, padded_of_decode hdec]
    rw [length_flatten, map_replicate, sum_replicate_nat, length_map,
      Nat.mul_comm]
    rfl
  | false =>
    rw [if_neg Bool.false_ne_true, length_append, length_map, length_replicate]
    unfold count at hle ⊢
    omega

theorem chunk_of_place {c : Nat} (ho : o < c * n) :
    o / c < n ∧ o % c < c ∧ o / c * c + o % c = o := by
  have hpos : 0 < c := Nat.pos_of_mul_pos_right (Nat.lt_of_le_of_lt (Nat.zero_le o) ho)
  refine ⟨Nat.div_lt_of_lt_mul ho, Nat.mod_lt o hpos, ?_⟩
  rw [Nat.mul_comm]
  exact Nat.div_add_mod o c

/-- Every padded position is on some rank. -/
theorem exists_position (ho : o < q.padded w) :
    ∃ rank < w, start + o ∈ q.positions w rank start := by
  cases hdec : q.decode with
  | true =>
    rw [padded_of_decode hdec] at ho
    obtain ⟨hrank, hmod, hsum⟩ := chunk_of_place ho
    refine ⟨o / q.count, hrank, ?_⟩
    unfold positions
    rw [chunk_of_decode hdec, mem_append, mem_map]
    exact Or.inl ⟨o % q.count, mem_range.mpr hmod, by omega⟩
  | false =>
    rw [padded_of_prefill hdec] at ho
    obtain ⟨hchunk, hmod, hsum⟩ := chunk_of_place ho
    -- the front chunks go up with the rank, the back chunks go down
    by_cases hhead : o / q.chunk w < w
    · refine ⟨o / q.chunk w, hhead, ?_⟩
      unfold positions
      rw [mem_append, mem_map]
      exact Or.inl ⟨o % q.chunk w, mem_range.mpr hmod, by omega⟩
    refine ⟨2 * w - 1 - o / q.chunk w, by omega, ?_⟩
    unfold positions
    rw [mem_append, mem_map, mem_map, tailCount_of_prefill hdec]
    refine Or.inr ⟨o % q.chunk w, mem_range.mpr hmod, ?_⟩
    rw [show 2 * w - (2 * w - 1 - o / q.chunk w) - 1 = o / q.chunk w by omega]
    omega

theorem position_lt {rank : Nat} (hrank : rank < w) {p : Nat}
    (hp : p ∈ q.positions w rank 0) : p < q.padded w := by
  have hbound : ∀ c n k j : Nat, k < n → j < c → k * c + j < c * n := by
    intro c n k j hk hj
    have hle : (k + 1) * c ≤ n * c := Nat.mul_le_mul_right _ hk
    rw [Nat.succ_mul] at hle
    rw [Nat.mul_comm c]
    omega
  unfold positions at hp
  rw [mem_append, mem_map, mem_map] at hp
  cases hdec : q.decode with
  | true =>
    rw [padded_of_decode hdec, ← chunk_of_decode (w := w) hdec]
    rw [tailCount_of_decode hdec] at hp
    cases hp with
    | inl hhead =>
      obtain ⟨j, hj, rfl⟩ := hhead
      have hlt := hbound (q.chunk w) w rank j hrank (mem_range.mp hj)
      omega
    | inr htail =>
      obtain ⟨j, hj, -⟩ := htail
      exact absurd (mem_range.mp hj) (Nat.not_lt_zero j)
  | false =>
    rw [padded_of_prefill hdec]
    rw [tailCount_of_prefill hdec] at hp
    cases hp with
    | inl hhead =>
      obtain ⟨j, hj, rfl⟩ := hhead
      have hlt := hbound (q.chunk w) (2 * w) rank j (by omega) (mem_range.mp hj)
      omega
    | inr htail =>
      obtain ⟨j, hj, rfl⟩ := htail
      have hlt := hbound (q.chunk w) (2 * w) (2 * w - rank - 1) j (by omega) (mem_range.mp hj)
      omega

theorem positions_start : q.positions w rank start = (q.positions w rank 0).map (start + ·) := by
  unfold positions
  rw [map_append, map_map, map_map]
  congr 1
  · apply map_congr_left
    intro j _
    show start + rank * q.chunk w + j = start + (0 + rank * q.chunk w + j)
    omega
  · apply map_congr_left
    intro j _
    show _ = start + (0 + (2 * w - rank - 1) * q.chunk w + j)
    omega

theorem getElem?_replicate_flatten (xs : List β) {r j : Nat} (hr : r < w) (hj : j < xs.length) :
    (replicate w xs).flatten[r * xs.length + j]? = xs[j]? := by
  induction w generalizing r with
  | zero => omega
  | succ w ih =>
    rw [replicate_succ, flatten_cons]
    cases r with
    | zero => rw [Nat.zero_mul, Nat.zero_add, getElem?_append_left hj]
    | succ r =>
      rw [Nat.succ_mul, getElem?_append_right (by omega), ← ih (r := r) (by omega)]
      congr 1
      omega

theorem getElem?_restored (hpre : q.decode = false) {p : Nat} (hp : p < q.padded w) :
    (q.restored w)[p]? = some q.tokens[p]? := by
  unfold restored
  rw [hpre, if_neg Bool.false_ne_true]
  by_cases hin : p < q.count
  · rw [getElem?_append_left (by simpa [count] using hin), getElem?_map]
    have hsome := getElem?_eq_getElem hin
    rw [hsome]
    rfl
  · unfold count at hin
    rw [getElem?_append_right (by simpa using Nat.le_of_not_lt hin), getElem?_replicate,
      if_pos (by rw [length_map]; unfold count; omega),
      getElem?_eq_none (Nat.le_of_not_lt hin)]

theorem map_restored_positions {rank : Nat} (hrank : rank < w) :
    (q.positions w rank 0).map (fun p => (q.restored w)[p]?) = (q.onRank w rank).map some := by
  unfold onRank ownPositions
  cases hdec : q.decode with
  | true =>
    rw [if_pos rfl]
    unfold positions restored
    rw [hdec, if_pos rfl, chunk_of_decode hdec, tailCount_of_decode hdec, range_zero,
      map_nil, append_nil]
    apply ext_getElem
    · simp
    intro j h1 h2
    have hj : j < (q.tokens.map some).length := by simpa [count] using h2
    have hget := getElem?_replicate_flatten (q.tokens.map some) hrank hj
    simp only [length_map] at hget
    simp only [getElem_map, getElem_range, Nat.zero_add, count, hget]
    rw [getElem?_map, getElem?_eq_getElem (by simpa using hj)]
    rfl
  | false =>
    rw [map_map]
    apply map_congr_left
    intro p hp
    exact getElem?_restored hdec (position_lt hrank hp)

theorem length_ownPositions : (q.ownPositions w rank).length = q.localCount w := by
  unfold ownPositions
  cases hdec : q.decode with
  | true =>
    rw [if_pos rfl, length_range]
    unfold localCount
    rw [chunk_of_decode hdec, tailCount_of_decode hdec, Nat.add_zero]
  | false =>
    exact length_positions rank 0

theorem length_unpadMask (hw : 0 < w) : (q.unpadMask w).length = q.padded w := by
  have hle := q.count_le_padded hw
  unfold unpadMask
  rw [length_append, length_replicate, length_replicate]
  omega

theorem maskSelect_restored (hpre : q.decode = false) :
    maskSelect (q.unpadMask w) (q.restored w) = q.tokens.map some := by
  unfold unpadMask restored
  rw [hpre, if_neg Bool.false_ne_true, maskSelect_append (by simp [count]), maskSelect_false,
    append_nil]
  have htrue := maskSelect_true (q.tokens.map some)
  rw [length_map] at htrue
  exact htrue

theorem getElem?_restored_last (hw : 0 < w) (hne : q.tokens ≠ []) :
    (q.restored w)[q.count - 1]? = some q.tokens.getLast? := by
  have hpos : 0 < q.tokens.length := length_pos_iff.mpr hne
  have hlast : (q.tokens.map some)[q.count - 1]? = some q.tokens.getLast? := by
    rw [getElem?_map, getLast?_eq_getElem?]
    unfold count
    rw [getElem?_eq_getElem (by omega)]
    rfl
  unfold restored
  cases hdec : q.decode with
  | true =>
    have hget := getElem?_replicate_flatten (q.tokens.map some) hw (j := q.count - 1)
      (by simp [count]; omega)
    rw [Nat.zero_mul, Nat.zero_add] at hget
    rw [if_pos rfl, hget, hlast]
  | false =>
    rw [if_neg Bool.false_ne_true, getElem?_append_left (by simp [count]; omega), hlast]

end Req

/-! ## The arrays of the source -/

theorem getCumsumAndArange_eq {counts : List Nat} (hne : counts ≠ []) :
    getCumsumAndArange counts = .ok (cumsumFrom 0 counts, counts.flatMap range) := by
  unfold getCumsumAndArange
  rw [getLast?_cumsumFrom 0 hne, Nat.zero_add]
  show Except.ok (cumsumFrom 0 counts, batchedArange counts) = _
  rw [batchedArange_eq]

theorem maskAssign_eq {xs values r : List Nat} {mask : List Bool}
    (h : maskFill xs mask values = some r) : maskAssign xs mask values = .ok r := by
  have hcount : ∀ (xs values r : List Nat) (mask : List Bool), maskFill xs mask values = some r →
      mask.count true = values.length := by
    intro xs
    induction xs with
    | nil =>
      intro values r mask h
      cases mask <;> cases values <;> simp [maskFill] at h ⊢
    | cons x xs ih =>
      intro values r mask h
      cases mask with
      | nil => simp [maskFill] at h
      | cons b mask =>
        cases b with
        | false =>
          rw [maskFill, Option.map_eq_some_iff] at h
          obtain ⟨t, ht, -⟩ := h
          simpa using ih _ _ _ ht
        | true =>
          cases values with
          | nil => simp [maskFill] at h
          | cons v values =>
            rw [maskFill, Option.map_eq_some_iff] at h
            obtain ⟨t, ht, -⟩ := h
            simpa using ih _ _ _ ht
  unfold maskAssign
  rcases values with _ | ⟨v, _ | ⟨v', values⟩⟩
  · dsimp only
    rw [h]
  · rw [hcount _ _ _ _ h]
    dsimp only [length_singleton, replicate]
    rw [h]
  · dsimp only
    rw [h]

section Blocks

variable {w : Nat}

theorem zipWith_lt_replicate :
    zipWith (fun i c => decide (i < c)) (range (a + b)) (replicate (a + b) a) =
      replicate a true ++ replicate b false := by
  apply ext_getElem
  · simp
  intro i h1 h2
  simp only [getElem_zipWith, getElem_range, getElem_replicate,
    getElem_append, length_replicate]
  split
  · rename_i hlt
    simp [hlt]
  · rename_i hge
    simpa using hge

theorem maskFill_block (f g : Nat → Nat) :
    maskFill (replicate (a + b) 0) (replicate a true ++ replicate b false)
        ((range a).map f) = some ((range a).map f ++ replicate b 0) ∧
      maskFill ((range a).map f ++ replicate b 0)
        ((replicate a true ++ replicate b false).map (! ·)) ((range b).map g) =
        some ((range a).map f ++ (range b).map g) := by
  have hall := maskFill_all (replicate a 0) ((range a).map f) (by simp)
  have hnone := maskFill_none (replicate b 0)
  have hkeep := maskFill_none ((range a).map f)
  have hfill := maskFill_all (replicate b 0) ((range b).map g) (by simp)
  simp only [length_replicate, length_map, length_range] at hall hnone hkeep hfill
  have hfirst := maskFill_append hall (replicate b 0) [] (replicate b false)
  rw [append_nil, hnone, ← replicate_add] at hfirst
  have hsecond := maskFill_append hkeep (replicate b 0) ((range b).map g)
    (replicate b true)
  rw [hfill] at hsecond
  refine ⟨hfirst, ?_⟩
  rw [map_append, map_replicate, map_replicate]
  exact hsecond

theorem replicate_flatMap {ι γ : Type} (bs : List ι) (x : ι → List β) (n : ι → Nat)
    (hlen : ∀ b, (x b).length = n b) (c : γ) :
    replicate (bs.flatMap x).length c = bs.flatMap fun b => replicate (n b) c := by
  induction bs with
  | nil => rfl
  | cons b bs ih =>
    rw [flatMap_cons, length_append, replicate_add, ih, flatMap_cons, hlen]

/-- The positions of a rank, block by block. Dropping the tokens of the decode requests leaves the
tail chunks of the prefill requests. -/
theorem currentRankPositions_eq (decodes prefills : List (Req α × Nat))
    (hdec : ∀ b ∈ decodes, b.1.decode = true) (hpre : ∀ b ∈ prefills, b.1.decode = false)
    (hne : decodes ++ prefills ≠ []) (rank : Nat) :
    currentRankPositions w (decodes.map fun b => b.1.count).sum
        ((decodes ++ prefills).map fun b => b.1.localCount w)
        ((decodes ++ prefills).map fun b => b.1.chunk w) ((decodes ++ prefills).map Prod.snd) rank =
      .ok ((decodes ++ prefills).flatMap fun b => b.1.positions w rank b.2) := by
  let bs := decodes ++ prefills
  let mask : Req α × Nat → List Bool := fun b =>
    replicate (b.1.chunk w) true ++ replicate (b.1.tailCount w) false
  let head : Req α × Nat → List Nat := fun b =>
    (range (b.1.chunk w)).map fun j => b.2 + rank * b.1.chunk w + j
  let tail : Req α × Nat → List Nat := fun b =>
    (range (b.1.tailCount w)).map fun j => b.2 + (2 * w - rank - 1) * b.1.chunk w + j
  have hmask : zipWith (fun a c => decide (a < c))
      ((bs.map fun b => b.1.localCount w).flatMap range)
      (repeatEach (bs.map fun b => b.1.chunk w) (bs.map fun b => b.1.localCount w)) =
      bs.flatMap mask := by
    rw [repeatEach_map, flatMap_map, zipWith_flatMap _ _ _ (by simp)]
    apply flatMap_congr
    intro b _
    exact zipWith_lt_replicate (b.1.chunk w) (b.1.tailCount w)
  have hvalues : ∀ f : Nat → Nat → Nat,
      zipWith (· + ·) ((bs.map fun b => b.1.chunk w).flatMap range)
        (repeatEach (zipWith f (bs.map Prod.snd) (bs.map fun b => b.1.chunk w))
          (bs.map fun b => b.1.chunk w)) =
      bs.flatMap fun b => (range (b.1.chunk w)).map fun j => f b.2 (b.1.chunk w) + j := by
    intro f
    rw [zipWith_map, zipWith_self, repeatEach_map, flatMap_map,
      zipWith_flatMap _ _ _ (by simp)]
    apply flatMap_congr
    intro b _
    apply ext_getElem
    · simp
    · intro i h1 h2
      simp only [getElem_zipWith, getElem_range, getElem_replicate,
        getElem_map]
      omega
  have hhead : maskFill (replicate (bs.flatMap mask).length 0) (bs.flatMap mask)
      (bs.flatMap head) = some (bs.flatMap fun b =>
        head b ++ replicate (b.1.tailCount w) 0) := by
    rw [replicate_flatMap bs mask (fun b => b.1.localCount w)
      (fun b => by simp [mask, Req.localCount]) 0]
    apply maskFill_flatMap
    intro b _
    exact (maskFill_block (b.1.chunk w) (b.1.tailCount w) _ id).1
  have htail : maskFill (bs.flatMap fun b => head b ++ replicate (b.1.tailCount w) 0)
      ((bs.flatMap mask).map (! ·)) (bs.flatMap tail) =
      some (bs.flatMap fun b => b.1.positions w rank b.2) := by
    rw [map_flatMap]
    apply maskFill_flatMap
    intro b _
    exact (maskFill_block (b.1.chunk w) (b.1.tailCount w) _ _).2
  -- the decode requests have no tail chunk, and the slice leaves them out
  have hdrop : (bs.flatMap fun b => (range (b.1.chunk w)).map
      fun j => b.2 + (2 * w - rank - 1) * b.1.chunk w + j).drop
        (decodes.map fun b => b.1.count).sum = bs.flatMap tail := by
    have hlen : (decodes.flatMap fun b => (range (b.1.chunk w)).map
        fun j => b.2 + (2 * w - rank - 1) * b.1.chunk w + j).length =
        (decodes.map fun b => b.1.count).sum := by
      rw [length_flatMap]
      congr 1
      apply map_congr_left
      intro b hb
      simp [Req.chunk_of_decode (hdec b hb)]
    have hnil : decodes.flatMap tail = [] := by
      rw [flatMap_eq_nil_iff]
      intro b hb
      simp [tail, Req.tailCount_of_decode (hdec b hb)]
    rw [flatMap_append, flatMap_append, ← hlen, drop_left, hnil, nil_append]
    apply flatMap_congr
    intro b hb
    simp only [tail, Req.tailCount_of_prefill (hpre b hb)]
  unfold currentRankPositions
  rw [getCumsumAndArange_eq (by simpa using hne), ok_bind]
  dsimp only
  rw [getCumsumAndArange_eq (by simpa using hne), ok_bind]
  rw [hmask, hvalues fun s c => s + rank * c, maskAssign_eq hhead, ← drop_zipWith,
    hvalues fun s c => s + (2 * w - rank - 1) * c, hdrop]
  exact maskAssign_eq htail

end Blocks

end PCPManager

end VllmEcho
