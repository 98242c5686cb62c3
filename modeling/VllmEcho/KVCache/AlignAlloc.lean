import VllmEcho.KVCache.ManagerAlloc

/-!
# New blocks in align mode, and in every group

A mamba group in align mode keeps one running state and its speculative blocks at the end of the
table.  Before new blocks are appended, the speculative blocks of the previous step move behind the
blocks that are skipped; this only rearranges entries that are not cached.
-/

namespace VllmEcho

open Lib BlockPool List

variable {s n c : Nat} {t : List BlockRef} (alloc : Bool) {main : Nat}

namespace SingleTypeKVCacheManager

variable {p p' : BlockPool} {l : List BlockRef} {O U : BlockRef → Nat}
  {m m' : SingleTypeKVCacheManager} {id : ReqId}

/-- The moved speculative blocks are rearranged, never lost, and none enters the cached part. -/
theorem reuseLoop_effect (c : BlockRef) (S fuel idx n : Nat) (t : List BlockRef) (hn : n ≤ idx)
    (hidx : idx + fuel ≤ t.length) :
    (reuseLoop c S fuel idx t).length = t.length + min fuel (S - idx) ∧
      (∀ b, b ≠ c → (reuseLoop c S fuel idx t).count b = t.count b) ∧
      ∀ b, b ≠ c → ((reuseLoop c S fuel idx t).drop n).count b = (t.drop n).count b := by
  induction fuel generalizing idx t with
  | zero => exact ⟨by simp [reuseLoop], fun _ _ => rfl, fun _ _ => rfl⟩
  | succ fuel ih =>
    rw [reuseLoop]
    split <;> rename_i hS
    · obtain ⟨x, hx⟩ : ∃ x, t[idx]? = some x := ⟨_, getElem?_eq_getElem (by omega)⟩
      have hget : t.getD idx c = x := by simp [getD_eq_getElem?_getD, hx]
      rw [hget]
      have hx' : (t ++ [x])[idx]? = some x := by
        rw [getElem?_append_left (by omega)]
        exact hx
      obtain ⟨hlen, hcount, hdrop⟩ := ih (idx + 1) ((t ++ [x]).set idx c) (by omega) (by
        rw [length_set, length_append]
        omega)
      refine ⟨?_, fun b hb => ?_, fun b hb => ?_⟩
      · rw [hlen, length_set, length_append, length_singleton]
        omega
      · rw [hcount b hb]
        have hset := count_set_null hx' hb
        rw [count_append, count_singleton] at hset
        simp only [beq_iff_eq] at hset
        omega
      rw [hdrop b hb, drop_set, if_neg (by omega)]
      have hx'' : ((t ++ [x]).drop n)[idx - n]? = some x := by
        rw [getElem?_drop, Nat.add_sub_cancel' hn]
        exact hx'
      have hset := count_set_null hx'' hb
      rw [drop_append_of_le_length (by omega), count_append,
        count_singleton] at hset
      simp only [beq_iff_eq] at hset
      rw [drop_append_of_le_length (by omega)]
      omega
    · exact ⟨by omega, fun _ _ => rfl, fun _ _ => rfl⟩

def alignBlocks (blocksAllocated : Bool) (c s len : Nat) : Nat :=
  if c + s = len then 0 else if blocksAllocated then 1 else c + s - max len (c - 1)

/-- Up to null blocks a rearrangement, which the new blocks bring to the asked length. -/
theorem alignedTable_effect (nullBlock : BlockRef) (alloc : Bool) (hlt : t.length < c + s)
    (halloc : alloc = true → n + s ≤ t.length) (hn : n ≤ t.length) :
    (alignedTable nullBlock alloc (c + s - s - 1) s t).length + alignBlocks alloc c s t.length =
        c + s ∧ (∀ b, b ≠ nullBlock →
        (alignedTable nullBlock alloc (c + s - s - 1) s t).count b = t.count b) ∧
      ∀ b, b ≠ nullBlock →
        ((alignedTable nullBlock alloc (c + s - s - 1) s t).drop n).count b =
          (t.drop n).count b := by
  set S := c + s - s - 1 with hS
  obtain ⟨padded, hpad⟩ : ∃ x, x = t ++ List.replicate (S - t.length) nullBlock := ⟨_, rfl⟩
  have hcount : ∀ b, b ≠ nullBlock → padded.count b = t.count b := fun b hb => by
    rw [hpad, count_append, RowInv.count_replicate_null hb, Nat.add_zero]
  have hdrop : ∀ b, b ≠ nullBlock → (padded.drop n).count b = (t.drop n).count b := fun b hb => by
    rw [hpad, drop_append_of_le_length hn, count_append,
      RowInv.count_replicate_null hb, Nat.add_zero]
  have hlen : padded.length = t.length + (S - t.length) := by
    rw [hpad, length_append, length_replicate]
  have hne : c + s ≠ t.length := by omega
  unfold alignedTable alignBlocks
  simp only [← hpad, if_neg hne]
  cases alloc with
  | false =>
    simp only [Bool.false_eq_true, if_false]
    exact ⟨by omega, hcount, hdrop⟩
  | true =>
    have hs := halloc rfl
    obtain ⟨h1, h2, h3⟩ := reuseLoop_effect nullBlock S s (t.length - s) n padded (by omega)
      (by omega)
    simp only [if_true]
    refine ⟨by omega, fun b hb => (h2 b hb).trans (hcount b hb),
      fun b hb => (h3 b hb).trans (hdrop b hb)⟩

structure AlignReady (m : SingleTypeKVCacheManager) (id : ReqId) (c s : Nat) : Prop where
  pos : 0 < c
  cached_le_length : m.numCached id ≤ (m.blocksOf id).length
  allocated : id ∈ m.allocatedBlockReqs → m.numCached id + s ≤ (m.blocksOf id).length

def storeAligned (m : SingleTypeKVCacheManager) (id : ReqId) (s : Nat) (t : List BlockRef) :
    SingleTypeKVCacheManager :=
  { m.setBlocks id t with
    lastStateBlockIdx :=
      if id ∈ m.allocatedBlockReqs then
        m.lastStateBlockIdx.set id ((m.blocksOf id).length - 1 - s)
      else if 0 < (m.blocksOf id).length then
        m.lastStateBlockIdx.set id ((m.blocksOf id).length - 1)
      else m.lastStateBlockIdx
    allocatedBlockReqs :=
      if id ∈ m.allocatedBlockReqs then m.allocatedBlockReqs else m.allocatedBlockReqs ++ [id] }

theorem blocksOf_storeAligned : (m.storeAligned id s t).blocksOf id = t :=
  blocksOf_setBlocks m t

theorem rowUpdate_storeAligned (m : SingleTypeKVCacheManager) (id : ReqId) (s : Nat)
    (t : List BlockRef) : RowUpdate id m (m.storeAligned id s t) := by
  refine ⟨rfl, rfl, (rowUpdate_setBlocks m t).blocks, fun _ _ => rfl, fun i hi => ?_,
    fun i hi => ?_⟩
  · change Dict.get? (if _ then _ else _) i = _
    split_ifs
    · exact Dict.get?_set_ne _ hi
    · exact Dict.get?_set_ne _ hi
    · rfl
  · change i ∈ (if _ then _ else _) ↔ _
    split_ifs
    · exact Iff.rfl
    · simp [hi]

theorem storeAligned_tableOk (hs : m.kvCacheSpec.alignSpeculativeBlocks = some s)
    (ht : TableOk p.nullBlock m id) (hlen : (m.blocksOf id).length ≤ t.length)
    (hpos : 1 + s ≤ t.length) (hnd : (t.filter (· ≠ p.nullBlock)).Nodup) :
    TableOk p.nullBlock (m.storeAligned id s t) id := by
  have hspec : (m.storeAligned id s t).kvCacheSpec = m.kvCacheSpec := rfl
  refine ⟨by rwa [blocksOf_storeAligned], fun i hi => ?_, fun s' hs' _ => ?_⟩
  · rw [hspec, hs, blocksOf_storeAligned]
    refine ⟨rfl, ?_⟩
    change Dict.get? (if _ then _ else _) id = _ at hi
    split_ifs at hi with h1 h2
    · rw [Dict.get?_set_self] at hi
      cases hi
      omega
    · rw [Dict.get?_set_self] at hi
      cases hi
      omega
    · exact (ht.last_lt i hi).2.trans_le hlen
  · rw [hspec, hs] at hs'
    cases hs'
    rwa [blocksOf_storeAligned]

theorem alignBlocks_le {len : Nat} : alignBlocks alloc c s len ≤ if alloc then 1 else s + 1 := by
  unfold alignBlocks
  cases alloc with
  | true => split <;> simp
  | false =>
    simp only [Bool.false_eq_true, if_false]
    split <;> omega

theorem align_asserts {len : Nat} (hlt : len < c + s) :
    decide ((alignBlocks alloc c s len : Int) ≤ ((if alloc = true then 1 else s + 1 : Nat) : Int)) =
        true ∧ decide (len < c + s) = true := by
  rw [decide_eq_true_iff, decide_eq_true_iff]
  exact ⟨by exact_mod_cast alignBlocks_le alloc, hlt⟩

theorem required_message_ne (a b : Nat) :
    PyError.assertionError s!"num_required_blocks {a} < len(req_blocks) {b}" ≠ hashAssertion := by
  intro h
  have hhead := congrArg (fun s : String => s.toList.head?) (PyError.assertionError.inj h)
  simp [String.toList_append, toString] at hhead

/-- New blocks in align mode: the invariant is kept, or the call fails for one of the listed
reasons. -/
theorem allocateNewBlocksAlign_spec (h : MgrInv p l O U m) {id : ReqId} {k : Nat}
    (hs : m.kvCacheSpec.alignSpeculativeBlocks = some s)
    (hready : AlignReady m id (cdiv n m.blockSize) s)
    (hk : alignBlocks (decide (id ∈ m.allocatedBlockReqs)) (cdiv n m.blockSize) s
      (m.blocksOf id).length = k) :
    (∃ p' m' out t, m.allocateNewBlocksAlign p id n s = .ok (p', m', out) ∧ k ≤ l.length ∧
      MgrInv p' (l.drop k) O U m' ∧ Allocates p l m id k t p' m' ∧
      (m.blocksOf id).length ≤ cdiv n m.blockSize + s ∧
      (m'.blocksOf id).length = cdiv n m.blockSize + s) ∨
    ∃ e, m.allocateNewBlocksAlign p id n s = .error e ∧ e ≠ hashAssertion ∧
      ¬ ((m.blocksOf id).length ≤ cdiv n m.blockSize + s ∧ k ≤ l.length) := by
  set c := cdiv n m.blockSize with hc
  set alloc := decide (id ∈ m.allocatedBlockReqs) with halloc
  have ht := h.tables id
  by_cases heq : c + s = (m.blocksOf id).length
  · obtain rfl : 0 = k := (if_pos heq).symm.trans hk
    refine Or.inl ⟨p, m.openBlocks id, [], m.blocksOf id, ?_, Nat.zero_le _, h.openBlocks id,
      allocates_openBlocks, heq.ge, ?_⟩
    · simp only [allocateNewBlocksAlign, ← hc, if_pos heq]
    · rw [blocksOf_openBlocks, heq]
  by_cases hle : (m.blocksOf id).length ≤ c + s
  swap
  · have hlt : decide ((m.blocksOf id).length < c + s) = false := by
      rw [decide_eq_false_iff_not]
      omega
    refine Or.inr ⟨_, ?_, required_message_ne (c + s) (m.blocksOf id).length,
      fun hfit => hle hfit.1⟩
    simp only [allocateNewBlocksAlign, ← hc, if_neg heq, hlt, assertThat, Bool.false_eq_true,
      if_false, error_bind]
  obtain ⟨hlen, hcount, hdrop⟩ := alignedTable_effect p.nullBlock alloc (c := c) (by omega)
    (fun ha => hready.allocated (of_decide_eq_true ha)) hready.cached_le_length
  obtain ⟨hassert, hlt⟩ := align_asserts alloc (show (m.blocksOf id).length < c + s by omega)
  rw [hk] at hlen hassert
  set t := alignedTable p.nullBlock alloc (c + s - s - 1) s (m.blocksOf id) with htdef
  have hkk : ((c + s : Nat) : Int) - t.length = (k : Int) := by omega
  by_cases hcap : k ≤ l.length
  swap
  · obtain ⟨msg, hshort⟩ := getNewBlocks_short h.free (n := (k : Int)) (by omega)
    refine Or.inr ⟨.valueError msg, ?_, (fun he => by cases he), fun hfit => hcap hfit.2⟩
    simp only [allocateNewBlocksAlign, ← hc, if_neg heq, hlt, assertThat_true, ok_bind, ← halloc,
      ← htdef, hkk, hassert, hshort, error_bind]
  obtain ⟨p', hpop, hrow, hframe, hhash⟩ :=
    ((h.row id).rearrange hcount fun b hb => (hdrop b hb).le).pop hcap
  have hru := rowUpdate_storeAligned m id s (t ++ l.take k)
  have hlen' : (t ++ l.take k).length = c + s := by
    rw [length_append, length_take, Nat.min_eq_left hcap, hlen]
  have hnd : ((t ++ l.take k).filter (· ≠ p.nullBlock)).Nodup := by
    have hn := hrow.nodup
    rwa [hframe.nullBlock] at hn
  refine Or.inl ⟨p', m.storeAligned id s (t ++ l.take k),
    (t ++ l.take k).drop (m.blocksOf id).length, t, ?_, hcap, h.ofRow hru hframe ?_ ?_, ?_, hle, ?_⟩
  · unfold allocateNewBlocksAlign
    simp only [← hc, if_neg heq, hlt, assertThat_true, ok_bind, ← halloc, ← htdef, hkk, hassert,
      hpop, pure_eq_ok]
    simp only [storeAligned, halloc, decide_eq_true_eq]
  · rw [blocksOf_storeAligned]
    exact hrow
  · exact storeAligned_tableOk hs ht (by omega) (by have := hready.pos; omega) hnd
  · exact ⟨hru, blocksOf_storeAligned, hcount, rfl, rfl, hframe, hhash⟩
  · rw [blocksOf_storeAligned, hlen']

/-! ## Every kind of group -/

def requiredBlocks (spec : KVCacheSpec) (numTokens numTokensMainModel : Nat) : Nat :=
  match spec.kind with
  | .mamba .align s => cdiv numTokensMainModel spec.blockSize + s
  | .mamba _ s => cdiv (numTokens + spec.blockSize * s) spec.blockSize
  | _ => cdiv numTokens spec.blockSize

def newBlocks (m : SingleTypeKVCacheManager) (id : ReqId) (numTokens numTokensMainModel : Nat) :
    Nat :=
  match m.kvCacheSpec.alignSpeculativeBlocks with
  | some s => alignBlocks (decide (id ∈ m.allocatedBlockReqs))
      (cdiv numTokensMainModel m.blockSize) s (m.blocksOf id).length
  | none => requiredBlocks m.kvCacheSpec numTokens numTokensMainModel - (m.blocksOf id).length

theorem allocateNewBlocks_align (hs : m.kvCacheSpec.alignSpeculativeBlocks = some s) (p : BlockPool)
    (id : ReqId) (n main : Nat) :
    m.allocateNewBlocks p id n main = m.allocateNewBlocksAlign p id main s ∧
      requiredBlocks m.kvCacheSpec n main = cdiv main m.blockSize + s := by
  unfold KVCacheSpec.alignSpeculativeBlocks at hs
  split at hs <;> rename_i hkind
  · cases hs
    simp [allocateNewBlocks, requiredBlocks, hkind, blockSize]
  · cases hs

theorem allocateNewBlocks_base (hs : m.kvCacheSpec.alignSpeculativeBlocks = none)
    (p : BlockPool) (id : ReqId) (n main : Nat) :
    ∃ n', m.allocateNewBlocks p id n main = m.allocateNewBlocksBase p id n' ∧
      requiredBlocks m.kvCacheSpec n main = cdiv n' m.blockSize := by
  unfold allocateNewBlocks requiredBlocks
  unfold KVCacheSpec.alignSpeculativeBlocks at hs
  cases hkind : m.kvCacheSpec.kind with
  | mamba mode s =>
    cases mode with
    | align => simp [hkind] at hs
    | none => exact ⟨n + m.blockSize * s, rfl, rfl⟩
    | all => exact ⟨n + m.blockSize * s, rfl, rfl⟩
  | _ => exact ⟨n, rfl, rfl⟩

def ReadyFor (m : SingleTypeKVCacheManager) (id : ReqId) (main : Nat) : Prop :=
  ∀ s, m.kvCacheSpec.alignSpeculativeBlocks = some s →
    AlignReady m id (cdiv main m.blockSize) s ∧
      ((m.blocksOf id).length ≤ cdiv main m.blockSize + s →
        m.numCached id ≤ cdiv main m.blockSize)

def NewRound (id : ReqId) (n main : Nat) (p : BlockPool) (l : List BlockRef)
    (m : SingleTypeKVCacheManager) (p' : BlockPool) (l' : List BlockRef)
    (m' : SingleTypeKVCacheManager) : Prop :=
  newBlocks m id n main ≤ l.length ∧ l' = l.drop (newBlocks m id n main) ∧
    (∃ t, Allocates p l m id (newBlocks m id n main) t p' m') ∧
    (m'.blocksOf id).length =
      max (m.blocksOf id).length (requiredBlocks m.kvCacheSpec n main) ∧
    (∀ s, m.kvCacheSpec.alignSpeculativeBlocks = some s →
      (m.blocksOf id).length ≤ cdiv main m.blockSize + s) ∧
    m'.Settled id

/-- New blocks for a group of any kind. -/
theorem allocateNewBlocks_spec (h : MgrInv p l O U m) {id : ReqId} (hready : ReadyFor m id main) :
    (∃ p' m' out l', m.allocateNewBlocks p id n main = .ok (p', m', out) ∧ MgrInv p' l' O U m' ∧
      NewRound id n main p l m p' l' m') ∨
    ∃ e, m.allocateNewBlocks p id n main = .error e ∧ e ≠ hashAssertion ∧
      ¬ ((∀ s, m.kvCacheSpec.alignSpeculativeBlocks = some s →
        (m.blocksOf id).length ≤ cdiv main m.blockSize + s) ∧
        newBlocks m id n main ≤ l.length) := by
  unfold NewRound
  cases hs : m.kvCacheSpec.alignSpeculativeBlocks with
  | some s =>
    obtain ⟨hcall, hreq⟩ := allocateNewBlocks_align hs p id n main
    obtain ⟨hr, hcached⟩ := hready s hs
    rw [hcall]
    rcases allocateNewBlocksAlign_spec h hs hr rfl with
      ⟨p', m', out, t, hok, hcap, hinv, halloc, hle, hlen⟩ | ⟨e, herr, he, hnot⟩
    · have hnew : newBlocks m id n main = alignBlocks (decide (id ∈ m.allocatedBlockReqs))
          (cdiv main m.blockSize) s (m.blocksOf id).length := by
        rw [newBlocks, hs]
      rw [hnew]
      refine Or.inl ⟨p', m', out, _, hok, hinv, hcap, rfl, ⟨t, halloc⟩, by omega, ?_,
        fun s' hs' => ?_⟩
      · rintro s' ⟨⟩
        exact hle
      rw [halloc.rowUpdate.spec, hs] at hs'
      cases hs'
      have hsame : m'.numCached id = m.numCached id := by
        unfold numCached
        rw [halloc.cached]
      exact Or.inl (by omega)
    · refine Or.inr ⟨e, herr, he, fun hfit => hnot ⟨hfit.1 s rfl, ?_⟩⟩
      have hcap := hfit.2
      rwa [newBlocks, hs] at hcap
  | none =>
    obtain ⟨n', hcall, hreq⟩ := allocateNewBlocks_base hs p id n main
    have hnew : newBlocks m id n main = cdiv n' m.blockSize - (m.blocksOf id).length := by
      rw [newBlocks, hs, hreq]
    rw [hcall, hnew]
    by_cases hcap : cdiv n' m.blockSize - (m.blocksOf id).length ≤ l.length
    · obtain ⟨p', m', hok, hinv, halloc⟩ := allocateNewBlocksBase_spec h hcap
      refine Or.inl ⟨p', m', _, _, hok, hinv, hcap, rfl, ⟨_, halloc⟩, ?_, nofun, fun s' hs' => ?_⟩
      · rw [halloc.blocks, length_append, length_take]
        omega
      · rw [halloc.rowUpdate.spec, hs] at hs'
        cases hs'
    · obtain ⟨msg, hshort⟩ := allocateNewBlocksBase_short h (Nat.lt_of_not_le hcap)
      exact Or.inr ⟨_, hshort, nofun, fun hfit => hcap hfit.2⟩

end SingleTypeKVCacheManager

end VllmEcho
