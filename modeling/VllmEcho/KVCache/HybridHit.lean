import VllmEcho.KVCache.KVCacheManager

/-!
# Hits over all groups

What `find_longest_cache_hit` of the coordinator returns.  Every list consists of blocks cached
under the request's hashes.  The groups that are searched in every pass end within the returned
length; of the full-attention groups only those of the first attention group are cut to it.  Every
other attention group covers the length with its blocks.
-/

namespace VllmEcho

open Lib List Option BlockPool

variable {H : List (Option (List BlockRef))} {c n : Nat} {H' : List (Option (List BlockRef))}
  {maxLength align : Nat} {useEagle : Bool}

/-! ## Grouping by spec -/

variable (gs : List AttentionGroup)

def InAttentionGroups (g : Nat) (spec : KVCacheSpec) : Prop :=
  ∃ G ∈ gs, G.spec = spec ∧ g ∈ G.groupIds

variable {spec : KVCacheSpec} {g : Nat} {G : AttentionGroup}

theorem inAttentionGroups_cons {gs : List AttentionGroup} : InAttentionGroups (G :: gs) g spec ↔
      (G.spec = spec ∧ g ∈ G.groupIds) ∨ InAttentionGroups gs g spec := by
  simp [InAttentionGroups]

theorem inAttentionGroups_concat {pre : List AttentionGroup} :
    InAttentionGroups (pre ++ [G]) g spec ↔
      InAttentionGroups pre g spec ∨ (G.spec = spec ∧ g ∈ G.groupIds) := by
  simp only [InAttentionGroups, mem_append, mem_singleton, or_and_right, exists_or, exists_eq_left]

theorem inAttentionGroups_add (s : KVCacheSpec) (i : Nat) {gs : List AttentionGroup} :
    InAttentionGroups (addToAttentionGroups s i gs) g spec ↔
      (g = i ∧ spec = s) ∨ InAttentionGroups gs g spec := by
  induction gs with
  | nil => simp [addToAttentionGroups, InAttentionGroups, and_comm, eq_comm]
  | cons G gs ih =>
    rw [addToAttentionGroups]
    split <;> rename_i hG
    · rw [inAttentionGroups_cons, inAttentionGroups_cons, mem_append, mem_singleton, hG]
      constructor
      · rintro (⟨rfl, hg | rfl⟩ | hg)
        · exact Or.inr (Or.inl ⟨rfl, hg⟩)
        · exact Or.inl ⟨rfl, rfl⟩
        · exact Or.inr (Or.inr hg)
      · rintro (⟨rfl, rfl⟩ | ⟨rfl, hg⟩ | hg)
        · exact Or.inl ⟨rfl, Or.inr rfl⟩
        · exact Or.inl ⟨rfl, Or.inl hg⟩
        · exact Or.inr hg
    · rw [inAttentionGroups_cons, inAttentionGroups_cons]
      tauto

theorem inAttentionGroups_foldl (es : List (KVCacheSpec × Nat)) {gs : List AttentionGroup} :
    InAttentionGroups (es.foldl (fun gs e => addToAttentionGroups e.1 e.2 gs) gs) g spec ↔
      (spec, g) ∈ es ∨ InAttentionGroups gs g spec := by
  induction es generalizing gs with
  | nil => simp
  | cons e es ih =>
    rw [foldl_cons, ih, inAttentionGroups_add, mem_cons, Prod.ext_iff]
    tauto

variable (cfg : KVCacheConfig)

theorem inAttentionGroups_iff (g : Nat) (spec : KVCacheSpec) :
    InAttentionGroups cfg.attentionGroups g spec ↔ cfg.kvCacheGroups[g]? = some spec := by
  have hsplit : InAttentionGroups cfg.attentionGroups g spec ↔
      InAttentionGroups cfg.splitGroups g spec := by
    unfold InAttentionGroups KVCacheConfig.attentionGroups
    constructor
    · rintro ⟨G, hG, h⟩
      rcases mem_append.mp hG with hG | hG <;> exact ⟨G, (mem_filter.mp hG).1, h⟩
    · rintro ⟨G, hG, h⟩
      refine ⟨G, ?_, h⟩
      cases G.spec.isFullAttention <;> simp [hG]
  rw [hsplit, KVCacheConfig.splitGroups, inAttentionGroups_foldl, mk_mem_zipIdx_iff_getElem?]
  simp [InAttentionGroups]

theorem addToAttentionGroups_specs (s : KVCacheSpec) (i : Nat) (gs : List AttentionGroup) :
    (addToAttentionGroups s i gs).map (·.spec) =
      if s ∈ gs.map (·.spec) then gs.map (·.spec) else gs.map (·.spec) ++ [s] := by
  induction gs with
  | nil => simp [addToAttentionGroups]
  | cons G gs ih =>
    rw [addToAttentionGroups]
    by_cases hG : G.spec = s
    · simp [hG]
    · rw [if_neg hG, map_cons, ih]
      have hne : s ≠ G.spec := Ne.symm hG
      simp only [map_cons, mem_cons, hne, false_or]
      split <;> simp

theorem addToAttentionGroups_nonempty (s : KVCacheSpec) (i : Nat) {gs : List AttentionGroup}
    (hgs : ∀ G ∈ gs, G.groupIds ≠ []) :
    ∀ G ∈ addToAttentionGroups s i gs, G.groupIds ≠ [] := by
  induction gs with
  | nil => simp [addToAttentionGroups]
  | cons G gs ih =>
    have hrest : ∀ G' ∈ gs, G'.groupIds ≠ [] := fun G' h => hgs G' (mem_cons_of_mem G h)
    rw [addToAttentionGroups]
    split <;> intro G' hG' <;> rcases mem_cons.mp hG' with rfl | hmem
    · simp
    · exact hrest G' hmem
    · exact hgs _ mem_cons_self
    · exact ih hrest G' hmem

theorem splitGroups_wf (es : List (KVCacheSpec × Nat)) (gs : List AttentionGroup)
    (hnd : (gs.map (·.spec)).Nodup) (hgs : ∀ G ∈ gs, G.groupIds ≠ []) :
    ((es.foldl (fun gs e => addToAttentionGroups e.1 e.2 gs) gs).map (·.spec)).Nodup ∧
      ∀ G ∈ es.foldl (fun gs e => addToAttentionGroups e.1 e.2 gs) gs, G.groupIds ≠ [] := by
  induction es generalizing gs with
  | nil => exact ⟨hnd, hgs⟩
  | cons e es ih =>
    refine ih _ ?_ (addToAttentionGroups_nonempty e.1 e.2 hgs)
    rw [addToAttentionGroups_specs]
    split <;> rename_i hmem
    · exact hnd
    · exact nodup_append.mpr ⟨hnd, nodup_singleton _, fun a ha b hb => by
        rw [mem_singleton.mp hb]
        exact fun h => hmem (h ▸ ha)⟩

theorem attentionGroups_perm : cfg.attentionGroups.Perm cfg.splitGroups :=
  filter_append_perm _ _

theorem attentionGroups_nodup : (cfg.attentionGroups.map (·.spec)).Nodup := by
  rw [((attentionGroups_perm cfg).map _).nodup_iff]
  exact (splitGroups_wf _ [] nodup_nil (by simp)).1

theorem attentionGroups_nonempty : ∀ G ∈ cfg.attentionGroups, G.groupIds ≠ [] := fun G hG =>
  (splitGroups_wf _ [] nodup_nil (by simp)).2 G ((attentionGroups_perm cfg).mem_iff.mp hG)

/-! ## The fixed-point loop -/

variable {lists : List (List BlockRef)} {L : List BlockRef} (fuel : Nat) {pre : List AttentionGroup}
  {hi : Nat}

namespace KVCacheManager

variable {mgr : KVCacheManager} {hs : List BlockHash}

def StoredOk (mgr : KVCacheManager) (hs : List BlockHash) (H : List (Option (List BlockRef))) :
    Prop :=
  ∀ (g : Nat) (L : List BlockRef) (spec : KVCacheSpec), H[g]? = some (some L) →
    mgr.config.kvCacheGroups[g]? = some spec →
    HitOk mgr.blockPool g (blockHashesAt hs mgr.config.hashBlockSize spec.blockSize) L

/-- The stored lists when a pass that started with the length `hi` has visited the attention groups
of `pre` and arrived at the length `c`: those of the groups it has visited, and of all that are full
attention, reach to `c`. -/
structure Visited (mgr : KVCacheManager) (hs : List BlockHash) (pre : List AttentionGroup)
    (hi c : Nat) (H : List (Option (List BlockRef))) : Prop where
  le : c ≤ hi
  length : H.length = mgr.config.kvCacheGroups.length
  hit : StoredOk mgr hs H
  reaches : ∀ g spec L, mgr.config.kvCacheGroups[g]? = some spec →
    spec.isFullAttention = true ∨ InAttentionGroups pre g spec → H[g]? = some (some L) →
      c ≤ L.length * spec.blockSize
  within : ∀ g spec L, mgr.config.kvCacheGroups[g]? = some spec →
    InAttentionGroups pre g spec → spec.isFullAttention = false → H[g]? = some (some L) →
      L.length * spec.blockSize ≤ hi
  heads : ∀ G ∈ pre, ∃ L, H[G.groupIds.headD 0]? = some (some L)
  last : ∀ G, pre.getLast? = some G → G.spec.isFullAttention = false → ∀ g ∈ G.groupIds, ∀ L,
    H[g]? = some (some L) → L.length * G.spec.blockSize = c

theorem visited_none (c : Nat) :
    Visited mgr hs [] c c (replicate mgr.config.kvCacheGroups.length none) := by
  have hnone : ∀ {g : Nat} {L : List BlockRef},
      (replicate mgr.config.kvCacheGroups.length (none : Option (List BlockRef)))[g]? ≠
        some (some L) := by
    intro g L hg
    rw [getElem?_replicate] at hg
    split at hg <;> cases hg
  exact ⟨Nat.le_refl c, length_replicate, fun _ _ _ hg => absurd hg hnone,
    fun _ _ _ _ _ hg => absurd hg hnone, fun _ _ _ _ _ _ hg => absurd hg hnone, nofun, nofun⟩

theorem storeHits_length (gids : List Nat) : (storeHits gids lists H).length = H.length := by
  induction gids generalizing lists H with
  | nil => rfl
  | cons g gids ih =>
    cases lists with
    | nil => rfl
    | cons L lists => rw [storeHits, ih, length_set]

theorem storeHits_get {gids : List Nat} (hlen : lists.length = gids.length)
    (hg : (storeHits gids lists H)[g]? = some (some L)) :
    (H[g]? = some (some L) ∧ g ∉ gids) ∨ ∃ j : Nat, gids[j]? = some g ∧ lists[j]? = some L := by
  induction gids generalizing lists H with
  | nil => exact Or.inl ⟨hg, not_mem_nil⟩
  | cons g' gids ih =>
    cases lists with
    | nil => simp at hlen
    | cons L' lists =>
      rcases ih (by simpa using hlen) hg with ⟨h, hnot⟩ | ⟨j, hj, hL⟩
      · by_cases hgg : g' = g
        · subst hgg
          rw [getElem?_set_self'] at h
          cases hH : H[g']? with
          | none => simp [hH] at h
          | some x =>
            simp only [hH, Option.map_eq_map, Option.map_some, Function.const_apply,
              Option.some.injEq] at h
            exact Or.inr ⟨0, rfl, by rw [← h]; rfl⟩
        · rw [getElem?_set_ne hgg] at h
          exact Or.inl ⟨h, not_mem_cons_of_ne_of_not_mem (Ne.symm hgg) hnot⟩
      · exact Or.inr ⟨j + 1, hj, hL⟩

theorem storeHits_keeps (gids : List Nat) (lists : List (List BlockRef))
    (h : ∃ L, H[g]? = some (some L)) : ∃ L, (storeHits gids lists H)[g]? = some (some L) := by
  induction gids generalizing lists H with
  | nil => exact h
  | cons g' gids ih =>
    cases lists with
    | nil => exact h
    | cons L' lists =>
      apply ih
      obtain ⟨L, hL⟩ := h
      by_cases hg : g' = g
      · subst hg
        exact ⟨L', by simp [(lt_of_getElem? hL)]⟩
      · exact ⟨L, by rw [getElem?_set_ne hg, hL]⟩

theorem Visited.skip (h : Visited mgr hs pre hi c H) (hfull : G.spec.isFullAttention = true)
    (hsome : (H.getD (G.groupIds.headD 0) none).isSome) :
    Visited mgr hs (pre ++ [G]) hi (c / G.spec.blockSize * G.spec.blockSize) H := by
  have hle : c / G.spec.blockSize * G.spec.blockSize ≤ c := Nat.div_mul_le_self c _
  constructor
  case le => exact hle.trans h.le
  case length => exact h.length
  case hit => exact h.hit
  case reaches =>
    intro g spec L hspec hd hL
    refine hle.trans (h.reaches g spec L hspec ?_ hL)
    rw [inAttentionGroups_concat] at hd
    rcases hd with hd | hd | ⟨rfl, -⟩
    · exact Or.inl hd
    · exact Or.inr hd
    · exact Or.inl hfull
  case within =>
    intro g spec L hspec hd hnot hL
    rcases inAttentionGroups_concat.mp hd with hd | ⟨rfl, -⟩
    · exact h.within g spec L hspec hd hnot hL
    · exact nomatch hnot.symm.trans hfull
  case heads =>
    intro G' hG'
    rcases mem_append.mp hG' with hG' | hG'
    · exact h.heads G' hG'
    · obtain ⟨L, hL⟩ := isSome_iff_exists.mp hsome
      rw [getD_eq_getElem?_getD, getD_eq_iff] at hL
      rw [mem_singleton.mp hG']
      exact ⟨L, hL.resolve_right nofun⟩
  case last =>
    intro G' hG' hnot
    rw [getLast?_concat] at hG'
    obtain rfl := some.inj hG'
    exact nomatch hnot.symm.trans hfull

/-- A pass goes on with a search: the lists of this attention group now reach to the new length. -/
theorem Visited.search (h : Visited mgr hs pre hi c H) (hne : G.groupIds ≠ [])
    (hG : ∀ g ∈ G.groupIds, mgr.config.kvCacheGroups[g]? = some G.spec)
    (hfind : mgr.blockPool.findLongestCacheHit
      (blockHashesAt hs mgr.config.hashBlockSize G.spec.blockSize) c G.groupIds G.spec
      mgr.config.useEagle mgr.config.lcmBlockSize = .ok lists) :
    Visited mgr hs (pre ++ [G]) hi ((lists.headD []).length * G.spec.blockSize)
      (storeHits G.groupIds lists H) := by
  obtain ⟨k, hk, hlen, hall, hhit⟩ := findLongestCacheHit_spec hfind
  obtain ⟨g₀, gids, hids⟩ := exists_cons_of_ne_nil hne
  obtain ⟨L₀, rest, hcons⟩ : ∃ L₀ rest, lists = L₀ :: rest := by
    apply exists_cons_of_ne_nil
    rintro rfl
    rw [hids] at hlen
    cases hlen
  have hle : k * G.spec.blockSize ≤ c :=
    (Nat.mul_le_mul_right _ hk).trans (Nat.div_mul_le_self c _)
  have hhead : (lists.headD []).length = k := by
    rw [hcons]
    exact hall L₀ (hcons ▸ mem_cons_self)
  rw [hhead]
  -- a stored list is a new one, or an old one of another group
  have hget : ∀ {g spec L}, mgr.config.kvCacheGroups[g]? = some spec →
      (storeHits G.groupIds lists H)[g]? = some (some L) →
      (H[g]? = some (some L) ∧ g ∉ G.groupIds) ∨
      (spec = G.spec ∧ L.length = k ∧ HitOk mgr.blockPool g
        (blockHashesAt hs mgr.config.hashBlockSize G.spec.blockSize) L) := by
    intro g spec L hspec hg
    rcases storeHits_get hlen hg with hold | ⟨j, hj, hL⟩
    · exact Or.inl hold
    · have hspec' := hspec.symm.trans (hG g (mem_of_getElem? hj))
      exact Or.inr ⟨some.inj hspec', hall L (mem_of_getElem? hL), hhit j g L hj hL⟩
  constructor
  case le => exact hle.trans h.le
  case length => exact (storeHits_length _).trans h.length
  case hit =>
    intro g L spec hg hspec
    rcases hget hspec hg with ⟨hold, -⟩ | ⟨rfl, -, hnew⟩
    · exact h.hit g L spec hold hspec
    · exact hnew
  case reaches =>
    intro g spec L hspec hd hg
    rw [inAttentionGroups_concat] at hd
    rcases hget hspec hg with ⟨hold, hnot⟩ | ⟨rfl, hlength, -⟩
    · refine hle.trans (h.reaches g spec L hspec ?_ hold)
      exact hd.imp_right fun hd => hd.resolve_right fun hin => hnot hin.2
    · rw [hlength]
  case within =>
    intro g spec L hspec hd hfull hg
    rcases hget hspec hg with ⟨hold, hnot⟩ | ⟨rfl, hlength, -⟩
    · have hd := (inAttentionGroups_concat.mp hd).resolve_right fun hin => hnot hin.2
      exact h.within g spec L hspec hd hfull hold
    · rw [hlength]
      exact hle.trans h.le
  case heads =>
    intro G' hG'
    rcases mem_append.mp hG' with hG' | hG'
    · exact storeHits_keeps _ _ (h.heads G' hG')
    · have hlt : g₀ < H.length := by
        rw [h.length]
        exact lt_of_getElem? (hG g₀ (hids ▸ mem_cons_self))
      rw [mem_singleton.mp hG', hids, hcons, storeHits]
      exact storeHits_keeps _ _ ⟨L₀, by simp [hlt]⟩
  case last =>
    intro G' hG' _ g hg L hL
    rw [getLast?_concat] at hG'
    obtain rfl := some.inj hG'
    rcases hget (hG g hg) hL with ⟨-, hnot⟩ | ⟨-, hlength, -⟩
    · exact absurd hg hnot
    · rw [hlength]

theorem hybridPass_visited (hgs : ∀ G ∈ gs, G ∈ mgr.config.attentionGroups)
    (h : Visited mgr hs pre hi c H) (hok : mgr.hybridPass hs gs c H = .ok (n, H')) :
    Visited mgr hs (pre ++ gs) hi n H' := by
  induction gs generalizing pre c H with
  | nil =>
    cases hok
    rw [append_nil]
    exact h
  | cons G gs ih =>
    have hG := hgs G mem_cons_self
    have hgs' : ∀ G' ∈ gs, G' ∈ mgr.config.attentionGroups :=
      fun G' hG' => hgs G' (mem_cons_of_mem G hG')
    rw [append_cons]
    rw [hybridPass] at hok
    split at hok <;> rename_i hfull
    · -- a full-attention group that has been searched is not searched again
      rw [Bool.and_eq_true] at hfull
      exact ih hgs' (h.skip hfull.1 hfull.2) hok
    · obtain ⟨lists, hfind, hok⟩ := of_bind hok
      refine ih hgs' (h.search (attentionGroups_nonempty mgr.config G hG) (fun g hg => ?_) hfind)
        hok
      exact (inAttentionGroups_iff mgr.config g G.spec).mp ⟨G, hG, rfl, hg⟩

/-- With two attention groups, of which the first is full attention, the pass ends with a search of
the second. -/
theorem Visited.simple (h : Visited mgr hs mgr.config.attentionGroups hi c H)
    (hsimple : mgr.config.isSimpleHybrid = true) :
    Visited mgr hs mgr.config.attentionGroups c c H := by
  refine { h with le := Nat.le_refl c, within := fun g spec L hspec hd hfull hL => ?_ }
  unfold KVCacheConfig.isSimpleHybrid at hsimple
  split at hsimple
  · rename_i G₁ G₂ hgs
    obtain ⟨G, hG, rfl, hg⟩ := hd
    rw [hgs] at hG
    obtain rfl : G = G₂ := by
      rcases mem_cons.mp hG with rfl | hG
      · exact nomatch hfull.symm.trans hsimple
      · exact mem_singleton.mp hG
    exact (h.last G (by rw [hgs]; rfl) hfull g hg L hL).le
  · cases hsimple

/-- The last pass of the fixed-point loop has visited every attention group at one length. -/
theorem hybridLoop_visited (hfuel : c < fuel) (h : Visited mgr hs [] c c H)
    (hok : mgr.hybridLoop hs fuel c H = .ok (n, H')) :
    n ≤ c ∧ Visited mgr hs mgr.config.attentionGroups n n H' := by
  induction fuel generalizing c H with
  | zero => exact absurd hfuel (Nat.not_lt_zero c)
  | succ fuel ih =>
    obtain ⟨⟨c', H₁⟩, hpass, hok⟩ := of_bind hok
    have hvisited := hybridPass_visited _ (fun G hG => hG) h hpass
    have hle := hvisited.le
    simp only at hok
    split at hok
    · rename_i hend
      cases hok
      obtain rfl := Nat.le_antisymm hle hend
      exact ⟨hle, hvisited⟩
    split at hok
    · rename_i hsimple
      cases hok
      exact ⟨hle, hvisited.simple hsimple⟩
    -- the next pass starts with what this one has stored
    have hstart : Visited mgr hs [] c' c' H₁ := by
      refine ⟨Nat.le_refl c', hvisited.length, hvisited.hit, fun g spec L hspec hd => ?_, ?_,
        nofun, nofun⟩
      · exact hvisited.reaches g spec L hspec (hd.imp_right nofun)
      · exact fun g spec L _ hd => nomatch hd
    obtain ⟨hle', hend⟩ := ih (by omega) hstart hok
    exact ⟨hle'.trans hle, hend⟩

theorem truncateHits_get {cfg : KVCacheConfig} (h : (truncateHits cfg n H)[g]? = some (some L)) :
    ∃ L₀ k, H[g]? = some (some L₀) ∧ L = L₀.take k := by
  have hself : H[g]? = some (some L) → ∃ L₀ k, H[g]? = some (some L₀) ∧ L = L₀.take k :=
    fun hH => ⟨L, L.length, hH, take_length.symm⟩
  unfold truncateHits at h
  split at h
  · rename_i G _
    split at h
    · rw [getElem?_mapIdx, map_eq_some_iff] at h
      obtain ⟨x, hx, hif⟩ := h
      split at hif
      · obtain ⟨L₀, rfl, rfl⟩ := map_eq_some_iff.mp hif
        exact ⟨L₀, n / G.spec.blockSize, hx, rfl⟩
      · exact hself (hif ▸ hx)
    · exact hself h
  · exact hself h

theorem truncateHits_length : (truncateHits cfg n H).length = H.length := by
  unfold truncateHits
  split
  · split
    · exact length_mapIdx
    · rfl
  · rfl

theorem truncateHits_of_notMem {cfg : KVCacheConfig}
    (hg : ∀ G, cfg.attentionGroups.head? = some G → g ∉ G.groupIds) :
    (truncateHits cfg n H)[g]? = H[g]? := by
  unfold truncateHits
  split
  · rename_i G hG
    split
    · rw [getElem?_mapIdx]
      simp only [if_neg (hg G hG)]
      exact map_id'
    · rfl
  · rfl

/-- The second attention group is not cut, and its list reaches `c`. -/
theorem Visited.block (h : Visited mgr hs mgr.config.attentionGroups hi c H)
    (htwo : 1 < mgr.config.attentionGroups.length) (hc : 0 < c) :
    ∃ L ∈ (truncateHits mgr.config c H).map (·.getD []), L ≠ [] := by
  match hgs : mgr.config.attentionGroups with
  | [] => simp [hgs] at htwo
  | [_] => simp [hgs] at htwo
  | G₁ :: G₂ :: gs =>
    have hmem : ∀ G ∈ mgr.config.attentionGroups, ∀ g ∈ G.groupIds,
        mgr.config.kvCacheGroups[g]? = some G.spec := fun G hG g hg =>
      (inAttentionGroups_iff mgr.config g G.spec).mp ⟨G, hG, rfl, hg⟩
    have hG₂ : G₂ ∈ mgr.config.attentionGroups := by simp [hgs]
    obtain ⟨L, hL⟩ := h.heads G₂ hG₂
    have hg₂ : G₂.groupIds.headD 0 ∈ G₂.groupIds := by
      obtain ⟨g, gids, hids⟩ := exists_cons_of_ne_nil (attentionGroups_nonempty mgr.config G₂ hG₂)
      simp [hids]
    have hspec := hmem G₂ hG₂ _ hg₂
    have hcut : (truncateHits mgr.config c H)[G₂.groupIds.headD 0]? = some (some L) := by
      rw [truncateHits_of_notMem, hL]
      intro G hG hg
      rw [hgs] at hG
      cases hG
      have hspec' := hmem G₁ (by simp [hgs]) _ hg
      rw [hspec] at hspec'
      have hnd := attentionGroups_nodup mgr.config
      rw [hgs, map_cons, map_cons, nodup_cons] at hnd
      exact hnd.1 (by rw [some.inj hspec']; exact mem_cons_self)
    refine ⟨L, mem_map.mpr ⟨some L, mem_of_getElem? hcut, rfl⟩, ?_⟩
    rintro rfl
    have hreach := h.reaches _ _ _ hspec (Or.inr ⟨G₂, hG₂, rfl, hg₂⟩) hL
    rw [length_nil, Nat.zero_mul] at hreach
    exact absurd hc (Nat.not_lt.mpr hreach)

end KVCacheManager

/-! ## The result -/

structure KVCacheConfig.Checked : Prop where
  unitary : cfg.enableCaching = true → ∀ spec, cfg.kvCacheGroups = [spec] →
    cfg.hashBlockSize = spec.blockSize
  divides : cfg.enableCaching = true → ∀ spec ∈ cfg.kvCacheGroups,
    spec.blockSize % cfg.hashBlockSize = 0
  hybrid : cfg.enableCaching = true → (∀ spec, cfg.kvCacheGroups ≠ [spec]) →
    1 < cfg.attentionGroups.length

structure HitsOk (p : BlockPool) (hs : List BlockHash) (hits : List (List BlockRef)) (n : Nat) :
    Prop where
  length : hits.length = cfg.kvCacheGroups.length
  hit : ∀ (g : Nat) (spec : KVCacheSpec), cfg.kvCacheGroups[g]? = some spec →
    HitOk p g (blockHashesAt hs cfg.hashBlockSize spec.blockSize) (hits.getD g [])
  within : ∀ (g : Nat) (spec : KVCacheSpec), cfg.kvCacheGroups[g]? = some spec →
    spec.isFullAttention = false → (hits.getD g []).length * spec.blockSize ≤ n

theorem hitsOk_replicate (p : BlockPool) (hs : List BlockHash) :
    HitsOk cfg p hs (replicate cfg.kvCacheGroups.length []) n := by
  have hget : ∀ g, (replicate cfg.kvCacheGroups.length ([] : List BlockRef)).getD g [] = [] := by
    intro g
    rw [getD_eq_getElem?_getD, getElem?_replicate]
    split <;> rfl
  refine ⟨length_replicate, fun g spec _ => ?_, fun g spec _ _ => ?_⟩
  · rw [hget]
    exact hitOk_nil _ _ _
  · rw [hget, length_nil, Nat.zero_mul]
    exact Nat.zero_le n

variable {request : RequestView}

namespace KVCacheManager

variable {mgr : KVCacheManager} {hs : List BlockHash} {hits : List (List BlockRef)}

/-- What the coordinator returns, for every configuration that its constructor accepts. -/
theorem findLongestCacheHit_hitsOk (hcfg : mgr.config.Checked)
    (hok : mgr.findLongestCacheHit hs maxLength = .ok (hits, n)) :
    HitsOk mgr.config mgr.blockPool hs hits n ∧ n ≤ maxLength ∧
      (0 < n → ∃ L ∈ hits, L ≠ []) := by
  unfold findLongestCacheHit at hok
  simp only at hok
  split at hok <;> rename_i hen
  · split at hok
    · rename_i spec hgroups
      rw [bind_eq_ok] at hok
      obtain ⟨lists, hfind, hok⟩ := hok
      cases hok
      obtain ⟨k, hk, hlen, hall, hhit⟩ := findLongestCacheHit_spec hfind
      obtain ⟨L, rfl⟩ : ∃ L, hits = [L] := length_eq_one_iff.mp (by simpa using hlen)
      have hbound : L.length * spec.blockSize ≤ maxLength := by
        rw [hall L mem_cons_self]
        exact (Nat.mul_le_mul_right _ hk).trans (Nat.div_mul_le_self _ _)
      have hblock : 0 < L.length * spec.blockSize → L ≠ [] := by
        rintro hpos rfl
        simp at hpos
      refine ⟨⟨by simp [hgroups], fun g spec' hspec => ?_, fun g spec' hspec _ => ?_⟩, hbound,
        fun hn => ⟨L, mem_cons_self, hblock hn⟩⟩
      all_goals
        rw [hgroups] at hspec
        obtain ⟨rfl, rfl⟩ : g = 0 ∧ spec = spec' := by
          cases g with
          | zero => exact ⟨rfl, some.inj hspec⟩
          | succ g => simp at hspec
      · rw [blockHashesAt, if_pos (hcfg.unitary hen spec hgroups).symm]
        exact hhit 0 0 L rfl rfl
      · exact le_rfl
    · rename_i hhybrid
      rw [bind_eq_ok] at hok
      obtain ⟨⟨c, H⟩, hloop, hok⟩ := hok
      cases hok
      obtain ⟨hle, hvisited⟩ :=
        hybridLoop_visited (maxLength + 1) (Nat.lt_succ_self _) (visited_none _) hloop
      have hget : ∀ g, ((truncateHits mgr.config c H).map (·.getD [])).getD g [] = [] ∨
          ∃ L₀ k, H[g]? = some (some L₀) ∧
            ((truncateHits mgr.config c H).map (·.getD [])).getD g [] = L₀.take k := by
        intro g
        rw [getD_eq_getElem?_getD, getElem?_map]
        cases hT : (truncateHits mgr.config c H)[g]? with
        | none => exact Or.inl rfl
        | some x =>
          cases x with
          | none => exact Or.inl rfl
          | some L =>
            obtain ⟨L₀, k, hH, rfl⟩ := truncateHits_get hT
            exact Or.inr ⟨L₀, k, hH, rfl⟩
      refine ⟨⟨?_, fun g spec hspec => ?_, fun g spec hspec hfull => ?_⟩, hle,
        hvisited.block (hcfg.hybrid hen hhybrid)⟩
      · rw [length_map, truncateHits_length, hvisited.length]
      · rcases hget g with h | ⟨L₀, k, hH, h⟩
        · rw [h]
          exact hitOk_nil _ _ _
        · rw [h]
          exact (hvisited.hit g L₀ spec hH hspec).take k
      rcases hget g with h | ⟨L₀, k, hH, h⟩
      · rw [h, length_nil, Nat.zero_mul]
        exact Nat.zero_le _
      · rw [h]
        exact (Nat.mul_le_mul_right _ (length_take_le' _ _)).trans
          (hvisited.within g spec L₀ hspec ((inAttentionGroups_iff _ g spec).mpr hspec) hfull hH)
  · cases hok
    exact ⟨hitsOk_replicate _ _ _, Nat.zero_le _, fun hn => absurd hn (Nat.lt_irrefl 0)⟩

theorem getComputedBlocks_hitsOk (hcfg : mgr.config.Checked)
    (hok : mgr.getComputedBlocks request = .ok (hits, n)) :
    HitsOk mgr.config mgr.blockPool request.blockHashes hits n ∧ n ≤ request.numTokens - 1 ∧
      (0 < n → ∃ L ∈ hits, L ≠ []) := by
  unfold getComputedBlocks at hok
  split at hok
  · cases hok
    exact ⟨hitsOk_replicate _ _ _, Nat.zero_le _, fun hn => absurd hn (Nat.lt_irrefl 0)⟩
  · exact findLongestCacheHit_hitsOk hcfg hok

end KVCacheManager

/-! ## Exceptions of the search -/

variable {mgr : KVCacheManager} {bs : Nat} (i : Nat)

section Errors

variable {p : BlockPool} {gids : List Nat} {hs : List BlockHash}

theorem slidingLoop_ne {needed : Nat} (c : Nat) {rows : List HitRow} :
    p.slidingLoop hs gids bs align needed i c rows ≠ .error hashAssertion := by
  induction i generalizing c rows with
  | zero => exact ok_ne_error
  | succ i ih =>
    rw [slidingLoop]
    split
    · intro h
      cases h
    split
    · exact ih _
    · split
      · exact ih _
      · split
        · exact ok_ne_error
        · exact ih _

theorem chunkedLoop_ne : p.chunkedLoop gids n hs ≠ .error hashAssertion := by
  rw [chunkedLoop_eq]
  split <;> nofun

theorem mambaLoop_ne : p.mambaLoop hs gids bs align i ≠ .error hashAssertion := by
  induction i with
  | zero => exact ok_ne_error
  | succ i ih =>
    rw [mambaLoop]
    split
    · intro h
      cases h
    · split
      · exact ih
      · split
        · exact ih
        · exact ok_ne_error

theorem slidingWindowHit_ne {w : Nat} :
    p.slidingWindowHit hs maxLength gids bs w useEagle align ≠ .error hashAssertion := by
  refine bind_ne_error (slidingLoop_ne _ _) fun r => ?_
  simp only
  generalize (if r.2.2 = true then r.1 else _) = rows
  split <;> nofun

theorem chunkedLocalHit_ne :
    p.chunkedLocalHit hs maxLength gids bs c useEagle align ≠ .error hashAssertion := by
  apply bind_ne_error (assertThat_ne_error (by decide))
  intro _
  apply bind_ne_error (assertThat_ne_error (by decide))
  exact fun _ => bind_ne_error chunkedLoop_ne fun _ => nofun

theorem groupHit_ne :
    p.findLongestCacheHit hs maxLength gids spec useEagle align ≠ .error hashAssertion := by
  refine bind_ne_error ?_ fun _ => nofun
  unfold searchHits
  split
  · nofun
  · nofun
  · exact slidingWindowHit_ne
  · exact chunkedLocalHit_ne
  · exact mambaLoop_ne _

theorem hybridPass_ne : mgr.hybridPass hs gs c H ≠ .error hashAssertion := by
  induction gs generalizing c H with
  | nil => nofun
  | cons G gs ih =>
    rw [KVCacheManager.hybridPass]
    split
    · exact ih
    · exact bind_ne_error groupHit_ne fun _ => ih

theorem hybridLoop_ne : mgr.hybridLoop hs fuel c H ≠ .error hashAssertion := by
  induction fuel generalizing c H with
  | zero => nofun
  | succ fuel ih =>
    refine bind_ne_error (hybridPass_ne _) fun _ => ?_
    simp only
    split
    · nofun
    · split
      · nofun
      · exact ih

theorem getComputedBlocks_ne : mgr.getComputedBlocks request ≠ .error hashAssertion := by
  unfold KVCacheManager.getComputedBlocks
  split
  · nofun
  unfold KVCacheManager.findLongestCacheHit
  simp only
  split
  · split
    · exact bind_ne_error groupHit_ne fun _ => nofun
    · exact bind_ne_error (hybridLoop_ne _) fun _ => nofun
  · nofun

end Errors

end VllmEcho
