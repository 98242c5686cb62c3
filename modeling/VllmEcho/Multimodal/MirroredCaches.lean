import VllmEcho.Multimodal.LRUCache

/-!
# The sender cache and the receiver cache

`BaseMultiModalProcessor._merge_mm_kwargs` updates the cache of P0 modality by modality, in the
order of `mm_hashes`, and `get_and_update_features` the cache of P1 by position: the placeholders
are flattened in the order of `mm_placeholders` and sorted by offset.  An item stands here for its
size, which is the same on both sides.
-/

namespace VllmEcho

open Lib LRUCache List

structure MmItem where
  modality : String
  mmHash : String
  offset : Nat
  deriving DecidableEq

/-- The items of a request in the order of `mm_hashes`, and the keys of `mm_placeholders` in theirs:
with audio taken out of a video the two orders differ. -/
structure MmRequest where
  items : List MmItem
  modalities : List String
  nodup : modalities.Nodup
  covered : ∀ item ∈ items, item.modality ∈ modalities

abbrev MmCache := LRUCache String Nat

variable (fuel : Nat) (size : String → Nat) (s : MmCache) (features : List (MmItem × Option Nat))
  (capacity : Nat) {request : MmRequest}

namespace MirroredCaches

def getAndUpdateItem (mmItem : Option Nat) (mmHash : String) :
    ExceptT PyError Option (Option Nat × MmCache) :=
  match s.get mmHash with
  | (some v, s) => pure (some v, s)
  | (none, s) => match mmItem with
    | none => throw (.assertionError s!"Expected a cached item for mm_hash='{mmHash}'")
    | some v => ExceptT.mk (match s.put fuel mmHash v with
      | none => none
      | some (_, some e) => some (.error e)
      | some (s, none) => some (.ok (none, s)))

def updateItems (fuel : Nat) : List (String × Option Nat) → MmCache →
    ExceptT PyError Option (List (Option Nat) × MmCache)
  | [], s => pure ([], s)
  | (mmHash, mmItem) :: rest, s => do
    let (cached, s) ← getAndUpdateItem fuel s mmItem mmHash
    let (sent, s) ← updateItems fuel rest s
    pure ((if cached.isSome then none else mmItem) :: sent, s)

def touchAll (hashes : List String) : MmCache :=
  hashes.foldl LRUCache.touch s

def getCacheMissingItems (hashes : List String) : List (String × Option Nat) :=
  hashes.map fun h => (h, if s.data.contains h then none else some (size h))

/-- `_merge_mm_kwargs`; whether an item is cached was asked before the touches. -/
def mergeMmKwargs (hashes : List String) : ExceptT PyError Option (List (Option Nat) × MmCache) :=
  updateItems fuel (getCacheMissingItems size s hashes) (touchAll s hashes)

def getAndUpdateFeatures : ExceptT PyError Option (List (Option Nat) × MmCache) :=
  updateItems fuel (features.map fun f => (f.1.mmHash, f.2))
    (touchAll s (features.map fun f => f.1.mmHash))

def flatItems (modalities : List String) : List (MmItem × Option Nat) :=
  modalities.flatMap fun modality => features.filter (·.1.modality = modality)

def argsortMmPositions (modalities : List String) : List (MmItem × Option Nat) :=
  (flatItems features modalities).insertionSort fun a b => a.1.offset ≤ b.1.offset

def serve (caches : MmCache × MmCache) (request : MmRequest) :
    ExceptT PyError Option (MmCache × MmCache) := do
  let (sent, sender) ← mergeMmKwargs fuel size caches.1 (request.items.map MmItem.mmHash)
  let (_, receiver) ← getAndUpdateFeatures fuel caches.2
    (argsortMmPositions (request.items.zip sent) request.modalities)
  pure (sender, receiver)

def serveAll (size : String → Nat) (requests : List MmRequest) :
    ExceptT PyError Option (MmCache × MmCache) :=
  requests.foldlM (serve fuel size) (init capacity id, init capacity id)

def totalSize (hashes : List String) : Nat := (hashes.dedup.map size).sum

/-- The items follow each other in the prompt as they do in the request, no two of them start at the
same offset, and the cache has room for them. -/
def ServedInOrder (size : String → Nat) (request : MmRequest) : Prop :=
  request.items.Pairwise (·.offset < ·.offset) ∧
    totalSize size (request.items.map MmItem.mmHash) ≤ capacity

/-- A cache in which the keys of `hashes` are touched: they come last in the order, and they alone
can stand there without an item. -/
structure Serving (hashes : List String) (s : MmCache) : Prop where
  nodup : s.order.Nodup
  unpinned : s.pinnedItems = []
  getsizeof : s.getsizeof = id
  sizes : ∀ k v, s.data.get? k = some v → v = size k
  last : s.order.Pairwise fun a b => a ∈ hashes → b ∈ hashes
  touched : ∀ k ∈ hashes, k ∈ s.order
  stored : ∀ k ∈ s.data.keys, k ∈ s.order
  known : ∀ k ∈ s.order, k ∈ s.data.keys ∨ k ∈ hashes
  fits : s.currsize ≤ s.capacity

section

variable {size : String → Nat} {hashes : List String} {s : MmCache} {h : String} {fuel : Nat}

theorem serving_init : Serving size [] (init capacity id) :=
  ⟨nodup_nil, rfl, rfl, nofun, List.Pairwise.nil, nofun, nofun, nofun, Nat.zero_le capacity⟩

namespace Serving

section

variable (hs : Serving size hashes s)
include hs

theorem touch {hashes' : List String} (hmem : ∀ k, k ∈ hashes' ↔ k = h ∨ k ∈ hashes) :
    Serving size hashes' (s.touch h) where
  nodup := nodup_touch hs.nodup
  unpinned := hs.unpinned
  getsizeof := hs.getsizeof
  sizes := hs.sizes
  last := by
    refine pairwise_append.mpr ⟨?_, pairwise_singleton .., fun a _ b hb _ => ?_⟩
    · refine (hs.last.sublist erase_sublist).imp_of_mem fun {a b} ha _ hab ha' => ?_
      have hne : a ≠ h := fun heq => hs.nodup.not_mem_erase (heq ▸ ha)
      exact (hmem b).mpr (Or.inr (hab (((hmem a).mp ha').resolve_left hne)))
    · exact (hmem b).mpr (Or.inl (mem_singleton.mp hb))
  touched k hk := mem_touch.mpr (((hmem k).mp hk).imp_right (hs.touched k))
  stored k hk := mem_touch.mpr (Or.inr (hs.stored k hk))
  known k hk := by
    rcases mem_touch.mp hk with rfl | hk
    · exact Or.inr ((hmem k).mpr (Or.inl rfl))
    · exact (hs.known k hk).imp_right fun hk => (hmem k).mpr (Or.inr hk)
  fits := hs.fits

theorem length_touch (hh : h ∈ hashes) : (s.touch h).order.length = s.order.length := by
  have hmem := hs.touched h hh
  have hpos := length_pos_of_mem hmem
  rw [LRUCache.touch, length_append, length_erase_of_mem hmem, length_singleton]
  omega

theorem delItem (hh : h ∉ hashes) : Serving size hashes (s.delItem h) where
  nodup := hs.nodup.erase h
  unpinned := by rw [LRUCache.delItem, hs.unpinned]; rfl
  getsizeof := hs.getsizeof
  sizes k v hv := by
    refine hs.sizes k v ?_
    rw [LRUCache.delItem, Dict.get?_erase] at hv
    split at hv
    · cases hv
    · exact hv
  last := hs.last.sublist erase_sublist
  touched k hk := (mem_erase_of_ne fun heq : k = h => hh (heq ▸ hk)).mpr (hs.touched k hk)
  stored k hk := by
    obtain ⟨hne, hk⟩ := mem_keys_erase.mp hk
    exact (mem_erase_of_ne hne).mpr (hs.stored k hk)
  known k hk := by
    obtain ⟨hne, hk⟩ := hs.nodup.mem_erase_iff.mp hk
    exact (hs.known k hk).imp_left fun hk => mem_keys_erase.mpr ⟨hne, hk⟩
  fits := by
    have hsum := s.data.sum_erase (fun _ v => s.getsizeof v) h
    have hfits : s.data.sum (fun _ v => s.getsizeof v) ≤ s.capacity := hs.fits
    show (s.data.erase h).sum (fun _ v => s.getsizeof v) ≤ s.capacity
    omega

/-- When only items of the request are left, there is room for the next of them. -/
theorem room (hall : ∀ k ∈ s.order, k ∈ hashes) (hh : h ∈ hashes)
    (hnew : h ∉ s.data.keys) : s.currsize + size h ≤ totalSize size hashes := by
  have hsize : s.currsize = (s.data.keys.map size).sum := by
    rw [currsize, hs.getsizeof, Dict.keys, map_map]
    refine congrArg List.sum (map_congr_left fun e he => ?_)
    exact hs.sizes e.1 e.2 ((s.data.get?_eq_some_iff ..).mpr he)
  have hkeys : (h :: s.data.keys).Nodup := nodup_cons.mpr ⟨hnew, s.data.nodup⟩
  obtain ⟨l, hperm, hsub⟩ : (h :: s.data.keys).Subperm hashes.dedup := by
    refine subperm_of_subset hkeys fun k hk => mem_dedup.mpr ?_
    rcases mem_cons.mp hk with rfl | hk
    · exact hh
    · exact hall k (hs.stored k hk)
  calc s.currsize + size h = ((h :: s.data.keys).map size).sum := by
        rw [map_cons, sum_cons, hsize, Nat.add_comm]
    _ = (l.map size).sum := ((hperm.map size).sum_eq).symm
    _ ≤ totalSize size hashes := (hsub.map size).sum_le_sum fun _ _ => Nat.zero_le _

/-- Evictions for one item of a request spare the other items of that request. -/
theorem makeRoom (hh : h ∈ hashes) (hnew : h ∉ s.data.keys)
    (htotal : totalSize size hashes ≤ s.capacity) (hfuel : s.order.length < fuel) :
    ∃ s', LRUCache.makeRoom (size h) fuel s = some (s', none) ∧ Serving size hashes s' ∧
      s'.capacity = s.capacity ∧ s'.currsize + size h ≤ s.capacity ∧
      s'.order.length ≤ s.order.length ∧ ∀ k ∈ hashes, k ∈ s'.data.keys ↔ k ∈ s.data.keys := by
  induction fuel generalizing s with
  | zero => omega
  | succ fuel ih =>
    rw [LRUCache.makeRoom, popUntil]
    by_cases hdone : s.currsize + size h ≤ s.capacity
    · exact ⟨s, if_pos (decide_eq_true hdone), hs, rfl, hdone, le_rfl, fun _ _ => Iff.rfl⟩
    rw [if_neg (by simpa using hdone)]
    cases horder : s.order with
    | nil => exact absurd (horder ▸ hs.touched h hh) not_mem_nil
    | cons k rest =>
      have hk : k ∉ hashes := fun hk => by
        -- the touched keys come last, so only they are left
        refine hdone ((hs.room (fun q hq => ?_) hh hnew).trans htotal)
        rcases mem_cons.mp (horder ▸ hq) with rfl | hq
        · exact hk
        · have hlast := hs.last
          rw [horder, pairwise_cons] at hlast
          exact hlast.1 q hq hk
      have hmem : k ∈ s.order := horder ▸ mem_cons_self
      obtain ⟨v, hv⟩ := mem_keys_iff.mp ((hs.known k hmem).resolve_right hk)
      have hpop : s.popitem false = .ok ((k, some v), s.delItem k) := by
        simp [popitem, horder, hs.unpinned, pop, hv]
      have hlen : (s.delItem k).order.length + 1 = s.order.length :=
        length_erase_add_one hmem
      obtain ⟨s', hroom, hs', hcap, hfits, hle, hkeep⟩ := ih (hs.delItem hk)
        (fun hin => hnew (mem_keys_erase.mp hin).2) htotal (by omega)
      refine ⟨s', by rw [hpop]; exact hroom, hs', hcap, hfits, ?_, fun q hq => ?_⟩
      · rw [← horder]
        omega
      · have hne : q ≠ k := fun heq => hk (heq ▸ hq)
        exact (hkeep q hq).trans (mem_keys_erase.trans (and_iff_right hne))

theorem store (hh : h ∈ hashes)
    (hroom : s.currsize + size h ≤ s.capacity) : Serving size hashes (s.store h (size h)) := by
  have hset : Serving size hashes { s with data := s.data.set h (size h) } :=
    { hs with
      sizes := fun k v hv => by
        rw [Dict.get?_set] at hv
        split at hv
        · rename_i hk
          rw [hk]
          exact (Option.some.inj hv).symm
        · exact hs.sizes k v hv
      stored := fun k hk => by
        rcases mem_keys_set.mp hk with rfl | hk
        · exact hs.touched k hh
        · exact hs.stored k hk
      known := fun k hk => (hs.known k hk).imp_left fun hk => mem_keys_set.mpr (Or.inr hk)
      fits := by
        have hsum := s.data.sum_set (fun _ v => s.getsizeof v) h (size h)
        have hroom' : s.data.sum (fun _ v => s.getsizeof v) + size h ≤ s.capacity := hroom
        show (s.data.set h (size h)).sum (fun _ v => s.getsizeof v) ≤ s.capacity
        have hof : s.getsizeof (size h) = size h := congrFun hs.getsizeof _
        omega }
  exact hset.touch fun k => ⟨Or.inr, fun hk => hk.elim (fun heq => heq ▸ hh) id⟩

end

structure Step (size : String → Nat) (hashes : List String) (h : String)
    (s s' : MmCache) : Prop where
  serving : Serving size hashes s'
  capacity : s'.capacity = s.capacity
  length : s'.order.length ≤ s.order.length
  keeps : ∀ k ∈ hashes, k = h ∨ k ∈ s.data.keys → k ∈ s'.data.keys

/-- What P0 sends of an item leads P1 through the same step. -/
theorem getAndUpdateItem (hs : Serving size hashes s) (hh : h ∈ hashes)
    (htotal : totalSize size hashes ≤ s.capacity) (hfuel : s.order.length < fuel)
    {item : Option Nat} (hitem : item = some (size h) ∨ h ∈ s.data.keys) :
    ∃ cached s', MirroredCaches.getAndUpdateItem fuel s item h = pure (cached, s') ∧
      MirroredCaches.getAndUpdateItem fuel s (if cached.isSome then none else item) h =
        pure (cached, s') ∧ Step size hashes h s s' := by
  cases hv : s.data.get? h with
  | some v =>
    have hhit (item : Option Nat) :
        MirroredCaches.getAndUpdateItem fuel s item h = pure (some v, s.touch h) := by
      simp only [MirroredCaches.getAndUpdateItem, LRUCache.get, hv]
    refine ⟨some v, s.touch h, hhit _, hhit _, hs.touch fun k => ?_, rfl,
      (hs.length_touch hh).le, ?_⟩
    · exact ⟨Or.inr, fun hk => hk.elim (fun heq => heq ▸ hh) id⟩
    · rintro k - (rfl | hk)
      · exact mem_keys_iff.mpr ⟨v, hv⟩
      · exact hk
  | none =>
    have hnew : h ∉ s.data.keys := (s.data.get?_eq_none_iff).mp hv
    obtain rfl := hitem.resolve_right hnew
    obtain ⟨s', hroom, hs', hcap, hfits, hle, hkeep⟩ := hs.makeRoom hh hnew htotal hfuel
    have hof : s.getsizeof (size h) = size h := congrFun hs.getsizeof _
    have hput : s.put fuel h (size h) = some (s'.store h (size h), none) := by
      have hsmall : ¬ s.capacity < size h := by omega
      have hgrows : s.grows h (size h) = true := by rw [grows, hv]
      rw [put, hof, if_neg hsmall, if_pos hgrows, hroom]
    have hmiss : MirroredCaches.getAndUpdateItem fuel s (some (size h)) h =
        pure (none, s'.store h (size h)) := by
      simp only [MirroredCaches.getAndUpdateItem, LRUCache.get, hv, hput]
      rfl
    refine ⟨none, s'.store h (size h), hmiss, hmiss, hs'.store hh (hcap ▸ hfits), hcap, ?_,
      fun k hk hkey => mem_keys_set.mpr ?_⟩
    · exact (hs'.length_touch hh).trans_le hle
    · exact hkey.imp_right (hkeep k hk).mpr

end Serving

/-- From equal caches, the sender and the receiver end with equal caches. -/
theorem updateItems_mirrored (hs : Serving size hashes s) {items : List (String × Option Nat)}
    (htotal : totalSize size hashes ≤ s.capacity) (hfuel : s.order.length < fuel)
    (hitems : ∀ x ∈ items, x.1 ∈ hashes ∧ (x.2 = some (size x.1) ∨ x.1 ∈ s.data.keys)) :
    ∃ sent s', updateItems fuel items s = pure (sent, s') ∧ sent.length = items.length ∧
      updateItems fuel ((items.map Prod.fst).zip sent) s = pure (sent, s') ∧
      Serving size hashes s' ∧ s'.capacity = s.capacity ∧ s'.order.length ≤ s.order.length ∧
      ∀ k ∈ hashes, k ∈ items.map Prod.fst ∨ k ∈ s.data.keys → k ∈ s'.data.keys := by
  induction items generalizing s with
  | nil =>
    exact ⟨[], s, rfl, rfl, rfl, hs, rfl, le_rfl, fun k _ hk => hk.resolve_left not_mem_nil⟩
  | cons x items ih =>
    obtain ⟨⟨hh, hitem⟩, hrest⟩ := forall_mem_cons.mp hitems
    obtain ⟨cached, s₁, hsend, hreceive, hs₁, hcap₁, hle₁, hkeep₁⟩ :=
      hs.getAndUpdateItem hh htotal hfuel hitem
    obtain ⟨sent, s', hsends, hlen, hreceives, hs', hcap', hle', hkeep'⟩ :=
      ih hs₁ (hcap₁ ▸ htotal) (by omega) fun y hy =>
        (hrest y hy).imp_right (Or.imp_right fun hk => hkeep₁ _ (hrest y hy).1 (Or.inr hk))
    refine ⟨(if cached.isSome then none else x.2) :: sent, s', ?_, congrArg (· + 1) hlen, ?_, hs',
      hcap'.trans hcap₁, hle'.trans hle₁, fun k hk hkey => hkeep' k hk ?_⟩
    · simp only [updateItems, hsend, pure_bind, hsends]
    · simp only [map_cons, zip_cons_cons, updateItems, hreceive, pure_bind, hreceives]
      cases cached <;> rfl
    · rw [map_cons, mem_cons, or_assoc, or_left_comm] at hkey
      exact hkey.imp_right (hkeep₁ k hk)

theorem serving_touchAll (hs : Serving size [] s) (hashes : List String) :
    Serving size hashes (touchAll s hashes) ∧
      (touchAll s hashes).order.length ≤ s.order.length + hashes.length ∧
      (touchAll s hashes).data = s.data ∧ (touchAll s hashes).capacity = s.capacity := by
  induction hashes using List.reverseRecOn with
  | nil => exact ⟨hs, le_rfl, rfl, rfl⟩
  | append_singleton hashes h ih =>
    obtain ⟨hserving, hlen, hdata, hcap⟩ := ih
    rw [touchAll, foldl_append]
    refine ⟨hserving.touch fun k => ?_, ?_, hdata, hcap⟩
    · rw [mem_append, mem_singleton, or_comm]
    · have hle := length_erase_le (a := h) (l := (touchAll s hashes).order)
      show (((touchAll s hashes).order.erase h) ++ [h]).length ≤ _
      rw [length_append, length_append]
      omega

/-- Every feature is met once, under its modality. -/
theorem flatItems_perm {features : List (MmItem × Option Nat)} {modalities : List String}
    (hnodup : modalities.Nodup) (hfeatures : features.Nodup)
    (hcovered : ∀ f ∈ features, f.1.modality ∈ modalities) :
    (flatItems features modalities).Perm features := by
  have hflat : (flatItems features modalities).Nodup := by
    refine nodup_flatMap.mpr ⟨fun _ _ => hfeatures.filter _, hnodup.imp fun hne f ha hb => ?_⟩
    rw [mem_filter, decide_eq_true_eq] at ha hb
    exact hne (ha.2.symm.trans hb.2)
  rw [perm_ext_iff_of_nodup hflat hfeatures]
  intro f
  rw [flatItems, mem_flatMap]
  constructor
  · rintro ⟨modality, -, hf⟩
    exact mem_of_mem_filter hf
  · intro hf
    exact ⟨f.1.modality, hcovered f hf, mem_filter.mpr ⟨hf, decide_eq_true rfl⟩⟩

/-- With different offsets the sort gives back the order of the request, whatever the order of the
placeholders. -/
theorem argsortMmPositions_of_ascending {sent : List (Option Nat)}
    (horder : request.items.Pairwise (·.offset < ·.offset))
    (hlen : sent.length = request.items.length) :
    argsortMmPositions (request.items.zip sent) request.modalities = request.items.zip sent := by
  rw [← map_fst_zip hlen.ge, pairwise_map] at horder
  have hkeys : ((request.items.zip sent).map fun f => f.1.offset).Nodup :=
    pairwise_map.mpr (horder.imp Nat.ne_of_lt)
  have hflat := flatItems_perm request.nodup hkeys.of_map fun f hf =>
    request.covered f.1 (of_mem_zip hf).1
  have hperm := (perm_insertionSort (fun a b => a.1.offset ≤ b.1.offset) _).trans hflat
  refine hperm.eq_of_pairwise (fun a b ha hb hab hba => ?_)
    (pairwise_insertionSort (fun a b : MmItem × Option Nat => a.1.offset ≤ b.1.offset) _)
    (horder.imp Nat.le_of_lt)
  exact inj_on_of_nodup_map hkeys (hperm.mem_iff.mp ha) hb (Nat.le_antisymm hab hba)

/-- One request, from the check of its items to the update of both caches. -/
theorem serve_mirrored (hs : Serving size [] s) (hrequest : ServedInOrder s.capacity size request)
    (hfuel : s.order.length + request.items.length < fuel) :
    ∃ s', serve fuel size (s, s) request = pure (s', s') ∧ Serving size [] s' ∧
      s'.capacity = s.capacity ∧ s'.order.length ≤ s.order.length + request.items.length := by
  obtain ⟨horder, htotal⟩ := hrequest
  obtain ⟨hserving, hlen, hdata, hcap⟩ := serving_touchAll hs (request.items.map MmItem.mmHash)
  rw [length_map] at hlen
  have hitems : ∀ x ∈ getCacheMissingItems size s (request.items.map MmItem.mmHash),
      x.1 ∈ request.items.map MmItem.mmHash ∧
        (x.2 = some (size x.1) ∨
          x.1 ∈ (touchAll s (request.items.map MmItem.mmHash)).data.keys) := by
    intro x hx
    obtain ⟨h, hh, rfl⟩ := mem_map.mp hx
    rw [hdata]
    by_cases hc : s.data.contains h = true
    · exact ⟨hh, Or.inr (mem_keys_iff.mpr (Option.isSome_iff_exists.mp hc))⟩
    · exact ⟨hh, Or.inl (if_neg hc)⟩
  have hfst : (getCacheMissingItems size s (request.items.map MmItem.mmHash)).map Prod.fst =
      request.items.map MmItem.mmHash := by
    rw [getCacheMissingItems, map_map]
    exact map_id _
  obtain ⟨sent, s', hsend, hsent, hreceive, hs', hcap', hle, hkeep⟩ :=
    updateItems_mirrored hserving (hcap ▸ htotal) (hlen.trans_lt hfuel) hitems
  rw [hfst] at hreceive hkeep
  rw [getCacheMissingItems, length_map, length_map] at hsent
  have hmerge : mergeMmKwargs fuel size s (request.items.map MmItem.mmHash) = pure (sent, s') :=
    hsend
  have hfeatures : getAndUpdateFeatures fuel s (request.items.zip sent) = pure (sent, s') := by
    have hzip := congrArg (List.map MmItem.mmHash) (map_fst_zip hsent.ge)
    rw [map_map] at hzip
    rw [zip_map_left, ← hzip] at hreceive
    exact hreceive
  refine ⟨s', ?_, ⟨hs'.nodup, hs'.unpinned, hs'.getsizeof, hs'.sizes, ?_, nofun, hs'.stored, ?_,
    hs'.fits⟩, hcap'.trans hcap, hle.trans hlen⟩
  · simp only [serve, hmerge, pure_bind, argsortMmPositions_of_ascending horder hsent, hfeatures]
  · exact pairwise_of_forall fun _ _ h => absurd h not_mem_nil
  · intro k hk
    refine Or.inl ((hs'.known k hk).elim id fun hk => hkeep k hk (Or.inl hk))

end

/-- When the requests have their items in the order of the prompt, and these fit into the cache, the
caches are the same, and no assertion has failed. -/
theorem serveAll_mirrored (capacity : Nat) (size : String → Nat) {requests : List MmRequest}
    (hrequests : ∀ request ∈ requests, ServedInOrder capacity size request) :
    ∃ fuel cache, serveAll fuel capacity size requests = pure (cache, cache) := by
  suffices hrun : ∀ (s : MmCache) (fuel : Nat), Serving size [] s → s.capacity = capacity →
      s.order.length + (requests.map fun r => r.items.length).sum < fuel →
      ∃ cache, requests.foldlM (serve fuel size) (s, s) = pure (cache, cache) from
    ⟨_, hrun (init capacity id) _ (serving_init capacity) rfl (Nat.lt_succ_self _)⟩
  induction requests with
  | nil => exact fun s fuel _ _ _ => ⟨s, rfl⟩
  | cons request requests ih =>
    intro s fuel hs hcap hfuel
    obtain ⟨hrequest, hrest⟩ := forall_mem_cons.mp hrequests
    rw [map_cons, sum_cons] at hfuel
    obtain ⟨s', hserve, hs', hcap', hle⟩ := serve_mirrored hs (hcap ▸ hrequest)
      (show s.order.length + request.items.length < fuel by omega)
    rw [foldlM_cons, hserve]
    exact ih hrest s' fuel hs' (hcap'.trans hcap) (by omega)

def imageVideo : MmRequest :=
  ⟨[⟨"image", "image", 0⟩, ⟨"video", "video", 8⟩], ["video", "image"], by decide, by decide⟩

def single (modality mmHash : String) : MmRequest :=
  ⟨[⟨modality, mmHash, 0⟩], [modality], nodup_singleton _, by simp⟩

/-- The third image evicts the first one on both sides, which is then sent again. -/
theorem serveAll_mirrored_evicts :
    (∀ request ∈ [imageVideo, single "image" "other", single "image" "image"],
      ServedInOrder 2 (fun _ => 1) request) ∧
    ∃ fuel cache, serveAll fuel 2 (fun _ => 1)
      [imageVideo, single "image" "other", single "image" "image"] = pure (cache, cache) := by
  have hserved : ∀ request ∈ [imageVideo, single "image" "other", single "image" "image"],
      ServedInOrder 2 (fun _ => 1) request := by
    unfold ServedInOrder
    decide +kernel
  exact ⟨hserved, serveAll_mirrored 2 _ hserved⟩

def videoFirst : MmRequest :=
  ⟨[⟨"image", "image", 8⟩, ⟨"video", "video", 0⟩], ["image", "video"], by decide, by decide⟩

/-- The request names the image first, the prompt the video. Then P0 evicts the image and P1 the
video, which P0 does not send again. -/
theorem video_first_assertion_fails :
    serveAll 9 2 (fun _ => 1) [videoFirst, single "image" "other", single "video" "video"] =
      throw (.assertionError "Expected a cached item for mm_hash='video'") := by
  rfl

end MirroredCaches

end VllmEcho
