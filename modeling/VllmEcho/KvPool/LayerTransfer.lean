import VllmEcho.KVCache.Basic

/-!
# Keys and addresses of the KV pool

A chunk is stored under a key that names the rank, and in layerwise mode the layer.  Its addresses
are taken from a flat list of the cache tensors of all layers.
-/

namespace VllmEcho

namespace KvPool

open List

@[ext]
structure KeyMetadata where
  modelName : List Char
  headOrTpRank : Nat
  pcpRank : Nat
  dcpRank : Nat
  ppRank : Nat
  deriving DecidableEq

def layerPoolKey (m : KeyMetadata) (chunkHash : List Char) (layerId : Nat) : List Char :=
  m.modelName ++ "@pcp".toList ++ Nat.toDigits 10 m.pcpRank ++ "@dcp".toList ++
    Nat.toDigits 10 m.dcpRank ++ "@head_or_tp_rank:".toList ++ Nat.toDigits 10 m.headOrTpRank ++
    "@".toList ++ chunkHash ++ "@".toList ++ Nat.toDigits 10 layerId

structure ChunkedTokenDatabase where
  blockSize : Nat
  kvCachesBaseAddr : List Nat
  blockLen : List Nat
  blockSize_pos : 0 < blockSize

namespace ChunkedTokenDatabase

variable (d : ChunkedTokenDatabase) (sizeOf : Nat → Nat → Nat → Nat) (start stop blockId : Nat)
  (blockIds : List Nat)

/-- The address of a block in a cache tensor and the bytes of the chunk.  In both functions the size
is `int(block_len / block_size * (end - start))`, with a division of floats. -/
def valueAt (baseAddr len : Nat) : Nat × Nat :=
  (baseAddr + blockId * len, sizeOf len d.blockSize (stop - start))

def prepareValue : Except PyError (List (Nat × Nat)) :=
  match blockIds[start / d.blockSize]? with
  | none => .error .indexError
  | some blockId => d.kvCachesBaseAddr.zipIdx.mapM fun x =>
    match d.blockLen[x.2 % d.blockLen.length]? with
    | none => .error .zeroDivisionError
    | some len => .ok (d.valueAt sizeOf start stop blockId x.1 len)

def prepareValueLayer (layerId : Nat) : Except PyError (List (Nat × Nat)) :=
  match blockIds[start / d.blockSize]? with
  | none => .error .indexError
  | some blockId => d.blockLen.mapM fun len =>
    match d.kvCachesBaseAddr[layerId * d.blockLen.length]? with
    | none => .error .indexError
    | some baseAddr => .ok (d.valueAt sizeOf start stop blockId baseAddr len)

def prepareValueLayers (numLayers : Nat) : Except PyError (List (Nat × Nat)) := do
  let values ← (range numLayers).mapM (d.prepareValueLayer sizeOf start stop blockIds)
  .ok values.flatten

/-! ## The addresses -/

variable {d sizeOf start stop blockId blockIds} {layers : List (List Nat)} {lens : List Nat}
  {f : Nat → Nat → Nat × Nat}

theorem zipIdx_flatten (hlen : ∀ layer ∈ layers, layer.length = lens.length) (k : Nat) :
    (layers.flatten.zipIdx (k * lens.length)).map
      (fun x => f x.1 (lens.getD (x.2 % lens.length) 0)) =
      (layers.map fun layer => zipWith f layer lens).flatten := by
  induction layers generalizing k with
  | nil => rfl
  | cons layer layers ih =>
    have hlayer := hlen layer mem_cons_self
    rw [flatten_cons, zipIdx_append, map_append, map_cons, hlayer, ← Nat.succ_mul,
      ih fun l hl => hlen l (mem_cons_of_mem _ hl)]
    congr 1
    apply ext_getElem
    · rw [length_map, length_zipIdx, length_zipWith, hlayer, Nat.min_self]
    · intro i hi _
      rw [length_map, length_zipIdx, hlayer] at hi
      rw [getElem_map, getElem_zipIdx, getElem_zipWith]
      rw [Nat.mul_add_mod_self_right, Nat.mod_eq_of_lt hi, getD_eq_getElem _ _ hi]

/-- A layer starts behind the tensors of the layers before it. -/
theorem getElem?_flatten_mul (hlen : ∀ layer ∈ layers, layer.length = lens.length)
    (hpos : 0 < lens.length) (l : Nat) :
    layers.flatten[l * lens.length]? = layers[l]?.map fun layer => layer.headD 0 := by
  induction layers generalizing l with
  | nil => rfl
  | cons layer layers ih =>
    have hlayer := hlen layer mem_cons_self
    rw [flatten_cons]
    cases l with
    | zero =>
      obtain ⟨a, rest, rfl⟩ := exists_cons_of_length_pos (hlayer.symm ▸ hpos)
      rw [Nat.zero_mul]
      rfl
    | succ l =>
      rw [getElem?_append_right (by rw [Nat.succ_mul]; omega), hlayer, Nat.succ_mul,
        Nat.add_sub_cancel, ih fun l hl => hlen l (mem_cons_of_mem _ hl)]
      rfl

theorem map_eq_zipWith_iff (hf : ∀ a b len, f a len = f b len → a = b) {layer : List Nat}
    {base : Nat}
    (hlen : layer.length = lens.length) :
    lens.map (f base) = zipWith f layer lens ↔ ∀ a ∈ layer, base = a := by
  induction layer generalizing lens with
  | nil =>
    rw [length_eq_zero_iff.mp hlen.symm]
    simp
  | cons a layer ih =>
    cases lens with
    | nil => cases hlen
    | cons len lens =>
      rw [map_cons, zipWith_cons_cons, cons.injEq, ih (Nat.succ.inj hlen), forall_mem_cons]
      exact and_congr_left' ⟨hf _ _ _, congrArg (f · len)⟩

theorem flatten_eq_iff (hf : ∀ a b len, f a len = f b len → a = b)
    (hlen : ∀ layer ∈ layers, layer.length = lens.length) :
    (layers.map fun layer => lens.map (f (layer.headD 0))).flatten =
      (layers.map fun layer => zipWith f layer lens).flatten ↔
        ∀ layer ∈ layers, ∀ a ∈ layer, layer.head? = some a := by
  have hsame : (layers.map fun layer => lens.map (f (layer.headD 0))).map length =
      (layers.map fun layer => zipWith f layer lens).map length := by
    rw [map_map, map_map]
    apply map_congr_left
    intro layer hlayer
    simp [hlen layer hlayer]
  refine (eq_iff_flatten_eq.trans (and_iff_left hsame)).symm.trans ?_
  rw [map_inj_left]
  apply forall₂_congr
  intro layer hlayer
  rw [map_eq_zipWith_iff hf (hlen layer hlayer)]
  cases layer with
  | nil => simp
  | cons a layer => simp

section

variable (hid : blockIds[start / d.blockSize]? = some blockId)
  (hbase : d.kvCachesBaseAddr = layers.flatten)
  (hlen : ∀ layer ∈ layers, layer.length = d.blockLen.length)
include hid hbase hlen

theorem prepareValue_eq : d.prepareValue sizeOf start stop blockIds = .ok
      (layers.map fun layer =>
        zipWith (d.valueAt sizeOf start stop blockId) layer d.blockLen).flatten := by
  have hzero := @zipIdx_flatten layers _ (d.valueAt sizeOf start stop blockId) hlen 0
  rw [Nat.zero_mul] at hzero
  unfold prepareValue
  rw [hid, hbase, ← hzero]
  apply mapM_ok
  intro x hx
  -- there is a cache tensor, so there is a block length
  obtain ⟨layer, hlayer, hmem⟩ := mem_flatten.mp (fst_mem_of_mem_zipIdx hx)
  have hpos := length_pos_of_mem hmem
  rw [hlen layer hlayer] at hpos
  rw [getD_eq_getElem?_getD, getElem?_eq_getElem (Nat.mod_lt _ hpos)]
  rfl

theorem prepareValueLayers_eq :
    d.prepareValueLayers sizeOf start stop blockIds layers.length = .ok (layers.map fun layer =>
      d.blockLen.map (d.valueAt sizeOf start stop blockId (layer.headD 0))).flatten := by
  have hall : (range layers.length).mapM (d.prepareValueLayer sizeOf start stop blockIds) =
      .ok ((range layers.length).map fun l =>
        d.blockLen.map (d.valueAt sizeOf start stop blockId ((layers.getD l []).headD 0))) := by
    apply mapM_ok
    intro l hl
    unfold prepareValueLayer
    rw [hid]
    apply mapM_ok
    intro len hmem
    rw [hbase, getElem?_flatten_mul hlen (length_pos_of_mem hmem), getD_eq_getElem?_getD,
      getElem?_eq_getElem (mem_range.mp hl)]
    rfl
  unfold prepareValueLayers
  rw [hall, ok_bind]
  congr 2
  apply ext_getElem
  · rw [length_map, length_map, length_range]
  · intro l hl _
    rw [length_map, length_range] at hl
    rw [getElem_map, getElem_map, getElem_range, getD_eq_getElem _ _ hl]

end

end ChunkedTokenDatabase

/-! ## The keys -/

theorem split_at {x y xs ys : List Char} (hx : '@' ∉ x) (hy : '@' ∉ y)
    (h : x ++ '@' :: xs = y ++ '@' :: ys) : x = y ∧ xs = ys := by
  induction x generalizing y with
  | nil =>
    cases y with
    | nil => exact ⟨rfl, (cons.inj h).2⟩
    | cons b y => exact absurd mem_cons_self ((cons.inj h).1 ▸ hy)
  | cons a x ih =>
    cases y with
    | nil => exact absurd mem_cons_self ((cons.inj h).1 ▸ hx)
    | cons b y =>
      obtain ⟨rfl, htail⟩ := cons.inj h
      obtain ⟨rfl, rfl⟩ := ih (not_mem_of_not_mem_cons hx) (not_mem_of_not_mem_cons hy) htail
      exact ⟨rfl, rfl⟩

theorem at_notMem_toDigits (n : Nat) : '@' ∉ Nat.toDigits 10 n := by
  intro hmem
  exact absurd (Nat.isDigit_of_mem_toDigits (by decide) (by decide) hmem) (by decide)

theorem toDigits_injective {a b : Nat} (h : Nat.toDigits 10 a = Nat.toDigits 10 b) : a = b := by
  rw [← @Nat.ofDigitChars_ten_toDigits a, h, Nat.ofDigitChars_ten_toDigits]

def IsHex (chunkHash : List Char) : Prop := ∀ c ∈ chunkHash, c ∈ "0123456789abcdef".toList

theorem IsHex.at_notMem {h : List Char} (hhex : IsHex h) : '@' ∉ h :=
  fun hmem => absurd (hhex _ hmem) (by decide)

/-- Within one model, a layer key determines the ranks, the hash and the layer. -/
theorem layerPoolKey_inj {m m' : KeyMetadata} {h h' : List Char} {l l' : Nat}
    (hname : m.modelName = m'.modelName) (hhex : IsHex h) (hhex' : IsHex h')
    (heq : layerPoolKey m h l = layerPoolKey m' h' l') :
    (m.pcpRank = m'.pcpRank ∧ m.dcpRank = m'.dcpRank ∧ m.headOrTpRank = m'.headOrTpRank) ∧
      h = h' ∧ l = l' := by
  unfold layerPoolKey at heq
  rw [hname] at heq
  simp only [append_assoc] at heq
  obtain ⟨hpcp, heq⟩ := split_at (at_notMem_toDigits _) (at_notMem_toDigits _)
    (append_cancel_left (append_cancel_left heq))
  obtain ⟨hdcp, heq⟩ := split_at (at_notMem_toDigits _) (at_notMem_toDigits _)
    (@append_cancel_left _ "dcp".toList _ _ heq)
  obtain ⟨hhead, heq⟩ := split_at (at_notMem_toDigits _) (at_notMem_toDigits _)
    (@append_cancel_left _ "head_or_tp_rank:".toList _ _ heq)
  obtain ⟨rfl, hlayer⟩ := split_at hhex.at_notMem hhex'.at_notMem heq
  exact ⟨⟨toDigits_injective hpcp, toDigits_injective hdcp, toDigits_injective hhead⟩, rfl,
    toDigits_injective hlayer⟩

/-- Different ranks, hashes and layers have different keys. -/
def KeysDistinct (ranks : List KeyMetadata) : Prop :=
  ∀ m ∈ ranks, ∀ m' ∈ ranks, ∀ h h' l l', IsHex h → IsHex h' →
    layerPoolKey m h l = layerPoolKey m' h' l' → m = m' ∧ h = h' ∧ l = l'

/-- The layers' values are those of the whole block exactly where all cache tensors of a layer have
one base address, and the keys are distinct exactly where no two ranks differ in `pp_rank` only.
Every tensor of a layer has a block length of its own, as `register_kv_caches` arranges it for MLA
and sparse attention; for the others it registers one length for the two tensors of a layer, which
is not covered here. -/
theorem prepareValueLayers_eq_iff {d : ChunkedTokenDatabase} {sizeOf : Nat → Nat → Nat → Nat}
    {start stop blockId : Nat} {blockIds : List Nat} {layers : List (List Nat)}
    {modelName : List Char} {ranks : List KeyMetadata}
    (hid : blockIds[start / d.blockSize]? = some blockId)
    (hbase : d.kvCachesBaseAddr = layers.flatten)
    (hlen : ∀ layer ∈ layers, layer.length = d.blockLen.length)
    (hname : ∀ m ∈ ranks, m.modelName = modelName) :
    (d.prepareValueLayers sizeOf start stop blockIds layers.length =
        d.prepareValue sizeOf start stop blockIds ∧ KeysDistinct ranks) ↔
      (∀ layer ∈ layers, ∀ a ∈ layer, layer.head? = some a) ∧
        ∀ m ∈ ranks, ∀ m' ∈ ranks, m.pcpRank = m'.pcpRank → m.dcpRank = m'.dcpRank →
          m.headOrTpRank = m'.headOrTpRank → m.ppRank = m'.ppRank := by
  apply and_congr
  · rw [ChunkedTokenDatabase.prepareValueLayers_eq hid hbase hlen,
      ChunkedTokenDatabase.prepareValue_eq hid hbase hlen, Except.ok.injEq]
    exact ChunkedTokenDatabase.flatten_eq_iff
      (fun a b len hab => Nat.add_right_cancel (Prod.mk.inj hab).1)
      hlen
  constructor
  · intro hkeys m hm m' hm' hpcp hdcp hhead
    have heq : layerPoolKey m [] 0 = layerPoolKey m' [] 0 := by
      unfold layerPoolKey
      rw [hname m hm, hname m' hm', hpcp, hdcp, hhead]
    rw [(hkeys m hm m' hm' [] [] 0 0 nofun nofun heq).1]
  · intro hpp m hm m' hm' h h' l l' hhex hhex' heq
    obtain ⟨⟨hpcp, hdcp, hhead⟩, rfl, rfl⟩ := layerPoolKey_inj
      ((hname m hm).trans (hname m' hm').symm) hhex hhex' heq
    exact ⟨KeyMetadata.ext ((hname m hm).trans (hname m' hm').symm) hhead hpcp hdcp
      (hpp m hm m' hm' hpcp hdcp hhead), rfl, rfl⟩

def exampleDatabase (blockLen : List Nat) : ChunkedTokenDatabase :=
  ⟨4, [100, 200], blockLen, Nat.succ_pos 3⟩

def exampleSize (len blockSize n : Nat) : Nat := len * n / blockSize

def exampleRank (headOrTpRank ppRank : Nat) : KeyMetadata :=
  ⟨"model".toList, headOrTpRank, 0, 0, ppRank⟩

/-- Two layers with one cache tensor each, on two tensor-parallel ranks. -/
theorem prepareValueLayers_oneTensor :
    (exampleDatabase [8]).prepareValueLayers exampleSize 0 4 [3] 2 =
        (exampleDatabase [8]).prepareValue exampleSize 0 4 [3] ∧
      KeysDistinct [exampleRank 0 0, exampleRank 1 0] :=
  (@prepareValueLayers_eq_iff (exampleDatabase [8]) _ 0 4 3 [3] [[100], [200]] "model".toList
    [exampleRank 0 0, exampleRank 1 0] rfl rfl (by decide) (by decide)).mpr ⟨by decide, by decide⟩

/-- With two cache tensors in a layer, both are taken from the first one's address; and two pipeline
ranks share a key. -/
theorem prepareValueLayers_twoTensors :
    (exampleDatabase [8, 8]).prepareValue exampleSize 0 4 [3] = .ok [(124, 8), (224, 8)] ∧
      (exampleDatabase [8, 8]).prepareValueLayers exampleSize 0 4 [3] 1 = .ok [(124, 8), (124, 8)] ∧
      layerPoolKey (exampleRank 0 0) [] 0 = layerPoolKey (exampleRank 0 1) [] 0 := by
  decide

end KvPool

end VllmEcho
