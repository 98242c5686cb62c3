import VllmEcho.KVCache.Basic
import VllmEcho.Lib.HeadTables

/-!
# Resharding the recurrent state of a mamba layer

A prefill rank writes its convolution block and its state block into the blocks of a decode rank
that holds the heads of `tp_ratio` prefill ranks.
-/

namespace VllmEcho

namespace Layerwise

open List Lib

structure TextConfig where
  linearKeyHeadDim : Nat
  linearNumKeyHeads : Nat
  linearValueHeadDim : Nat
  linearNumValueHeads : Nat
  convKernelSize : Nat
  numSpec : Nat

def divide (numerator denominator : Nat) : Except PyError Nat := do
  if denominator = 0 then throw .zeroDivisionError
  assertThat (numerator % denominator == 0) s!"{numerator} is not divisible by {denominator}"
  pure (numerator / denominator)

inductive StateTensor
  | conv
  | ssm

structure StateShape where
  conv : Nat × Nat
  ssm : Nat × Nat × Nat

def StateShape.prod (s : StateShape) : StateTensor → Nat
  | .conv => s.conv.1 * s.conv.2
  | .ssm => s.ssm.1 * (s.ssm.2.1 * s.ssm.2.2)

def gatedDeltaNetStateShape (c : TextConfig) (tpWorldSize : Nat) : Except PyError StateShape := do
  let convDim := c.linearKeyHeadDim * c.linearNumKeyHeads * 2 +
    c.linearValueHeadDim * c.linearNumValueHeads
  let channels ← divide convDim tpWorldSize
  let heads ← divide c.linearNumValueHeads tpWorldSize
  pure ⟨(c.convKernelSize - 1 + c.numSpec, channels),
    (heads, c.linearValueHeadDim, c.linearKeyHeadDim)⟩

structure MambaSpec where
  shapes : StateShape
  dtypeSize : StateTensor → Nat

structure LayerMetadata where
  kvCachesBaseAddr : StateTensor → Nat
  blockLen : StateTensor → Nat

def LayerMetadata.blockAddr (l : LayerMetadata) (block : Nat) (x : StateTensor) : Nat :=
  l.kvCachesBaseAddr x + block * l.blockLen x

def registerKvCaches (spec : MambaSpec) (dataPtr : StateTensor → Nat) : LayerMetadata :=
  ⟨dataPtr, fun x => spec.dtypeSize x * spec.shapes.prod x⟩

structure SendingThread where
  config : TextConfig
  tpSize : Nat
  tpRank : Nat
  /-- Whether `mamba_cache_mode` is `"align"`. -/
  mambaAlign : Bool
  numSpeculativeTokens : Nat
  spec : MambaSpec
  layerMetadata : LayerMetadata

structure ReqMeta where
  localBlockIds : List Nat
  remoteBlockIds : List Nat
  remoteTpSize : Nat
  remotePort : Nat
  remoteLayerMetadata : LayerMetadata
  chunkFinish : Bool

def pyGet (xs : List Nat) (i : Int) : Except PyError Nat :=
  match if 0 ≤ i then xs[i.toNat]?
    else if -i ≤ xs.length then xs[(xs.length + i).toNat]? else none with
  | none => .error .indexError
  | some x => .ok x

def localConvSections (c : TextConfig) (tpSize : Nat) : List (Nat × Nat) :=
  let keyHeads := c.linearNumKeyHeads / tpSize
  let valueHeads := c.linearNumValueHeads / tpSize
  zip [0, keyHeads * c.linearKeyHeadDim, keyHeads * 2 * c.linearKeyHeadDim]
    [keyHeads * c.linearKeyHeadDim, keyHeads * c.linearKeyHeadDim,
      valueHeads * c.linearValueHeadDim]

def transferBlockIdx (mambaAlign : Bool) (numSpeculativeTokens : Nat) (localBlockIds : List Nat) :
    Int :=
  if mambaAlign then localBlockIds.length - numSpeculativeTokens - 1 else 0

namespace SendingThread

variable (t : SendingThread) (req : ReqMeta)

def convTransfers (tpRatio src dst : Nat) : List Transfer :=
  (range t.spec.shapes.conv.1).flatMap fun i =>
    (localConvSections t.config t.tpSize).map fun x =>
      { src := src + (i * t.spec.shapes.conv.2 + x.1) * t.spec.dtypeSize .conv
        dst := dst + ((i * t.spec.shapes.conv.2 + x.1) * tpRatio + t.tpRank % tpRatio * x.2) *
          t.spec.dtypeSize .conv
        length := x.2 * t.spec.dtypeSize .conv }

def mambaTransfers (tpRatio localBlock remoteBlock : Nat) (remote : LayerMetadata) :
    List Transfer :=
  let src := t.layerMetadata.blockAddr localBlock
  let len := t.layerMetadata.blockLen
  if tpRatio = 1 then
    [⟨src .conv, remote.kvCachesBaseAddr .conv + remoteBlock * len .conv, len .conv⟩,
      ⟨src .ssm, remote.kvCachesBaseAddr .ssm + remoteBlock * len .ssm, len .ssm⟩]
  else
    let dst := remote.blockAddr remoteBlock
    t.convTransfers tpRatio (src .conv) (dst .conv) ++
      [⟨src .ssm, dst .ssm + t.tpRank % tpRatio * t.spec.shapes.prod .ssm * t.spec.dtypeSize .ssm,
        len .ssm⟩]

def getTransferMeta : Except PyError (List Transfer) := do
  let tpRatio := t.tpSize / req.remoteTpSize
  -- `//` by an empty remote group, or `%` by the ratio
  if tpRatio = 0 then throw .zeroDivisionError
  let localBlock ← pyGet req.localBlockIds
    (transferBlockIdx t.mambaAlign t.numSpeculativeTokens req.localBlockIds)
  let remoteBlock ← pyGet req.remoteBlockIds 0
  pure (t.mambaTransfers tpRatio localBlock remoteBlock req.remoteLayerMetadata)

structure Mapping where
  remotePort : Nat
  localBlockIds : List Nat
  remoteBlockIds : List Nat
  transCount : Nat

def getKvSplitMetadataForMamba : Except PyError (Option Mapping) := do
  assertThat (req.remoteTpSize ≤ t.tpSize)
    "Mamba group prefill TP_size must equal or larger than decode TP_size."
  let tpRatio := t.tpSize / req.remoteTpSize
  if tpRatio = 0 then throw .zeroDivisionError
  if req.chunkFinish then
    pure (some ⟨req.remotePort + t.tpRank / tpRatio, req.localBlockIds, req.remoteBlockIds,
      tpRatio⟩)
  else
    pure none

end SendingThread

/-- The heads of a layer and their widths: a row of the convolution block has keys, second keys and
values, and the state block has a matrix for each value head. -/
def TextConfig.sections (c : TextConfig) : StateTensor → List (Nat × Nat)
  | .conv => [(c.linearNumKeyHeads, c.linearKeyHeadDim), (c.linearNumKeyHeads, c.linearKeyHeadDim),
      (c.linearNumValueHeads, c.linearValueHeadDim)]
  | .ssm => [(c.linearNumValueHeads, c.linearValueHeadDim * c.linearKeyHeadDim)]

def TextConfig.rows (c : TextConfig) : StateTensor → Nat
  | .conv => c.convKernelSize - 1 + c.numSpec
  | .ssm => 1

def TextConfig.table (c : TextConfig) (tp unit : Nat) (x : StateTensor) : HeadTable :=
  ⟨c.rows x, (c.sections x).map fun s => (s.1 / tp, s.2), unit⟩

variable {c : TextConfig} {tp unit : Nat}

theorem localConvSections_eq : localConvSections c tp =
    (range (c.table tp unit .conv).sizes.length).map fun j =>
      ((c.table tp unit .conv).start j, (c.table tp unit .conv).sizes.getD j 0) := by
  simp [localConvSections, TextConfig.table, TextConfig.sections, HeadTable.start, HeadTable.sizes,
    range_succ, Nat.mul_assoc, Nat.two_mul, Nat.mul_add]

theorem divide_ok {n d q : Nat} (h : divide n d = .ok q) : 0 < d ∧ q = n / d := by
  simp only [divide] at h
  split at h
  · cases h
  · next hd =>
    obtain ⟨_, _, h⟩ := of_bind h
    exact ⟨Nat.pos_of_ne_zero hd, (Except.ok.inj h).symm⟩

/-- The shapes of both states of a rank are those of its head tables. -/
theorem gatedDeltaNetStateShape_ok {shape : StateShape} (unit : StateTensor → Nat)
    (hkey : tp ∣ c.linearNumKeyHeads) (hvalue : tp ∣ c.linearNumValueHeads)
    (h : gatedDeltaNetStateShape c tp = .ok shape) :
    shape.conv = ((c.table tp (unit .conv) .conv).rows, (c.table tp (unit .conv) .conv).width) ∧
      ∀ x, shape.prod x = (c.table tp (unit x) x).rows * (c.table tp (unit x) x).width := by
  obtain ⟨channels, hchannels, h⟩ := of_bind h
  obtain ⟨heads, hheads, h⟩ := of_bind h
  obtain ⟨htp, hchannels⟩ := divide_ok hchannels
  obtain ⟨a, ha⟩ := hkey
  obtain ⟨b, hb⟩ := hvalue
  have hrow : channels = (c.table tp (unit .conv) .conv).width := by
    simp only [hchannels, TextConfig.table, TextConfig.sections, HeadTable.width, HeadTable.sizes,
      map_cons, map_nil, sum_cons, sum_nil, ha, hb, Nat.mul_div_cancel_left _ htp]
    apply Nat.div_eq_of_eq_mul_left htp
    ring
  rw [← Except.ok.inj h, hrow, (divide_ok hheads).2]
  refine ⟨rfl, fun x => ?_⟩
  cases x with
  | conv => rfl
  | ssm =>
    simp only [StateShape.prod, TextConfig.table, TextConfig.rows, TextConfig.sections,
      HeadTable.width, HeadTable.sizes, map_cons, map_nil, sum_cons, sum_nil, Nat.add_zero,
      Nat.one_mul]

/-- A prefill instance of `ratio * remoteTpSize` ranks, a decode instance of `remoteTpSize` ranks
and a request whose last chunk is sent. -/
structure Resharding where
  config : TextConfig
  ratio : Nat
  remoteTpSize : Nat
  ratio_pos : 0 < ratio
  remoteTpSize_pos : 0 < remoteTpSize
  key_dvd : ratio * remoteTpSize ∣ config.linearNumKeyHeads
  value_dvd : ratio * remoteTpSize ∣ config.linearNumValueHeads
  dtypeSize : StateTensor → Nat
  prefillShape : StateShape
  decodeShape : StateShape
  prefill_shape : gatedDeltaNetStateShape config (ratio * remoteTpSize) = .ok prefillShape
  decode_shape : gatedDeltaNetStateShape config remoteTpSize = .ok decodeShape
  prefillPtr : Nat → StateTensor → Nat
  decodePtr : Nat → StateTensor → Nat
  mambaAlign : Bool
  numSpeculativeTokens : Nat
  localBlockIds : List Nat
  remoteBlockIds : List Nat
  remotePort : Nat

namespace Resharding

variable (R : Resharding) (p d : Nat) (x : StateTensor)

abbrev tpSize : Nat := R.ratio * R.remoteTpSize

def sender : SendingThread :=
  ⟨R.config, R.tpSize, p, R.mambaAlign, R.numSpeculativeTokens, ⟨R.prefillShape, R.dtypeSize⟩,
    registerKvCaches ⟨R.prefillShape, R.dtypeSize⟩ (R.prefillPtr p)⟩

def reqMeta : ReqMeta :=
  ⟨R.localBlockIds, R.remoteBlockIds, R.remoteTpSize, R.remotePort,
    registerKvCaches ⟨R.decodeShape, R.dtypeSize⟩ (R.decodePtr d), true⟩

def feeders : List Nat := (range R.tpSize).filter fun p =>
  match (R.sender p).getKvSplitMetadataForMamba (R.reqMeta d) with
  | .ok (some m) => m.remotePort = R.remotePort + d
  | _ => false

def localTable : HeadTable := R.config.table R.tpSize (R.dtypeSize x) x

def remoteTable : HeadTable := R.config.table R.remoteTpSize (R.dtypeSize x) x

variable {R p d x} {localBlock remoteBlock : Nat}

theorem tpSize_pos : 0 < R.tpSize := Nat.mul_pos R.ratio_pos R.remoteTpSize_pos

theorem tpSize_div : R.tpSize / R.remoteTpSize = R.ratio :=
  Nat.mul_div_cancel _ R.remoteTpSize_pos

theorem heads_div {n : Nat} (hn : R.tpSize ∣ n) : n / R.remoteTpSize = n / R.tpSize * R.ratio := by
  obtain ⟨a, ha⟩ := hn
  rw [ha, Nat.mul_div_cancel_left _ tpSize_pos, Nat.mul_right_comm,
    Nat.mul_div_cancel _ R.remoteTpSize_pos, Nat.mul_comm]

theorem sections_dvd : ∀ s ∈ R.config.sections x, R.tpSize ∣ s.1 := by
  cases x <;> simp [TextConfig.sections, R.key_dvd, R.value_dvd]

/-- A decode rank holds the heads of `ratio` prefill ranks. -/
theorem remoteTable_eq : R.remoteTable x = (R.localTable x).widen R.ratio := by
  simp only [remoteTable, localTable, TextConfig.table, HeadTable.widen, map_map]
  congr 1
  apply map_congr_left
  intro s hs
  rw [heads_div (sections_dvd s hs)]
  rfl

theorem mem_feeders : p ∈ R.feeders d ↔ p < R.tpSize ∧ p / R.ratio = d := by
  have hle : decide ((R.reqMeta d).remoteTpSize ≤ (R.sender p).tpSize) = true :=
    decide_eq_true (Nat.le_mul_of_pos_left _ R.ratio_pos)
  have hratio : (R.sender p).tpSize / (R.reqMeta d).remoteTpSize = R.ratio := tpSize_div
  have hsplit : (R.sender p).getKvSplitMetadataForMamba (R.reqMeta d) = .ok (some
      ⟨R.remotePort + p / R.ratio, R.localBlockIds, R.remoteBlockIds, R.ratio⟩) := by
    rw [SendingThread.getKvSplitMetadataForMamba, hle, hratio, if_neg R.ratio_pos.ne']
    rfl
  rw [feeders, mem_filter, mem_range, hsplit]
  simp only [decide_eq_true_iff, Nat.add_left_cancel_iff]

theorem feeders_perm (hd : d < R.remoteTpSize) :
    R.feeders d ~ (range R.ratio).map (d * R.ratio + ·) := by
  rw [← range'_eq_map_range]
  apply (perm_ext_iff_of_nodup (nodup_range.filter _) (nodup_range' 1)).mpr
  intro p
  have hlast : d * R.ratio + R.ratio ≤ R.tpSize := by
    rw [← Nat.succ_mul, tpSize, Nat.mul_comm R.ratio]
    exact Nat.mul_le_mul_right _ hd
  have hpos := R.ratio_pos
  refine mem_feeders.trans ?_
  rw [mem_range'_1, Nat.div_eq_iff hpos]
  omega

theorem prefillShape_eq : R.prefillShape.conv =
    ((R.localTable .conv).rows, (R.localTable .conv).width) ∧
      ∀ x, R.prefillShape.prod x = (R.localTable x).rows * (R.localTable x).width :=
  gatedDeltaNetStateShape_ok R.dtypeSize R.key_dvd R.value_dvd R.prefill_shape

theorem sender_blockLen : (R.sender p).layerMetadata.blockLen x = (R.localTable x).length :=
  congrArg (_ * ·) (prefillShape_eq.2 x)

theorem reqMeta_blockLen : (R.reqMeta d).remoteLayerMetadata.blockLen x =
    (R.remoteTable x).length :=
  congrArg (_ * ·) ((gatedDeltaNetStateShape_ok R.dtypeSize (dvd_of_mul_left_dvd R.key_dvd)
    (dvd_of_mul_left_dvd R.value_dvd) R.decode_shape).2 x)

variable (R p d) in
def localAddr (block : Nat) (x : StateTensor) : Nat := (R.sender p).layerMetadata.blockAddr block x

variable (R d) in
def remoteAddr (block : Nat) (x : StateTensor) : Nat :=
  (R.reqMeta d).remoteLayerMetadata.blockAddr block x

variable (R p d localBlock remoteBlock) in
def copies (x : StateTensor) : List Transfer :=
  (R.localTable x).send R.ratio (p % R.ratio) (R.localAddr p localBlock x)
    (R.remoteAddr d remoteBlock x)

/-- The transfers are the copies of the convolution state, then those of the SSM state. -/
theorem mambaTransfers_eq :
    (R.sender p).mambaTransfers R.ratio localBlock remoteBlock (R.reqMeta d).remoteLayerMetadata =
      R.copies p d localBlock remoteBlock .conv ++ R.copies p d localBlock remoteBlock .ssm := by
  simp only [SendingThread.mambaTransfers, copies, HeadTable.send]
  split
  · next hone =>
    have hsame : ∀ x, R.remoteTable x = R.localTable x := by
      intro x
      rw [remoteTable, localTable, tpSize, hone, Nat.one_mul]
    simp only [localAddr, remoteAddr, LayerMetadata.blockAddr, sender_blockLen,
      reqMeta_blockLen, hsame]
    rfl
  congr 1
  · rw [SendingThread.convTransfers, sender, prefillShape_eq.1, localConvSections_eq]
    simp only [map_map]
    rfl
  rw [sender_blockLen, sender, prefillShape_eq.2]
  simp only [localTable, TextConfig.table, TextConfig.rows, TextConfig.sections, HeadTable.length,
    HeadTable.width, HeadTable.sizes, HeadTable.start, map_cons, map_nil, sum_cons, sum_nil,
    add_zero,
    one_mul, getD_cons_zero, length_cons, length_nil, zero_add, range_one, take_zero, flatMap_cons,
    zero_mul, flatMap_nil, append_nil, cons.injEq, Transfer.mk.injEq, Nat.add_right_cancel_iff,
    and_true]
  exact ⟨rfl, rfl, Nat.mul_comm _ _⟩

theorem getTransferMeta_eq
    (hlocal : pyGet R.localBlockIds (transferBlockIdx R.mambaAlign R.numSpeculativeTokens
      R.localBlockIds) = .ok localBlock) (hremote : pyGet R.remoteBlockIds 0 = .ok remoteBlock) :
    (R.sender p).getTransferMeta (R.reqMeta d) =
      .ok (R.copies p d localBlock remoteBlock .conv ++
        R.copies p d localBlock remoteBlock .ssm) := by
  have hratio : (R.sender p).tpSize / (R.reqMeta d).remoteTpSize = R.ratio := tpSize_div
  simp only [SendingThread.getTransferMeta, hratio, R.ratio_pos.ne', ↓reduceIte]
  rw [← mambaTransfers_eq, sender, reqMeta, hlocal, hremote]
  rfl

theorem copies_tile (hd : d < R.remoteTpSize) :
    ((R.feeders d).flatMap fun p =>
      (R.copies p d localBlock remoteBlock x).flatMap Transfer.written) ~
      range' (R.remoteAddr d remoteBlock x) ((R.reqMeta d).remoteLayerMetadata.blockLen x) := by
  refine ((feeders_perm hd).flatMap_right _).trans ?_
  rw [flatMap_map, reqMeta_blockLen, remoteTable_eq]
  refine Perm.trans (.of_eq (flatMap_congr fun r hr => ?_))
    ((R.localTable x).send_tile (fun r => R.localAddr (d * R.ratio + r) localBlock x) _)
  rw [copies, Nat.mul_add_mod_self_right, Nat.mod_eq_of_lt (mem_range.mp hr)]

theorem copies_carried {row j head y heads dim : Nat}
    (hj : (R.config.sections x)[j]? = some (heads, dim)) (hrow : row < (R.localTable x).rows)
    (hhead : head < heads) (hy : y < dim * R.dtypeSize x) (hp : head / (heads / R.tpSize) = p) :
    Carried (R.copies p d localBlock remoteBlock x)
      (R.localAddr p localBlock x + (R.localTable x).place row j head * R.dtypeSize x + y)
      (R.remoteAddr d remoteBlock x + (R.remoteTable x).place row j head * R.dtypeSize x + y) := by
  have hlocal : (R.localTable x).sections[j]? = some (heads / R.tpSize, dim) := by
    rw [localTable, TextConfig.table, getElem?_map, hj]
    rfl
  have hpos : 0 < heads / R.tpSize :=
    Nat.div_pos (Nat.le_of_dvd (by omega) (sections_dvd _ (mem_of_getElem? hj))) tpSize_pos
  rw [← hp, remoteTable_eq]
  exact HeadTable.send_carried _ _ hlocal hrow hpos hy

/-- The ranks that feed a decode rank return writes that fill its two blocks, none overlapping
another, and bring each head to its place in the decode rank's own layout. -/
theorem getTransferMeta_reshards (R : Resharding) {d localBlock remoteBlock : Nat}
    (hd : d < R.remoteTpSize)
    (hlocal : pyGet R.localBlockIds (transferBlockIdx R.mambaAlign R.numSpeculativeTokens
      R.localBlockIds) = .ok localBlock) (hremote : pyGet R.remoteBlockIds 0 = .ok remoteBlock) :
    let span := fun x => range' (R.remoteAddr d remoteBlock x)
      ((R.reqMeta d).remoteLayerMetadata.blockLen x)
    ∃ writes : Nat → List Transfer,
      (∀ p ∈ R.feeders d, (R.sender p).getTransferMeta (R.reqMeta d) = .ok (writes p)) ∧
      ((R.feeders d).flatMap writes).flatMap Transfer.written ~ span .conv ++ span .ssm ∧
      ((span .conv).Disjoint (span .ssm) →
        ((R.feeders d).flatMap writes).Pairwise fun t u => t.written.Disjoint u.written) ∧
      ∀ x row j head y heads dim, (R.config.sections x)[j]? = some (heads, dim) →
        row < (R.localTable x).rows → head < heads → head / (heads / R.remoteTpSize) = d →
        y < dim * R.dtypeSize x → ∃ p ∈ R.feeders d, p = head / (heads / R.tpSize) ∧
          Carried (writes p)
            (R.localAddr p localBlock x + (R.localTable x).place row j head * R.dtypeSize x + y)
            (R.remoteAddr d remoteBlock x + (R.remoteTable x).place row j head * R.dtypeSize x +
                y) := by
  intro span
  have htile : ((R.feeders d).flatMap fun p => R.copies p d localBlock remoteBlock .conv ++
      R.copies p d localBlock remoteBlock .ssm).flatMap Transfer.written ~ span .conv ++
        span .ssm := by
    simp only [flatMap_assoc, flatMap_append]
    exact (flatMap_append_perm _ _ _).symm.trans ((copies_tile hd).append (copies_tile hd))
  refine ⟨_, fun p _ => getTransferMeta_eq hlocal hremote, htile, ?_, ?_⟩
  · intro hapart
    have hnodup : (span .conv ++ span .ssm).Nodup :=
      nodup_append'.mpr ⟨nodup_range' 1, nodup_range' 1, hapart⟩
    exact (nodup_flatMap.mp (htile.nodup_iff.mpr hnodup)).2
  intro x row j head y heads dim hj hrow hhead hrank hy
  have hcarried : Carried (R.copies _ d localBlock remoteBlock x) _ _ :=
    copies_carried hj hrow hhead hy rfl
  obtain ⟨t, ht, hcopy⟩ := hcarried
  have hdvd := sections_dvd _ (mem_of_getElem? hj)
  refine ⟨_, mem_feeders.mpr ⟨?_, ?_⟩, rfl, t, ?_, hcopy⟩
  · apply Nat.div_lt_of_lt_mul
    rwa [Nat.div_mul_cancel hdvd]
  · rw [Nat.div_div_eq_div_mul, ← heads_div hdvd, hrank]
  · cases x with
    | conv => exact mem_append_left _ ht
    | ssm => exact mem_append_right _ ht

def twoRanks : Resharding where
  config := ⟨1, 2, 2, 2, 3, 0⟩
  ratio := 2
  remoteTpSize := 1
  ratio_pos := Nat.two_pos
  remoteTpSize_pos := Nat.one_pos
  key_dvd := by decide
  value_dvd := by decide
  dtypeSize _ := 2
  prefillShape := ⟨(2, 4), (1, 2, 1)⟩
  decodeShape := ⟨(2, 8), (2, 2, 1)⟩
  prefill_shape := rfl
  decode_shape := rfl
  prefillPtr p x := match x with
    | .conv => 1000 * p
    | .ssm => 1000 * p + 500
  decodePtr _ x := match x with
    | .conv => 4000
    | .ssm => 4500
  mambaAlign := false
  numSpeculativeTokens := 0
  localBlockIds := [3]
  remoteBlockIds := [5]
  remotePort := 0

/-- Two prefill ranks feed one decode rank. -/
theorem twoRanks_reshards : ∃ writes : Nat → List Transfer,
    ((twoRanks.feeders 0).flatMap writes).flatMap Transfer.written ~
      range' 4160 32 ++ range' 4540 8 := by
  obtain ⟨writes, _, htile, _⟩ := @getTransferMeta_reshards twoRanks 0 3 5 (by decide) rfl rfl
  exact ⟨writes, htile⟩

end Resharding

end Layerwise

end VllmEcho
