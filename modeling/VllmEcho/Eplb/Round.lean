import VllmEcho.Eplb.Transfer

/-!
# Rounds

A round collects loads, wakes the planning process, takes the packed plan and installs one entry
per update iteration.  Since the plan mentions unchanged layers twice and only `num_moe_layers`
entries are taken, the layers behind them are not reached.
-/

namespace VllmEcho

namespace Eplb

open Lib Function List Rank EplbConfig

variable {L G E K : Nat} {W : Type}

/-! ## What the ranks hold -/

/-- The expert maps, the `log2phy` maps and the weights on all ranks are those of `maps`, where
`orig l e` are the weights of expert `e` of layer `l`. -/
structure Installed (orig : Fin L → Fin E → W) (maps : ExpertMaps L G E K)
    (w : World L G E K W) : Prop where
  expertMap : ∀ g l, (w g).expertMapPerLayer l = maps l g
  log2phyMap : ∀ g l, (w g).log2phyMapPerLayer l = some (generateLog2phyMap (maps l) g)
  weights : ∀ g l e slot, maps l g e = some slot → (w g).expertParamPerLayer l slot = orig l e

variable (loader : Loader L G E K)

def Loader.Idle : Prop :=
  loader.state = .waiting ∧ loader.recvExpertList = []

theorem forRanks_ok {α : Type} {f : Fin G → Except PyError α} (h : Fin G → α)
    (hf : ∀ g, f g = .ok (h g)) : forRanks f = .ok h := by
  unfold forRanks
  rw [mapM_ok h (finRange G) fun g _ => hf g]
  simp

variable (cfg : EplbConfig)

def EplbConfig.base : Nat :=
  cfg.expertHeatCollectionInterval + cfg.algorithmExecutionInterval

def EplbConfig.next (L cur : Nat) : Nat :=
  if cur + 1 = cfg.base + L then 0 else cur + 1

theorem updateIteration_eq (r : Rank L G E K W) :
    r.updateIteration cfg = { r with curIterations := cfg.next L r.curIterations } := by
  unfold updateIteration EplbConfig.next base
  split <;> rfl

theorem transferBuffers_nil (w : World L G E K W) (d : Fin G) :
    transferBuffers w (fun _ => []) d = (w d).bufferTensorList := by
  unfold transferBuffers
  have hnone : ((finRange G).flatMap fun s =>
      (channel (fun _ : Fin G => ([] : List (P2POp L G K))) s d).map fun x => (s, x)) = [] :=
    flatMap_eq_nil_iff.mpr fun _ _ => rfl
  rw [hnone]
  rfl

theorem completes_nil (d : Fin G) :
    completes (fun _ : Fin G => ([] : List (P2POp L G K))) d = true := by
  unfold completes
  rw [decide_eq_true_eq]
  exact fun _ => ⟨rfl, rfl⟩

/-! ## Iterations outside the update phase -/

section Quiet

variable {cfg : EplbConfig} {proposal : Fin L → Fin G → Fin K → Fin E}

variable {w : World L G E K W} {c : Nat} {r : Rank L G E K W}

theorem iteration_quiet {before after : World L G E K W}
    (hbefore : ∀ g, (w g).forwardBefore cfg = .ok (before g, []))
    (hafter : ∀ g, (before g).forwardEnd cfg g proposal true = .ok (after g)) :
    iteration cfg proposal w = .ok after := by
  unfold iteration
  rw [forRanks_ok (fun g => (before g, [])) hbefore]
  apply forRanks_ok
  intro g
  rw [transferBuffers_nil, completes_nil]
  exact hafter g

theorem updateExpertWeightFlag_false (hbase : r.curIterations < cfg.base) :
    r.updateExpertWeightFlag cfg = false :=
  decide_eq_false fun hflag => Nat.not_le.mpr hbase hflag.1

theorem forwardBefore_quiet (hget : r.curIterations + 1 ≠ cfg.base)
    (hbase : r.curIterations < cfg.base) : r.forwardBefore cfg = .ok (r, []) := by
  have hflag : r.getUpdateInfoFlag cfg = false := decide_eq_false hget
  unfold forwardBefore takeUpdateInfo
  rw [hflag, if_neg Bool.false_ne_true, ok_bind, updateExpertWeightFlag_false hbase,
    if_neg Bool.false_ne_true]

theorem forwardEnd_quiet {g : Fin G} {completed : Bool}
    (hwake : r.curIterations + 1 ≠ cfg.expertHeatCollectionInterval)
    (hbase : r.curIterations < cfg.base) : r.forwardEnd cfg g proposal completed =
      .ok { r with curIterations := cfg.next L r.curIterations } := by
  have hflag : r.wakeupEplbWorkerFlag cfg = false := decide_eq_false hwake
  unfold forwardEnd
  simp only [hflag, updateExpertWeightFlag_false hbase, Bool.false_and, Bool.false_eq_true,
    if_false, ok_bind, updateIteration_eq]

theorem iteration_idle (hcur : ∀ g, (w g).curIterations = c)
    (hwake : c + 1 ≠ cfg.expertHeatCollectionInterval) (hget : c + 1 ≠ cfg.base)
    (hbase : c < cfg.base) :
    iteration cfg proposal w = .ok fun g => { w g with curIterations := c + 1 } := by
  refine iteration_quiet (fun g => forwardBefore_quiet ((hcur g).symm ▸ hget) ?_) fun g => ?_
  · exact (hcur g).symm ▸ hbase
  · rw [forwardEnd_quiet (by rw [hcur g]; exact hwake) (by rw [hcur g]; exact hbase), hcur g]
    have hnext : cfg.next L c = c + 1 := by
      unfold EplbConfig.next
      rw [if_neg (by omega)]
    rw [hnext]

theorem iterations_idle (n : Nat) : ∀ {w : World L G E K W}, (∀ g, (w g).curIterations = c) →
      (∀ j, c ≤ j → j < c + n → j + 1 ≠ cfg.expertHeatCollectionInterval ∧ j + 1 ≠ cfg.base ∧
        j < cfg.base) →
      iterations cfg proposal n w = .ok fun g => { w g with curIterations := c + n } := by
  induction n generalizing c with
  | zero =>
    intro w hcur _
    rw [iterations]
    congr 1
    funext g
    rw [Nat.add_zero, ← hcur g]
  | succ n ih =>
    intro w hcur hquiet
    obtain ⟨hwake, hget, hbase⟩ := hquiet c (Nat.le_refl c) (by omega)
    rw [iterations, iteration_idle hcur hwake hget hbase, ok_bind,
      ih (c := c + 1) (fun _ => rfl) fun j hj hjn => hquiet j (by omega) (by omega)]
    rw [Nat.add_assoc, Nat.add_comm 1 n]

theorem iterations_add (m n : Nat) : ∀ w : World L G E K W, iterations cfg proposal (m + n) w =
      (iterations cfg proposal m w >>= iterations cfg proposal n) := by
  induction m with
  | zero => intro w; rw [Nat.zero_add, iterations, ok_bind]
  | succ m ih =>
    intro w
    rw [Nat.succ_add, iterations, iterations, bind_assoc]
    congr 1
    funext w'
    exact ih w'

/-- The iteration that wakes the planning process. -/
theorem iteration_wake {old : ExpertMaps L G E K} (hold : ∀ l, Proper (old l))
    (hcur : ∀ g, (w g).curIterations = c) (hmaps : ∀ g, (w g).oldExpertMaps = old)
    (hwake : c + 1 = cfg.expertHeatCollectionInterval) (hget : c + 1 < cfg.base) :
    iteration cfg proposal w = .ok fun g => { w g with
      curIterations := c + 1
      oldExpertMaps := plannedMaps old proposal
      blockUpdateQ := some ((schedule (plannedMaps old proposal) old).map
        (layerInfo (plannedMaps old proposal) old g)) } := by
  refine iteration_quiet (fun g => forwardBefore_quiet ?_ ?_) fun g => ?_
  · rw [hcur g]
    omega
  · rw [hcur g]
    omega
  have hflag : (w g).wakeupEplbWorkerFlag cfg = true := decide_eq_true ((hcur g).symm ▸ hwake)
  unfold forwardEnd
  rw [if_pos hflag]
  unfold wakeupEplbWorker
  rw [hmaps g, doUpdate_eq hold, ok_bind]
  dsimp only
  rw [ok_bind]
  have hnext : cfg.next L c = c + 1 := by
    unfold EplbConfig.next
    rw [if_neg (by omega)]
  rw [if_neg, ok_bind, updateIteration_eq]
  · rw [hcur g, hnext]
  · rw [updateExpertWeightFlag_false]
    · exact Bool.false_ne_true
    · show (w g).curIterations < _
      rw [hcur g]
      omega

theorem iteration_take (hcur : ∀ g, (w g).curIterations = c)
    {infos : Fin G → List (UpdateInfo L G E K)} (hqueue : ∀ g, (w g).blockUpdateQ = some (infos g))
    (hwake : c + 1 ≠ cfg.expertHeatCollectionInterval) (hget : c + 1 = cfg.base) :
    iteration cfg proposal w = .ok fun g => { w g with
      curIterations := cfg.next L c
      updateInfoAll := infos g
      blockUpdateQ := none } := by
  apply iteration_quiet
  · intro g
    have hflag : (w g).getUpdateInfoFlag cfg = true := decide_eq_true ((hcur g).symm ▸ hget)
    have hupdate : updateExpertWeightFlag cfg
        { w g with updateInfoAll := infos g, blockUpdateQ := none } = false :=
      updateExpertWeightFlag_false (by show (w g).curIterations < _; rw [hcur g]; omega)
    unfold forwardBefore takeUpdateInfo
    rw [if_pos hflag, hqueue g]
    rw [ok_bind, hupdate, if_neg Bool.false_ne_true]
  · intro g
    rw [forwardEnd_quiet]
    · simp only [hcur g]
    · rw [hcur g]
      exact hwake
    · rw [hcur g]
      omega

end Quiet

/-! ## Update iterations -/

structure Consumes (c : Nat) (rest : Fin G → List (UpdateInfo L G E K)) (w w' : World L G E K W) :
    Prop where
  planned : ∀ g, (w' g).oldExpertMaps = (w g).oldExpertMaps
  queue : ∀ g, (w' g).blockUpdateQ = (w g).blockUpdateQ
  infos : ∀ g, (w' g).updateInfoAll = rest g
  counter : ∀ g, (w' g).curIterations = cfg.next L c

variable {rest : Fin G → List (UpdateInfo L G E K)} {map : Fin E → Option (Fin K)}

section Update

variable {cfg : EplbConfig} {proposal : Fin L → Fin G → Fin K → Fin E}
  {updated old maps : ExpertMaps L G E K} {l : Fin L} {c : Nat}

variable {r : Rank L G E K W} {g : Fin G} {orig : Fin L → Fin E → W} {w : World L G E K W}

theorem updateExpertWeightFlag_true (hcur : r.curIterations = c) (hbase : cfg.base ≤ c)
    (hlt : c < cfg.base + L) : r.updateExpertWeightFlag cfg = true :=
  decide_eq_true ⟨hcur.symm ▸ hbase, hcur.symm ▸ hlt⟩

theorem takeUpdateInfo_update (hcur : r.curIterations = c) (hbase : cfg.base ≤ c) :
    r.takeUpdateInfo cfg = .ok r := by
  have hflag : r.getUpdateInfoFlag cfg = false := by
    apply decide_eq_false
    unfold base at hbase
    omega
  unfold takeUpdateInfo
  rw [hflag, if_neg Bool.false_ne_true]

noncomputable def taskLoader (hold : Proper (old l)) (hnew : Proper (updated l)) (g : Fin G)
    (state : ExpertWeightUpdateState) : Loader L G E K where
  updatedLog2phyMap := some (generateLog2phyMap (updated l) g)
  updatedExpertMap := some (updated l g)
  layerId := some l
  commOpList := layerOps hold l (updated l) g
  recvExpertList := loader.recvExpertList ++
    (recvList (layerMessages (updated l) (old l)) g).zipIdx.map
      fun x => (hnew.slotOf g x.1.2, x.2)
  state := state

theorem generateTask_eq (hold : Proper (old l)) (hnew : Proper (updated l))
    (hmap : r.expertMapPerLayer l = old l g) (hstate : r.loader.state = .waiting) :
    (r.setLog2phyMap (layerInfo updated old g l).log2phyMap).generateExpertD2dTransferTask
        (layerInfo updated old g l) =
      .ok { r with loader := taskLoader r.loader hold hnew g .ready } := by
  unfold generateExpertD2dTransferTask
  rw [if_neg (by simpa [setLog2phyMap] using hstate)]
  have hsends : sendOps ((r.setLog2phyMap (layerInfo updated old g l).log2phyMap).expertMapPerLayer
      (layerInfo updated old g l).layerId) (layerInfo updated old g l).layerId
      (layerInfo updated old g l).sendInfo = _ :=
    (congrArg (fun m => sendOps m l _) hmap).trans (sendOps_eq hold)
  have hrecvs : (recvOps (layerInfo updated old g l).expertMap
      (layerInfo updated old g l).recvInfo :
        Except PyError (List (P2POp L G K × (Fin K × Nat)))) = _ :=
    recvOps_eq hold hnew
  rw [hsends, ok_bind, hrecvs, ok_bind, map_map, map_map]
  unfold taskLoader layerOps positions
  rw [map_map]
  rfl

section

variable {rest : List (UpdateInfo L G E K)} (hold : Proper (old l)) (hnew : Proper (updated l))
  (hcur : r.curIterations = c) (hbase : cfg.base ≤ c) (hlt : c < cfg.base + L)
  (hinfo : r.updateInfoAll = layerInfo updated old g l :: rest)
  (hmap : r.expertMapPerLayer l = old l g)
include hold hnew hcur hbase hlt hinfo hmap

theorem forwardBefore_update (hstate : r.loader.state = .waiting) :
    r.forwardBefore cfg = .ok
      ({ r with updateInfoAll := rest, loader := taskLoader r.loader hold hnew g .transferring },
        layerOps hold l (updated l) g) := by
  unfold forwardBefore
  rw [takeUpdateInfo_update hcur hbase, ok_bind,
    if_pos (updateExpertWeightFlag_true hcur hbase hlt), hinfo]
  have htask := generateTask_eq (r := { r with updateInfoAll := rest }) hold hnew hmap hstate
  dsimp only at htask ⊢
  rw [htask]
  rfl

/-- Whatever the loader is doing, an update iteration consumes its entry and changes neither maps
nor weights before the forward pass. -/
theorem forwardBefore_frame : ∃ loader ops, r.forwardBefore cfg =
    .ok ({ r with updateInfoAll := rest, loader := loader }, ops) := by
  by_cases hstate : r.loader.state = .waiting
  · exact ⟨_, _, forwardBefore_update hold hnew hcur hbase hlt hinfo hmap hstate⟩
  unfold forwardBefore
  rw [takeUpdateInfo_update hcur hbase, ok_bind,
    if_pos (updateExpertWeightFlag_true hcur hbase hlt), hinfo]
  dsimp only
  unfold generateExpertD2dTransferTask
  rw [if_pos (by simpa [setLog2phyMap] using hstate), ok_bind]
  unfold asynExpertWeightTransfer
  by_cases hready : r.loader.state = .ready
  · rw [if_neg (by simpa [setLog2phyMap] using hready)]
    exact ⟨_, _, rfl⟩
  · rw [if_pos (by simpa [setLog2phyMap] using hready)]
    exact ⟨_, _, rfl⟩

end

theorem wakeupEplbWorkerFlag_false (hcur : r.curIterations = c) (hbase : cfg.base ≤ c) :
    r.wakeupEplbWorkerFlag cfg = false := by
  apply decide_eq_false
  unfold base at hbase
  omega

theorem forwardEnd_record {completed : Bool} (hcur : r.curIterations = c) (hbase : cfg.base ≤ c)
    (hrecord : cfg.expertMapRecordPath ≠ none) :
    r.forwardEnd cfg g proposal completed = .ok { r with curIterations := cfg.next L c } := by
  have hsome : cfg.expertMapRecordPath.isNone = false := by
    cases hpath : cfg.expertMapRecordPath with
    | none => exact absurd hpath hrecord
    | some path => rfl
  unfold forwardEnd
  simp only [wakeupEplbWorkerFlag_false hcur hbase, hsome, Bool.and_false, Bool.false_eq_true,
    if_false, ok_bind, updateIteration_eq, hcur]

def installLayer (r : Rank L G E K W) (l : Fin L) (map : Fin E → Option (Fin K))
    (log2phy : Fin E → Nat) (loader : Loader L G E K) (next : Nat) : Rank L G E K W :=
  { r with
    curIterations := next
    loader := loader
    expertMapPerLayer := update r.expertMapPerLayer l map
    log2phyMapPerLayer := update r.log2phyMapPerLayer l (some log2phy)
    expertParamPerLayer := update r.expertParamPerLayer l
      (copyBuffers r.bufferTensorList r.loader.recvExpertList (r.expertParamPerLayer l)) }

def Loader.reset : Loader L G E K :=
  { loader with
    commOpList := []
    recvExpertList := []
    updatedExpertMap := none
    layerId := none
    state := .waiting }

theorem updateExpertMapAndWeight_eq (hstate : r.loader.state = .transferring)
    (hlayer : r.loader.layerId = some l) (hmap : r.loader.updatedExpertMap = some map) :
    r.updateExpertMapAndWeight true =
      .ok { (r.doUpdateExpertMap l map).doUpdateLog2phyMap l r.loader.updatedLog2phyMap with
        loader := r.loader.reset
        expertParamPerLayer := update r.expertParamPerLayer l
          (copyBuffers r.bufferTensorList r.loader.recvExpertList (r.expertParamPerLayer l)) } := by
  unfold updateExpertMapAndWeight
  rw [if_neg (by simp [hstate]), if_neg (by decide), hlayer, hmap]
  dsimp only
  rw [foldl_doUpdateExpertWeight]
  unfold doUpdateLog2phyMap
  split <;> rfl

theorem forwardEnd_install {log2phy log2phy' : Fin E → Nat} (hcur : r.curIterations = c)
    (hbase : cfg.base ≤ c) (hlt : c < cfg.base + L) (hrecord : cfg.expertMapRecordPath = none)
    (hstate : r.loader.state = .transferring) (hlayer : r.loader.layerId = some l)
    (hmap : r.loader.updatedExpertMap = some map) (hlog : r.loader.updatedLog2phyMap = some log2phy)
    (hhas : r.log2phyMapPerLayer l = some log2phy') : r.forwardEnd cfg g proposal true =
      .ok (installLayer r l map log2phy r.loader.reset (cfg.next L c)) := by
  have hlogged : (r.doUpdateExpertMap l map).doUpdateLog2phyMap l r.loader.updatedLog2phyMap =
      { r with
        expertMapPerLayer := update r.expertMapPerLayer l map
        log2phyMapPerLayer := update r.log2phyMapPerLayer l (some log2phy) } := by
    unfold doUpdateLog2phyMap doUpdateExpertMap
    rw [if_neg (by simp [hhas]), hlog]
  unfold forwardEnd
  rw [if_neg (by rw [wakeupEplbWorkerFlag_false hcur hbase]; exact Bool.false_ne_true), ok_bind]
  dsimp only
  rw [if_pos (by rw [updateExpertWeightFlag_true hcur hbase hlt, hrecord]; rfl),
    updateExpertMapAndWeight_eq hstate hlayer hmap, hlogged, ok_bind, updateIteration_eq, ← hcur]
  rfl

section

variable (hold : Proper (old l)) (hnew : Proper (updated l)) (hcur : ∀ g, (w g).curIterations = c)
  (hbase : cfg.base ≤ c) (hlt : c < cfg.base + L)
  (hinfo : ∀ g, (w g).updateInfoAll = layerInfo updated old g l :: rest g)
  (hinst : Installed orig maps w) (hmaps : maps l = old l)
include hold hnew hcur hbase hlt hinfo hinst hmaps

/-- An update iteration installs one layer on all ranks. -/
theorem iteration_install (hkeeps : KeepsSlots (updated l) (old l))
    (hrecord : cfg.expertMapRecordPath = none) (hidle : ∀ g, (w g).loader.Idle) :
    ∃ w', iteration cfg proposal w = .ok w' ∧
      Installed orig (update maps l (updated l)) w' ∧ Consumes cfg c rest w w' ∧
      ∀ g, (w' g).loader.Idle := by
  let sent : World L G E K W := fun g => { w g with
    updateInfoAll := rest g
    loader := taskLoader (w g).loader hold hnew g .transferring }
  have hbefore : ∀ g, (w g).forwardBefore cfg = .ok (sent g, layerOps hold l (updated l) g) :=
    fun g => forwardBefore_update hold hnew (hcur g) hbase hlt (hinfo g)
      (by rw [hinst.expertMap, hmaps]) (hidle g).1
  refine ⟨fun g => installLayer { sent g with
      bufferTensorList := transferBuffers sent (layerOps hold l (updated l)) g } l (updated l g)
      (generateLog2phyMap (updated l) g) (sent g).loader.reset (cfg.next L c), ?_, ?_, ?_,
    fun _ => ⟨rfl, rfl⟩⟩
  · unfold iteration
    rw [forRanks_ok _ hbefore]
    apply forRanks_ok
    intro g
    rw [completes_layerOps hold]
    exact forwardEnd_install (hcur g) hbase hlt hrecord rfl rfl rfl rfl (hinst.log2phyMap g l)
  · exact {
      expertMap := by
        intro g j
        show update (w g).expertMapPerLayer l (updated l g) j = _
        by_cases hj : j = l
        · subst hj
          rw [update_self, update_self]
        · rw [update_of_ne hj, update_of_ne hj]
          exact hinst.expertMap g j
      log2phyMap := by
        intro g j
        show update (w g).log2phyMapPerLayer l _ j = _
        by_cases hj : j = l
        · subst hj
          rw [update_self, update_self]
        · rw [update_of_ne hj, update_of_ne hj]
          exact hinst.log2phyMap g j
      weights := by
        intro g j e slot hslot
        show update (w g).expertParamPerLayer l (copyBuffers _
          ((w g).loader.recvExpertList ++ _) ((w g).expertParamPerLayer l)) j slot = _
        by_cases hj : j = l
        · subst hj
          rw [update_self] at hslot ⊢
          rw [(hidle g).2]
          refine copied_weights hold hnew hkeeps (fun i x hi => ?_)
            (fun e slot h => hinst.weights g _ e slot (by rw [hmaps]; exact h)) hslot
          refine (transferBuffers_layerOps hold sent hi).trans ?_
          apply hinst.weights
          rw [hmaps]
          exact hold.eq_slotOf (source_holds hold (mem_recvList.mp (mem_of_getElem? hi)))
        · rw [update_of_ne hj] at hslot ⊢
          exact hinst.weights g j e slot hslot }
  · exact ⟨fun _ => rfl, fun _ => rfl, fun _ => rfl, fun _ => rfl⟩

theorem iteration_record (hrecord : cfg.expertMapRecordPath ≠ none) :
    ∃ w', iteration cfg proposal w = .ok w' ∧ Installed orig maps w' ∧
      Consumes cfg c rest w w' := by
  choose loader ops hbefore using fun g => forwardBefore_frame hold hnew (hcur g) hbase hlt
    (hinfo g) (by rw [hinst.expertMap, hmaps] : (w g).expertMapPerLayer l = old l g)
  refine ⟨fun g => { w g with
    updateInfoAll := rest g
    loader := loader g
    bufferTensorList := transferBuffers
      (fun g => { w g with updateInfoAll := rest g, loader := loader g }) ops g
    curIterations := cfg.next L c }, ?_, ?_, ?_⟩
  · unfold iteration
    rw [forRanks_ok _ hbefore]
    apply forRanks_ok
    intro g
    exact forwardEnd_record (hcur g) hbase hrecord
  · exact ⟨hinst.expertMap, hinst.log2phyMap, hinst.weights⟩
  · exact ⟨fun _ => rfl, fun _ => rfl, fun _ => rfl, fun _ => rfl⟩

end

end Update

end Eplb

end VllmEcho
