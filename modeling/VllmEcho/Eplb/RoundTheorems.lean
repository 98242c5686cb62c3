import VllmEcho.Eplb.Round

/-!
# Does a round install its plan?

The layers a round reaches, and the exact condition under which these are all the layers that
change.  Rounds that meet it can follow each other: the planning process then always starts from
the maps that the ranks hold.
-/

namespace VllmEcho

open List

variable (cfg : EplbConfig)

namespace Eplb

variable {L G E K : Nat} {W : Type}

/-! ## The schedule -/

section Schedule

variable {updated old : ExpertMaps L G E K}

variable {l : Fin L}

theorem count_schedule (hl : updated l ≠ old l) : (schedule updated old).count l = 1 := by
  rw [schedule, count_flatMap, sum_map_eq_nsmul_single l]
  · simp [visits, hl]
  · intro j hj _
    show List.count l (visits updated old j) = 0
    rw [count_eq_zero, visits]
    split <;> simp [Ne.symm hj]

def unchangedBefore (updated old : ExpertMaps L G E K) (l : Fin L) : Nat :=
  (((finRange L).take l).filter fun j => updated j = old j).length

theorem length_flatMap_layers (layers : List (Fin L)) :
    (layers.flatMap (visits updated old)).length =
      layers.length + (layers.filter fun j => updated j = old j).length := by
  induction layers with
  | nil => rfl
  | cons l layers ih =>
    rw [flatMap_cons, length_append, ih]
    by_cases hl : updated l = old l
    · simp [visits, hl]
      omega
    · simp [visits, hl]
      omega

theorem length_le_length_schedule : L ≤ (schedule updated old).length := by
  rw [schedule, length_flatMap_layers, length_finRange]
  exact Nat.le_add_right L _

/-- A changed layer is reached if its entry comes early enough; unchanged layers before it count
twice. -/
theorem mem_take_schedule (hl : updated l ≠ old l) (n : Nat) :
    l ∈ (schedule updated old).take n ↔ l.val + unchangedBefore updated old l < n := by
  have hdrop : (finRange L).drop l = l :: (finRange L).drop (l + 1) := by
    rw [drop_eq_getElem_cons (by simp)]
    simp
  have hsplit : schedule updated old =
      ((finRange L).take l).flatMap (visits updated old) ++
        l :: ((finRange L).drop (l + 1)).flatMap (visits updated old) := by
    rw [schedule]
    conv_lhs => rw [← take_append_drop l (finRange L), hdrop]
    rw [flatMap_append, flatMap_cons, visits, if_neg hl]
    rfl
  have hlen : (((finRange L).take l).flatMap (visits updated old)).length =
      l.val + unchangedBefore updated old l := by
    rw [length_flatMap_layers, length_take, length_finRange, Nat.min_eq_left l.isLt.le]
    rfl
  have hnot : l ∉ ((finRange L).take l).flatMap (visits updated old) := by
    intro hin
    obtain ⟨j, hj, hjl⟩ := mem_flatMap.mp hin
    obtain rfl : l = j := by
      unfold visits at hjl
      split at hjl <;> simpa using hjl
    obtain ⟨i, hi, heq⟩ := mem_take_iff_getElem.mp hj
    have hval := congrArg Fin.val heq
    simp at hval hi
    omega
  have hmem : l ∈ schedule updated old := by
    rw [hsplit]
    exact mem_append_right _ mem_cons_self
  rw [mem_take_iff_idxOf_lt hmem, hsplit, idxOf_append_of_notMem hnot, idxOf_cons_self, hlen,
    Nat.add_zero]

def merged (updated old : ExpertMaps L G E K) (done : List (Fin L)) : ExpertMaps L G E K :=
  fun l => if done.contains l then updated l else old l

theorem merged_append (done : List (Fin L)) (l : Fin L) :
    Function.update (merged updated old done) l (updated l) = merged updated old (done ++ [l]) := by
  funext j
  unfold merged
  by_cases hj : j = l
  · subst hj
    simp
  · simp [hj]

theorem merged_next {done todo : List (Fin L)}
    (hschedule : schedule updated old = done ++ l :: todo) : merged updated old done l = old l := by
  unfold merged
  split
  · rename_i hin
    by_contra hl
    have hcount := count_schedule hl
    rw [hschedule, count_append, count_cons_self] at hcount
    have hpos := count_pos_iff.mpr (contains_iff_mem.mp hin)
    omega
  · rfl

end Schedule

/-! ## A whole round -/

structure Settled (orig : Fin L → Fin E → W) (maps : ExpertMaps L G E K) (w : World L G E K W) :
    Prop where
  proper : ∀ l, Proper (maps l)
  installed : Installed orig maps w
  planned : ∀ g, (w g).oldExpertMaps = maps
  counter : ∀ g, (w g).curIterations = 0
  idle : cfg.expertMapRecordPath = none → ∀ g, (w g).loader.Idle

def reachedMaps (updated old : ExpertMaps L G E K) : ExpertMaps L G E K :=
  if cfg.expertMapRecordPath = none then merged updated old ((schedule updated old).take L) else old

section Round

variable {cfg : EplbConfig} {proposal : Fin L → Fin G → Fin K → Fin E}
  {updated old : ExpertMaps L G E K} {orig : Fin L → Fin E → W}

theorem next_update (n : Nat) :
    cfg.next L (cfg.base + n) = if n + 1 = L then 0 else cfg.base + (n + 1) := by
  unfold EplbConfig.next
  by_cases hlast : n + 1 = L
  · rw [if_pos hlast, if_pos (by omega)]
  · rw [if_neg hlast, if_neg (by omega), Nat.add_assoc]

def reachedBy (cfg : EplbConfig) (updated old : ExpertMaps L G E K) (done : List (Fin L)) :
    ExpertMaps L G E K :=
  if cfg.expertMapRecordPath = none then merged updated old done else old

variable {w : World L G E K W}

theorem iteration_reached (hold : ∀ l, Proper (old l)) (hnew : ∀ l, Proper (updated l))
    (hkeeps : ∀ l, KeepsSlots (updated l) (old l)) {done todo : List (Fin L)} {l : Fin L}
    (hschedule : schedule updated old = done ++ l :: todo)
    (hcur : ∀ g, (w g).curIterations = cfg.base + done.length) (hlt : done.length < L)
    (hinfo : ∀ g, (w g).updateInfoAll = (l :: todo).map (layerInfo updated old g))
    (hidle : cfg.expertMapRecordPath = none → ∀ g, (w g).loader.Idle)
    (hinst : Installed orig (reachedBy cfg updated old done) w) :
    ∃ w', iteration cfg proposal w = .ok w' ∧
      Installed orig (reachedBy cfg updated old (done ++ [l])) w' ∧
      Consumes cfg (cfg.base + done.length) (fun g => todo.map (layerInfo updated old g)) w w' ∧
      (cfg.expertMapRecordPath = none → ∀ g, (w' g).loader.Idle) := by
  unfold reachedBy at *
  by_cases hrecord : cfg.expertMapRecordPath = none
  · rw [if_pos hrecord] at hinst ⊢
    obtain ⟨w', hrun, hinst', hcons, hidle'⟩ := iteration_install (hold l) (hnew l) hcur
      (by omega) (by omega) hinfo hinst (merged_next hschedule) (hkeeps l) hrecord (hidle hrecord)
    rw [merged_append] at hinst'
    exact ⟨w', hrun, hinst', hcons, fun _ => hidle'⟩
  · rw [if_neg hrecord] at hinst ⊢
    obtain ⟨w', hrun, hinst', hcons⟩ :=
      iteration_record (hold l) (hnew l) hcur (by omega) (by omega)
      hinfo hinst rfl hrecord
    exact ⟨w', hrun, hinst', hcons, fun hnone => absurd hnone hrecord⟩

/-- The update phase installs one entry after the other, by induction on the iterations left. -/
theorem iterations_reached (hold : ∀ l, Proper (old l)) (hnew : ∀ l, Proper (updated l))
    (hkeeps : ∀ l, KeepsSlots (updated l) (old l)) (n : Nat) :
    ∀ {done todo : List (Fin L)} {w : World L G E K W}, schedule updated old = done ++ todo →
      done.length + n = L →
      (∀ g, (w g).curIterations = if n = 0 then 0 else cfg.base + done.length) →
      (∀ g, (w g).updateInfoAll = todo.map (layerInfo updated old g)) →
      (cfg.expertMapRecordPath = none → ∀ g, (w g).loader.Idle) →
      Installed orig (reachedBy cfg updated old done) w →
      ∃ w', iterations cfg proposal n w = .ok w' ∧
        Installed orig (reachedBy cfg updated old (done ++ todo.take n)) w' ∧
        (∀ g, (w' g).oldExpertMaps = (w g).oldExpertMaps) ∧ (∀ g, (w' g).curIterations = 0) ∧
        (cfg.expertMapRecordPath = none → ∀ g, (w' g).loader.Idle) := by
  induction n with
  | zero =>
    intro done todo w _ _ hcur _ hidle hinst
    refine ⟨w, rfl, ?_, fun _ => rfl, fun g => by rw [hcur g, if_pos rfl], hidle⟩
    rw [take_zero, append_nil]
    exact hinst
  | succ n ih =>
    intro done todo w hschedule hlen hcur hinfo hidle hinst
    have hlong : L ≤ (schedule updated old).length := length_le_length_schedule
    rw [hschedule] at hlong
    match todo with
    | [] => simp at hlong; omega
    | l :: todo =>
      have hcur' : ∀ g, (w g).curIterations = cfg.base + done.length := by
        intro g
        rw [hcur g, if_neg (Nat.succ_ne_zero n)]
      obtain ⟨mid, hmid, hinst', hcons, hidle'⟩ :=
        iteration_reached hold hnew hkeeps hschedule hcur'
        (by omega) hinfo hidle hinst
      obtain ⟨w', hrun, hdone, hplanned, hzero, hidle''⟩ :=
        ih (by rw [hschedule]; simp) (by simp; omega)
        (by
          intro g
          rw [hcons.counter g, next_update, length_append, length_singleton]
          by_cases hn : n = 0
          · rw [if_pos hn, if_pos (by omega)]
          · rw [if_neg hn, if_neg (by omega)])
        hcons.infos hidle' hinst'
      refine ⟨w', ?_, ?_, fun g => (hplanned g).trans (hcons.planned g), hzero, hidle''⟩
      · rw [iterations, hmid, ok_bind, hrun]
      · simpa using hdone

/-- The iterations before the update phase leave every rank with its part of the plan. -/
theorem iterations_plan (h : Settled cfg orig old w) (hheat : 0 < cfg.expertHeatCollectionInterval)
    (halg : 0 < cfg.algorithmExecutionInterval) :
    iterations cfg proposal cfg.base w = .ok fun g => { w g with
      curIterations := if L = 0 then 0 else cfg.base
      oldExpertMaps := plannedMaps old proposal
      updateInfoAll := (schedule (plannedMaps old proposal) old).map
        (layerInfo (plannedMaps old proposal) old g)
      blockUpdateQ := none } := by
  obtain ⟨n, hn⟩ : ∃ n, cfg.expertHeatCollectionInterval = n + 1 :=
    ⟨_, (Nat.succ_pred hheat.ne').symm⟩
  obtain ⟨m, hm⟩ : ∃ m, cfg.algorithmExecutionInterval = m + 1 := ⟨_, (Nat.succ_pred halg.ne').symm⟩
  have hbase : cfg.base = n + (1 + (m + 1)) := by
    unfold EplbConfig.base
    omega
  have hnext : cfg.next L (n + 1 + m) = if L = 0 then 0 else cfg.base := by
    unfold EplbConfig.next
    by_cases hL : L = 0
    · rw [if_pos hL, if_pos (by omega)]
    · rw [if_neg hL, if_neg (by omega)]
      omega
  have hsteps : iterations cfg proposal cfg.base w =
      (iterations cfg proposal n w >>= fun w => iterations cfg proposal 1 w >>= fun w =>
        iterations cfg proposal m w >>= iterations cfg proposal 1) := by
    rw [hbase, iterations_add]
    congr 1
    funext w
    rw [iterations_add]
    congr 1
    funext w
    rw [iterations_add]
  have hone : ∀ w : World L G E K W, iterations cfg proposal 1 w = iteration cfg proposal w := by
    intro w
    rw [iterations]
    cases iteration cfg proposal w <;> rfl
  rw [hsteps, iterations_idle n h.counter (fun j _ hj => ⟨by omega, by omega, by omega⟩),
    ok_bind, hone, iteration_wake (w := fun g => { w g with curIterations := 0 + n }) h.proper
      (c := 0 + n) (fun _ => rfl) (fun g => h.planned g) (by omega) (by omega),
    ok_bind, iterations_idle (c := 0 + n + 1) m (fun _ => rfl)
      (fun j hj hjm => ⟨by omega, by omega, by omega⟩), ok_bind, hone,
    iteration_take (c := 0 + n + 1 + m) (fun _ => rfl) (fun _ => rfl) (by omega) (by omega)]
  rw [Nat.zero_add, hnext]

/-- A whole round: the reached layers are installed, and the planning process believes in all of
them. -/
theorem round_spec (h : Settled cfg orig old w) (hheat : 0 < cfg.expertHeatCollectionInterval)
    (halg : 0 < cfg.algorithmExecutionInterval) : ∃ w', round cfg proposal w = .ok w' ∧
      Installed orig (reachedMaps cfg (plannedMaps old proposal) old) w' ∧
      (∀ g, (w' g).oldExpertMaps = plannedMaps old proposal) ∧ (∀ g, (w' g).curIterations = 0) ∧
      (cfg.expertMapRecordPath = none → ∀ g, (w' g).loader.Idle) := by
  have hplan := fun l => plannedMaps_spec h.proper proposal l
  have hround : round cfg proposal w =
      (iterations cfg proposal cfg.base w >>= iterations cfg proposal L) :=
    iterations_add cfg.base L w
  have hstart : Installed orig (reachedBy cfg (plannedMaps old proposal) old []) w := by
    unfold reachedBy
    rw [show merged (plannedMaps old proposal) old [] = old from rfl, ite_self]
    exact h.installed
  rw [hround, iterations_plan h hheat halg]
  exact iterations_reached h.proper (fun l => (hplan l).1) (fun l => (hplan l).2) L
    (nil_append (schedule (plannedMaps old proposal) old)).symm (Nat.zero_add L)
    (fun _ => rfl) (fun _ => rfl) h.idle
    ⟨hstart.expertMap, hstart.log2phyMap, hstart.weights⟩

/-- Every layer that changes is installed: the duplicate entries of the unchanged layers before it
leave room for its own. -/
def Fits (cfg : EplbConfig) (updated old : ExpertMaps L G E K) : Prop :=
  ∀ l, updated l ≠ old l →
    cfg.expertMapRecordPath = none ∧ l.val + unchangedBefore updated old l < L

theorem reachedMaps_eq_iff : reachedMaps cfg updated old = updated ↔ Fits cfg updated old := by
  unfold reachedMaps Fits
  by_cases hrecord : cfg.expertMapRecordPath = none
  · rw [if_pos hrecord]
    constructor
    · intro heq l hl
      refine ⟨hrecord, (mem_take_schedule hl L).mp ?_⟩
      by_contra hnot
      have hlayer := congrFun heq l
      unfold merged at hlayer
      rw [if_neg (mt contains_iff_mem.mp hnot)] at hlayer
      exact hl hlayer.symm
    · intro hfits
      funext l
      unfold merged
      by_cases hl : updated l = old l
      · rw [hl, ite_self]
      · rw [if_pos (contains_iff_mem.mpr ((mem_take_schedule hl L).mpr (hfits l hl).2))]
  · rw [if_neg hrecord]
    constructor
    · intro heq l hl
      exact absurd (congrFun heq l).symm hl
    · intro hfits
      funext l
      by_contra hl
      exact hrecord (hfits l (Ne.symm hl)).1

theorem Installed.unique {maps maps' : ExpertMaps L G E K} (h : Installed orig maps w)
    (h' : Installed orig maps' w) : maps = maps' := by
  funext l g
  rw [← h.expertMap g l, h'.expertMap g l]

end Round

/-! ## Rounds in a row -/

def rounds (proposals : List (Fin L → Fin G → Fin K → Fin E)) (w : World L G E K W) :
    Except PyError (World L G E K W) :=
  proposals.foldlM (fun w proposal => round cfg proposal w) w

def RoundsFit (cfg : EplbConfig) : ExpertMaps L G E K → List (Fin L → Fin G → Fin K → Fin E) → Prop
  | _, [] => True
  | old, proposal :: proposals =>
    Fits cfg (plannedMaps old proposal) old ∧ RoundsFit cfg (plannedMaps old proposal) proposals

def lastPlan (old : ExpertMaps L G E K) (proposals : List (Fin L → Fin G → Fin K → Fin E)) :
    ExpertMaps L G E K :=
  proposals.foldl plannedMaps old

theorem Settled.rounds {cfg : EplbConfig} {orig : Fin L → Fin E → W}
    (hheat : 0 < cfg.expertHeatCollectionInterval) (halg : 0 < cfg.algorithmExecutionInterval)
    (proposals : List (Fin L → Fin G → Fin K → Fin E)) :
    ∀ {old : ExpertMaps L G E K} {w : World L G E K W}, Settled cfg orig old w →
      RoundsFit cfg old proposals →
      ∃ w', Eplb.rounds cfg proposals w = .ok w' ∧
        Settled cfg orig (lastPlan old proposals) w' := by
  induction proposals with
  | nil => exact fun h _ => ⟨_, rfl, h⟩
  | cons proposal proposals ih =>
    intro old w h hfit
    obtain ⟨mid, hmid, hinst, hplanned, hzero, hidle⟩ :=
      round_spec h hheat halg
    rw [reachedMaps_eq_iff.mpr hfit.1] at hinst
    obtain ⟨w', hrun, hsettled⟩ := ih
      ⟨fun l => (plannedMaps_spec h.proper proposal l).1, hinst, hplanned, hzero, hidle⟩ hfit.2
    refine ⟨w', ?_, hsettled⟩
    unfold Eplb.rounds
    rw [foldlM_cons, hmid]
    exact hrun

/-- From any state in which the ranks hold what the planning process believes: a round returns, and
every layer's maps and weights are those of the plan if and only if the plan fits. -/
theorem round_installed_iff_fits {cfg : EplbConfig} {orig : Fin L → Fin E → W}
    {old : ExpertMaps L G E K} {w : World L G E K W} (h : Settled cfg orig old w)
    (hheat : 0 < cfg.expertHeatCollectionInterval) (halg : 0 < cfg.algorithmExecutionInterval) :
    (∀ proposal, ∃ w', round cfg proposal w = .ok w' ∧
      (∀ g, (w' g).oldExpertMaps = plannedMaps old proposal) ∧
      (Installed orig (plannedMaps old proposal) w' ↔ Fits cfg (plannedMaps old proposal) old)) ∧
    ∀ proposals, RoundsFit cfg old proposals → ∃ w', rounds cfg proposals w = .ok w' ∧
        Installed orig (lastPlan old proposals) w' ∧
        ∀ g, (w' g).oldExpertMaps = lastPlan old proposals := by
  constructor
  · intro proposal
    obtain ⟨w', hrun, hinst, hplanned, -, -⟩ := round_spec h hheat halg
    refine ⟨w', hrun, hplanned, ?_⟩
    rw [← reachedMaps_eq_iff]
    constructor
    · intro hall
      exact hinst.unique hall
    · intro heq
      rw [← heq]
      exact hinst
  · intro proposals hfit
    obtain ⟨w', hrun, hsettled⟩ := h.rounds hheat halg proposals hfit
    exact ⟨w', hrun, hsettled.installed, hsettled.planned⟩

/-! ## Two ranks that swap their experts -/

def pairMaps : ExpertMaps 2 2 2 1 := fun _ g e => if g = e then some 0 else none

def pairConfig : EplbConfig := ⟨1, 1, none⟩

def pairWorld : World 2 2 2 1 (Fin 2 × Fin 2) := fun g =>
  { oldExpertMaps := pairMaps
    blockUpdateQ := none
    curIterations := 0
    updateInfoAll := []
    loader := ⟨[], none, none, none, .waiting, []⟩
    expertMapPerLayer := fun l => pairMaps l g
    log2phyMapPerLayer := fun l => some (generateLog2phyMap (pairMaps l) g)
    expertParamPerLayer := fun l _ => (l, g)
    bufferTensorList := fun _ => (0, 0) }

def swapLast : Fin 2 → Fin 2 → Fin 1 → Fin 2 := fun l g _ => if l = 1 then 1 - g else g

theorem pairWorld_settled : Settled pairConfig (fun l e => (l, e)) pairMaps pairWorld where
  proper l := ⟨by decide +revert, by decide +revert, by decide +revert⟩
  installed := ⟨fun _ _ => rfl, fun _ _ => rfl, by decide⟩
  planned _ := rfl
  counter _ := rfl
  idle _ _ := ⟨rfl, rfl⟩

/-- The hypotheses hold for two ranks at the start. -/
theorem round_installed_iff_fits_pair :
    (∀ proposal, ∃ w', round pairConfig proposal pairWorld = .ok w' ∧
      (∀ g, (w' g).oldExpertMaps = plannedMaps pairMaps proposal) ∧
      (Installed (fun l e => (l, e)) (plannedMaps pairMaps proposal) w' ↔
        Fits pairConfig (plannedMaps pairMaps proposal) pairMaps)) ∧
    ∀ proposals, RoundsFit pairConfig pairMaps proposals →
      ∃ w', rounds pairConfig proposals pairWorld = .ok w' ∧
        Installed (fun l e => (l, e)) (lastPlan pairMaps proposals) w' ∧
        ∀ g, (w' g).oldExpertMaps = lastPlan pairMaps proposals :=
  round_installed_iff_fits pairWorld_settled (by decide) (by decide)

/-- The experts of layer 1 are to be swapped. The packed plan is layer 0, layer 0, layer 1, of which
two entries are taken, so the ranks keep their old maps of layer 1. -/
theorem swapLast_not_installed : ∃ w', round pairConfig swapLast pairWorld = .ok w' ∧
      (w' 0).expertMapPerLayer 1 0 = some 0 ∧ (w' 0).oldExpertMaps 1 0 0 = none ∧
      ¬ Installed (fun l e => (l, e)) (plannedMaps pairMaps swapLast) w' := by
  obtain ⟨w', hrun, hinst, hplanned, -, -⟩ :
      ∃ w', round pairConfig swapLast pairWorld = .ok w' ∧ _ :=
    round_spec pairWorld_settled (by decide) (by decide)
  have hheld : (w' 0).expertMapPerLayer 1 0 = some 0 := by
    rw [hinst.expertMap]
    decide +kernel
  have hplan : plannedMaps pairMaps swapLast 1 0 0 = none := by decide +kernel
  refine ⟨w', hrun, hheld, by rw [hplanned]; exact hplan, ?_⟩
  intro hall
  rw [hall.expertMap] at hheld
  cases hheld

end Eplb

end VllmEcho
