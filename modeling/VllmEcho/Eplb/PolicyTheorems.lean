import VllmEcho.Eplb.GreedyPack
import VllmEcho.Eplb.LocalExchange

/-!
# Placements of the default policy

The policy returns a valid placement for every load with exact sums exactly when there are fewer
redundant experts than cards.  With as many redundant experts as cards a single hot expert can
receive a copy on every card, and its own copy then doubles up on the last one.  Rounded sums can
let the last card fill up first, with the same effect.
-/

namespace VllmEcho

open List

variable {fl : ℚ → ℚ} {expertNum cardNum numRedundancyExpert expert : Nat}

namespace DefaultEplb

/-- A placement of one layer: every card holds `perCard` distinct experts, and every expert is
placed once more than it has redundant copies. -/
structure ValidPlacement (cardNum expertNum perCard : Nat) (copies : Nat → Nat)
    (cards : List (List Nat)) : Prop where
  cards_length : cards.length = cardNum
  size : ∀ card ∈ cards, card.length = perCard
  distinct : ∀ card ∈ cards, card.Nodup
  placed : ∀ expert, cards.flatten.count expert =
    if expert < expertNum then 1 + copies expert else 0

/-! ## Fewer redundant experts than cards -/

section Pack

variable {loads : List ℚ} {cardNum numRedundancyExpert : Nat} {rep : Replication}

def startBoxes (fl : ℚ → ℚ) (rep : Replication) (cardNum numRedundancyExpert : Nat) : List Box :=
  (redundantItems rep.redundancy).map (redundantBox fl rep.weights) ++
    List.replicate (cardNum - numRedundancyExpert) Box.empty

theorem forall_startBoxes {P : Box → Prop} (hempty : P Box.empty)
    (hred : ∀ item ∈ redundantItems rep.redundancy, P (redundantBox fl rep.weights item)) :
    ∀ box ∈ startBoxes fl rep cardNum numRedundancyExpert, P box := by
  intro box hbox
  rcases mem_append.mp hbox with hmem | hmem
  · obtain ⟨item, hitem, rfl⟩ := mem_map.mp hmem
    exact hred item hitem
  · exact eq_of_mem_replicate hmem ▸ hempty

theorem mem_startBoxes_items : ∀ box ∈ startBoxes fl rep cardNum numRedundancyExpert,
    ∀ expert ∈ box.items,
      expert ∈ redundantItems rep.redundancy ∧ box = redundantBox fl rep.weights expert := by
  refine forall_startBoxes nofun fun item hitem expert hin => ?_
  obtain rfl : expert = item := mem_singleton.mp hin
  exact ⟨hitem, rfl⟩

theorem startBoxes_sum_count : ((startBoxes fl rep cardNum numRedundancyExpert).map Box.count).sum =
      (redundantItems rep.redundancy).length := by
  unfold startBoxes
  rw [map_append, map_map]
  have hone : ((redundantItems rep.redundancy).map (Box.count ∘ redundantBox fl rep.weights)) =
      List.replicate (redundantItems rep.redundancy).length 1 :=
    map_const' ..
  rw [hone]
  simp [Box.empty]

theorem startBoxes_flatMap_items :
    (startBoxes fl rep cardNum numRedundancyExpert).flatMap Box.items =
      redundantItems rep.redundancy := by
  unfold startBoxes
  have hone : ((redundantItems rep.redundancy).map (redundantBox fl rep.weights)).flatMap
      Box.items = redundantItems rep.redundancy := by
    rw [flatMap_map]
    exact flatMap_singleton' _
  have hnone :
      (List.replicate (cardNum - numRedundancyExpert) Box.empty).flatMap Box.items = [] := by
    rw [flatMap_eq_nil_iff]
    intro box hbox
    rw [eq_of_mem_replicate hbox]
    rfl
  rw [flatMap_append, hone, hnone, append_nil]

section

variable (hrep : Replicated fl loads.length numRedundancyExpert rep)
include hrep

theorem Replicated.length_items : (redundantItems rep.redundancy).length = numRedundancyExpert := by
  rw [length_redundantItems, hrep.copies]

theorem Replicated.weights_nodup : (rep.weights.map Prod.fst).Nodup :=
  hrep.ids.nodup_iff.mpr nodup_range

/-- At the start of the packing loop a box with a redundant copy is one item ahead of the last box,
and heavier by that copy. -/
theorem Replicated.packing (hexact : ExactSums fl rep.weights)
    (hdvd : cardNum ∣ loads.length + numRedundancyExpert) (hlt : numRedundancyExpert < cardNum) :
    Packing rep.weights ((loads.length + numRedundancyExpert) / cardNum)
      (startBoxes fl rep cardNum numRedundancyExpert) (sortDescending rep.weights) := by
  have hperm := sortDescending_perm rep.weights
  have hnodup := hrep.weights_nodup
  have hlen := hrep.length_items
  have hids : ((sortDescending rep.weights).map Prod.fst).Nodup :=
    (hperm.map Prod.fst).nodup_iff.mpr hnodup
  have hmem : ∀ s, s ∈ sortDescending rep.weights → s ∈ rep.weights := fun s => hperm.mem_iff.mp
  have hlength : (startBoxes fl rep cardNum numRedundancyExpert).length = cardNum := by
    unfold startBoxes
    rw [length_append, length_map, length_replicate]
    omega
  have hmul := Nat.div_mul_cancel hdvd
  have hlast : ∀ last, (startBoxes fl rep cardNum numRedundancyExpert).getLast? = some last →
      last = Box.empty := by
    intro last hget
    unfold startBoxes at hget
    rw [getLast?_append, getLast?_replicate, if_neg (by omega)] at hget
    exact (Option.some.inj hget).symm
  have htotal : ∀ item, (redundantBox fl rep.weights item).total = curWeight rep.weights item := by
    intro item
    have hone := hexact [item] (nodup_singleton item)
    rw [map_singleton, sum_singleton] at hone
    show fl (0 + curWeight rep.weights item) = _
    rw [zero_add, hone]
  exact {
    totals := by
      refine forall_startBoxes rfl fun item _ => ?_
      rw [htotal]
      exact sum_singleton.symm
    loads := fun s hs => curWeight_eq hnodup (hmem s hs)
    counted := forall_startBoxes rfl fun _ _ => rfl
    bounded := by
      refine forall_startBoxes (Nat.zero_le _) fun item hitem => ?_
      have hpos : 0 < numRedundancyExpert := hlen ▸ length_pos_of_mem hitem
      show 1 ≤ _
      apply Nat.pos_of_ne_zero
      intro hzero
      rw [hzero] at hmul
      omega
    distinct := forall_startBoxes nodup_nil fun item _ => nodup_singleton item
    places := by
      have hcount : (sortDescending rep.weights).length = loads.length := by
        rw [hperm.length_eq, ← length_map Prod.fst, hrep.ids.length_eq, length_range]
      rw [startBoxes_sum_count, hlen, hlength, hcount, hmul, Nat.add_comm]
    ids := hids
    sorted := sortDescending_pairwise rep.weights
    single := by
      intro box hbox s hs t ht hsin htin
      rw [(mem_startBoxes_items box hbox s.1 hsin).2] at htin
      exact inj_on_of_nodup_map hids hs ht (mem_singleton.mp htin).symm
    heavy := by
      intro box hbox s hs hin t ht
      have hcopies : copiesOf rep.redundancy s.1 ≠ 0 := by
        have hpos := count_pos_iff.mpr (mem_startBoxes_items box hbox s.1 hin).1
        rw [count_redundantItems] at hpos
        omega
      exact hrep.heavy s (hmem s hs) hcopies t (hmem t ht)
    lastFree := by
      intro last hget s _ hin
      rw [hlast last hget] at hin
      cases hin
    balanced := by
      intro last hget box hbox s hs hin
      obtain ⟨-, rfl⟩ := mem_startBoxes_items box hbox s.1 hin
      rw [hlast last hget]
      refine Or.inr ⟨Nat.zero_le _, fun heq => ?_, fun _ => ?_, fun hfar => ?_⟩
      · cases heq
      · show (redundantBox fl rep.weights s.1).total - 0 ≤ s.2
        rw [htotal, curWeight_eq hnodup (hmem s hs), sub_zero]
      · exact absurd hfar (Nat.lt_irrefl 1) }

theorem placeRedundant_start (hle : numRedundancyExpert ≤ cardNum) :
    placeRedundant fl rep.weights (redundantItems rep.redundancy) 0
      (List.replicate cardNum Box.empty) = .ok (startBoxes fl rep cardNum numRedundancyExpert) := by
  have hlen := hrep.length_items
  have hspec : placeRedundant fl _ _ 0 _ = _ := placeRedundant_spec rep.weights
    (redundantItems rep.redundancy) [] cardNum (by omega)
  rw [hlen] at hspec
  exact hspec

end

/-- Loads of `expertNum` experts that are floats and add up without rounding, over any set of
experts, once the redundant copies are handed out. -/
structure ExactLoads (fl : ℚ → ℚ) (expertNum numRedundancyExpert : Nat) (loads : List ℚ) :
    Prop where
  length : loads.length = expertNum
  nonneg : ∀ w ∈ loads, 0 ≤ w
  float : ∀ w ∈ loads, fl w = w
  exact : ∀ rep, replicate fl (enumerateWeights loads) numRedundancyExpert = .ok rep →
    ExactSums fl rep.weights

/-- With fewer redundant copies than cards and exact sums, one layer is packed validly. -/
theorem originalComputeBalancedPackRedundancy_valid (hfl : Lib.IsRounding fl)
    (hloads : ExactLoads fl loads.length numRedundancyExpert loads) (hcards : cardNum ≤ 2 ^ 50)
    (hdvd : cardNum ∣ loads.length + numRedundancyExpert) (hlt : numRedundancyExpert < cardNum) :
    ∃ rep boxes, replicate fl (enumerateWeights loads) numRedundancyExpert = .ok rep ∧
      originalComputeBalancedPackRedundancy fl (enumerateWeights loads) cardNum
        numRedundancyExpert = .ok boxes ∧
      ValidPlacement cardNum loads.length ((loads.length + numRedundancyExpert) / cardNum)
        (copiesOf rep.redundancy) (boxes.map Box.items) := by
  have hpos : numRedundancyExpert ≠ 0 → 0 < loads.length := by
    intro hne
    by_contra hzero
    have hdvd' : cardNum ∣ numRedundancyExpert := by
      have hlen : loads.length = 0 := by omega
      rwa [hlen, Nat.zero_add] at hdvd
    have hle := Nat.le_of_dvd (Nat.pos_of_ne_zero hne) hdvd'
    omega
  obtain ⟨rep, hrun, hrep⟩ := replicate_spec hfl hloads.nonneg hloads.float hpos (by omega)
  have hexact := hloads.exact rep hrun
  obtain ⟨boxes, hfold, hdone, hlen, hperm⟩ := (hrep.packing hexact hdvd hlt).foldlM hexact
  have hmod : (loads.length + numRedundancyExpert) % cardNum = 0 := Nat.mod_eq_zero_of_dvd hdvd
  refine ⟨rep, boxes, hrun, ?_, ?_, ?_, ?_, ?_⟩
  · unfold originalComputeBalancedPackRedundancy
    rw [hrun, ok_bind, if_neg (by omega), placeRedundant_start hrep hlt.le, ok_bind,
      length_enumerateWeights, hmod, hfold]
    rfl
  · rw [length_map, hlen]
    unfold startBoxes
    rw [length_append, length_map, length_replicate, hrep.length_items]
    omega
  · intro card hcard
    obtain ⟨box, hbox, rfl⟩ := mem_map.mp hcard
    exact hdone.full box hbox
  · intro card hcard
    obtain ⟨box, hbox, rfl⟩ := mem_map.mp hcard
    exact hdone.distinct box hbox
  intro expert
  rw [← flatMap_def, hperm.count_eq, count_append, startBoxes_flatMap_items,
    count_redundantItems, (((sortDescending_perm rep.weights).map Prod.fst).trans
      hrep.ids).count_eq, nodup_range.count]
  by_cases hin : expert < loads.length
  · rw [if_pos (mem_range.mpr hin), if_pos hin]
  · have hzero : copiesOf rep.redundancy expert = 0 := by
      unfold copiesOf
      rw [getElem?_eq_none (by rw [hrep.rows]; omega)]
      rfl
    rw [if_neg (by simpa using hin), if_neg hin, hzero]

end Pack

/-! ## All layers -/

def TableShape (layerNum cardNum perCard : Nat) (table : List (List (List Nat))) : Prop :=
  table.length = layerNum ∧
    ∀ layer ∈ table, layer.length = cardNum ∧ ∀ card ∈ layer, card.length = perCard

/-- The policy returns, every layer is placed validly, and every card keeps the experts it had where
they were. -/
def ValidRound (fl : ℚ → ℚ) (cardNum expertNum numRedundancyExpert : Nat)
    (workloads : List (List ℚ)) (current : List (List (List Nat))) : Prop :=
  ∃ deployment new, packLayers fl workloads cardNum numRedundancyExpert = .ok deployment ∧
    constraintExpertLocalExchange current deployment = .ok new ∧
    ∀ (l : Nat) (loads : List ℚ) (cur : List (List Nat)),
      workloads[l]? = some loads → current[l]? = some cur →
      ∃ rep cards result, deployment[l]? = some cards ∧ new[l]? = some result ∧
        replicate fl (enumerateWeights loads) numRedundancyExpert = .ok rep ∧
        ValidPlacement cardNum expertNum ((expertNum + numRedundancyExpert) / cardNum)
          (copiesOf rep.redundancy) cards ∧
        result.length = cards.length ∧
        ∀ (j : Nat) (c d : List Nat), cur[j]? = some c → cards[j]? = some d →
          ∃ r, result[j]? = some r ∧ Exchanged c d r

theorem packLayers_cons (loads : List ℚ) (workloads : List (List ℚ)) :
    packLayers fl (loads :: workloads) cardNum numRedundancyExpert = (do
      let boxes ← originalComputeBalancedPackRedundancy fl (enumerateWeights loads) cardNum
        numRedundancyExpert
      let rest ← packLayers fl workloads cardNum numRedundancyExpert
      .ok (boxes.map Box.items :: rest)) := by
  unfold packLayers
  rw [mapM_cons, bind_assoc]
  rfl

/-- The layers one after the other. -/
theorem validRound_of_lt (hfl : Lib.IsRounding fl) (hcards : cardNum ≤ 2 ^ 50)
    (hdvd : cardNum ∣ expertNum + numRedundancyExpert)
    (hlt : numRedundancyExpert < cardNum) (workloads : List (List ℚ)) :
    ∀ {current : List (List (List Nat))},
      (∀ loads ∈ workloads, ExactLoads fl expertNum numRedundancyExpert loads) →
      TableShape workloads.length cardNum ((expertNum + numRedundancyExpert) / cardNum) current →
      ValidRound fl cardNum expertNum numRedundancyExpert workloads current := by
  induction workloads with
  | nil =>
    intro current _ _
    exact ⟨[], [], rfl, by rw [constraintExpertLocalExchange], fun l loads cur hl => by simp at hl⟩
  | cons loads workloads ih =>
    intro current hloads hshape
    match current with
    | [] => cases hshape.1
    | cur :: current =>
      have hexact := hloads loads mem_cons_self
      obtain rfl := hexact.length
      obtain ⟨rep, boxes, hrep, hpack, hvalid⟩ :=
        originalComputeBalancedPackRedundancy_valid hfl hexact hcards hdvd hlt
      have hcur := hshape.2 cur mem_cons_self
      obtain ⟨result, hexch, hlen, hcards⟩ := exchangeLayer_spec (boxes.map Box.items)
        (fun card hcard => ⟨hvalid.size card hcard, hvalid.distinct card hcard⟩)
        (hcur.1.trans hvalid.cards_length.symm) hcur.2
      obtain ⟨deployment, new, hrest, hnew, hall⟩ := ih
        (fun l hl => hloads l (mem_cons_of_mem _ hl))
        ⟨Nat.succ.inj hshape.1, fun layer hlayer => hshape.2 layer (mem_cons_of_mem _ hlayer)⟩
      refine ⟨boxes.map Box.items :: deployment, result :: new, ?_, ?_, ?_⟩
      · rw [packLayers_cons, hpack, ok_bind, hrest, ok_bind]
      · rw [constraintExpertLocalExchange, hexch, ok_bind, hnew, ok_bind]
      intro l loads' cur' hl hc
      cases l with
      | zero =>
        obtain rfl : loads = loads' := by simpa using hl
        obtain rfl : cur = cur' := by simpa using hc
        exact ⟨rep, _, result, rfl, rfl, hrep, hvalid, hlen, hcards⟩
      | succ l => exact hall l loads' cur' (by simpa using hl) (by simpa using hc)

/-! ## As many redundant experts as cards -/

structure Peaked (fl : ℚ → ℚ) (routeExpertNum n : Nat) (st : Replication) : Prop where
  rows : st.redundancy.length = routeExpertNum
  hot : ∃ w, 0 < w ∧ (0, w) ∈ st.weights
  floats : ∀ t ∈ st.weights, fl t.2 = t.2
  others : ∀ t ∈ st.weights, t.1 ≠ 0 → t.2 = 0
  copies : copiesOf st.redundancy 0 = n

theorem Peaked.split (hfl : Lib.IsRounding fl) {routeExpertNum n i : Nat} {st st' : Replication}
    (h : Peaked fl routeExpertNum n st) (hn : n + 1 ≤ 2 ^ 50)
    (hsplit : st.split fl routeExpertNum i = .ok st') : Peaked fl routeExpertNum (n + 1) st' := by
  obtain ⟨w, hw, hmem⟩ := h.hot
  have hperm := sortDescending_perm st.weights
  have hsorted := sortDescending_pairwise st.weights
  unfold Replication.split at hsplit
  match hsort : sortDescending st.weights with
  | [] =>
    rw [hsort] at hperm
    rw [← hperm.mem_iff] at hmem
    cases hmem
  | (item, weight) :: others =>
    rw [hsort] at hperm hsorted
    simp only [hsort] at hsplit
    have hhead := hperm.mem_iff.mp (mem_cons_self)
    have htop : 0 < weight := by
      cases mem_cons.mp (hperm.mem_iff.mpr hmem) with
      | inl heq => rw [Prod.mk.injEq] at heq; exact heq.2 ▸ hw
      | inr hin => exact lt_of_lt_of_le hw (rel_of_pairwise_cons hsorted hin)
    obtain rfl : item = 0 := by
      by_contra hne
      exact htop.ne' (h.others _ hhead hne)
    cases hget : st.redundancy[0]? with
    | none => rw [hget] at hsplit; cases hsplit
    | some copies =>
      simp only [hget, Except.ok.injEq] at hsplit
      subst hsplit
      have hlt := lt_of_getElem? hget
      have hold := h.copies
      unfold copiesOf at hold
      rw [hget, Option.getD_some] at hold
      have havg := (average_mem hfl htop.le (show copies.length + 1 ≤ 2 ^ 50 by omega)
        fun _ => h.floats _ hhead).1
      have hraw : 0 ≤ fl (weight * (copies.length + 1)) := by
        have herror := abs_le.mp (hfl.error (weight * (copies.length + 1)) (by positivity))
        linarith
      exact {
        rows := by rw [length_set, h.rows]
        hot := by
          refine ⟨_, ?_, mem_cons_self⟩
          simp only [length_append, length_singleton]
          push_cast
          linarith
        floats := by
          intro t ht
          cases mem_cons.mp ht with
          | inl heq => exact heq ▸ hfl.idem _ (by positivity)
          | inr hin => exact h.floats t (hperm.mem_iff.mp (mem_cons_of_mem _ hin))
        others := by
          intro t ht hne
          cases mem_cons.mp ht with
          | inl heq => exact absurd (congrArg Prod.fst heq) hne
          | inr hin => exact h.others t (hperm.mem_iff.mp (mem_cons_of_mem _ hin)) hne
        copies := by
          rw [copiesOf_set _ hlt, length_append, hold]
          rfl }

theorem Peaked.foldlM (hfl : Lib.IsRounding fl) {routeExpertNum : Nat} (steps : List Nat) :
    ∀ {n : Nat} {st st' : Replication}, Peaked fl routeExpertNum n st →
      n + steps.length ≤ 2 ^ 50 →
      steps.foldlM (fun st i => Replication.split fl routeExpertNum i st) st = .ok st' →
      Peaked fl routeExpertNum (n + steps.length) st' := by
  induction steps with
  | nil =>
    intro n st st' h _ hrun
    obtain rfl : st = st' := Except.ok.inj hrun
    exact h
  | cons i steps ih =>
    intro n st st' h hn hrun
    rw [foldlM_cons, bind_eq_ok] at hrun
    obtain ⟨mid, hmid, hrest⟩ := hrun
    rw [length_cons, Nat.add_comm steps.length 1, ← Nat.add_assoc] at hn ⊢
    exact ih (h.split hfl (by omega) hmid) hn hrest

/-- The weight that counts for an expert is zero or one of the list. -/
theorem curWeight_mem (weights : List (Nat × ℚ)) (expert : Nat) :
    curWeight weights expert = 0 ∨ (expert, curWeight weights expert) ∈ weights := by
  unfold curWeight
  induction weights using List.reverseRecOn with
  | nil => exact Or.inl rfl
  | append_singleton weights t ih =>
    rw [foldl_append, foldl_cons]
    split
    · rename_i heq
      exact Or.inr (mem_append_right _ (mem_singleton.mpr (Prod.ext heq.symm rfl)))
    · exact ih.imp_right (mem_append_left _)

theorem Peaked.exactSums (hfl : Lib.IsRounding fl) {routeExpertNum n : Nat} {st : Replication}
    (h : Peaked fl routeExpertNum n st) : ExactSums fl st.weights := by
  intro experts hnodup
  have hsum : (experts.map (curWeight st.weights)).sum =
      experts.count 0 • curWeight st.weights 0 := by
    refine sum_map_eq_nsmul_single 0 _ fun expert hne _ => ?_
    exact (curWeight_mem st.weights expert).elim id fun hmem => h.others _ hmem hne
  have hzero : fl (curWeight st.weights 0) = curWeight st.weights 0 := by
    rcases curWeight_mem st.weights 0 with hnone | hmem
    · rw [hnone, hfl.zero]
    · exact h.floats _ hmem
  rw [hsum, hnodup.count]
  split
  · rw [one_nsmul, hzero]
  · rw [zero_nsmul, hfl.zero]

def peakLoads (fl : ℚ → ℚ) (expertNum : Nat) : List ℚ :=
  fl 1 :: List.replicate expertNum 0

theorem peaked_replicate (hfl : Lib.IsRounding fl) {rep : Replication}
    (hfew : numRedundancyExpert ≤ 2 ^ 50) (hrep : replicate fl
      (enumerateWeights (peakLoads fl expertNum)) numRedundancyExpert = .ok rep) :
    Peaked fl (enumerateWeights (peakLoads fl expertNum)).length numRedundancyExpert rep := by
  have hone : 0 < fl 1 := by
    have herror := abs_le.mp (hfl.error 1 zero_le_one)
    linarith
  have hinit : Peaked fl (enumerateWeights (peakLoads fl expertNum)).length 0
      ⟨enumerateWeights (peakLoads fl expertNum),
        List.replicate (enumerateWeights (peakLoads fl expertNum)).length []⟩ := {
    rows := length_replicate
    hot := ⟨fl 1, hone, mem_cons_self⟩
    floats := by
      intro t ht
      cases mem_cons.mp (snd_mem_of_mem_enumerateWeights ht) with
      | inl heq => rw [heq, hfl.idem 1 zero_le_one]
      | inr hin => rw [eq_of_mem_replicate hin, hfl.zero]
    others := by
      intro t ht hne
      cases mem_cons.mp ht with
      | inl heq => exact absurd (congrArg Prod.fst heq) hne
      | inr hin =>
        obtain ⟨u, hu, rfl⟩ := mem_map.mp hin
        exact eq_of_mem_replicate (fst_mem_of_mem_zipIdx hu)
    copies := copiesOf_replicate_nil _ 0 }
  have hdone := hinit.foldlM hfl (List.range numRedundancyExpert) (by simpa using hfew) hrep
  rwa [Nat.zero_add, length_range] at hdone

theorem exactLoads_peakLoads (hfl : Lib.IsRounding fl) (hfew : numRedundancyExpert ≤ 2 ^ 50) :
    ExactLoads fl (expertNum + 1) numRedundancyExpert (peakLoads fl expertNum) where
  length := by simp [peakLoads]
  nonneg := by
    have herror := abs_le.mp (hfl.error 1 zero_le_one)
    refine forall_mem_cons.mpr ⟨by linarith, fun w hw => ?_⟩
    exact (eq_of_mem_replicate hw).ge
  float := by simp [peakLoads, mem_replicate, hfl.idem, hfl.zero]
  exact _ hrep := (peaked_replicate hfl hfew hrep).exactSums hfl

theorem ValidPlacement.copies_lt {perCard : Nat} {copies : Nat → Nat} {cards : List (List Nat)}
    (h : ValidPlacement cardNum expertNum perCard copies cards) (hexpert : expert < expertNum) :
    copies expert < cardNum := by
  have hplaced := h.placed expert
  rw [if_pos hexpert, count_flatten] at hplaced
  have hone : ∀ n ∈ cards.map (List.count expert), n ≤ 1 := by
    intro n hn
    obtain ⟨card, hcard, rfl⟩ := mem_map.mp hn
    exact nodup_iff_count_le_one.mp (h.distinct card hcard) expert
  have hsum := sum_le_card_nsmul (cards.map (List.count expert)) 1 hone
  rw [length_map, h.cards_length, nsmul_one, Nat.cast_id] at hsum
  omega

/-- With as many redundant copies as cards a single hot expert defeats the policy. -/
theorem not_validRound_of_eq (hfl : Lib.IsRounding fl) (hcards : cardNum ≤ 2 ^ 50)
    (hall : ∀ (workloads : List (List ℚ)) (current : List (List (List Nat))),
      (∀ loads ∈ workloads, ExactLoads fl expertNum cardNum loads) →
      TableShape workloads.length cardNum ((expertNum + cardNum) / cardNum) current →
      ValidRound fl cardNum expertNum cardNum workloads current) : False := by
  have hone : ∀ loads, ExactLoads fl expertNum cardNum loads →
      ∃ rep boxes cards, replicate fl (enumerateWeights loads) cardNum = .ok rep ∧
        originalComputeBalancedPackRedundancy fl (enumerateWeights loads) cardNum cardNum =
          .ok boxes ∧
        ValidPlacement cardNum expertNum ((expertNum + cardNum) / cardNum)
          (copiesOf rep.redundancy) cards := by
    intro loads hloads
    obtain ⟨deployment, new, hpack, -, hvalid⟩ := hall [loads]
      [List.replicate cardNum (List.replicate ((expertNum + cardNum) / cardNum) 0)]
      (by simpa using hloads) ⟨rfl, by simp +contextual [mem_replicate]⟩
    obtain ⟨rep, cards, -, -, -, hrep, hplacement, -⟩ := hvalid 0 loads _ rfl rfl
    rw [packLayers_cons, bind_eq_ok] at hpack
    obtain ⟨boxes, hboxes, -⟩ := hpack
    exact ⟨rep, boxes, cards, hrep, hboxes, hplacement⟩
  cases expertNum with
  | zero =>
    -- no expert to copy, or no card to place it on
    cases cardNum with
    | zero =>
      have hexact : ∀ rep, replicate fl (enumerateWeights []) 0 = .ok rep →
          ExactSums fl rep.weights := by
        intro rep hrep experts _
        obtain rfl : _ = rep := Except.ok.inj hrep
        have hnone : experts.map (curWeight []) = List.replicate experts.length 0 := map_const' ..
        show fl (experts.map (curWeight [])).sum = (experts.map (curWeight [])).sum
        rw [hnone, sum_replicate, smul_zero, hfl.zero]
      obtain ⟨rep, boxes, -, -, hboxes, -⟩ := hone [] ⟨rfl, by simp, by simp, hexact⟩
      cases hboxes
    | succ cardNum =>
      have hfail : ∀ rep, replicate fl (enumerateWeights []) (cardNum + 1) ≠ .ok rep := by
        intro rep hrep
        unfold replicate at hrep
        rw [range_succ_eq_map] at hrep
        cases hrep
      obtain ⟨rep, -, -, hrep, -⟩ := hone []
        ⟨rfl, by simp, by simp, fun rep hrep => absurd hrep (hfail rep)⟩
      exact hfail rep hrep
  | succ expertNum =>
    obtain ⟨rep, boxes, cards, hrep, -, hplacement⟩ := hone (peakLoads fl expertNum)
      (exactLoads_peakLoads hfl hcards)
    have hlt := hplacement.copies_lt (Nat.succ_pos expertNum)
    rw [(peaked_replicate hfl hcards hrep).copies] at hlt
    exact Nat.lt_irrefl _ hlt

/-- For all numbers the policy accepts: every load with exact sums gives a valid placement, with the
experts that stay in their old slots, exactly when there are fewer redundant experts than cards. -/
theorem validRound_iff_redundant_lt_cards (hfl : Lib.IsRounding fl)
    (cardNum expertNum numRedundancyExpert : Nat) (hcards : cardNum ≤ 2 ^ 50)
    (hdvd : cardNum ∣ expertNum + numRedundancyExpert) (hle : numRedundancyExpert ≤ cardNum) :
    (∀ (workloads : List (List ℚ)) (current : List (List (List Nat))),
      (∀ loads ∈ workloads, ExactLoads fl expertNum numRedundancyExpert loads) →
      TableShape workloads.length cardNum ((expertNum + numRedundancyExpert) / cardNum) current →
      ValidRound fl cardNum expertNum numRedundancyExpert workloads current) ↔
    numRedundancyExpert < cardNum := by
  constructor
  · intro hall
    by_contra hge
    obtain rfl : numRedundancyExpert = cardNum := by omega
    exact not_validRound_of_eq hfl hcards hall
  · intro hlt workloads current hloads hshape
    exact validRound_of_lt hfl hcards hdvd hlt workloads hloads hshape

/-- Four experts and two redundant ones on three cards, in double precision. -/
theorem validRound_iff_three_cards : (3 ≤ 2 ^ 50 ∧ 3 ∣ 4 + 2 ∧ 2 ≤ 3) ∧
    ((∀ (workloads : List (List ℚ)) (current : List (List (List Nat))),
      (∀ loads ∈ workloads, ExactLoads Lib.toFloat64 4 2 loads) →
      TableShape workloads.length 3 ((4 + 2) / 3) current →
      ValidRound Lib.toFloat64 3 4 2 workloads current) ↔ 2 < 3) :=
  ⟨by decide, validRound_iff_redundant_lt_cards Lib.isRounding_toFloat64 3 4 2 (by decide)
    (by decide) (by decide)⟩

/-- `[0.6, 0.5, 0.5, 0.4, 0.4, 0.3, 0.3]` in double precision. -/
def tenths : List ℚ :=
  [5404319552844595 / 2 ^ 53, 1 / 2, 1 / 2, 3602879701896397 / 2 ^ 53, 3602879701896397 / 2 ^ 53,
    5404319552844595 / 2 ^ 54, 5404319552844595 / 2 ^ 54]

theorem not_validRound_of_pack {loads : List ℚ} {cards : List (List Nat)}
    {current : List (List Nat)} (hpack : (originalComputeBalancedPackRedundancy fl
      (enumerateWeights loads) cardNum numRedundancyExpert).map (List.map Box.items) = .ok cards)
    {card : List Nat} (hcard : card ∈ cards)
    (hbad : ¬ (card.Nodup ∧ card.length = (expertNum + numRedundancyExpert) / cardNum)) :
    ¬ ValidRound fl cardNum expertNum numRedundancyExpert [loads] [current] := by
  rintro ⟨deployment, new, hdeployed, -, hvalid⟩
  obtain ⟨rep, cards', -, hcards, -, -, hplacement, -⟩ := hvalid 0 _ _ rfl rfl
  rw [packLayers_cons, bind_eq_ok] at hdeployed
  obtain ⟨boxes, hboxes, hrest⟩ := hdeployed
  rw [hboxes] at hpack
  have hitems : boxes.map Box.items = cards := Except.ok.inj hpack
  rw [hitems] at hrest
  obtain rfl : [cards] = deployment := Except.ok.inj hrest
  obtain rfl : cards = cards' := Option.some.inj hcards
  exact hbad ⟨hplacement.distinct card hcard, hplacement.size card hcard⟩

/-- Loads 12 and 1, two redundant experts on two cards: both copies go to the hot expert, no card is
left for the expert itself, and index `-1` puts it on the last card again.  With one redundant
expert the sum `0.3 + 0.5 + 0.4`, rounded up, makes the first card look heavier than the second,
which then fills up with the first expert still to come. -/
theorem two_cards_double_expert :
    ¬ ValidRound Lib.toFloat64 2 2 2 [[12, 1]] [[[0, 1], [0, 1]]] ∧
    ¬ ValidRound Lib.toFloat64 2 7 1 [tenths] [[[0, 1, 2, 3], [4, 5, 6, 0]]] := by
  constructor
  · have hpack : (originalComputeBalancedPackRedundancy Lib.toFloat64 (enumerateWeights [12, 1])
        2 2).map (List.map Box.items) = .ok [[0, 1], [0, 0]] := by decide +kernel
    exact not_validRound_of_pack hpack (mem_of_getLast? rfl) (by decide)
  · have hpack : (originalComputeBalancedPackRedundancy Lib.toFloat64 (enumerateWeights tenths)
        2 1).map (List.map Box.items) = .ok [[0, 2, 4], [1, 3, 5, 6, 0]] := by decide +kernel
    exact not_validRound_of_pack hpack (mem_of_getLast? rfl) (by decide)

end DefaultEplb

end VllmEcho
