import VllmEcho.Eplb.RoundTheorems
import VllmEcho.Lib.Runs

/-!
# One layer's exchange in any order

`asyn_expert_weight_transfer` returns at once, and `update_expert_map_and_weight` waits for the
operations of its own rank only: messages arrive, and ranks install what they received, in any
order. -/

namespace VllmEcho

namespace Eplb

open Lib Function List

variable {L G E K : Nat} {W : Type}

def postAll (u : LayerUpdate L G E K) (w : World L G E K W) :
    Except PyError (Fin G → Rank L G E K W × List (P2POp L G K)) :=
  forRanks fun g => do
    let info := packLayer g u
    let r ← ((w g).setLog2phyMap info.log2phyMap).generateExpertD2dTransferTask info
    .ok r.asynExpertWeightTransfer

/-- The ranks, how many messages of each channel have arrived, and which ranks are done. -/
structure Exchange (L G E K : Nat) (W : Type) where
  ranks : World L G E K W
  delivered : Fin G → Fin G → Nat
  done : Fin G → Bool

inductive ExchangeEvent (G : Nat)
  | deliver (s d : Fin G)
  | install (g : Fin G)

namespace Exchange

variable (posted : Fin G → List (P2POp L G K)) (x : Exchange L G E K W)

def Allowed : ExchangeEvent G → Prop
  | .deliver s d => x.delivered s d < (channel posted s d).length
  | .install g => x.done g = false ∧ ∀ p,
    x.delivered p g = (withParty (recvsOf (posted g)) p).length ∧
      x.delivered g p = (withParty (sendsOf (posted g)) p).length

def arrive (s d : Fin G) (buffer : Nat) (sent : W) : Exchange L G E K W :=
  { x with
    ranks := update x.ranks d { x.ranks d with
      bufferTensorList := update (x.ranks d).bufferTensorList buffer sent }
    delivered := update x.delivered s (update (x.delivered s) d (x.delivered s d + 1)) }

def exec : ExchangeEvent G → Except PyError (Exchange L G E K W)
  | .deliver s d => match (channel posted s d)[x.delivered s d]? with
    | none => .error .indexError
    | some (buffer, layer, slot) =>
      .ok (x.arrive s d buffer ((x.ranks s).expertParamPerLayer layer slot))
  | .install g => do
    let r ← (x.ranks g).updateExpertMapAndWeight true
    .ok { x with ranks := update x.ranks g r, done := update x.done g true }

def Step (e : ExchangeEvent G) (x' : Exchange L G E K W) : Prop :=
  x.Allowed posted e ∧ x.exec posted e = .ok x'

end Exchange

/-- The rank's map of the layer is `map`, and each of its experts is in the slot that the map
says. -/
def Rank.HoldsMap (weights : Fin E → W) (l : Fin L) (map : Fin E → Option (Fin K))
    (r : Rank L G E K W) : Prop :=
  r.expertMapPerLayer l = map ∧
    ∀ e slot, map e = some slot → r.expertParamPerLayer l slot = weights e

def entries (updated old : LayerMap G E K) (s d : Fin G) : List ((Fin G × Fin E) × Nat) :=
  (recvList (layerMessages updated old) d).zipIdx.filter fun z => z.1.1 = s

section Exchange

variable {updated old : ExpertMaps L G E K} {l : Fin L} {weights : Fin E → W} {g s d : Fin G}

structure Exchanging (weights : Fin E → W) (hold : Proper (old l)) (hnew : Proper (updated l))
    (x : Exchange L G E K W) : Prop where
  waiting : ∀ g, x.done g = false → (x.ranks g).HoldsMap weights l (old l g) ∧
    ∃ loader : Loader L G E K, loader.recvExpertList = [] ∧
      (x.ranks g).loader = taskLoader loader hold hnew g .transferring
  finished : ∀ g, x.done g = true → (x.ranks g).HoldsMap weights l (updated l g) ∧
    ∀ d, x.delivered g d = (entries (updated l) (old l) g d).length
  bounded : ∀ s d, x.delivered s d ≤ (entries (updated l) (old l) s d).length
  arrived : ∀ s d k z, (entries (updated l) (old l) s d)[k]? = some z → k < x.delivered s d →
    (x.ranks d).bufferTensorList z.2 = weights z.1.2

variable {hold : Proper (old l)} {hnew : Proper (updated l)} {x x' : Exchange L G E K W}

theorem channel_eq_entries : channel (layerOps hold l (updated l)) s d =
    (entries (updated l) (old l) s d).map fun z => (z.2, (l, hold.slotOf s z.1.2)) :=
  channel_layerOps hold s

theorem length_sends : (withParty (sendsOf (layerOps hold l (updated l) s)) d).length =
      (entries (updated l) (old l) s d).length := by
  rw [sendsOf_layerOps, withParty_map _ (fun e => (l, hold.slotOf s e)), length_map,
    withParty_sendList, length_map]
  rfl

theorem length_recvs : (withParty (recvsOf (layerOps hold l (updated l) d)) s).length =
      (entries (updated l) (old l) s d).length := by
  rw [recvsOf_layerOps, withParty_positions, length_map]
  rfl

theorem source_slot {z : (Fin G × Fin E) × Nat} (hz : z ∈ entries (updated l) (old l) s d) :
    old l s z.1.2 = some (hold.slotOf s z.1.2) := by
  obtain ⟨hmem, hsrc⟩ := mem_filter.mp hz
  have hheld := source_holds hold (mem_recvList.mp (fst_mem_of_mem_zipIdx hmem))
  rw [of_decide_eq_true hsrc] at hheld
  exact hold.eq_slotOf hheld

/-- A rank that has something to send has not overwritten anything. -/
theorem Exchanging.unsent (h : Exchanging weights hold hnew x) {k : Nat}
    {z : (Fin G × Fin E) × Nat} (hz : (entries (updated l) (old l) s d)[k]? = some z)
    (hk : x.delivered s d ≤ k) :
    (x.ranks s).expertParamPerLayer l (hold.slotOf s z.1.2) = weights z.1.2 := by
  have hlt := lt_of_getElem? hz
  cases hs : x.done s with
  | false => exact (h.waiting s hs).1.2 _ _ (source_slot (mem_of_getElem? hz))
  | true =>
    have hall := (h.finished s hs).2 d
    omega

/-- A rank whose messages have all arrived installs the new map. -/
theorem Exchanging.install (h : Exchanging weights hold hnew x)
    (hkeeps : KeepsSlots (updated l) (old l)) (hg : x.done g = false)
    (hdone : ∀ p, x.delivered p g = (entries (updated l) (old l) p g).length) :
    ∃ r, (x.ranks g).updateExpertMapAndWeight true = .ok r ∧
      r.bufferTensorList = (x.ranks g).bufferTensorList ∧ r.HoldsMap weights l (updated l g) := by
  obtain ⟨hheld, loader, hrecv, hloader⟩ := h.waiting g hg
  have hbuffers : ∀ i y, (recvs (updated l) (old l) g)[i]? = some y →
      (x.ranks g).bufferTensorList i = weights y.2 := by
    intro i y hy
    have hmem : (y, i) ∈ entries (updated l) (old l) y.1 g :=
      mem_filter.mpr ⟨mk_mem_zipIdx_iff_getElem?.mpr hy, decide_eq_true rfl⟩
    obtain ⟨k, hk⟩ := mem_iff_getElem?.mp hmem
    refine h.arrived y.1 g k (y, i) hk ?_
    rw [hdone]
    exact lt_of_getElem? hk
  have hlog : ∀ m, ((x.ranks g).doUpdateExpertMap l (updated l g)).doUpdateLog2phyMap l m =
      { (x.ranks g).doUpdateExpertMap l (updated l g) with log2phyMapPerLayer :=
        (((x.ranks g).doUpdateExpertMap l (updated l g)).doUpdateLog2phyMap l m)
          |>.log2phyMapPerLayer } := by
    intro m
    unfold Rank.doUpdateLog2phyMap
    split <;> rfl
  have hrun := updateExpertMapAndWeight_eq (by rw [hloader]; rfl)
    (by rw [hloader]; rfl) (by rw [hloader]; rfl)
  rw [hlog] at hrun
  refine ⟨_, hrun, rfl, update_self .., fun e slot hslot => ?_⟩
  dsimp only
  rw [update_self, hloader]
  show copyBuffers _ (loader.recvExpertList ++ _) _ slot = _
  rw [hrecv, nil_append]
  exact copied_weights hold hnew hkeeps hbuffers hheld.2 hslot

theorem Exchanging.deliver (h : Exchanging weights hold hnew x)
    (hlt : x.delivered s d < (entries (updated l) (old l) s d).length) :
    ∃ z, (entries (updated l) (old l) s d)[x.delivered s d]? = some z ∧
      x.exec (layerOps hold l (updated l)) (.deliver s d) =
        .ok (x.arrive s d z.2 (weights z.1.2)) := by
  have hz := getElem?_eq_getElem hlt
  refine ⟨_, hz, ?_⟩
  unfold Exchange.exec
  dsimp only
  rw [channel_eq_entries, getElem?_map, hz]
  exact congrArg (fun sent => Except.ok (x.arrive s d _ sent)) (h.unsent hz (Nat.le_refl _))

/-- A message that arrives fills the buffer of the expert it carries. -/
theorem Exchanging.arrive (h : Exchanging weights hold hnew x) {z : (Fin G × Fin E) × Nat}
    (hz : (entries (updated l) (old l) s d)[x.delivered s d]? = some z) :
    Exchanging weights hold hnew (x.arrive s d z.2 (weights z.1.2)) := by
  have hlt := lt_of_getElem? hz
  have hcount : ∀ s' d', (x.arrive s d z.2 (weights z.1.2)).delivered s' d' =
      if s' = s ∧ d' = d then x.delivered s d + 1 else x.delivered s' d' := by
    intro s' d'
    show update x.delivered s _ s' d' = _
    by_cases hs : s' = s
    · subst hs
      rw [update_self, update_apply]
      simp
    · rw [update_of_ne hs, if_neg fun heq => hs heq.1]
  have hframe : ∀ g, (x.arrive s d z.2 (weights z.1.2)).ranks g = { x.ranks g with
      bufferTensorList := if g = d then update (x.ranks d).bufferTensorList z.2 (weights z.1.2)
        else (x.ranks g).bufferTensorList } := by
    intro g
    show update x.ranks d _ g = _
    by_cases hd : g = d
    · subst hd
      rw [update_self, if_pos rfl]
    · rw [update_of_ne hd, if_neg hd]
  constructor
  case waiting =>
    intro g hg
    rw [hframe]
    exact h.waiting g hg
  case finished =>
    intro g hg
    have hold' := h.finished g hg
    rw [hframe]
    refine ⟨hold'.1, fun d' => ?_⟩
    rw [hcount, if_neg]
    · exact hold'.2 d'
    · rintro ⟨rfl, rfl⟩
      have hall := hold'.2 d'
      omega
  case bounded =>
    intro s' d'
    rw [hcount]
    split
    · rename_i heq
      rw [heq.1, heq.2]
      exact hlt
    · exact h.bounded s' d'
  case arrived =>
    intro s' d' k z' hz' hk
    rw [hcount] at hk
    rw [hframe]
    dsimp only
    have hget := mk_mem_zipIdx_iff_getElem?.mp (mem_filter.mp (mem_of_getElem? hz)).1
    have hget' := mk_mem_zipIdx_iff_getElem?.mp (mem_filter.mp (mem_of_getElem? hz')).1
    by_cases hnew : d' = d ∧ z'.2 = z.2
    · -- a buffer is filled by one message only
      rw [hnew.1, hnew.2, hget] at hget'
      rw [if_pos hnew.1, hnew.2, update_self, Option.some.inj hget']
    have hkept : (if d' = d then update (x.ranks d).bufferTensorList z.2 (weights z.1.2)
        else (x.ranks d').bufferTensorList) z'.2 = (x.ranks d').bufferTensorList z'.2 := by
      split
      · rename_i hd
        rw [update_of_ne fun heq => hnew ⟨hd, heq⟩, hd]
      · rfl
    rw [hkept]
    refine h.arrived s' d' k z' hz' ?_
    split at hk
    · rename_i heq
      have hne : k ≠ x.delivered s d := by
        intro hk'
        rw [heq.1, heq.2, hk', hz] at hz'
        exact hnew ⟨heq.2, congrArg Prod.snd (Option.some.inj hz').symm⟩
      rw [heq.1, heq.2]
      omega
    · exact hk

/-- An installed rank has nothing left to send, so no other rank is disturbed. -/
theorem Exchanging.setInstalled (h : Exchanging weights hold hnew x) {r : Rank L G E K W}
    (hbuffers : r.bufferTensorList = (x.ranks g).bufferTensorList)
    (hheld : r.HoldsMap weights l (updated l g))
    (hsent : ∀ d, x.delivered g d = (entries (updated l) (old l) g d).length) :
    Exchanging weights hold hnew
      { x with ranks := update x.ranks g r, done := update x.done g true } := by
  constructor
  case waiting =>
    intro j hj
    dsimp only at hj ⊢
    rw [update_apply] at hj ⊢
    split at hj
    · cases hj
    · rename_i hne
      rw [if_neg hne]
      exact h.waiting j hj
  case finished =>
    intro j hj
    dsimp only at hj ⊢
    rw [update_apply] at hj ⊢
    split at hj
    · rename_i heq
      rw [if_pos heq, heq]
      exact ⟨hheld, hsent⟩
    · rename_i hne
      rw [if_neg hne]
      exact h.finished j hj
  case bounded => exact h.bounded
  case arrived =>
    intro s d k z hz hk
    have hsame : (update x.ranks g r d).bufferTensorList = (x.ranks d).bufferTensorList := by
      rw [update_apply]
      split
      · rename_i hd
        rw [hd, hbuffers]
      · rfl
    exact (congrFun hsame z.2).trans (h.arrived s d k z hz hk)

theorem Exchanging.step {e : ExchangeEvent G} (h : Exchanging weights hold hnew x)
    (hkeeps : KeepsSlots (updated l) (old l))
    (hstep : x.Step (layerOps hold l (updated l)) e x') : Exchanging weights hold hnew x' := by
  obtain ⟨hok, hexec⟩ := hstep
  cases e with
  | deliver s d =>
    have hlt : x.delivered s d < (channel (layerOps hold l (updated l)) s d).length := hok
    rw [channel_eq_entries, length_map] at hlt
    obtain ⟨z, hz, hrun⟩ := h.deliver hlt
    cases hrun.symm.trans hexec
    exact h.arrive hz
  | install g =>
    obtain ⟨hg, hdone⟩ := hok
    simp only [length_sends, length_recvs] at hdone
    obtain ⟨r, hrun, hbuffers, hheld⟩ := h.install hkeeps hg fun p => (hdone p).1
    unfold Exchange.exec at hexec
    dsimp only at hexec
    rw [hrun] at hexec
    cases hexec
    exact h.setInstalled hbuffers hheld fun p => (hdone p).2

theorem Exchanging.progress (h : Exchanging weights hold hnew x)
    (hkeeps : KeepsSlots (updated l) (old l)) (hg : x.done g = false) :
    ∃ e x', x.Step (layerOps hold l (updated l)) e x' := by
  by_cases hwait : ∃ s d, x.delivered s d < (entries (updated l) (old l) s d).length
  · obtain ⟨s, d, hlt⟩ := hwait
    obtain ⟨z, -, hrun⟩ := h.deliver hlt
    refine ⟨.deliver s d, _, ?_, hrun⟩
    show _ < (channel _ s d).length
    rw [channel_eq_entries, length_map]
    exact hlt
  -- every message has arrived
  push Not at hwait
  have hall := fun s d => Nat.le_antisymm (h.bounded s d) (hwait s d)
  obtain ⟨r, hrun, -⟩ := h.install hkeeps hg fun p => hall p g
  refine ⟨.install g, { x with ranks := update x.ranks g r, done := update x.done g true },
    ⟨hg, fun p => ?_⟩, ?_⟩
  · rw [length_sends, length_recvs]
    exact ⟨hall p g, hall g p⟩
  · unfold Exchange.exec
    dsimp only
    rw [hrun]
    rfl

end Exchange

structure Exchange.Sound (weights : Fin E → W) (old : LayerMap G E K) (u : LayerUpdate L G E K)
    (posted : Fin G → List (P2POp L G K)) (x : Exchange L G E K W) : Prop where
  /-- What has not been sent is still in its slot. -/
  kept : ∀ s d k e, (withParty (u.transfers.send s) d)[k]? = some e → x.delivered s d ≤ k →
    ∃ slot, old s e = some slot ∧ (x.ranks s).expertParamPerLayer u.layerId slot = weights e
  bounded : ∀ s d, x.delivered s d ≤ (withParty (u.transfers.send s) d).length
  /-- No rank waits for ever. -/
  progress : (∃ g, x.done g = false) → ∃ e x', x.Step posted e x'
  /-- A rank that is done holds the experts of its new map. -/
  installed : ∀ g, x.done g = true → (x.ranks g).HoldsMap weights u.layerId (u.map g)

/-- The lists of a layer can be executed: senders hold what they send, the receives from a rank are
one by one the sends of that rank, and in whatever order messages arrive, every rank gets its new
map. -/
theorem composeLayer_executes {weights : Fin E → W} {l : Fin L} {updated old : ExpertMaps L G E K}
    {w : World L G E K W} (hold : Proper (old l)) (hnew : Proper (updated l))
    (hkeeps : KeepsSlots (updated l) (old l)) (hidle : ∀ g, (w g).loader.Idle)
    (hheld : ∀ g, (w g).HoldsMap weights l (old l g)) :
    ∃ t before, composeLayer (updated l) (old l) = .ok t ∧
      postAll ⟨t, updated l, l⟩ w = .ok before ∧
      (∀ s y, y ∈ t.send s → (old l s y.2).isSome = true) ∧
      (∀ s d, withParty (t.recv d) s = withParty (t.send s) d) ∧ ∀ x : Exchange L G E K W,
        Reaches (· = ⟨fun g => (before g).1, fun _ _ => 0, fun _ => false⟩)
          (Exchange.Step fun g => (before g).2) (fun _ _ => True) x →
        x.Sound weights (old l) ⟨t, updated l, l⟩ fun g => (before g).2 := by
  have hpost : postAll ⟨transfersOf (layerMessages (updated l) (old l)), updated l, l⟩ w =
      .ok fun g => ({ w g with loader := taskLoader (w g).loader hold hnew g .transferring },
        layerOps hold l (updated l) g) := by
    apply forRanks_ok
    intro g
    exact congrArg (· >>= fun r => Except.ok r.asynExpertWeightTransfer)
      (generateTask_eq hold hnew (hheld g).1 (hidle g).1)
  refine ⟨_, _, composeLayer_eq hold.placed, hpost, fun s y hy => source_holds hold
    (mem_sendList hy), fun s d => withParty_recvList _ s d, fun x hx => ?_⟩
  have hinv : Exchanging weights hold hnew x := by
    apply hx.invariant
    · rintro x rfl
      exact ⟨fun g _ => ⟨hheld g, (w g).loader, (hidle g).2, rfl⟩, nofun, fun _ _ => Nat.zero_le _,
        fun s d k z _ hk => absurd hk (Nat.not_lt_zero k)⟩
    · exact fun x e x' hx _ hstep => hx.step hkeeps hstep
  have hsends : ∀ s d, withParty (sendList (layerMessages (updated l) (old l)) s) d =
      (entries (updated l) (old l) s d).map fun z => z.1.2 := withParty_sendList _
  constructor
  case kept =>
    intro s d k e he hk
    have hget := (congrArg (·[k]?) (hsends s d)).symm.trans he
    rw [getElem?_map] at hget
    obtain ⟨z, hz, rfl⟩ := Option.map_eq_some_iff.mp hget
    exact ⟨_, source_slot (mem_of_getElem? hz), hinv.unsent hz hk⟩
  case bounded =>
    intro s d
    refine (hinv.bounded s d).trans_eq ?_
    rw [← length_map]
    exact congrArg List.length (hsends s d).symm
  case progress => exact fun ⟨g, hg⟩ => hinv.progress hkeeps hg
  case installed => exact fun g hg => (hinv.finished g hg).1

/-- Two ranks swap their experts. -/
theorem composeLayer_executes_swap :
    ∃ t before, composeLayer (plannedMaps pairMaps swapLast 1) (pairMaps 1) = .ok t ∧
      postAll ⟨t, plannedMaps pairMaps swapLast 1, 1⟩ pairWorld = .ok before ∧
      ∀ x, Reaches (· = ⟨fun g => (before g).1, fun _ _ => 0, fun _ => false⟩)
          (Exchange.Step fun g => (before g).2) (fun _ _ => True) x →
        x.Sound (fun e => (1, e)) (pairMaps 1) ⟨t, plannedMaps pairMaps swapLast 1, 1⟩
          fun g => (before g).2 := by
  have hplan := plannedMaps_spec pairWorld_settled.proper swapLast 1
  obtain ⟨t, before, hplanned, hposted, -, -, hsound⟩ := composeLayer_executes
    (pairWorld_settled.proper 1) hplan.1 hplan.2 (fun _ => ⟨rfl, rfl⟩)
    fun g => ⟨rfl, pairWorld_settled.installed.weights g 1⟩
  exact ⟨t, before, hplanned, hposted, hsound⟩

end Eplb

end VllmEcho
