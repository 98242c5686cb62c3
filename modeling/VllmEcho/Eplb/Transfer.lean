import VllmEcho.Eplb.Plan
import VllmEcho.Eplb.Updator

/-!
# One layer's transfer

When all ranks process the entry of one layer, every buffer receives the weights of the expert it
is meant for, and the slots hold the experts of the new map afterwards.
-/

namespace VllmEcho

namespace Eplb

open Lib Function List

variable {L G E K : Nat} {W : Type}

/-! ## Slots of held experts -/

variable {map : LayerMap G E K}

noncomputable def Proper.slotOf (h : Proper map) (g : Fin G) (e : Fin E) : Fin K :=
  (map g e).getD (h.placed e).choose_spec.choose

variable {g : Fin G} {e : Fin E}

theorem Proper.eq_slotOf (h : Proper map) (hsome : (map g e).isSome = true) :
    map g e = some (h.slotOf g e) := by
  obtain ⟨slot, hslot⟩ := Option.isSome_iff_exists.mp hsome
  unfold Proper.slotOf
  rw [hslot]
  rfl

variable {x : Fin G × Fin E} {msgs : List (Message (Fin G) (Fin E))} {d : Fin G} {l : Fin L}

section Layer

variable {updated current : LayerMap G E K}

abbrev recvs (updated current : LayerMap G E K) (d : Fin G) : List (Fin G × Fin E) :=
  recvList (layerMessages updated current) d

theorem mem_sendList (hx : x ∈ sendList msgs g) : ⟨g, x.1, x.2⟩ ∈ msgs := by
  obtain ⟨m, hm, rfl⟩ := mem_map.mp hx
  obtain ⟨hm, hsrc⟩ := mem_filter.mp hm
  rw [← of_decide_eq_true hsrc]
  exact hm

theorem mem_recvList : x ∈ recvList msgs g ↔ ⟨x.1, g, x.2⟩ ∈ msgs := by
  unfold recvList
  rw [mem_map]
  constructor
  · intro h
    obtain ⟨m, hm, rfl⟩ := h
    obtain ⟨hm, hdst⟩ := mem_filter.mp hm
    rw [← of_decide_eq_true hdst]
    exact hm
  · intro h
    exact ⟨_, mem_filter.mpr ⟨h, decide_eq_true rfl⟩, rfl⟩

theorem recv_slot (hnew : Proper updated) (hx : x ∈ recvs updated current d) :
    updated d x.2 = some (hnew.slotOf d x.2) :=
  hnew.eq_slotOf (mem_layerMessages (mem_recvList.mp hx)).2.2

theorem withParty_map {P α β : Type} [DecidableEq P] (ops : List (P × α)) (f : α → β) (p : P) :
    withParty (ops.map fun x => (x.1, f x.2)) p = (withParty ops p).map f := by
  unfold withParty
  rw [filter_map, map_map, map_map]
  rfl

section

variable (hcur : Proper current)
include hcur

theorem source_holds {m : Message (Fin G) (Fin E)}
    (hm : m ∈ layerMessages updated current) : (current m.src m.body).isSome = true := by
  obtain ⟨src, hsrc, hheld⟩ := sourceRank_spec (hcur.placed m.body)
  rw [(mem_layerMessages hm).1] at hsrc
  rw [Option.some.inj hsrc]
  exact hheld

theorem map_layerMessages :
    (layerMessages updated current).map (fun m => (m.dst, m.body)) = toReceive updated current := by
  unfold layerMessages
  generalize toReceive updated current = xs
  induction xs with
  | nil => rfl
  | cons x xs ih =>
    obtain ⟨src, hsrc, -⟩ := sourceRank_spec (hcur.placed x.2)
    rw [filterMap_cons, hsrc]
    dsimp only [Option.map_some]
    rw [map_cons, ih]

theorem nodup_recvList :
    ((recvs updated current d).map Prod.snd).Nodup := by
  have hall : ((layerMessages updated current).map fun m => (m.dst, m.body)).Nodup := by
    rw [map_layerMessages hcur]
    exact nodup_wherePairs _
  have hsub := hall.sublist (filter_sublist.map _ :
    (((layerMessages updated current).filter fun m => m.dst = d).map
      fun m => (m.dst, m.body)).Sublist _)
  unfold recvs recvList
  rw [map_map]
  apply List.Nodup.of_map (fun e => (d, e))
  rw [map_map]
  have heq : ((layerMessages updated current).filter fun m => m.dst = d).map
      ((fun e => (d, e)) ∘ Prod.snd ∘ fun m => (m.src, m.body)) =
      ((layerMessages updated current).filter fun m => m.dst = d).map
        fun m => (m.dst, m.body) := by
    apply map_congr_left
    intro m hm
    have hdst := of_decide_eq_true (mem_filter.mp hm).2
    show (d, m.body) = (m.dst, m.body)
    rw [hdst]
  rw [heq]
  exact hsub

theorem mem_recv_iff :
    e ∈ (recvs updated current d).map Prod.snd ↔
      current d e = none ∧ (updated d e).isSome = true := by
  have hmem : e ∈ (recvs updated current d).map Prod.snd ↔
      (d, e) ∈ (layerMessages updated current).map fun m => (m.dst, m.body) := by
    unfold recvs recvList
    simp only [mem_map, mem_filter, decide_eq_true_eq, Prod.exists, Prod.mk.injEq]
    constructor
    · intro h
      obtain ⟨s, e', ⟨m, ⟨hm, hd⟩, -, rfl⟩, rfl⟩ := h
      exact ⟨m, hm, hd, rfl⟩
    · intro h
      obtain ⟨m, hm, hd, rfl⟩ := h
      exact ⟨m.src, m.body, ⟨m, ⟨hm, hd⟩, rfl, rfl⟩, rfl⟩
  rw [hmem, map_layerMessages hcur]
  unfold toReceive
  rw [mem_wherePairs, Bool.and_eq_true, Option.isNone_iff_eq_none]

theorem nodup_recv_slots (hnew : Proper updated) (d : Fin G) :
    ((recvs updated current d).map fun x => hnew.slotOf d x.2).Nodup := by
  have hnodup : ((recvs updated current d).map Prod.snd).Nodup :=
    nodup_recvList hcur
  rw [nodup_map_iff_inj_on (List.Nodup.of_map _ hnodup)]
  intro x hx y hy heq
  have hxy : x.2 = y.2 := by
    apply hnew.inj d (hnew.slotOf d x.2)
    · exact recv_slot hnew hx
    · rw [heq]
      exact recv_slot hnew hy
  exact inj_on_of_nodup_map hnodup hx hy hxy

theorem length_recvList_le (hnew : Proper updated) :
    (recvs updated current d).length ≤ K := by
  have hlen := (nodup_recv_slots hcur hnew d).length_le_card
  rwa [length_map, Fintype.card_fin] at hlen

/-! ## Posting -/

theorem sendOps_eq :
    sendOps (current g) l (sendList (layerMessages updated current) g) =
      .ok ((sendList (layerMessages updated current) g).map fun x =>
        P2POp.isend l (hcur.slotOf g x.2) x.1) := by
  apply mapM_ok
  intro x hx
  have hheld := source_holds hcur (mem_sendList hx)
  rw [hcur.eq_slotOf hheld]
  rfl

theorem recvOps_eq (hnew : Proper updated) :
    (recvOps (updated d) (recvs updated current d) :
      Except PyError (List (P2POp L G K × (Fin K × Nat)))) =
      .ok ((recvs updated current d).zipIdx.map fun x =>
        (P2POp.irecv x.2 x.1.1, (hnew.slotOf d x.1.2, x.2))) := by
  apply mapM_ok
  intro x hx
  have hlt : x.2 < K := by
    have hidx := lt_of_getElem? (mk_mem_zipIdx_iff_getElem?.mp hx)
    exact Nat.lt_of_lt_of_le hidx (length_recvList_le hcur hnew)
  rw [if_pos hlt, recv_slot hnew (fst_mem_of_mem_zipIdx hx)]
  rfl

noncomputable def layerOps (l : Fin L) (updated : LayerMap G E K)
    (g : Fin G) : List (P2POp L G K) :=
  ((sendList (layerMessages updated current) g).map fun x =>
    P2POp.isend l (hcur.slotOf g x.2) x.1) ++
  (positions (recvs updated current g)).map fun x => P2POp.irecv x.2 x.1

theorem sendsOf_layerOps : sendsOf (layerOps hcur l updated g) =
      (sendList (layerMessages updated current) g).map fun x => (x.1, (l, hcur.slotOf g x.2)) := by
  unfold sendsOf layerOps
  rw [filterMap_append, filterMap_map, filterMap_map]
  refine (congrArg₂ (· ++ ·) rfl (filterMap_eq_nil_iff.mpr fun _ _ => rfl)).trans ?_
  rw [append_nil]
  exact congrFun (filterMap_eq_map) _

theorem recvsOf_layerOps : recvsOf (layerOps hcur l updated g) =
      positions (recvs updated current g) := by
  unfold recvsOf layerOps
  rw [filterMap_append, filterMap_map, filterMap_map]
  refine (congrArg₂ (· ++ ·) (filterMap_eq_nil_iff.mpr fun _ _ => rfl) rfl).trans ?_
  exact filterMap_some

theorem completes_layerOps :
    completes (layerOps hcur l updated) d = true := by
  unfold completes
  rw [decide_eq_true_eq]
  intro s
  simp only [sendsOf_layerOps, recvsOf_layerOps, length_withParty_positions]
  rw [withParty_map (sendList _ s) (fun e => (l, hcur.slotOf s e)) d,
    withParty_map (sendList _ d) (fun e => (l, hcur.slotOf d e)) s, length_map,
    length_map]
  exact ⟨rfl, rfl⟩

theorem channel_layerOps (s : Fin G) :
    channel (layerOps hcur l updated) s d =
      ((recvs updated current d).zipIdx.filter fun x => x.1.1 = s).map
        fun x => (x.2, (l, hcur.slotOf s x.1.2)) := by
  unfold channel
  rw [sendsOf_layerOps, recvsOf_layerOps,
    withParty_map (sendList _ s) (fun e => (l, hcur.slotOf s e)) d, zip_map_right,
    zip_withParty, map_map]
  rfl

/-- Each buffer receives the weights of the expert that it is meant for. -/
theorem transferBuffers_layerOps (w : World L G E K W) {i : Nat}
    (hx : (recvs updated current d)[i]? = some x) :
    transferBuffers w (layerOps hcur l updated) d i =
      (w x.1).expertParamPerLayer l (hcur.slotOf x.1 x.2) := by
  unfold transferBuffers
  have hmem : ∀ y, y ∈ ((finRange G).flatMap fun s =>
      (channel (layerOps hcur l updated) s d).map fun x => (s, x)) ↔
      ∃ z : (Fin G × Fin E) × Nat,
        (recvs updated current d)[z.2]? = some z.1 ∧
        y = (z.1.1, (z.2, (l, hcur.slotOf z.1.1 z.1.2))) := by
    intro y
    simp only [mem_flatMap, mem_finRange, true_and, channel_layerOps, map_map,
      mem_map, mem_filter, decide_eq_true_eq]
    constructor
    · intro h
      obtain ⟨s, z, ⟨hz, rfl⟩, rfl⟩ := h
      exact ⟨z, mk_mem_zipIdx_iff_getElem?.mp hz, rfl⟩
    · intro h
      obtain ⟨z, hz, rfl⟩ := h
      exact ⟨z.1.1, z, ⟨mk_mem_zipIdx_iff_getElem?.mpr hz, rfl⟩, rfl⟩
  generalize ((finRange G).flatMap fun s =>
    (channel (layerOps hcur l updated) s d).map fun x => (s, x)) = deliveries at hmem
  cases hfind : deliveries.find? (fun y => y.2.1 == i) with
  | none =>
    have hnone := find?_eq_none.mp hfind _ ((hmem _).mpr ⟨(x, i), hx, rfl⟩)
    simp at hnone
  | some y =>
    obtain ⟨z, hz, rfl⟩ := (hmem y).mp (mem_of_find?_eq_some hfind)
    have hi : z.2 = i := by simpa using find?_some hfind
    rw [hi, hx] at hz
    cases hz
    rfl

end

end Layer

/-! ## Copying the buffers -/

variable (buffers : Nat → W) (xs : List (Fin K × Nat))

def copyBuffers (params : Fin K → W) : Fin K → W :=
  xs.foldl (fun p x => update p x.1 (buffers x.2)) params

theorem foldl_doUpdateExpertWeight (l : Fin L) (xs : List (Fin K × Nat)) :
    ∀ r : Rank L G E K W, xs.foldl (fun r x => r.doUpdateExpertWeight l x) r = { r with
        expertParamPerLayer := update r.expertParamPerLayer l
          (copyBuffers r.bufferTensorList xs (r.expertParamPerLayer l)) } := by
  induction xs with
  | nil => intro r; simp [copyBuffers]
  | cons x xs ih =>
    intro r
    rw [foldl_cons, ih]
    simp [Rank.doUpdateExpertWeight, copyBuffers]

theorem copyBuffers_spec : ∀ params : Fin K → W, (xs.map Prod.fst).Nodup →
      (∀ x ∈ xs, copyBuffers buffers xs params x.1 = buffers x.2) ∧
      ∀ slot, slot ∉ xs.map Prod.fst → copyBuffers buffers xs params slot = params slot := by
  induction xs with
  | nil => exact fun params _ => ⟨fun x hx => absurd hx not_mem_nil, fun slot _ => rfl⟩
  | cons x xs ih =>
    intro params hnodup
    rw [map_cons, nodup_cons] at hnodup
    obtain ⟨hcopied, hkept⟩ := ih (update params x.1 (buffers x.2)) hnodup.2
    have hcons : copyBuffers buffers (x :: xs) params =
        copyBuffers buffers xs (update params x.1 (buffers x.2)) := rfl
    refine ⟨fun y hy => ?_, fun slot hslot => ?_⟩
    · rw [hcons]
      cases mem_cons.mp hy with
      | inl heq => subst heq; rw [hkept _ hnodup.1, update_self]
      | inr hin => exact hcopied y hin
    · rw [map_cons, mem_cons, not_or] at hslot
      rw [hcons, hkept slot hslot.2, update_of_ne hslot.1]

noncomputable abbrev copies {updated : LayerMap G E K} (hnew : Proper updated)
    (current : LayerMap G E K) (g : Fin G) : List (Fin K × Nat) :=
  (recvs updated current g).zipIdx.map fun x => (hnew.slotOf g x.1.2, x.2)

/-- After the copies every slot holds the expert of the new map. -/
theorem copied_weights {updated current : LayerMap G E K} (hcur : Proper current)
    (hnew : Proper updated)
    (hkeeps : KeepsSlots updated current) {weights : Fin E → W} {buffers : Nat → W}
    {params : Fin K → W}
    (hbuffers : ∀ i x, (recvs updated current g)[i]? = some x →
      buffers i = weights x.2)
    (hparams : ∀ e slot, current g e = some slot → params slot = weights e)
    {e : Fin E} {slot : Fin K} (hslot : updated g e = some slot) :
    copyBuffers buffers (copies hnew current g) params slot = weights e := by
  have hfst : (copies hnew current g).map Prod.fst =
      (recvs updated current g).map fun x => hnew.slotOf g x.2 := by
    rw [map_map]
    show List.map ((fun x : Fin G × Fin E => hnew.slotOf g x.2) ∘ Prod.fst) _ = _
    rw [← map_map, zipIdx_map_fst]
  obtain ⟨hcopied, hkept⟩ := copyBuffers_spec buffers _ params (hfst ▸ nodup_recv_slots hcur hnew g)
  cases hcurrent : current g e with
  | none =>
    -- the expert arrives in the buffer of its place in the list of receives
    have hmem : e ∈ (recvs updated current g).map Prod.snd :=
      (mem_recv_iff hcur).mpr ⟨hcurrent, by rw [hslot]; rfl⟩
    obtain ⟨x, hx, rfl⟩ := mem_map.mp hmem
    obtain ⟨i, hi⟩ := mem_iff_getElem?.mp hx
    have hplace : slot = hnew.slotOf g x.2 := by
      have heq := recv_slot hnew hx
      rw [hslot] at heq
      exact Option.some.inj heq
    have hcopy := hcopied (hnew.slotOf g x.2, i)
      (mem_map.mpr ⟨(x, i), mk_mem_zipIdx_iff_getElem?.mpr hi, rfl⟩)
    rw [hplace, hcopy, hbuffers i x hi]
  | some slot' =>
    -- the expert stays, and no other expert is copied over it
    obtain rfl : slot = slot' := hkeeps g e slot' slot hcurrent hslot
    have hnot : slot ∉ (copies hnew current g).map Prod.fst := by
      rw [hfst]
      intro hin
      obtain ⟨x, hx, heq⟩ := mem_map.mp hin
      have hsame : x.2 = e := hnew.inj g slot x.2 e (heq ▸ recv_slot hnew hx) hslot
      have hnone := (mem_layerMessages (mem_recvList.mp hx)).2.1
      rw [hsame, hcurrent] at hnone
      cases hnone
    rw [hkept slot hnot]
    exact hparams e slot hcurrent

end Eplb

end VllmEcho
