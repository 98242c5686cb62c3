import VllmEcho.Eplb.Worker
import VllmEcho.Lib.Channels

/-!
# What a plan consists of

A placement that went through the check gives expert maps of the same kind as the old ones, with
experts that stay on a rank in their old slot.  The packed lists of all ranks derive from one list
of messages per layer, and mention every unchanged layer twice.
-/

namespace VllmEcho

namespace Eplb

open Lib List

variable {L G E K : Nat}

/-! ## Expert maps -/

/-- The map of one layer: every expert is placed and every slot holds exactly one expert. -/
structure Proper (map : LayerMap G E K) : Prop where
  placed : ∀ e, ∃ g slot, map g e = some slot
  filled : ∀ g slot, ∃ e, map g e = some slot
  inj : ∀ g slot e e', map g e = some slot → map g e' = some slot → e = e'

def KeepsSlots (updated current : LayerMap G E K) : Prop :=
  ∀ g e slot slot', current g e = some slot → updated g e = some slot' → slot' = slot

variable {map : LayerMap G E K} {e : Fin E} {slot : Fin K}

theorem global2local_eq_some (hmap : Proper map) {g : Fin G} :
    global2local map g slot = some e ↔ map g e = some slot := by
  unfold global2local
  constructor
  · intro hfind
    simpa using find?_some hfind
  intro he
  cases hfind : (finRange E).find? fun e => map g e == some slot with
  | none =>
    have hnone := find?_eq_none.mp hfind e (mem_finRange e)
    simp [he] at hnone
  | some e' =>
    have he' : map g e' = some slot := by simpa using find?_some hfind
    rw [hmap.inj g slot e e' he he']

theorem exists_global2local (hmap : Proper map) (g : Fin G) :
    ∃ e, global2local map g slot = some e := by
  obtain ⟨e, he⟩ := hmap.filled g slot
  exact ⟨e, (global2local_eq_some hmap).mpr he⟩

theorem local2global_eq_some {placement : LayerPlacement G E K} {g : Fin G}
    (hinj : ∀ slot slot', placement g slot = placement g slot' → slot = slot') :
    local2global placement g e = some slot ↔ placement g slot = some e := by
  unfold local2global
  constructor
  · intro hfind
    simpa using find?_some hfind
  intro he
  cases hfind : (finRange K).find? fun slot => placement g slot == some e with
  | none =>
    have hnone := find?_eq_none.mp hfind slot (mem_finRange slot)
    simp [he] at hnone
  | some slot' =>
    have he' : placement g slot' = some e := by simpa using find?_some hfind
    rw [hinj slot slot' (he.trans he'.symm)]

theorem global2local_injective (hmap : Proper map) (g : Fin G) (slot slot' : Fin K)
    (heq : global2local map g slot = global2local map g slot') : slot = slot' := by
  obtain ⟨e, he⟩ := exists_global2local hmap g
  have hslot := (global2local_eq_some hmap).mp he
  have hslot' := (global2local_eq_some hmap).mp (heq ▸ he)
  rw [hslot] at hslot'
  exact Option.some.inj hslot'

theorem local2global_global2local (hmap : Proper map) : local2global (global2local map) = map := by
  funext g e
  apply Option.ext
  intro slot
  rw [local2global_eq_some (global2local_injective hmap g), global2local_eq_some hmap]

/-! ## The check -/

theorem uniqueCount_global2local (hmap : Proper map) : uniqueCount (global2local map) = E := by
  have himage : (Finset.univ.image fun x : Fin G × Fin K => global2local map x.1 x.2) =
      Finset.univ.image fun e : Fin E => some e := by
    apply Finset.ext
    intro o
    simp only [Finset.mem_image, Finset.mem_univ, true_and, Prod.exists]
    constructor
    · intro h
      obtain ⟨g, slot, rfl⟩ := h
      obtain ⟨e, he⟩ := exists_global2local hmap g
      exact ⟨e, he.symm⟩
    · intro h
      obtain ⟨e, rfl⟩ := h
      obtain ⟨g, slot, he⟩ := hmap.placed e
      exact ⟨g, slot, (global2local_eq_some hmap).mpr he⟩
  unfold uniqueCount
  rw [himage, Finset.card_image_of_injective _ (Option.some_injective _), Finset.card_univ,
    Fintype.card_fin]

theorem exists_of_uniqueCount {proposal : Fin G → Fin K → Fin E}
    (hcount : E ≤ uniqueCount fun g slot => some (proposal g slot)) (e : Fin E) :
    ∃ g slot, proposal g slot = e := by
  have hsub : (Finset.univ.image fun x : Fin G × Fin K => some (proposal x.1 x.2)) ⊆
      Finset.univ.image fun e : Fin E => some e := by
    intro o ho
    simp only [Finset.mem_image, Finset.mem_univ, true_and, Prod.exists] at ho ⊢
    obtain ⟨g, slot, rfl⟩ := ho
    exact ⟨proposal g slot, rfl⟩
  have heq := Finset.eq_of_subset_of_card_le hsub (by
    rw [Finset.card_image_of_injective _ (Option.some_injective _), Finset.card_univ,
      Fintype.card_fin]
    exact hcount)
  have hmem : some e ∈ Finset.univ.image fun x : Fin G × Fin K => some (proposal x.1 x.2) := by
    rw [heq]
    exact Finset.mem_image_of_mem _ (Finset.mem_univ e)
  simp only [Finset.mem_image, Finset.mem_univ, true_and, Prod.exists, Option.some.injEq] at hmem
  exact hmem

theorem injective_of_not_replicated {new : Fin K → Option (Fin E)} (h : replicated new = false) :
    Function.Injective new := by
  unfold replicated at h
  rw [bne_eq_false_iff_eq] at h
  have hinj := Finset.injOn_of_card_image_eq
    (by rw [h, Finset.card_univ, Fintype.card_fin])
  intro a b hab
  exact hinj (Finset.mem_coe.mpr (Finset.mem_univ a)) (Finset.mem_coe.mpr (Finset.mem_univ b)) hab

/-- The check keeps the old placement, or accepts one that is onto, injective and moves nothing
inside a rank. -/
theorem checkExpertPlacement_cases (hmap : Proper map) (proposal : Fin G → Fin K → Fin E) :
    (checkExpertPlacement (global2local map) fun g slot => some (proposal g slot)) =
        global2local map ∨
      ((checkExpertPlacement (global2local map) fun g slot => some (proposal g slot)) =
          (fun g slot => some (proposal g slot)) ∧
        (∀ e, ∃ g slot, proposal g slot = e) ∧ (∀ g, Function.Injective (proposal g)) ∧
        ∀ g slot slot', global2local map g slot' = some (proposal g slot) → slot' = slot) := by
  unfold checkExpertPlacement
  by_cases hcount : uniqueCount (fun g slot => some (proposal g slot)) <
      uniqueCount (global2local map)
  · exact Or.inl (if_pos hcount)
  rw [if_neg hcount]
  by_cases hbad : ∃ g, replicated (fun slot => some (proposal g slot)) = true ∨
      movedInside (fun slot => some (proposal g slot)) (global2local map g) = true
  · exact Or.inl (if_pos hbad)
  rw [if_neg hbad]
  rw [uniqueCount_global2local hmap] at hcount
  push Not at hbad
  refine Or.inr ⟨rfl, exists_of_uniqueCount (by omega), fun g => ?_, fun g slot slot' hold => ?_⟩
  · have hinj := injective_of_not_replicated (Bool.eq_false_iff.mpr (hbad g).1)
    exact fun a b hab => hinj (congrArg some hab)
  -- an expert that was on the rank is in the slot where it was
  have hstay : some (proposal g slot) = global2local map g slot := by
    have hmoved := (hbad g).2
    unfold movedInside at hmoved
    rw [ne_eq, decide_eq_true_eq] at hmoved
    by_contra hne
    exact hmoved ⟨slot, ⟨slot', hold⟩, hne⟩
  exact global2local_injective hmap g slot' slot (hold.trans hstay)

variable {old : ExpertMaps L G E K}

/-- A plan gives proper maps, and experts that stay on a rank stay in their slot. -/
theorem plannedMaps_spec (hold : ∀ l, Proper (old l)) (proposal : Fin L → Fin G → Fin K → Fin E)
    (l : Fin L) :
    Proper (plannedMaps old proposal l) ∧ KeepsSlots (plannedMaps old proposal l) (old l) := by
  unfold plannedMaps
  cases checkExpertPlacement_cases (hold l) (proposal l) with
  | inl hkept =>
    rw [hkept, local2global_global2local (hold l)]
    refine ⟨hold l, fun g e slot slot' h h' => ?_⟩
    rw [h] at h'
    exact (Option.some.inj h').symm
  | inr hpass =>
    obtain ⟨hnew, hall, hinj, hstay⟩ := hpass
    rw [hnew]
    have hspec : ∀ g e slot, local2global (fun g slot => some (proposal l g slot)) g e = some slot ↔
        proposal l g slot = e := by
      intro g e slot
      rw [local2global_eq_some fun a b hab => hinj g (Option.some.inj hab), Option.some.injEq]
    refine ⟨⟨fun e => ?_, fun g slot => ?_, fun g slot e e' h h' => ?_⟩,
      fun g e slot slot' h h' => ?_⟩
    · obtain ⟨g, slot, he⟩ := hall e
      exact ⟨g, slot, (hspec g e slot).mpr he⟩
    · exact ⟨proposal l g slot, (hspec g _ slot).mpr rfl⟩
    · rw [hspec] at h h'
      exact h.symm.trans h'
    · rw [hspec] at h'
      have hcur := (global2local_eq_some (hold l)).mpr h
      exact (hstay g slot' slot (by rw [hcur, h'])).symm

/-! ## The messages of a layer -/

theorem mem_wherePairs {cond : Fin G → Fin E → Bool} {x : Fin G × Fin E} :
    x ∈ wherePairs cond ↔ cond x.1 x.2 = true := by
  unfold wherePairs
  simp only [mem_flatMap, mem_finRange, true_and, mem_map, mem_filter]
  constructor
  · intro h
    obtain ⟨g, e, he, rfl⟩ := h
    exact he
  · intro h
    exact ⟨x.1, x.2, h, rfl⟩

theorem nodup_wherePairs (cond : Fin G → Fin E → Bool) : (wherePairs cond).Nodup := by
  unfold wherePairs
  rw [nodup_flatMap]
  refine ⟨fun g _ => ?_, ?_⟩
  · apply List.Nodup.map fun a b hab => (Prod.mk.injEq .. ▸ hab : _ ∧ _).2
    exact (nodup_finRange E).filter _
  apply (nodup_finRange G).imp
  intro g g' hne
  show List.Disjoint _ _
  intro x hx hx'
  obtain ⟨e, -, rfl⟩ := mem_map.mp hx
  obtain ⟨e', -, heq⟩ := mem_map.mp hx'
  exact hne (congrArg Prod.fst heq).symm

variable {updated current : LayerMap G E K}

theorem sourceRank_spec (hheld : ∃ g slot, current g e = some slot) :
    ∃ src, sourceRank updated current e = some src ∧ (current src e).isSome = true := by
  have hhead : ∀ xs : List (Fin G), xs ≠ [] → (∀ g ∈ xs, (current g e).isSome = true) →
      ∃ src, xs.head? = some src ∧ (current src e).isSome = true := by
    intro xs hne hall
    match xs with
    | [] => exact absurd rfl hne
    | g :: _ => exact ⟨g, rfl, hall g mem_cons_self⟩
  unfold sourceRank
  by_cases hsent : e ∈ (toSend updated current).map Prod.snd
  · rw [if_pos hsent]
    obtain ⟨x, hx, hxe⟩ := mem_map.mp hsent
    apply hhead
    · apply ne_nil_of_mem
      exact mem_map_of_mem (mem_filter.mpr ⟨hx, by simpa using hxe⟩)
    intro g hg
    obtain ⟨y, hy, rfl⟩ := mem_map.mp hg
    obtain ⟨hy, hye⟩ := mem_filter.mp hy
    have hcond := mem_wherePairs.mp hy
    rw [Bool.and_eq_true] at hcond
    rw [← of_decide_eq_true hye]
    exact hcond.1
  · rw [if_neg hsent]
    obtain ⟨g, slot, hg⟩ := hheld
    apply hhead
    · apply ne_nil_of_mem
      exact mem_filter.mpr ⟨mem_finRange g, by rw [hg]; rfl⟩
    · intro g hg
      exact (mem_filter.mp hg).2

def layerMessages (updated current : LayerMap G E K) : List (Message (Fin G) (Fin E)) :=
  (toReceive updated current).filterMap fun x =>
    (sourceRank updated current x.2).map fun src => ⟨src, x.1, x.2⟩

variable (msgs : List (Message (Fin G) (Fin E)))

def transfersOf : Transfers G E :=
  ⟨sendList msgs, recvList msgs⟩

theorem transfersOf_append (src dst : Fin G) :
    transfersOf (msgs ++ [⟨src, dst, e⟩]) = (transfersOf msgs).add src dst e := by
  unfold transfersOf Transfers.add
  congr 1
  · funext s
    unfold sendList
    by_cases hs : s = src
    · subst hs
      simp
    · simp [Function.update_of_ne hs, Ne.symm hs]
  funext d
  unfold recvList
  by_cases hd : d = dst
  · subst hd
    simp
  · simp [Function.update_of_ne hd, Ne.symm hd]

theorem composeLayer_eq (hheld : ∀ e, ∃ g slot, current g e = some slot) :
    composeLayer updated current = .ok (transfersOf (layerMessages updated current)) := by
  have hfold : ∀ (f : Transfers G E → Fin G × Fin E → Except PyError (Transfers G E)),
      (∀ t x src, sourceRank updated current x.2 = some src → f t x = .ok (t.add src x.1 x.2)) →
      ∀ (xs : List (Fin G × Fin E)) (msgs : List (Message (Fin G) (Fin E))),
      xs.foldlM f (transfersOf msgs) = .ok (transfersOf (msgs ++ xs.filterMap fun x =>
        (sourceRank updated current x.2).map fun src => ⟨src, x.1, x.2⟩)) := by
    intro f hf xs
    induction xs with
    | nil => intro msgs; simp
    | cons x xs ih =>
      intro msgs
      obtain ⟨src, hsrc, -⟩ := sourceRank_spec (hheld x.2)
      rw [foldlM_cons, hf _ x src hsrc, ok_bind, ← transfersOf_append, ih, filterMap_cons, hsrc]
      simp
  refine hfold _ (fun t x src hsrc => ?_) (toReceive updated current) []
  rw [hsrc]

theorem layerMessages_self : layerMessages map map = [] := by
  have hnone : toReceive map map = [] := by
    apply eq_nil_iff_forall_not_mem.mpr
    intro x hx
    have hcond := mem_wherePairs.mp hx
    cases hmap : map x.1 x.2 <;> simp [hmap] at hcond
  unfold layerMessages
  rw [hnone]
  rfl

theorem mem_layerMessages {m : Message (Fin G) (Fin E)} (hm : m ∈ layerMessages updated current) :
    sourceRank updated current m.body = some m.src ∧ current m.dst m.body = none ∧
      (updated m.dst m.body).isSome = true := by
  obtain ⟨x, hx, hmap⟩ := mem_filterMap.mp hm
  obtain ⟨src, hsrc, rfl⟩ := Option.map_eq_some_iff.mp hmap
  have hcond := mem_wherePairs.mp hx
  rw [Bool.and_eq_true, Option.isNone_iff_eq_none] at hcond
  exact ⟨hsrc, hcond⟩

/-! ## The packed list -/

/-- The entries of one layer: an unchanged one is entered twice. -/
def visits (updated current : ExpertMaps L G E K) (l : Fin L) : List (Fin L) :=
  if updated l = current l then [l, l] else [l]

def schedule (updated current : ExpertMaps L G E K) : List (Fin L) :=
  (finRange L).flatMap (visits updated current)

def layerInfo (updated current : ExpertMaps L G E K) (rank : Fin G) (l : Fin L) :
    UpdateInfo L G E K where
  sendInfo := sendList (layerMessages (updated l) (current l)) rank
  recvInfo := recvList (layerMessages (updated l) (current l)) rank
  expertMap := updated l rank
  log2phyMap := generateLog2phyMap (updated l) rank
  layerId := l

/-- All ranks pack their part of one common list of entries. -/
theorem doUpdate_eq (hold : ∀ l, Proper (old l)) (rank : Fin G)
    (proposal : Fin L → Fin G → Fin K → Fin E) :
    doUpdate rank old proposal = .ok (plannedMaps old proposal,
      (schedule (plannedMaps old proposal) old).map
        (layerInfo (plannedMaps old proposal) old rank)) := by
  unfold doUpdate composeExpertUpdateInfoGreedy
  generalize plannedMaps old proposal = updated
  let entry : Fin L → LayerUpdate L G E K := fun l =>
    ⟨transfersOf (layerMessages (updated l) (old l)), updated l, l⟩
  have hlayers := mapM_ok (f := fun l => do
      let early : List (LayerUpdate L G E K) :=
        if updated l = old l then [⟨⟨fun _ => [], fun _ => []⟩, updated l, l⟩] else []
      let transfers ← composeLayer (updated l) (old l)
      .ok (early ++ [⟨transfers, updated l, l⟩]))
    (fun l => (visits updated old l).map entry) (finRange L) (by
      intro l _
      rw [composeLayer_eq fun e => (hold l).placed e, visits]
      by_cases hsame : updated l = old l
      · rw [if_pos hsame, if_pos hsame]
        simp only [map_cons, map_nil, entry]
        rw [hsame, layerMessages_self]
        rfl
      · rw [if_neg hsame, if_neg hsame]
        rfl)
  dsimp only
  rw [hlayers]
  show Except.ok (updated, packUpdateInfo rank _) = _
  congr 2
  unfold packUpdateInfo schedule
  rw [← flatMap_def, map_flatMap, map_flatMap]
  apply flatMap_congr
  intro l _
  rw [map_map]
  rfl

end Eplb

end VllmEcho
