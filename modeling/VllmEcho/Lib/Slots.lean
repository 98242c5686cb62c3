import VllmEcho.Lib.Dict

/-!
# Lists with holes

A list of optional values is a row of slots; `reduceOption` lists what they hold.  Filling a hole
adds a value, emptying a slot takes it away.
-/

namespace VllmEcho.Lib

open Dict List

variable {α : Type}

variable {l : List (Option α)} {i : Nat} {a : α}

theorem exists_set_split {β : Type} {l : List β} {b : β} (hi : l[i]? = some b) :
    ∃ l₁ l₂, l = l₁ ++ b :: l₂ ∧ ∀ c, l.set i c = l₁ ++ c :: l₂ := by
  obtain ⟨hlt, rfl⟩ := List.getElem?_eq_some_iff.mp hi
  refine ⟨l.take i, l.drop (i + 1), ?_, fun c => ?_⟩
  · rw [getElem_cons_drop, take_append_drop]
  · rw [set_eq_take_append_cons_drop, if_pos hlt]

theorem reduceOption_set_some (hi : l[i]? = some none) (a : α) :
    (l.set i (some a)).reduceOption.Perm (a :: l.reduceOption) := by
  obtain ⟨l₁, l₂, rfl, hset⟩ := exists_set_split hi
  simp [hset, reduceOption_append]

theorem reduceOption_set_none (hi : l[i]? = some (some a)) :
    l.reduceOption.Perm (a :: (l.set i none).reduceOption) := by
  obtain ⟨l₁, l₂, rfl, hset⟩ := exists_set_split hi
  simp [hset, reduceOption_append]

theorem nodup_reduceOption
    (h : ∀ (i j : Nat) (a : α), l[i]? = some (some a) → l[j]? = some (some a) → i = j) :
    l.reduceOption.Nodup := by
  induction l with
  | nil => exact nodup_nil
  | cons o l ih =>
    have htail := ih fun i j a hi hj => Nat.succ.inj
      (h (i + 1) (j + 1) a (by simpa using hi) (by simpa using hj))
    cases o with
    | none => simpa using htail
    | some a =>
      rw [reduceOption_cons_of_some, nodup_cons]
      refine ⟨fun hmem => ?_, htail⟩
      obtain ⟨k, hk⟩ := mem_iff_getElem?.mp (reduceOption_mem_iff.mp hmem)
      have := h 0 (k + 1) a rfl (by simpa using hk)
      omega

theorem eq_map_some (h : ∀ i : Nat, i < l.length → l[i]? ≠ some none) :
    l = l.reduceOption.map some := by
  induction l with
  | nil => rfl
  | cons o l ih =>
    cases o with
    | none => exact absurd rfl (h 0 (by simp))
    | some a =>
      rw [reduceOption_cons_of_some, map_cons,
        ← ih fun i hi => by simpa using h (i + 1) (by simpa using hi)]

theorem getElem?_map_eq_some {β : Type} {f : α → β} {b : β} :
    (l.map (Option.map f))[i]? = some (some b) ↔ ∃ a, l[i]? = some (some a) ∧ f a = b := by
  rw [getElem?_map]
  constructor
  · intro hi
    obtain ⟨o, ho, hob⟩ := Option.map_eq_some_iff.mp hi
    obtain ⟨a, rfl, hab⟩ := Option.map_eq_some_iff.mp hob
    exact ⟨a, ho, hab⟩
  · rintro ⟨a, ha, rfl⟩
    rw [ha]
    rfl

structure Packed (l : List (Option α)) (m : Nat) : Prop where
  front : ∀ i < m, ∃ a, l[i]? = some (some a)
  back : ∀ (i : Nat) (a : α), m ≤ i → l[i]? ≠ some (some a)

theorem Packed.zero (hnil : l.reduceOption = []) : Packed l 0 := by
  refine ⟨fun i hi => absurd hi (Nat.not_lt_zero i), fun i a _ ha => ?_⟩
  have hmem := reduceOption_mem_iff.mpr (mem_of_getElem? ha)
  rw [hnil] at hmem
  cases hmem

theorem Packed.take_eq {m : Nat} (h : Packed l m) :
    l.take m = l.reduceOption.map some ∧ l.reduceOption.length = m := by
  have hm : m ≤ l.length := by
    by_contra hgt
    obtain ⟨a, ha⟩ := h.front l.length (by omega)
    rw [getElem?_eq_none (Nat.le_refl _)] at ha
    cases ha
  have hfull : ∀ i : Nat, i < (l.take m).length → (l.take m)[i]? ≠ some none := by
    intro i hi hnone
    have him : i < m := by
      rw [length_take] at hi
      omega
    obtain ⟨a, ha⟩ := h.front i him
    rw [getElem?_take_of_lt him, ha] at hnone
    cases hnone
  have hrest : (l.drop m).reduceOption = [] := by
    rw [eq_nil_iff_forall_not_mem]
    intro a ha
    obtain ⟨i, hi⟩ := mem_iff_getElem?.mp (reduceOption_mem_iff.mp ha)
    rw [getElem?_drop] at hi
    exact h.back (m + i) a (Nat.le_add_right m i) hi
  have hall : l.reduceOption = (l.take m).reduceOption := by
    conv_lhs => rw [← take_append_drop m l, reduceOption_append, hrest,
      append_nil]
  have heq := eq_map_some hfull
  refine ⟨by rw [hall]; exact heq, ?_⟩
  have hlen := congrArg List.length heq
  rw [length_take, length_map, ← hall] at hlen
  omega

/-! ## Closing the holes -/

variable {j : Nat}

theorem getElem?_set_of_lt {o : Option α} (hj : j < l.length) :
    (l.set j o)[i]? = if i = j then some o else l[i]? := by
  by_cases hij : i = j
  · rw [if_pos hij, hij, getElem?_set_self hj]
  · rw [if_neg hij, getElem?_set_ne (Ne.symm hij)]

theorem hole_set_some (hj : j < l.length) :
    (l.set j (some a))[i]? = some none ↔ l[i]? = some none ∧ i ≠ j := by
  rw [getElem?_set_of_lt hj]
  by_cases hij : i = j
  · simp [hij]
  · simp [hij]

theorem hole_set_none (hj : j < l.length) :
    (l.set j none)[i]? = some none ↔ l[i]? = some none ∨ i = j := by
  rw [getElem?_set_of_lt hj]
  by_cases hij : i = j
  · simp [hij]
  · simp [hij]

theorem getElem?_move {k e : Nat} (ha : l[k]? = some (some a)) (he : e < l.length) (i : Nat) :
    ((l.set e (some a)).set k none)[i]? =
      if i = k then some none else if i = e then some (some a) else l[i]? := by
  have hk := (List.getElem?_eq_some_iff.mp ha).1
  rw [getElem?_set_of_lt (by rw [length_set]; exact hk), getElem?_set_of_lt he]

theorem reduceOption_move {k e : Nat} (ha : l[k]? = some (some a)) (he : l[e]? = some none) :
    ((l.set e (some a)).set k none).reduceOption.Perm l.reduceOption := by
  have hne : e ≠ k := by
    rintro rfl
    rw [ha] at he
    cases he
  have hset : (l.set e (some a))[k]? = some (some a) := by rw [getElem?_set_ne hne, ha]
  exact ((reduceOption_set_none hset).symm.trans (reduceOption_set_some he a)).cons_inv

theorem pairwise_gt_mergeSort {l : List Nat} (hnodup : l.Nodup) :
    (l.mergeSort fun i j => decide (j ≤ i)).Pairwise (· > ·) := by
  have hperm := mergeSort_perm l fun i j => decide (j ≤ i)
  have hpair := pairwise_mergeSort' (· ≥ ·) l
  exact (hpair.and (hperm.nodup_iff.mpr hnodup)).imp fun hab => lt_of_le_of_ne hab.1 hab.2.symm

section

variable {holes : List Nat} {e : Nat} (hsorted : holes.Pairwise (· > ·))
  (he : holes.getLast? = some e)
include hsorted he

theorem getLast_lt {i : Nat} (hi : i ∈ holes.dropLast) : e < i := by
  obtain ⟨init, rfl⟩ := getLast?_eq_some_iff.mp he
  rw [dropLast_concat] at hi
  exact (pairwise_append.mp hsorted).2.2 i hi e (mem_singleton_self e)

theorem mem_dropLast_iff {i : Nat} : i ∈ holes.dropLast ↔ i ∈ holes ∧ i ≠ e := by
  constructor
  · intro hi
    exact ⟨dropLast_subset _ hi, Nat.ne_of_gt (getLast_lt hsorted he hi)⟩
  · rintro ⟨hi, hne⟩
    rw [← dropLast_append_getLast? e he, mem_append, mem_singleton] at hi
    exact hi.resolve_right hne

end

/-- The holes up to `last` are listed, the lowest one last, and nothing stands behind `last`. -/
structure Sinking (holes : List Nat) (l : List (Option α)) (last : Nat) : Prop where
  sorted : holes.Pairwise (· > ·)
  hole : ∀ i ∈ holes, l[i]? = some none
  listed : ∀ i ≤ last, l[i]? = some none → i ∈ holes
  behind : ∀ (i : Nat) (a : α), last < i → l[i]? ≠ some (some a)
  inside : last < l.length

namespace Sinking

variable {holes : List Nat} {l : List (Option α)} {last k e : Nat} {a : α}
  (h : Sinking holes l last)
include h

theorem exists_live (hk : k ≤ last) (hnot : k ∉ holes) : ∃ a, l[k]? = some (some a) := by
  have hinside := h.inside
  cases hget : l[k]? with
  | none =>
    rw [getElem?_eq_none_iff] at hget
    omega
  | some o =>
    cases o with
    | none => exact absurd (h.listed k hk hget) hnot
    | some a => exact ⟨a, rfl⟩

theorem packed {m : Nat} (hm : m ≤ last + 1) (hlow : ∀ i ∈ holes, m ≤ i)
    (hhigh : ∀ i, m ≤ i → i ≤ last → i ∈ holes) : Packed l m := by
  constructor
  · intro i hi
    exact h.exists_live (by omega) fun hmem => absurd (hlow i hmem) (by omega)
  intro i a hi ha
  by_cases hle : i ≤ last
  · have hnone := h.hole i (hhigh i hi hle)
    rw [ha] at hnone
    cases hnone
  · exact h.behind i a (by omega) ha

/-- The last element moves to the lowest hole. -/
theorem move (hk : k ≤ last) (hskip : ∀ i, k < i → i ≤ last → i ∈ holes)
    (ha : l[k]? = some (some a)) (he : holes.getLast? = some e) (hek : e < k) :
    Sinking holes.dropLast ((l.set e (some a)).set k none) (k - 1) := by
  have hkl := (List.getElem?_eq_some_iff.mp ha).1
  have hget := getElem?_move (e := e) ha (by omega)
  constructor
  case sorted => exact h.sorted.sublist (dropLast_sublist _)
  case hole =>
    intro i hi
    obtain ⟨hmem, hie⟩ := (mem_dropLast_iff h.sorted he).mp hi
    rw [hget, if_neg hie, h.hole i hmem, ite_self]
  case listed =>
    intro i hi hnone
    rw [hget, if_neg (by omega)] at hnone
    by_cases hie : i = e
    · rw [if_pos hie] at hnone
      cases hnone
    · rw [if_neg hie] at hnone
      exact (mem_dropLast_iff h.sorted he).mpr ⟨h.listed i (by omega) hnone, hie⟩
  case behind =>
    intro i b hi hb
    rw [hget] at hb
    by_cases hik : i = k
    · rw [if_pos hik] at hb
      cases hb
    · rw [if_neg hik, if_neg (by omega)] at hb
      by_cases hle : i ≤ last
      · rw [h.hole i (hskip i (by omega) hle)] at hb
        cases hb
      · exact h.behind i b (by omega) hb
  case inside =>
    rw [length_set, length_set]
    omega

end Sinking

structure Gaps (holes : List Nat) (isSorted : Bool) (l : List (Option α)) : Prop where
  nodup : holes.Nodup
  mem : ∀ i : Nat, i ∈ holes ↔ l[i]? = some none
  sorted : isSorted = true → holes.Pairwise (· > ·)

namespace Gaps

variable {holes : List Nat} {isSorted : Bool}

theorem of_live (live : List α) : Gaps [] isSorted (live.map some) := by
  refine ⟨nodup_nil, fun i => ?_, fun _ => List.Pairwise.nil⟩
  cases live[i]? <;> simp

theorem perm {holes' : List Nat} {isSorted' : Bool} (h : Gaps holes isSorted l)
    (h' : Gaps holes' isSorted' l) : holes.Perm holes' :=
  (perm_ext_iff_of_nodup h.nodup h'.nodup).mpr fun i => (h.mem i).trans (h'.mem i).symm

section

variable (h : Gaps holes isSorted l)
include h

theorem length_eq : l.length = l.reduceOption.length + holes.length := by
  have hmap : l = (range l.length).map fun i => (l[i]?).getD none := by
    apply ext_getElem (by simp)
    intro i hi _
    rw [getElem_map, getElem_range, getElem?_eq_getElem hi, Option.getD_some]
  have hperm : holes.Perm ((range l.length).filter fun i => ((l[i]?).getD none).isNone) := by
    apply (perm_ext_iff_of_nodup h.nodup (nodup_range.filter _)).mpr
    intro i
    rw [h.mem, mem_filter, mem_range]
    constructor
    · intro hi
      exact ⟨(List.getElem?_eq_some_iff.mp hi).1, by rw [hi]; rfl⟩
    · rintro ⟨hlt, hnone⟩
      rw [getElem?_eq_getElem hlt] at hnone ⊢
      rw [Option.getD_some, Option.isNone_iff_eq_none] at hnone
      rw [hnone]
  have hcount : (l.filter Option.isNone).length = holes.length := by
    rw [hperm.length_eq]
    conv_lhs => rw [hmap, filter_map, length_map]
    rfl
  rw [← hcount]
  exact length_eq_reduceOption_length_add_filter_none

theorem map_some (hempty : holes = []) : l.reduceOption.map some = l := by
  refine (eq_map_some fun i _ hi => ?_).symm
  have hmem := (h.mem i).mpr hi
  rw [hempty] at hmem
  cases hmem

theorem vacate (hsorted : isSorted = false) (hi : l[i]? = some (some a)) :
    Gaps (holes ++ [i]) isSorted (l.set i none) := by
  have hnot : i ∉ holes := by
    rw [h.mem, hi]
    simp
  refine ⟨h.nodup.append (nodup_singleton i) (by simpa using hnot), fun j => ?_,
    fun htrue => nomatch hsorted.symm.trans htrue⟩
  rw [mem_append, mem_singleton, h.mem, hole_set_none (List.getElem?_eq_some_iff.mp hi).1]

theorem extend (hempty : holes = []) (a : α) :
    Gaps holes isSorted ((l ++ [none]).set l.length (some a)) := by
  have heq : (l ++ [none]).set l.length (some a) = (l.reduceOption ++ [a]).map some := by
    rw [set_append_right _ _ (Nat.le_refl _), Nat.sub_self, map_append, h.map_some hempty]
    rfl
  rw [heq, hempty]
  exact of_live _

theorem sort : Gaps (holes.mergeSort fun i j => decide (j ≤ i)) true l := by
  have hperm := mergeSort_perm holes fun i j => decide (j ≤ i)
  exact ⟨hperm.nodup_iff.mpr h.nodup, fun i => hperm.mem_iff.trans (h.mem i),
    fun _ => pairwise_gt_mergeSort h.nodup⟩

theorem sinking (hsorted : isSorted = true) (hpos : 0 < l.length) :
    Sinking holes l (l.length - 1) := by
  refine ⟨h.sorted hsorted, fun i hi => (h.mem i).mp hi, fun i _ hi => (h.mem i).mpr hi,
    fun i a hi ha => ?_, by omega⟩
  have hlt := (List.getElem?_eq_some_iff.mp ha).1
  omega

theorem fill {e : Nat} (hsorted : isSorted = true) (he : holes.getLast? = some e) (a : α) :
    Gaps holes.dropLast isSorted (l.set e (some a)) := by
  have hpair := h.sorted hsorted
  have hlt := (List.getElem?_eq_some_iff.mp ((h.mem e).mp (mem_of_getLast? he))).1
  refine ⟨h.nodup.sublist (dropLast_sublist _), fun i => ?_,
    fun _ => hpair.sublist (dropLast_sublist _)⟩
  rw [mem_dropLast_iff hpair he, h.mem, hole_set_some hlt]

end

end Gaps

/-! ## A dictionary that inverts a row of slots

Filling, emptying, moving and swapping slots together with the matching updates of the dictionary
keeps that the dictionary finds the slot of every value. -/

variable {κ : Type} [DecidableEq κ]

def Inverts (d : Dict κ Nat) (slots : List (Option κ)) : Prop :=
  ∀ (r : κ) (i : Nat), d.get? r = some i ↔ slots[i]? = some (some r)

namespace Inverts

variable {d : Dict κ Nat} {slots : List (Option κ)} {r : κ} {i : Nat}

section

variable (h : Inverts d slots)
include h

theorem congr {d' : Dict κ Nat} (hget : ∀ r, d'.get? r = d.get? r) : Inverts d' slots := by
  intro r i
  rw [hget]
  exact h r i

theorem extend : Inverts d (slots ++ [none]) := by
  intro r i
  rw [h r i]
  by_cases hi : i < slots.length
  · rw [getElem?_append_left hi]
  · rw [getElem?_append_right (by omega), getElem?_eq_none (by omega)]
    cases i - slots.length <;> simp

theorem place (hhole : slots[i]? = some none) (hnew : d.get? r = none) :
    Inverts (d.set r i) (slots.set i (some r)) := by
  have hlt := (List.getElem?_eq_some_iff.mp hhole).1
  intro r' j
  rw [get?_set]
  by_cases hij : j = i
  · rw [hij, getElem?_set_self hlt]
    by_cases hr : r' = r
    · simp [hr]
    · rw [if_neg hr, h r' i, hhole]
      simp [Ne.symm hr]
  · rw [getElem?_set_ne (Ne.symm hij)]
    by_cases hr : r' = r
    · rw [← h r' j, hr, hnew]
      simp [Ne.symm hij]
    · rw [if_neg hr, h r' j]

theorem vacate (hr : slots[i]? = some (some r)) : Inverts (d.erase r) (slots.set i none) := by
  have hlt := (List.getElem?_eq_some_iff.mp hr).1
  have hat := (h r i).mpr hr
  intro r' j
  rw [get?_erase]
  by_cases hij : j = i
  · rw [hij, getElem?_set_self hlt]
    by_cases hr' : r' = r
    · simp [hr']
    · rw [if_neg hr', h r' i, hr]
      simp [Ne.symm hr']
  · rw [getElem?_set_ne (Ne.symm hij)]
    by_cases hr' : r' = r
    · rw [← h r' j, hr', hat]
      simp [Ne.symm hij]
    · rw [if_neg hr', h r' j]

theorem move {l : Nat} (hr : slots[l]? = some (some r))
    (hhole : slots[i]? = some none) : Inverts (d.set r i) ((slots.set i (some r)).set l none) := by
  have hne : i ≠ l := by
    intro heq
    rw [heq, hr] at hhole
    cases hhole
  have hplaced := (h.vacate hr).place
    (by rw [getElem?_set_ne (Ne.symm hne)]; exact hhole) (get?_erase_self d)
  rw [set_comm _ _ (Ne.symm hne)] at hplaced
  apply hplaced.congr
  intro r'
  rw [get?_set, get?_set, get?_erase]
  by_cases hr' : r' = r
  · rw [if_pos hr', if_pos hr']
  · rw [if_neg hr', if_neg hr', if_neg hr']

/-- Swapping two rows and updating both entries keeps the map the inverse of the rows. -/
theorem swap {q : κ} (hr : slots[i]? = some (some r)) (hq : slots[j]? = some (some q)) :
    Inverts ((d.set r j).set q i) ((slots.set i (some q)).set j (some r)) := by
  have hi := (List.getElem?_eq_some_iff.mp hr).1
  have hj := (List.getElem?_eq_some_iff.mp hq).1
  by_cases hij : i = j
  · obtain rfl : r = q := by
      rw [hij, hq] at hr
      exact (Option.some.inj (Option.some.inj hr)).symm
    have hsame : slots.set i (some r) = slots := by
      rw [← (List.getElem?_eq_some_iff.mp hr).2]
      exact set_getElem_self hi
    rw [← hij, set_set, hsame]
    apply h.congr
    intro r'
    rw [get?_set, get?_set]
    by_cases hr' : r' = r
    · rw [if_pos hr', hr', (h r i).mpr hr]
    · rw [if_neg hr', if_neg hr']
  -- empty both slots, then fill them the other way round
  have hqr : q ≠ r := by
    intro heq
    rw [heq] at hq
    exact hij (Option.some.inj (((h r i).mpr hr).symm.trans ((h r j).mpr hq)))
  have hempty := (h.vacate hr).vacate
    (by rw [getElem?_set_ne hij]; exact hq)
  have hfirst := hempty.place
    (by rw [getElem?_set_self (by simpa using hj)])
    (by rw [get?_erase_ne _ (Ne.symm hqr), get?_erase_self])
  have hsecond := hfirst.place
    (by rw [getElem?_set_ne (Ne.symm hij), getElem?_set_ne (Ne.symm hij),
      getElem?_set_self hi])
    (by rw [get?_set_ne _ hqr, get?_erase_self])
  rw [set_set, set_comm _ _ (Ne.symm hij), set_set] at hsecond
  apply hsecond.congr
  intro r'
  rw [get?_set, get?_set, get?_set, get?_set, get?_erase,
    get?_erase]
  by_cases hq' : r' = q
  · rw [if_pos hq', if_pos hq']
  · by_cases hr' : r' = r
    · rw [if_pos hr', if_pos hr']
    · simp only [if_neg hq', if_neg hr']

theorem take {m : Nat} (hback : ∀ (i : Nat) (r : κ), m ≤ i → slots[i]? ≠ some (some r)) :
    Inverts d (slots.take m) := by
  intro r i
  rw [h r i, getElem?_take]
  by_cases hi : i < m
  · rw [if_pos hi]
  rw [if_neg hi]
  constructor
  · intro hr
    exact absurd hr (hback i r (by omega))
  · intro hr
    cases hr

theorem nodup : slots.reduceOption.Nodup := by
  apply nodup_reduceOption
  intro i j r hi hj
  exact Option.some.inj (((h r i).mpr hi).symm.trans ((h r j).mpr hj))

theorem length_eq : d.entries.length = slots.reduceOption.length := by
  have hperm : d.keys.Perm slots.reduceOption := by
    apply (perm_ext_iff_of_nodup d.nodup h.nodup).mpr
    intro r
    have hkeys : r ∈ d.entries.map Prod.fst ↔ d.get? r ≠ none := by
      rw [ne_eq, get?_eq_none_iff, not_not]
      rfl
    rw [hkeys, Option.ne_none_iff_exists', reduceOption_mem_iff, mem_iff_getElem?]
    exact exists_congr fun i => h r i
  have hlen := hperm.length_eq
  unfold Dict.keys at hlen
  rw [length_map] at hlen
  exact hlen

end

end Inverts

end VllmEcho.Lib
