import VllmEcho.Eplb.Replication

/-!
# The packing loop

With fewer redundant copies than cards the last card starts empty.  For a card that holds a
redundant copy of an expert still to be packed, the loop keeps the last card from filling up
first, so whenever an expert comes up some card can take it.  This needs the card sums to be exact.
-/

namespace VllmEcho

open List

variable {fl : ℚ → ℚ} (itemsPerBox : Nat) {best : Option (Nat × ℚ)} {start m : Nat}
  {last last' box : Box} {s : Nat × ℚ} {weight : ℚ} (boxes : List Box)

namespace DefaultEplb

/-! ## The scan -/

section Scan

variable {itemsPerBox remainingItems item : Nat}

def Box.Takes (itemsPerBox remainingItems item : Nat) (box : Box) : Prop :=
  item ∉ box.items ∧ box.hasSpace itemsPerBox remainingItems = true

structure Chosen (itemsPerBox remainingItems item : Nat) (boxes : List Box) (start : Nat)
    (best : Option (Nat × ℚ)) (m : Nat) (weight : ℚ) : Prop where
  source : best = some (m, weight) ∨ ∃ j box, boxes[j]? = some box ∧
    box.Takes itemsPerBox remainingItems item ∧ m = start + j ∧ weight = box.total
  before : ∀ b ∈ best, b = (m, weight) ∨ weight < b.2
  least : ∀ j box, boxes[j]? = some box → box.Takes itemsPerBox remainingItems item →
    weight ≤ box.total ∧ (start + j < m → weight < box.total)

variable {weight : ℚ} {boxes : List Box}

theorem Chosen.cons {best' : Option (Nat × ℚ)}
    (h : Chosen itemsPerBox remainingItems item boxes (start + 1) best' m weight)
    (hsource : best' = some (m, weight) → best = some (m, weight) ∨
      box.Takes itemsPerBox remainingItems item ∧ m = start ∧ weight = box.total)
    (hbefore : ∀ b ∈ best, b = (m, weight) ∨ weight < b.2)
    (hhead : box.Takes itemsPerBox remainingItems item →
      weight ≤ box.total ∧ (start < m → weight < box.total)) :
    Chosen itemsPerBox remainingItems item (box :: boxes) start best m weight where
  source := by
    rcases h.source with heq | ⟨j, b, hget, hb, hm, hw⟩
    · refine (hsource heq).imp id ?_
      rintro ⟨htakes, hm, hw⟩
      exact ⟨0, box, rfl, htakes, hm, hw⟩
    · exact Or.inr ⟨j + 1, b, hget, hb, by omega, hw⟩
  before := hbefore
  least := by
    intro j b hget hb
    cases j with
    | zero =>
      obtain rfl : box = b := by simpa using hget
      exact hhead hb
    | succ j =>
      have hleast := h.least j b (by simpa using hget) hb
      exact ⟨hleast.1, fun hlt => hleast.2 (by omega)⟩

theorem Chosen.take (htakes : box.Takes itemsPerBox remainingItems item)
    (hbest : ∀ b ∈ best, box.total < b.2)
    (h : Chosen itemsPerBox remainingItems item boxes (start + 1) (some (start, box.total))
      m weight) : Chosen itemsPerBox remainingItems item (box :: boxes) start best m weight := by
  have hhead : weight ≤ box.total ∧ (start < m → weight < box.total) := by
    rcases h.before (start, box.total) rfl with heq | hlt
    · rw [Prod.mk.injEq] at heq
      exact ⟨heq.2.ge, fun hlt => by omega⟩
    · exact ⟨hlt.le, fun _ => hlt⟩
  refine h.cons (fun heq => ?_) (fun b hb => Or.inr (lt_of_le_of_lt hhead.1 (hbest b hb)))
    fun _ => hhead
  rw [Option.some.injEq, Prod.mk.injEq] at heq
  exact Or.inr ⟨htakes, heq.1.symm, heq.2.symm⟩

theorem Chosen.keep {m₀ : Nat} {weight₀ : ℚ} (hge : weight₀ ≤ box.total) (hm₀ : m₀ < start)
    (h : Chosen itemsPerBox remainingItems item boxes (start + 1) (some (m₀, weight₀)) m weight) :
    Chosen itemsPerBox remainingItems item (box :: boxes) start (some (m₀, weight₀)) m weight := by
  refine h.cons Or.inl h.before fun _ => ?_
  rcases h.before (m₀, weight₀) rfl with heq | hlt
  · rw [Prod.mk.injEq] at heq
    exact ⟨heq.2 ▸ hge, fun hlt => by omega⟩
  · exact ⟨(hlt.trans_le hge).le, fun _ => hlt.trans_le hge⟩

/-- The scan finds a lightest box that takes the item, the first one among equals. -/
theorem scanBoxes_chosen : ∀ {start : Nat} {best : Option (Nat × ℚ)} {m : Nat} {weight : ℚ},
      (∀ b ∈ best, b.1 < start) →
      scanBoxes itemsPerBox remainingItems item boxes start best = some (m, weight) →
      Chosen itemsPerBox remainingItems item boxes start best m weight := by
  induction boxes with
  | nil =>
    intro start best m weight _ hscan
    subst hscan
    refine ⟨Or.inl rfl, fun b hb => Or.inl (Option.some.inj hb).symm, fun j b hget => ?_⟩
    simp at hget
  | cons box boxes ih =>
    intro start best m weight hbest hscan
    have hnext : ∀ b ∈ best, b.1 < start + 1 := fun b hb => Nat.lt_succ_of_lt (hbest b hb)
    rw [scanBoxes] at hscan
    split at hscan
    · rename_i hin
      have htail := ih hnext hscan
      exact htail.cons Or.inl htail.before fun htakes => absurd hin htakes.1
    rename_i hnotin
    split at hscan
    · rename_i hspace
      cases best with
      | none => exact (ih (by simp [minBox]) hscan).take ⟨hnotin, hspace⟩ (by simp)
      | some b =>
        obtain ⟨m₀, weight₀⟩ := b
        rw [minBox] at hscan
        by_cases hlt : box.total < weight₀
        · rw [if_pos hlt] at hscan
          exact (ih (by simp) hscan).take ⟨hnotin, hspace⟩ (by simpa using hlt)
        · rw [if_neg hlt] at hscan
          exact (ih hnext hscan).keep (not_lt.mp hlt) (hbest (m₀, weight₀) rfl)
    · rename_i hfull
      have htail := ih hnext hscan
      exact htail.cons Or.inl htail.before fun htakes => absurd htakes.2 hfull

theorem of_scanBoxes_eq_none
    (hscan : scanBoxes itemsPerBox remainingItems item boxes start best = none) :
    best = none ∧ ∀ box ∈ boxes, ¬ box.Takes itemsPerBox remainingItems item := by
  induction boxes generalizing start best with
  | nil => exact ⟨hscan, nofun⟩
  | cons box boxes ih =>
    rw [scanBoxes] at hscan
    rw [forall_mem_cons]
    split at hscan
    · rename_i hin
      exact ⟨(ih hscan).1, fun htakes => htakes.1 hin, (ih hscan).2⟩
    split at hscan
    · cases (ih hscan).1
    · rename_i hfull
      exact ⟨(ih hscan).1, fun htakes => hfull htakes.2, (ih hscan).2⟩

end Scan

/-! ## The invariant -/

/-- A box with a redundant copy of weight `v`, and the last box, which started empty: the more items
the first one is ahead, the more it may outweigh the last one. -/
structure Balanced (v : ℚ) (box last : Box) (rest : List (Nat × ℚ)) : Prop where
  counts : last.count ≤ box.count
  level : last.count = box.count → ∀ t ∈ rest, box.total - last.total + t.2 ≤ v
  ahead : last.count + 1 = box.count → box.total - last.total ≤ v
  farAhead : last.count + 1 < box.count → box.total - last.total ≤ 2 * v

/-- The loads of any set of experts add up without rounding. -/
def ExactSums (fl : ℚ → ℚ) (weights : List (Nat × ℚ)) : Prop :=
  ∀ experts : List Nat, experts.Nodup →
    fl (experts.map (curWeight weights)).sum = (experts.map (curWeight weights)).sum

structure Packing (weights : List (Nat × ℚ)) (itemsPerBox : Nat) (boxes : List Box)
    (rest : List (Nat × ℚ)) : Prop where
  totals : ∀ box ∈ boxes, box.total = (box.items.map (curWeight weights)).sum
  loads : ∀ s ∈ rest, curWeight weights s.1 = s.2
  counted : ∀ box ∈ boxes, box.count = box.items.length
  bounded : ∀ box ∈ boxes, box.count ≤ itemsPerBox
  distinct : ∀ box ∈ boxes, box.items.Nodup
  places : (boxes.map Box.count).sum + rest.length = itemsPerBox * boxes.length
  ids : (rest.map Prod.fst).Nodup
  sorted : rest.Pairwise fun s t => t.2 ≤ s.2
  -- a box holds the redundant copy of at most one expert still to come
  single : ∀ box ∈ boxes, ∀ s ∈ rest, ∀ t ∈ rest, s.1 ∈ box.items → t.1 ∈ box.items → s = t
  heavy : ∀ box ∈ boxes, ∀ s ∈ rest, s.1 ∈ box.items → ∀ t ∈ rest, t.2 ≤ 2 * s.2
  lastFree : ∀ last, boxes.getLast? = some last → ∀ s ∈ rest, s.1 ∉ last.items
  balanced : ∀ last, boxes.getLast? = some last → ∀ box ∈ boxes, ∀ s ∈ rest, s.1 ∈ box.items →
    box.count = itemsPerBox ∨ Balanced s.2 box last rest

theorem hasSpace_zero : box.hasSpace itemsPerBox 0 = true ↔ box.count < itemsPerBox := by
  simp [Box.hasSpace]

theorem exists_not_full (hsum : (boxes.map Box.count).sum < itemsPerBox * boxes.length) :
    ∃ box ∈ boxes, box.count < itemsPerBox := by
  by_contra hnone
  have hle : boxes.length * itemsPerBox ≤ (boxes.map Box.count).sum := by
    have hbound := card_nsmul_le_sum (boxes.map Box.count) itemsPerBox
      (by simpa using hnone)
    simpa using hbound
  rw [Nat.mul_comm] at hle
  omega

variable {boxes : List Box} {box : Box} {item : Nat × ℚ} {weights rest : List (Nat × ℚ)}
  {itemsPerBox m : Nat} {v : ℚ}

theorem Packing.exists_takes (h : Packing weights itemsPerBox boxes (item :: rest)) :
    ∃ box ∈ boxes, box.Takes itemsPerBox 0 item.1 := by
  have hplaces := h.places
  rw [length_cons] at hplaces
  obtain ⟨box, hmem, hspace⟩ := exists_not_full itemsPerBox boxes (by omega)
  by_cases hin : item.1 ∈ box.items
  · -- the box holds a redundant copy of the item: then the last box is not full either
    have hne : boxes ≠ [] := ne_nil_of_mem hmem
    have hlast := getLast?_eq_some_getLast hne
    cases h.balanced _ hlast box hmem item mem_cons_self hin with
    | inl hfull => omega
    | inr hbal =>
      have hcount := hbal.counts
      refine ⟨boxes.getLast hne, getLast_mem hne, ?_, ?_⟩
      · exact h.lastFree _ hlast item mem_cons_self
      · rw [hasSpace_zero]
        omega
  · exact ⟨box, hmem, hin, (hasSpace_zero _).mpr hspace⟩

theorem Balanced.receive (h : Balanced v box last (item :: rest)) (hle : box.total ≤ last.total)
    (hheavy : item.2 ≤ 2 * v) : Balanced v (box.add id item.1 item.2) last rest where
  counts := Nat.le_succ_of_le h.counts
  level heq := absurd h.counts (by rw [heq]; exact Nat.not_succ_le_self _)
  ahead heq := by
    have hcount : last.count = box.count := Nat.succ.inj heq
    have hbound := h.level hcount item mem_cons_self
    show box.total + item.2 - last.total ≤ v
    linarith
  farAhead _ := by
    show box.total + item.2 - last.total ≤ 2 * v
    linarith

theorem Balanced.lastReceive (h : Balanced v box last (item :: rest)) (hlt : last.total < box.total)
    (hitem : v ≤ item.2) (hrest : ∀ t ∈ rest, t.2 ≤ item.2) :
    Balanced v box (last.add id item.1 item.2) rest := by
  have hne : last.count ≠ box.count := by
    intro heq
    have hbound := h.level heq item mem_cons_self
    linarith
  have hcount := h.counts
  exact {
    counts := by show last.count + 1 ≤ box.count; omega
    level := by
      intro heq t ht
      have hbound := h.ahead heq
      have hle := hrest t ht
      show box.total - (last.total + item.2) + t.2 ≤ v
      linarith
    ahead := by
      intro heq
      have hbound := h.farAhead (by change last.count + 1 + 1 = _ at heq; omega)
      show box.total - (last.total + item.2) ≤ v
      linarith
    farAhead := by
      intro hfar
      have hbound := h.farAhead (by change last.count + 1 + 1 < _ at hfar; omega)
      show box.total - (last.total + item.2) ≤ 2 * v
      linarith }

theorem Balanced.tail (h : Balanced v box last (item :: rest)) : Balanced v box last rest :=
  ⟨h.counts, fun heq t ht => h.level heq t (mem_cons_of_mem _ ht), h.ahead, h.farAhead⟩

/-! ## One item -/

theorem Packing.ne_item (h : Packing weights itemsPerBox boxes (item :: rest)) (hs : s ∈ rest) :
    s.1 ≠ item.1 := by
  have hids := h.ids
  rw [map_cons, nodup_cons] at hids
  exact fun heq => hids.1 (heq ▸ mem_map_of_mem hs)

theorem Packing.mem_of_mem_add (h : Packing weights itemsPerBox boxes (item :: rest))
    (hs : s ∈ rest) (hin : s.1 ∈ (box.add id item.1 item.2).items) : s.1 ∈ box.items :=
  (mem_append.mp hin).resolve_right fun hnew => h.ne_item hs (mem_singleton.mp hnew)

theorem sum_count_set (hget : boxes[m]? = some box) {item : Nat} :
    ((boxes.set m (box.add fl item weight)).map Box.count).sum = (boxes.map Box.count).sum + 1 := by
  obtain ⟨boxes₁, boxes₂, rfl, hset⟩ := Lib.exists_set_split hget
  simp [hset, Box.add]
  omega

theorem flatMap_items_set (hget : boxes[m]? = some box) {item : Nat} :
    ((boxes.set m (box.add fl item weight)).flatMap Box.items).Perm
      (item :: boxes.flatMap Box.items) := by
  obtain ⟨boxes₁, boxes₂, rfl, hset⟩ := Lib.exists_set_split hget
  simp only [hset, flatMap_append, flatMap_cons, Box.add, append_assoc, singleton_append]
  rw [← append_assoc, ← append_assoc]
  exact perm_middle

theorem getLast?_set_add {item : Nat} (hget : boxes[m]? = some box)
    (hlast : (boxes.set m (box.add fl item weight)).getLast? = some last') :
    (m + 1 = boxes.length ∧ boxes.getLast? = some box ∧ last' = box.add fl item weight) ∨
      (m + 1 ≠ boxes.length ∧ boxes.getLast? = some last') := by
  have hm : m < boxes.length := lt_of_getElem? hget
  rw [getLast?_eq_getElem?, length_set, getElem?_set] at hlast
  by_cases heq : m = boxes.length - 1
  · rw [if_pos heq, if_pos hm] at hlast
    refine Or.inl ⟨by omega, ?_, (Option.some.inj hlast).symm⟩
    rw [getLast?_eq_getElem?, ← heq]
    exact hget
  · rw [if_neg heq] at hlast
    refine Or.inr ⟨by omega, ?_⟩
    rw [getLast?_eq_getElem?]
    exact hlast

section Place

variable (h : Packing weights itemsPerBox boxes (item :: rest))
include h

/-- The balance of a box against the last one survives the item, wherever it is put. -/
theorem Packing.balanced_set (hget : boxes[m]? = some box) (htakes : box.Takes itemsPerBox 0 item.1)
    (hchosen : Chosen itemsPerBox 0 item.1 boxes 0 none m box.total)
    (hlast' : (boxes.set m (box.add id item.1 item.2)).getLast? = some last') {b : Box}
    (hb : b ∈ boxes.set m (box.add id item.1 item.2)) (hs : s ∈ rest) (hin : s.1 ∈ b.items) :
    b.count = itemsPerBox ∨ Balanced s.2 b last' rest := by
  have hne := h.ne_item hs
  have hs' : s ∈ item :: rest := mem_cons_of_mem _ hs
  have hsorted : s.2 ≤ item.2 := rel_of_pairwise_cons h.sorted hs
  have hbox : box ∈ boxes := mem_of_getElem? hget
  have hroom : box.count < itemsPerBox := (hasSpace_zero _).mp htakes.2
  cases mem_or_eq_of_mem_set hb with
  | inl hold =>
    cases getLast?_set_add hget hlast' with
    | inr hother =>
      -- neither of the two boxes changed
      exact (h.balanced last' hother.2 b hold s hs' hin).imp id Balanced.tail
    | inl hsame =>
      obtain ⟨hm, hlast, rfl⟩ := hsame
      cases h.balanced box hlast b hold s hs' hin with
      | inl hfull => exact Or.inl hfull
      | inr hbal =>
        by_cases hfull : b.count = itemsPerBox
        · exact Or.inl hfull
        -- the box with the redundant copy could have taken the item as well
        have hnot : item.1 ∉ b.items := by
          intro hitem
          exact hne (congrArg Prod.fst (h.single b hold s hs' item mem_cons_self hin hitem))
        have hspace : b.count < itemsPerBox := by
          have hle := h.bounded b hold
          omega
        obtain ⟨j, hj⟩ := mem_iff_getElem?.mp hold
        have hjm : 0 + j < m := by
          have hlt := lt_of_getElem? hj
          have hjne : j ≠ m := by
            intro heq
            rw [heq, hget] at hj
            cases hj
            exact h.lastFree box hlast s hs' hin
          omega
        have hlight := (hchosen.least j b hj ⟨hnot, (hasSpace_zero _).mpr hspace⟩).2 hjm
        exact Or.inr (hbal.lastReceive hlight hsorted fun t ht =>
          rel_of_pairwise_cons h.sorted ht)
  | inr heq =>
    subst heq
    have hinbox := h.mem_of_mem_add hs hin
    cases getLast?_set_add hget hlast' with
    | inl hsame => exact absurd hinbox (h.lastFree box hsame.2.1 s hs')
    | inr hother =>
      have hlast := hother.2
      have hmem : last' ∈ boxes := mem_of_getLast? hlast
      cases h.balanced last' hlast box hbox s hs' hinbox with
      | inl hfull => omega
      | inr hbal =>
        -- the last box had room, so it was not lighter
        obtain ⟨j, hj⟩ := mem_iff_getElem?.mp hmem
        have hcount := hbal.counts
        have hlight := (hchosen.least j last' hj ⟨h.lastFree last' hlast item mem_cons_self,
          (hasSpace_zero _).mpr (by omega)⟩).1
        exact Or.inr (hbal.receive hlight
          (h.heavy box hbox s hs' hinbox item mem_cons_self))

/-- The box that takes the item grows by its weight exactly. -/
theorem Packing.add_eq (hexact : ExactSums fl weights) (hbox : box ∈ boxes)
    (htakes : box.Takes itemsPerBox 0 item.1) :
    box.add fl item.1 item.2 = box.add id item.1 item.2 := by
  have hsum := hexact (item.1 :: box.items) (nodup_cons.mpr ⟨htakes.1, h.distinct box hbox⟩)
  rw [map_cons, sum_cons, h.loads item mem_cons_self, ← h.totals box hbox, add_comm] at hsum
  unfold Box.add
  rw [hsum]
  rfl

/-- One turn of the packing loop. -/
theorem Packing.set_add (hget : boxes[m]? = some box) (htakes : box.Takes itemsPerBox 0 item.1)
    (hchosen : Chosen itemsPerBox 0 item.1 boxes 0 none m box.total) :
    Packing weights itemsPerBox (boxes.set m (box.add id item.1 item.2)) rest := by
  have hbox : box ∈ boxes := mem_of_getElem? hget
  have hroom : box.count < itemsPerBox := (hasSpace_zero _).mp htakes.2
  have hset : ∀ {P : Box → Prop}, (∀ b ∈ boxes, P b) → P (box.add id item.1 item.2) →
      ∀ b ∈ boxes.set m (box.add id item.1 item.2), P b := by
    intro P hall hnew b hb
    cases mem_or_eq_of_mem_set hb with
    | inl hold => exact hall b hold
    | inr heq => exact heq ▸ hnew
  exact {
    totals := hset h.totals (by
      show box.total + item.2 = ((box.items ++ [item.1]).map (curWeight weights)).sum
      rw [map_append, sum_append, map_singleton, sum_singleton, h.totals box hbox,
        h.loads item mem_cons_self])
    loads := fun s hs => h.loads s (mem_cons_of_mem _ hs)
    counted := hset h.counted (by
      show box.count + 1 = (box.items ++ [item.1]).length
      rw [length_append, length_singleton, h.counted box hbox])
    bounded := hset h.bounded (by show box.count + 1 ≤ itemsPerBox; omega)
    distinct := hset h.distinct (by
      show (box.items ++ [item.1]).Nodup
      rw [nodup_append_comm]
      exact nodup_cons.mpr ⟨htakes.1, h.distinct box hbox⟩)
    places := by
      have hplaces := h.places
      rw [length_cons] at hplaces
      rw [sum_count_set hget, length_set]
      omega
    ids := (nodup_cons.mp h.ids).2
    sorted := h.sorted.of_cons
    single := hset
      (fun b hb s hs t ht => h.single b hb s (mem_cons_of_mem _ hs) t (mem_cons_of_mem _ ht))
      (fun s hs t ht hsin htin => h.single box hbox s (mem_cons_of_mem _ hs) t
        (mem_cons_of_mem _ ht) (h.mem_of_mem_add hs hsin) (h.mem_of_mem_add ht htin))
    heavy := hset
      (fun b hb s hs hin t ht => h.heavy b hb s (mem_cons_of_mem _ hs) hin t
        (mem_cons_of_mem _ ht))
      (fun s hs hin t ht => h.heavy box hbox s (mem_cons_of_mem _ hs) (h.mem_of_mem_add hs hin) t
        (mem_cons_of_mem _ ht))
    lastFree := by
      intro last' hlast' s hs hin
      cases getLast?_set_add hget hlast' with
      | inl hsame =>
        obtain ⟨-, hlast, rfl⟩ := hsame
        exact h.lastFree box hlast s (mem_cons_of_mem _ hs) (h.mem_of_mem_add hs hin)
      | inr hother => exact h.lastFree last' hother.2 s (mem_cons_of_mem _ hs) hin
    balanced := fun last' hlast' b hb s hs hin =>
      h.balanced_set hget htakes hchosen hlast' hb hs hin }

theorem Packing.place (hexact : ExactSums fl weights) :
    ∃ boxes', PackState.place fl itemsPerBox ⟨boxes, 0⟩ item = .ok ⟨boxes', 0⟩ ∧
      Packing weights itemsPerBox boxes' rest ∧ boxes'.length = boxes.length ∧
      (boxes'.flatMap Box.items).Perm (item.1 :: boxes.flatMap Box.items) := by
  obtain ⟨box, hmem, htakes⟩ := h.exists_takes
  obtain ⟨⟨m, weight⟩, hsome⟩ := Option.ne_none_iff_exists'.mp
    fun hscan : scanBoxes itemsPerBox 0 item.1 boxes 0 none = none =>
      (of_scanBoxes_eq_none hscan).2 box hmem htakes
  have hchosen := scanBoxes_chosen (by simp) hsome
  cases hchosen.source with
  | inl hnone => cases hnone
  | inr hex =>
    obtain ⟨j, box, hget, htakes, hm, rfl⟩ := hex
    obtain rfl : m = j := by omega
    refine ⟨boxes.set m (box.add id item.1 item.2), ?_, h.set_add hget htakes hchosen,
      length_set, flatMap_items_set hget⟩
    unfold PackState.place
    simp only [hsome, addToBox, hget, ok_bind, lt_irrefl, and_false, if_false,
      h.add_eq hexact (mem_of_getElem? hget) htakes]

end Place

theorem Packing.foldlM (hexact : ExactSums fl weights) (rest : List (Nat × ℚ)) :
    ∀ {boxes : List Box}, Packing weights itemsPerBox boxes rest →
      ∃ boxes', rest.foldlM (PackState.place fl itemsPerBox) ⟨boxes, 0⟩ = .ok ⟨boxes', 0⟩ ∧
        Packing weights itemsPerBox boxes' [] ∧ boxes'.length = boxes.length ∧
        (boxes'.flatMap Box.items).Perm (rest.map Prod.fst ++ boxes.flatMap Box.items) := by
  induction rest with
  | nil => exact fun h => ⟨_, rfl, h, rfl, List.Perm.refl _⟩
  | cons item rest ih =>
    intro boxes h
    obtain ⟨mid, hmid, hinv, hlen, hperm⟩ := h.place hexact
    obtain ⟨boxes', hrun, hdone, hlen', hperm'⟩ := ih hinv
    refine ⟨boxes', ?_, hdone, hlen'.trans hlen, ?_⟩
    · rw [foldlM_cons, hmid, ok_bind, hrun]
    · exact hperm'.trans ((hperm.append_left _).trans perm_middle)

theorem Packing.full (h : Packing weights itemsPerBox boxes []) :
    ∀ box ∈ boxes, box.items.length = itemsPerBox := by
  intro box hbox
  rw [← h.counted box hbox]
  by_contra hne
  have hlt : (boxes.map Box.count).sum < (boxes.map fun _ => itemsPerBox).sum := by
    apply sum_lt_sum
    · exact h.bounded
    · exact ⟨box, hbox, lt_of_le_of_ne (h.bounded box hbox) hne⟩
  have hplaces := h.places
  rw [map_const', sum_replicate_nat, Nat.mul_comm] at hlt
  simp only [length_nil, Nat.add_zero] at hplaces
  omega

end DefaultEplb

end VllmEcho
