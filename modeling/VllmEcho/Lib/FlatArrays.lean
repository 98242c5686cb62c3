import Mathlib

/-!
# Flat arrays of blocks

Array programs keep the data of a batch in flat arrays: the blocks of the requests one after the
other.  Repeating, running sums, masks and slices of flat arrays act block by block; the lemmas
here turn each operation on `flatMap`s over one list of blocks into a `flatMap` again.
-/

namespace VllmEcho.Lib

open Function List Option

variable {ns : List Nat} {i : Nat}

variable {α β γ ι : Type}

def repeatEach (xs : List α) (counts : List Nat) : List α :=
  (xs.zip counts).flatMap fun x => replicate x.2 x.1

def cumsumFrom : Nat → List Nat → List Nat
  | _, [] => []
  | start, n :: ns => (start + n) :: cumsumFrom (start + n) ns

def startsFrom : Nat → List Nat → List Nat
  | _, [] => []
  | start, n :: ns => start :: startsFrom (start + n) ns

def maskFill : List α → List Bool → List α → Option (List α)
  | [], [], [] => some []
  | _ :: xs, true :: mask, v :: values => (maskFill xs mask values).map (v :: ·)
  | x :: xs, false :: mask, values => (maskFill xs mask values).map (x :: ·)
  | _, _, _ => none

def maskSelect (mask : List Bool) (xs : List α) : List α :=
  ((mask.zip xs).filter Prod.fst).map Prod.snd

def scatter {κ : Type} [DecidableEq κ] (writes : List (κ × β)) (xs : κ → β) : κ → β :=
  writes.foldl (fun xs w => update xs w.1 w.2) xs

theorem scatter_apply {κ : Type} [DecidableEq κ] {writes : List (κ × β)} {xs : κ → β}
    {k : κ} {v : β}
    (hv : ∀ w ∈ writes, w.1 = k → w.2 = v) :
    scatter writes xs k = if k ∈ writes.map Prod.fst then v else xs k := by
  induction writes generalizing xs with
  | nil => rfl
  | cons w writes ih =>
    have hrest := @ih (update xs w.1 w.2) fun w' hw' => hv w' (mem_cons_of_mem _ hw')
    rw [scatter] at hrest ⊢
    rw [foldl_cons, hrest, map_cons]
    by_cases hk : w.1 = k
    · subst hk
      rw [update_self, hv w mem_cons_self rfl, ite_self, if_pos mem_cons_self]
    · have hmem : k ∈ w.1 :: writes.map Prod.fst ↔ k ∈ writes.map Prod.fst := by simp [Ne.symm hk]
      rw [update_of_ne (Ne.symm hk)]
      simp only [hmem]

/-! ## Running sums -/

variable (start : Nat)

theorem length_startsFrom : (startsFrom start ns).length = ns.length := by
  induction ns generalizing start with
  | nil => rfl
  | cons n ns ih => rw [startsFrom, length_cons, length_cons, ih]

theorem getLast?_cumsumFrom (hne : ns ≠ []) :
    (cumsumFrom start ns).getLast? = some (start + ns.sum) := by
  induction ns generalizing start with
  | nil => exact absurd rfl hne
  | cons n ns ih =>
    rw [cumsumFrom, sum_cons]
    cases ns with
    | nil => simp [cumsumFrom]
    | cons m ns =>
      rw [getLast?_cons, ih (start + n) (cons_ne_nil _ _), getD_some, Nat.add_assoc]

theorem zipWith_sub_cumsumFrom :
    zipWith (· - ·) (cumsumFrom start ns) ns = startsFrom start ns := by
  induction ns generalizing start with
  | nil => rfl
  | cons n ns ih =>
    rw [cumsumFrom, startsFrom, zipWith_cons_cons, ih, Nat.add_sub_cancel]

theorem cons_dropLast_cumsumFrom (n : Nat) :
    start :: (cumsumFrom start (n :: ns)).dropLast = startsFrom start (n :: ns) := by
  induction ns generalizing start n with
  | nil => rfl
  | cons m ns ih =>
    have htail := ih (start + n) m
    rw [startsFrom, ← htail]
    rfl

/-! ## Block by block -/

variable (bs : List ι) (x : ι → List α)

theorem repeatEach_map (f : ι → α) (g : ι → Nat) :
    repeatEach (bs.map f) (bs.map g) = bs.flatMap fun b => replicate (g b) (f b) := by
  unfold repeatEach
  rw [zip_map', flatMap_map]

variable (counts : List Nat)

theorem map_repeatEach (f : α → β) {xs : List α} (counts : List Nat) :
    (repeatEach xs counts).map f = repeatEach (xs.map f) counts := by
  unfold repeatEach
  rw [map_flatMap, zip_map_left, flatMap_map]
  apply flatMap_congr
  intro x _
  exact map_replicate

theorem zipWith_flatMap (f : α → β → γ) (bs : List ι) {x : ι → List α} (y : ι → List β)
    (hlen : ∀ b ∈ bs, (x b).length = (y b).length) :
    zipWith f (bs.flatMap x) (bs.flatMap y) = bs.flatMap fun b => zipWith f (x b) (y b) := by
  induction bs with
  | nil => rfl
  | cons b bs ih =>
    rw [flatMap_cons, flatMap_cons, flatMap_cons,
      zipWith_append (hlen b mem_cons_self),
      ih fun b' hb' => hlen b' (mem_cons_of_mem _ hb')]

variable {xs : List α} {m : List Bool}

theorem maskFill_append {vs r : List α} (h : maskFill xs m vs = some r) (ys us : List α)
    (n : List Bool) :
    maskFill (xs ++ ys) (m ++ n) (vs ++ us) = (maskFill ys n us).map (r ++ ·) := by
  induction xs generalizing m vs r with
  | nil =>
    cases m with
    | nil =>
      cases vs with
      | nil =>
        obtain rfl : [] = r := by simpa [maskFill] using h
        simp
      | cons v vs => simp [maskFill] at h
    | cons b m => simp [maskFill] at h
  | cons x xs ih =>
    cases m with
    | nil => simp [maskFill] at h
    | cons b m =>
      cases b with
      | false =>
        rw [maskFill, map_eq_some_iff] at h
        obtain ⟨t, ht, rfl⟩ := h
        rw [cons_append, cons_append, maskFill, ih ht, Option.map_map]
        rfl
      | true =>
        cases vs with
        | nil => simp [maskFill] at h
        | cons v vs =>
          rw [maskFill, map_eq_some_iff] at h
          obtain ⟨t, ht, rfl⟩ := h
          rw [cons_append, cons_append, cons_append, maskFill, ih ht,
            Option.map_map]
          rfl

theorem maskFill_flatMap {x : ι → List α} (v r : ι → List α) (m : ι → List Bool)
    (h : ∀ b ∈ bs, maskFill (x b) (m b) (v b) = some (r b)) :
    maskFill (bs.flatMap x) (bs.flatMap m) (bs.flatMap v) = some (bs.flatMap r) := by
  induction bs with
  | nil => rfl
  | cons b bs ih =>
    rw [flatMap_cons, flatMap_cons, flatMap_cons,
      maskFill_append (h b mem_cons_self),
      ih fun b' hb' => h b' (mem_cons_of_mem _ hb')]
    rfl

theorem maskFill_all (xs vs : List α) (hlen : xs.length = vs.length) :
    maskFill xs (replicate xs.length true) vs = some vs := by
  induction xs generalizing vs with
  | nil =>
    obtain rfl : vs = [] := length_eq_zero_iff.mp hlen.symm
    rfl
  | cons x xs ih =>
    match vs with
    | [] => simp at hlen
    | v :: vs =>
      rw [length_cons, replicate_succ, maskFill, ih vs (by simpa using hlen)]
      rfl

theorem maskFill_none (xs : List α) : maskFill xs (replicate xs.length false) [] = some xs := by
  induction xs with
  | nil => rfl
  | cons x xs ih =>
    rw [length_cons, replicate_succ, maskFill, ih]
    rfl

theorem maskSelect_append {n : List Bool} {ys : List α} (hlen : m.length = xs.length) :
    maskSelect (m ++ n) (xs ++ ys) = maskSelect m xs ++ maskSelect n ys := by
  unfold maskSelect
  rw [zip_append hlen, filter_append, map_append]

theorem maskSelect_flatMap (m : ι → List Bool) {x : ι → List α}
    (hlen : ∀ b ∈ bs, (m b).length = (x b).length) :
    maskSelect (bs.flatMap m) (bs.flatMap x) = bs.flatMap fun b => maskSelect (m b) (x b) := by
  induction bs with
  | nil => rfl
  | cons b bs ih =>
    rw [flatMap_cons, flatMap_cons, flatMap_cons,
      maskSelect_append (hlen b mem_cons_self),
      ih fun b' hb' => hlen b' (mem_cons_of_mem _ hb')]

theorem maskSelect_true (xs : List α) : maskSelect (replicate xs.length true) xs = xs := by
  induction xs with
  | nil => rfl
  | cons x xs ih =>
    unfold maskSelect at ih ⊢
    simpa [replicate_succ] using ih

theorem maskSelect_false (n : Nat) (xs : List α) : maskSelect (replicate n false) xs = [] := by
  induction n generalizing xs with
  | zero => rfl
  | succ n ih =>
    cases xs with
    | nil => rfl
    | cons x xs =>
      have hrest := ih xs
      unfold maskSelect at hrest ⊢
      simpa [replicate_succ] using hrest

theorem length_maskSelect {mask : List Bool} (hlen : mask.length = xs.length) :
    (maskSelect mask xs).length = mask.count true := by
  induction mask generalizing xs with
  | nil => rfl
  | cons b mask ih =>
    match xs with
    | [] => simp at hlen
    | x :: xs =>
      have hrest := ih (by simpa using hlen)
      unfold maskSelect at hrest ⊢
      cases b <;> simp [hrest]

variable (size : ι → Nat)

theorem getElem?_flatMap_starts (hsize : ∀ b ∈ bs, (x b).length = size b) (start : Nat) :
    ∀ b s, (b, s) ∈ bs.zip (startsFrom start (bs.map size)) → start ≤ s ∧
      ∀ o, o < size b → (bs.flatMap x)[s - start + o]? = (x b)[o]? := by
  induction bs generalizing start with
  | nil => intro b s hmem; simp at hmem
  | cons c bs ih =>
    intro b s hmem
    rw [map_cons, startsFrom, zip_cons_cons, mem_cons] at hmem
    have hc := hsize c mem_cons_self
    cases hmem with
    | inl heq =>
      obtain ⟨rfl, rfl⟩ := heq
      refine ⟨Nat.le_refl _, fun o ho => ?_⟩
      rw [Nat.sub_self, Nat.zero_add, flatMap_cons, getElem?_append_left (by omega)]
    | inr hin =>
      obtain ⟨hle, hget⟩ := ih (fun b' hb' => hsize b' (mem_cons_of_mem _ hb')) _ b s hin
      refine ⟨by omega, fun o ho => ?_⟩
      rw [flatMap_cons, getElem?_append_right (by omega), ← hget o ho]
      congr 1
      omega

theorem exists_block (start : Nat) : ∀ k, start ≤ k → k < start + (bs.map size).sum →
      ∃ b s o, (b, s) ∈ bs.zip (startsFrom start (bs.map size)) ∧ o < size b ∧ k = s + o := by
  induction bs generalizing start with
  | nil => intro k h1 h2; simp at h2; omega
  | cons c bs ih =>
    intro k h1 h2
    rw [map_cons, sum_cons] at h2
    by_cases hk : k < start + size c
    · exact ⟨c, start, k - start, mem_cons_self, by omega, by omega⟩
    · obtain ⟨b, s, o, hmem, ho, hko⟩ := ih (start + size c) k (by omega) (by omega)
      exact ⟨b, s, o, mem_cons_of_mem _ hmem, ho, hko⟩

theorem cumsumFrom_eq_zipWith : cumsumFrom start ns = zipWith (· + ·) (startsFrom start ns) ns := by
  induction ns generalizing start with
  | nil => rfl
  | cons n ns ih => rw [cumsumFrom, startsFrom, zipWith_cons_cons, ih]

theorem getElem?_startsFrom (hi : i < ns.length) :
    (startsFrom start ns)[i]? = some (start + (ns.take i).sum) := by
  induction ns generalizing start i with
  | nil => exact absurd hi (Nat.not_lt_zero i)
  | cons n ns ih =>
    rw [startsFrom]
    cases i with
    | zero => rfl
    | succ i =>
      rw [getElem?_cons_succ, ih _ (Nat.lt_of_succ_lt_succ hi), take_succ_cons,
        sum_cons, Nat.add_assoc]

theorem getElem?_cumsumFrom (hi : i < ns.length) :
    (cumsumFrom start ns)[i]? = some (start + (ns.take (i + 1)).sum) := by
  induction ns generalizing start i with
  | nil => exact absurd hi (Nat.not_lt_zero i)
  | cons n ns ih =>
    rw [cumsumFrom]
    cases i with
    | zero => rfl
    | succ i =>
      rw [getElem?_cons_succ, ih _ (Nat.lt_of_succ_lt_succ hi), take_succ_cons,
        sum_cons, Nat.add_assoc]

variable {n : Nat}

theorem cumsumFrom_concat :
    cumsumFrom start (ns ++ [n]) = cumsumFrom start ns ++ [start + (ns.sum + n)] := by
  induction ns generalizing start with
  | nil => rw [nil_append, sum_nil, Nat.zero_add]; rfl
  | cons m ns ih =>
    rw [cons_append, cumsumFrom, ih, cumsumFrom, sum_cons]
    congr 3
    omega

theorem startsFrom_concat :
    startsFrom start (ns ++ [n]) = startsFrom start ns ++ [start + ns.sum] := by
  induction ns generalizing start with
  | nil => rfl
  | cons m ns ih =>
    rw [cons_append, startsFrom, ih, startsFrom, cons_append, sum_cons,
      Nat.add_assoc]

theorem startsFrom_mul (w start : Nat) (ns : List Nat) :
    startsFrom (start * w) (ns.map (· * w)) = (startsFrom start ns).map (· * w) := by
  induction ns generalizing start with
  | nil => rfl
  | cons n ns ih =>
    rw [map_cons, startsFrom, startsFrom, map_cons, ← Nat.add_mul, ih]

/-- The part of a flat list that belongs to sequence `i`, given the running ends of the
sequences. -/
def segment (ends : List Nat) (i : Nat) (xs : List α) : List α :=
  (xs.take (ends.getD i 0)).drop ((0 :: ends).getD i 0)

variable {b : ι}

theorem flatMap_split (hb : bs[i]? = some b) :
    bs.flatMap x = ((bs.take i).flatMap x ++ x b) ++ (bs.drop (i + 1)).flatMap x := by
  obtain ⟨hlt, hget⟩ := List.getElem?_eq_some_iff.mp hb
  conv_lhs => rw [← take_append_drop i bs, drop_eq_getElem_cons hlt, hget]
  rw [flatMap_append, flatMap_cons, append_assoc]

theorem getElem?_flatMap_take (hb : bs[i]? = some b) {o : Nat} (ho : o < (x b).length) :
    (bs.flatMap x)[((bs.take i).map fun b => (x b).length).sum + o]? = (x b)[o]? := by
  have hlen : ((bs.take i).map fun b => (x b).length).sum = ((bs.take i).flatMap x).length := by
    rw [length_flatMap]
  rw [flatMap_split bs x hb, hlen, getElem?_append_left (by rw [length_append]; omega),
    getElem?_append_right (by omega), Nat.add_sub_cancel_left]

theorem exists_of_getElem?_flatMap {k : Nat} {a : α} (hk : (bs.flatMap x)[k]? = some a) :
    ∃ i b o, bs[i]? = some b ∧ (x b)[o]? = some a ∧
      k = ((bs.take i).map fun b => (x b).length).sum + o := by
  induction bs generalizing k with
  | nil => simp at hk
  | cons c bs ih =>
    rw [flatMap_cons] at hk
    by_cases hlt : k < (x c).length
    · rw [getElem?_append_left hlt] at hk
      exact ⟨0, c, k, rfl, hk, (Nat.zero_add k).symm⟩
    · rw [getElem?_append_right (Nat.not_lt.mp hlt)] at hk
      obtain ⟨i, b, o, hb, ho, heq⟩ := ih hk
      refine ⟨i + 1, b, o, hb, ho, ?_⟩
      rw [take_succ_cons, map_cons, sum_cons]
      omega

theorem sum_take_add_le {j : Nat} (hi : ns[i]? = some n) (hij : i < j) :
    (ns.take i).sum + n ≤ (ns.take j).sum := by
  induction ns generalizing i j with
  | nil => simp at hi
  | cons m ns ih =>
    obtain ⟨j, rfl⟩ : ∃ j', j = j' + 1 := ⟨j - 1, by omega⟩
    rw [take_succ_cons, sum_cons]
    cases i with
    | zero =>
      rw [getElem?_cons_zero, Option.some.injEq] at hi
      rw [take_zero, sum_nil]
      omega
    | succ i =>
      have hle := ih hi (Nat.lt_of_succ_lt_succ hij)
      rw [take_succ_cons, sum_cons]
      omega

theorem getElem?_repeatEach_range (hi : counts[i]? = some n) {o : Nat} (ho : o < n) :
    (repeatEach (range counts.length) counts)[(counts.take i).sum + o]? = some i := by
  obtain ⟨hlt, _⟩ := List.getElem?_eq_some_iff.mp hi
  have hzip : ((range counts.length).zip counts)[i]? = some (i, n) := by
    rw [getElem?_zip_eq_some]
    exact ⟨getElem?_range hlt, hi⟩
  have hcounts : (((range counts.length).zip counts).take i).map Prod.snd = counts.take i := by
    rw [map_take, map_snd_zip (by simp)]
  have hget := getElem?_flatMap_take ((range counts.length).zip counts)
    (fun x => replicate x.2 x.1) hzip (show o < _ by simpa using ho)
  simp only [length_replicate] at hget
  rw [hcounts, getElem?_replicate, if_pos ho] at hget
  exact hget

/-- The segment of row `i` between the offsets is row `i`. -/
theorem segment_flatMap (hb : bs[i]? = some b) :
    segment (cumsumFrom 0 (bs.map fun b => (x b).length)) i (bs.flatMap x) = x b := by
  have hlt := (List.getElem?_eq_some_iff.mp hb).1
  have hlen : ∀ cs : List ι, (cs.map fun b => (x b).length).sum = (cs.flatMap x).length := by
    intro cs
    rw [length_flatMap]
  have hstop : (cumsumFrom 0 (bs.map fun b => (x b).length)).getD i 0 =
      ((bs.take i).flatMap x ++ x b).length := by
    rw [getD_eq_getElem?_getD, getElem?_cumsumFrom 0 (by rw [length_map]; exact hlt), ← map_take,
      hlen, take_add_one, hb]
    simp
  have hstart : (0 :: cumsumFrom 0 (bs.map fun b => (x b).length)).getD i 0 =
      ((bs.take i).flatMap x).length := by
    cases i with
    | zero => rfl
    | succ i =>
      rw [getD_cons_succ, getD_eq_getElem?_getD,
        getElem?_cumsumFrom 0 (by rw [length_map]; omega), Nat.zero_add, getD_some,
        ← map_take, hlen]
  unfold segment
  rw [hstop, hstart, flatMap_split bs x hb, take_left' rfl, drop_left' rfl]

theorem flatMap_segment : (range bs.length).flatMap (fun i =>
      segment (cumsumFrom 0 (bs.map fun b => (x b).length)) i (bs.flatMap x)) = bs.flatMap x := by
  have hblocks : ∀ i ∈ range bs.length,
      segment (cumsumFrom 0 (bs.map fun b => (x b).length)) i (bs.flatMap x) =
        ((bs[i]?).map x).getD [] := by
    intro i hi
    have hget := getElem?_eq_getElem (mem_range.mp hi)
    rw [segment_flatMap bs x hget, hget]
    rfl
  rw [flatMap_congr hblocks, flatMap_def]
  congr 1
  apply ext_getElem
  · simp
  · intro i h1 h2
    have hi : i < bs.length := by simpa using h2
    simp [hi]

/-! ## Batched ranges -/

def batchedArange : List Nat :=
  zipWith (· - ·) (range counts.sum)
    (repeatEach (zipWith (· - ·) (cumsumFrom 0 counts) counts) counts)

theorem batchedArange_eq : batchedArange counts = counts.flatMap range := by
  unfold batchedArange
  rw [zipWith_sub_cumsumFrom, range_eq_range']
  generalize 0 = start
  induction counts generalizing start with
  | nil => rfl
  | cons n ns ih =>
    have hhead : zipWith (· - ·) (range' start n) (replicate n start) =
        range n := by
      apply ext_getElem
      · simp
      · intro i h1 h2
        simp
    rw [sum_cons, ← range'_append_1, startsFrom]
    unfold repeatEach at ih ⊢
    rw [zip_cons_cons, flatMap_cons, zipWith_append (by simp), hhead, ih,
      flatMap_cons]

end VllmEcho.Lib
