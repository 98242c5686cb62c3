import VllmEcho.KVCache.Basic
import VllmEcho.Lib.LinkedQueue

/-!
# The free block queue

`FreeKVCacheBlockQueue` threads the free blocks on a doubly linked list between two fake nodes and
counts them in `num_free_blocks`.  The counter is a separate field: nothing in the code compares it
with the list, and a negative request size moves it away from the list's length.
-/

namespace VllmEcho

open Lib Function List Links Links.Repr

structure FreeKVCacheBlockQueue where
  links : Links BlockRef
  fakeFreeListHead : BlockRef
  fakeFreeListTail : BlockRef
  numFreeBlocks : Int

variable (q : FreeKVCacheBlockQueue) (xs : List BlockRef) (L : Links BlockRef) {ys : List BlockRef}
  (bs : List BlockRef) (n : Nat) (b : BlockRef)

namespace FreeKVCacheBlockQueue

/-- `__init__`: blocks `0 … n - 1` in order, the fake head is `n` and the fake tail `n + 1`. -/
def init : FreeKVCacheBlockQueue where
  links :=
    { next := fun b =>
        if b < n then some (if b + 1 < n then b + 1 else n + 1)
        else if b = n then some (if 0 < n then 0 else n + 1) else none
      prev := fun b =>
        if b < n then some (if b = 0 then n else b - 1)
        else if b = n + 1 then some (if 0 < n then n - 1 else n) else none }
  fakeFreeListHead := n
  fakeFreeListTail := n + 1
  numFreeBlocks := n

def popleft (q : FreeKVCacheBlockQueue) : Except PyError (FreeKVCacheBlockQueue × BlockRef) :=
  match q.links.next q.fakeFreeListHead with
  | none =>
    if q.numFreeBlocks = 0 then .error (.valueError "No free blocks available")
    else .error (.assertionError "num_free_blocks is out of sync with the free list.")
  | some first =>
    if first = q.fakeFreeListTail then
      if q.numFreeBlocks = 0 then .error (.valueError "No free blocks available")
      else .error (.assertionError "num_free_blocks is out of sync with the free list.")
    else
      match q.links.next first with
      | none => .error (.runtimeError
          "Invalid block found in popleft() which doesn't have a valid next_free_block")
      | some second =>
        .ok ({ q with
          links := (q.links.join q.fakeFreeListHead second).detach first
          numFreeBlocks := q.numFreeBlocks - 1 }, first)

def popLoop : Nat → Option BlockRef → Links BlockRef →
    Except PyError (List BlockRef × Option BlockRef × Links BlockRef)
  | 0, curr, L => .ok ([], curr, L)
  | _ + 1, none, _ => .error (.assertionError "curr_block is not None")
  | n + 1, some b, L =>
    match popLoop n (L.next b) (L.detach b) with
    | .error e => .error e
    | .ok (rest, curr, L') => .ok (b :: rest, curr, L')

/-- `popleft_n`.  A negative `n` passes the assertion and only moves the counter. -/
def popleftN (n : Int) : Except PyError (FreeKVCacheBlockQueue × List BlockRef) :=
  if n = 0 then .ok (q, [])
  else if q.numFreeBlocks < n then .error (.assertionError "self.num_free_blocks >= n")
  else
    match popLoop n.toNat (q.links.next q.fakeFreeListHead) q.links with
    | .error e => .error e
    | .ok (ret, none, L) => .ok ({ q with links := L, numFreeBlocks := q.numFreeBlocks - n }, ret)
    | .ok (ret, some curr, L) =>
      .ok ({ q with
        links := L.join q.fakeFreeListHead curr
        numFreeBlocks := q.numFreeBlocks - n }, ret)

def remove (q : FreeKVCacheBlockQueue) (block : BlockRef) : Except PyError FreeKVCacheBlockQueue :=
  match q.links.prev block, q.links.next block with
  | some p, some n =>
    .ok { q with
      links := (q.links.join p n).detach block
      numFreeBlocks := q.numFreeBlocks - 1 }
  | _, _ => .error (.runtimeError "remove() called on an invalid block")

def append (block : BlockRef) : Except PyError FreeKVCacheBlockQueue :=
  match q.links.prev q.fakeFreeListTail with
  | none => .error (.runtimeError "prev_free_block of fake_free_list_tail should always exist")
  | some last =>
    .ok { q with
      links := (q.links.join last block).join block q.fakeFreeListTail
      numFreeBlocks := q.numFreeBlocks + 1 }

def appendLoop : List BlockRef → BlockRef → Links BlockRef → BlockRef × Links BlockRef
  | [], last, L => (last, L)
  | b :: bs, last, L => appendLoop bs b (L.join last b)

def appendN (blocks : List BlockRef) : Except PyError FreeKVCacheBlockQueue :=
  if blocks.length = 0 then .ok q
  else
    match q.links.prev q.fakeFreeListTail with
    | none => .error (.assertionError
        "prev_free_block of fake_free_list_tail should always exist")
    | some last =>
      let (last, L) := appendLoop blocks last q.links
      .ok { q with
        links := L.join last q.fakeFreeListTail
        numFreeBlocks := q.numFreeBlocks + blocks.length }

def collect (L : Links BlockRef) : Nat → BlockRef → List BlockRef
  | 0, _ => []
  | fuel + 1, curr =>
    match L.next curr with
    | none => []
    | some nextBlock => curr :: collect L fuel nextBlock

def getAllFreeBlocks (fuel : Nat) : Except PyError (List BlockRef) :=
  match q.links.next q.fakeFreeListHead with
  | none => .error (.runtimeError "next_free_block of fake_free_list_head should always exist")
  | some curr => .ok (collect q.links fuel curr)

/-! ## The list a queue represents -/

def Holds (l : List BlockRef) : Prop :=
  q.links.Repr q.fakeFreeListHead q.fakeFreeListTail l

/-- The blocks that are not in the queue have both links cleared. -/
def Cleared (l : List BlockRef) : Prop :=
  q.links.Cleared q.fakeFreeListHead q.fakeFreeListTail l

structure Rewired (q : FreeKVCacheBlockQueue) (l : List BlockRef) (q' : FreeKVCacheBlockQueue)
    (l' : List BlockRef) (d : Int) : Prop where
  holds : q'.Holds l'
  head : q'.fakeFreeListHead = q.fakeFreeListHead
  tail : q'.fakeFreeListTail = q.fakeFreeListTail
  num : q'.numFreeBlocks = q.numFreeBlocks + d
  cleared : q.Cleared l → q'.Cleared l'

theorem linked_range (k m : Nat) (hk : k + m = n) :
    (init n).links.Linked (range' k m ++ [n + 1]) := by
  induction m generalizing k with
  | zero => simp [Links.Linked]
  | succ m ih =>
    have hrest := ih (k + 1) (by omega)
    cases m with
    | zero =>
      have hn : k + 1 = n := by omega
      subst hn
      simp [Links.Linked, init, range']
    | succ m =>
      refine ⟨?_, ?_, hrest⟩
      · simp only [init]
        rw [if_pos (by omega : k < n), if_pos (by omega : k + 1 < n)]
      · simp only [init]
        rw [if_pos (by omega : k + 1 < n)]
        simp

theorem init_holds : (init n).Holds (range n) := by
  refine ⟨?_, ?_⟩
  · change (n :: (range n ++ [n + 1])).Nodup
    rw [nodup_cons]
    refine ⟨by simp, nodup_append.mpr ⟨nodup_range, by simp, ?_⟩⟩
    intro a ha b hb
    have han : a < n := mem_range.mp ha
    have hbn : b = n + 1 := mem_singleton.mp hb
    omega
  · have hl := linked_range n 0 n (by omega)
    rw [range_eq_range']
    cases n with
    | zero => simp [Links.Linked, init]
    | succ n =>
      exact ⟨by simp [init], by simp [init], hl⟩

variable {q : FreeKVCacheBlockQueue} {l : List BlockRef}

theorem popleft_eq {a : BlockRef} (h : q.Holds (a :: l)) :
    ∃ q', q.popleft = .ok (q', a) ∧ Rewired q (a :: l) q' l (-1) := by
  obtain ⟨n, hmem, hn, hrepr⟩ := popHead h
  have hne : a ≠ q.fakeFreeListTail := fun he =>
    tail_not_mem h (he ▸ mem_cons_self)
  refine ⟨{ q with
    links := (q.links.join q.fakeFreeListHead n).detach a
    numFreeBlocks := q.numFreeBlocks - 1 }, ?_, hrepr, rfl, rfl, rfl, fun hc => ?_⟩
  swap
  · exact @Links.Cleared.unlink _ _ _ _ _ [] l a _ n hc mem_cons_self hmem
  simp only [popleft, next_head_cons h, if_neg hne, hn]

theorem popLoop_linked (y : BlockRef) (zs : List BlockRef) (L : Links BlockRef)
    (hl : L.Linked (xs ++ y :: zs)) (hnd : (xs ++ y :: zs).Nodup) :
    popLoop xs.length (xs ++ y :: zs).head? L = .ok (xs, some y, xs.foldl detach L) := by
  induction xs generalizing L with
  | nil => simp [popLoop]
  | cons x xs ih =>
    rw [cons_append] at hl hnd
    rw [nodup_cons] at hnd
    obtain ⟨hnext, htail⟩ := hl.of_cons (by simp)
    simp only [length_cons, cons_append, head?_cons, popLoop, hnext,
      ih (L.detach x) (htail.detach hnd.1) hnd.2, foldl_cons]

theorem foldl_detach_linked {L : Links BlockRef} {xs : List BlockRef} (h : L.Linked ys)
    (hxs : ∀ b ∈ xs, b ∉ ys) : (xs.foldl detach L).Linked ys := by
  induction xs generalizing L with
  | nil => exact h
  | cons x xs ih =>
    rw [forall_mem_cons] at hxs
    exact ih (h.detach hxs.1) hxs.2

theorem foldl_detach_cleared {L : Links BlockRef} {head tail : BlockRef} {xs : List BlockRef}
    (h : L.Cleared head tail (xs ++ ys)) : (xs.foldl detach L).Cleared head tail ys := by
  induction xs generalizing L with
  | nil => exact h
  | cons x xs ih => exact ih (h.detach (Subset.refl _))

/-- `popleft_n` on the links is `take` and `drop` on the list. -/
theorem popleftN_eq {xs : List BlockRef} (h : q.Holds (xs ++ ys))
    (hfree : (xs.length : Int) ≤ q.numFreeBlocks) :
    ∃ q', q.popleftN xs.length = .ok (q', xs) ∧ Rewired q (xs ++ ys) q' ys (-xs.length) := by
  by_cases hz : xs.length = 0
  · obtain rfl := length_eq_zero_iff.mp hz
    exact ⟨q, by simp [popleftN], h, rfl, rfl, by simp, id⟩
  obtain ⟨y, zs, hy⟩ : ∃ y zs, ys ++ [q.fakeFreeListTail] = y :: zs := by
    cases ys with
    | nil => exact ⟨_, _, rfl⟩
    | cons y ys => exact ⟨_, _, rfl⟩
  have hnd := h.nodup
  have hl := h.linked
  rw [append_assoc, hy] at hnd hl
  rw [nodup_cons] at hnd
  obtain ⟨hhead, hrest⟩ := hl.of_cons (by simp)
  have hloop := popLoop_linked xs y zs q.links hrest hnd.2
  refine ⟨{ q with
    links := (xs.foldl detach q.links).join q.fakeFreeListHead y
    numFreeBlocks := q.numFreeBlocks - xs.length }, ?_, ?_, rfl, rfl, rfl, fun hc => ?_⟩
  · simp only [popleftN]
    rw [if_neg (by omega), if_neg (by omega), Int.toNat_natCast, hhead, hloop]
  · have hrest := ((linked_append _ _ _ _).mp hrest).2
    have hnd₁ := nodup_append.mp hnd.2
    have hnd₂ : (q.fakeFreeListHead :: y :: zs).Nodup :=
      nodup_cons.mpr ⟨fun hm => hnd.1 (mem_append_right _ hm), hnd₁.2.1⟩
    constructor <;> rw [hy]
    · exact hnd₂
    · have hstart : (xs.foldl detach q.links).Linked ([] ++ [q.fakeFreeListHead]) := trivial
      apply hstart.join
      · exact foldl_detach_linked hrest fun b hb hb' => hnd₁.2.2 b hb b hb' rfl
      · exact hnd₂
  · exact (foldl_detach_cleared hc).join mem_cons_self (hy ▸ mem_cons_self)

theorem remove_eq {xs : List BlockRef} {b : BlockRef} (h : q.Holds (xs ++ b :: ys)) :
    ∃ q', q.remove b = .ok q' ∧ Rewired q (xs ++ b :: ys) q' (xs ++ ys) (-1) := by
  obtain ⟨ps, p, n, ns, hps, hns, hp, hn⟩ := neighbours h
  refine ⟨{ q with
    links := (q.links.join p n).detach b
    numFreeBlocks := q.numFreeBlocks - 1 }, ?_, unlink h hp hn, rfl, rfl, rfl, fun hc => ?_⟩
  · simp only [remove, hp, hn]
  · exact Links.Cleared.unlink hc (hps ▸ mem_append_right _ mem_cons_self) (hns ▸ mem_cons_self)

theorem appendLoop_linked {ps bs : List BlockRef} {last : BlockRef} {L : Links BlockRef}
    (h : L.Linked (ps ++ [last])) (hnd : (ps ++ [last] ++ bs).Nodup) :
    ∃ qs, ps ++ [last] ++ bs = qs ++ [(appendLoop bs last L).1] ∧
      (appendLoop bs last L).2.Linked (ps ++ [last] ++ bs) := by
  induction bs generalizing ps last L with
  | nil =>
    rw [append_nil]
    exact ⟨ps, rfl, h⟩
  | cons b bs ih =>
    rw [append_cons] at hnd ⊢
    exact ih (h.join trivial (hnd.sublist (sublist_append_left _ _))) hnd

theorem appendLoop_cleared {l : List BlockRef} {last : BlockRef} {L : Links BlockRef}
    {head tail : BlockRef} {bs : List BlockRef} (h : L.Cleared head tail l) (hbs : bs ⊆ l)
    (hlast : last ∈ head :: l) : (appendLoop bs last L).2.Cleared head tail l ∧
      (appendLoop bs last L).1 ∈ head :: l := by
  induction bs generalizing last L with
  | nil => exact ⟨h, hlast⟩
  | cons b bs ih =>
    rw [cons_subset] at hbs
    exact ih (h.join hlast (mem_append_left _ hbs.1)) hbs.2 (mem_cons_of_mem _ hbs.1)

/-- `append_n` on the links is `++` on the list. -/
theorem appendN_eq (h : q.Holds l) (hnd : bs.Nodup)
    (hdisj : ∀ b ∈ bs, b ∉ l ∧ b ≠ q.fakeFreeListHead ∧ b ≠ q.fakeFreeListTail) :
    ∃ q', q.appendN bs = .ok q' ∧ Rewired q l q' (l ++ bs) bs.length := by
  by_cases hz : bs.length = 0
  · obtain rfl := length_eq_zero_iff.mp hz
    rw [append_nil]
    exact ⟨q, by simp [appendN], h, rfl, rfl, by simp, id⟩
  obtain ⟨ps, last, hlast, hlinked, hp⟩ := h.last
  have hall : (q.fakeFreeListHead :: (l ++ bs ++ [q.fakeFreeListTail])).Nodup := by
    have hcomm : (bs ++ q.fakeFreeListHead :: l).Perm (q.fakeFreeListHead :: l ++ bs) :=
      perm_append_comm
    have hperm := hcomm.append_right [q.fakeFreeListTail]
    rw [cons_append, cons_append] at hperm
    rw [← hperm.nodup_iff, append_assoc, cons_append, nodup_append]
    refine ⟨hnd, h.nodup, fun b hb c hc => ?_⟩
    rintro rfl
    obtain ⟨hl, hh, ht⟩ := hdisj b hb
    simp [hl, hh, ht] at hc
  rw [← cons_append, ← cons_append, hlast] at hall
  obtain ⟨qs, hqs, hloop⟩ := appendLoop_linked hlinked (hall.sublist (sublist_append_left _ _))
  refine ⟨{ q with
    links := (appendLoop bs last q.links).2.join (appendLoop bs last q.links).1 q.fakeFreeListTail
    numFreeBlocks := q.numFreeBlocks + bs.length }, ?_, ?_, rfl, rfl, rfl, fun hc => ?_⟩
  · simp only [appendN, if_neg hz, hp]
  · constructor <;> rw [← cons_append, ← cons_append, hlast]
    · exact hall
    · rw [hqs] at hall hloop ⊢
      exact hloop.join trivial hall
  · have hmem : last ∈ q.fakeFreeListHead :: l := hlast ▸ mem_append_right _ mem_cons_self
    obtain ⟨hcleared, hmem⟩ := appendLoop_cleared
      (hc.mono (subset_append_left l bs)) (subset_append_right l bs)
      (cons_subset_cons _ (subset_append_left l bs) hmem)
    exact hcleared.join hmem (mem_append_right _ mem_cons_self)

theorem append_eq (h : q.Holds l) (hb : b ∉ l ∧ b ≠ q.fakeFreeListHead ∧ b ≠ q.fakeFreeListTail) :
    ∃ q', q.append b = .ok q' ∧ Rewired q l q' (l ++ [b]) 1 := by
  obtain ⟨q', hq', hrewired⟩ := appendN_eq [b] h (nodup_singleton b) (forall_mem_singleton.mpr hb)
  obtain ⟨-, last, -, -, hp⟩ := h.last
  refine ⟨q', ?_, hrewired⟩
  rw [← hq', append, appendN, hp]
  rfl

theorem collect_eq {L : Links BlockRef} {tail a : BlockRef} {l : List BlockRef}
    (h : L.Linked (l ++ [tail])) (htail : L.next tail = none) (ha : (l ++ [tail]).head? = some a)
    {fuel : Nat} (hfuel : l.length ≤ fuel) : collect L fuel a = l := by
  induction l generalizing a fuel with
  | nil =>
    cases ha
    cases fuel with
    | zero => rfl
    | succ fuel => rw [collect, htail]
  | cons b l ih =>
    cases ha
    obtain ⟨fuel, rfl⟩ : ∃ k, fuel = k + 1 := ⟨fuel - 1, by rw [length_cons] at hfuel; omega⟩
    rw [cons_append] at h
    obtain ⟨hnext, hlinked⟩ := h.of_cons (by simp)
    obtain ⟨c, hc⟩ : ∃ c, (l ++ [tail]).head? = some c := ⟨_, head?_eq_some_head (by simp)⟩
    rw [collect, hnext, hc]
    exact congrArg _ (ih hlinked hc (Nat.le_of_succ_le_succ hfuel))

end FreeKVCacheBlockQueue

/-! ## Runs -/

inductive QueueOp
  | popleft
  | popleftN (n : Int)
  | remove (block : BlockRef)
  | append (block : BlockRef)
  | appendN (blocks : List BlockRef)
  | getAllFreeBlocks (fuel : Nat)
  deriving DecidableEq

namespace QueueOp

def onList (l : List BlockRef) : QueueOp → Option (List BlockRef × List BlockRef)
  | .popleft => l.head?.map fun b => (l.tail, [b])
  | .popleftN n => if n ≤ l.length then some (l.drop n.toNat, l.take n.toNat) else none
  | .remove b => some (l.erase b, [])
  | .append b => some (l ++ [b], [])
  | .appendN bs => some (l ++ bs, [])
  | .getAllFreeBlocks _ => some (l, l)

def Proper (n : Nat) (l : List BlockRef) : QueueOp → Prop
  | .remove b => b ∈ l
  | .append b => b ∉ l ∧ b ≠ n ∧ b ≠ n + 1
  | .appendN bs => bs.Nodup ∧ ∀ b ∈ bs, b ∉ l ∧ b ≠ n ∧ b ≠ n + 1
  | .getAllFreeBlocks fuel => l.length ≤ fuel
  | _ => True

def ProperRun (n : Nat) : List BlockRef → List QueueOp → Prop
  | _, [] => True
  | l, op :: ops => op.Proper n l ∧ ProperRun n ((op.onList l).elim l Prod.fst) ops

end QueueOp

namespace FreeKVCacheBlockQueue

def exec (q : FreeKVCacheBlockQueue) :
    QueueOp → Except PyError (FreeKVCacheBlockQueue × List BlockRef)
  | .popleft => do
    let (q, b) ← q.popleft
    pure (q, [b])
  | .popleftN n => q.popleftN n
  | .remove b => do pure (← q.remove b, [])
  | .append b => do pure (← q.append b, [])
  | .appendN bs => do pure (← q.appendN bs, [])
  | .getAllFreeBlocks fuel => do pure (q, ← q.getAllFreeBlocks fuel)

structure Represents (q : FreeKVCacheBlockQueue) (l : List BlockRef) : Prop where
  /-- Between the fake nodes the blocks `l` are distinct and linked both ways. -/
  holds : q.Holds l
  cleared : q.Cleared l
  num : q.numFreeBlocks = l.length

/-- The queue represents the list before and after each operation, and returns or raises as the
operation on the list does. -/
def RefinesList : FreeKVCacheBlockQueue → List BlockRef → List QueueOp → Prop
  | q, l, [] => q.Represents l
  | q, l, op :: ops => q.Represents l ∧
    match op.onList l with
    | none => (∃ e, q.exec op = .error e) ∧ RefinesList q l ops
    | some (l', ret) => ∃ q', q.exec op = .ok (q', ret) ∧ RefinesList q' l' ops

variable {q q' : FreeKVCacheBlockQueue} {l l' : List BlockRef} {d : Int} {ops : List QueueOp}
  {n : Nat}

theorem RefinesList.represents (h : q.RefinesList l ops) : q.Represents l := by
  cases ops with
  | nil => exact h
  | cons op ops => exact h.1

theorem Rewired.represents (h : Rewired q l q' l' d) (hq : q.Represents l)
    (hd : (l'.length : Int) = l.length + d) : q'.Represents l' :=
  ⟨h.holds, h.cleared hq.cleared, by rw [h.num, hq.num, hd]⟩

theorem init_represents (n : Nat) : (init n).Represents (range n) where
  holds := init_holds n
  cleared := by
    constructor
    · intro b hb hhead
      rw [mem_range] at hb
      exact (if_neg hb).trans (if_neg hhead)
    · intro b hb htail
      rw [mem_range] at hb
      exact (if_neg hb).trans (if_neg htail)
  num := by
    rw [length_range]
    rfl

/-- One operation of a proper sequence, without a negative count. -/
theorem Represents.step {op : QueueOp} (h : q.Represents l) (hhead : q.fakeFreeListHead = n)
    (htail : q.fakeFreeListTail = n + 1) (hop : op.Proper n l)
    (hpos : ∀ k, op = .popleftN k → 0 ≤ k) :
    match op.onList l with
    | none => ∃ e, q.exec op = .error e
    | some (l', ret) => ∃ q', q.exec op = .ok (q', ret) ∧ q'.Represents l' ∧
        q'.fakeFreeListHead = n ∧ q'.fakeFreeListTail = n + 1 := by
  have hdone : ∀ {q' l' d}, Rewired q l q' l' d → (l'.length : Int) = l.length + d →
      q'.Represents l' ∧ q'.fakeFreeListHead = n ∧ q'.fakeFreeListTail = n + 1 :=
    fun hr hd => ⟨hr.represents h hd, hr.head.trans hhead, hr.tail.trans htail⟩
  cases op with
  | popleft =>
    cases l with
    | nil =>
      have hnum : q.numFreeBlocks = 0 := h.num
      refine ⟨.valueError "No free blocks available", ?_⟩
      rw [exec, popleft, show q.links.next q.fakeFreeListHead = some _ from h.holds.linked.1]
      simp [hnum]
    | cons b l =>
      obtain ⟨q', hq', hr⟩ := popleft_eq h.holds
      exact ⟨q', by rw [exec, hq']; rfl, hdone hr (by rw [tail_cons, length_cons]; omega)⟩
  | popleftN k =>
    obtain ⟨k, rfl⟩ := Int.eq_ofNat_of_zero_le (hpos k rfl)
    rw [QueueOp.onList]
    split <;> rename_i hsome
    · split at hsome <;> rename_i hk
      · cases hsome
      · refine ⟨.assertionError "self.num_free_blocks >= n", ?_⟩
        rw [exec, popleftN, if_neg (by omega), if_pos (by rw [h.num]; omega)]
    split at hsome <;> rename_i hk
    · cases hsome
      have hlen : (l.take k).length = k := by rw [length_take]; omega
      have hholds := h.holds
      rw [← take_append_drop k l] at hholds
      obtain ⟨q', hq', hr⟩ := popleftN_eq hholds (by rw [h.num]; omega)
      rw [hlen] at hq' hr
      rw [take_append_drop] at hr
      exact ⟨q', hq', hdone hr (by rw [length_drop]; omega)⟩
    · cases hsome
  | remove b =>
    obtain ⟨xs, ys, rfl⟩ := append_of_mem hop
    obtain ⟨q', hq', hr⟩ := remove_eq h.holds
    have hnot : b ∉ xs := fun hb => disjoint_of_nodup_append h.holds.list_nodup hb mem_cons_self
    rw [QueueOp.onList, erase_append_right _ hnot, erase_cons_head]
    exact ⟨q', by rw [exec, hq']; rfl, hdone hr (by simp; omega)⟩
  | append b =>
    obtain ⟨q', hq', hr⟩ := append_eq b h.holds (by rw [hhead, htail]; exact hop)
    exact ⟨q', by rw [exec, hq']; rfl, hdone hr (by simp)⟩
  | appendN bs =>
    obtain ⟨q', hq', hr⟩ := appendN_eq bs h.holds hop.1 (by rw [hhead, htail]; exact hop.2)
    exact ⟨q', by rw [exec, hq']; rfl, hdone hr (by simp)⟩
  | getAllFreeBlocks fuel =>
    obtain ⟨hnext, hlinked⟩ := h.holds.linked.of_cons (by simp)
    obtain ⟨a, ha⟩ : ∃ a, (l ++ [q.fakeFreeListTail]).head? = some a :=
      ⟨_, head?_eq_some_head (by simp)⟩
    have hlast := h.cleared.next q.fakeFreeListTail h.holds.tail_not_mem
      (by rw [hhead, htail]; simp)
    refine ⟨q, ?_, h, hhead, htail⟩
    rw [exec, getAllFreeBlocks, hnext, ha]
    rw [ok_bind, collect_eq hlinked hlast ha hop]
    rfl

/-- Popping a negative number of blocks raises the counter and leaves the list as it is. -/
theorem Represents.popleftN_neg {k : Int} (h : q.Represents l) (hk : k < 0) :
    q.exec (.popleftN k) = .ok ({ q with
      links := q.links.join q.fakeFreeListHead ((l ++ [q.fakeFreeListTail]).head (by simp))
      numFreeBlocks := l.length - k }, []) := by
  obtain ⟨hnext, -⟩ := h.holds.linked.of_cons (by simp)
  rw [exec, popleftN, if_neg (by omega), if_neg (by rw [h.num]; omega),
    Int.toNat_of_nonpos (Int.le_of_lt hk), hnext, head?_eq_some_head (by simp), h.num]
  rfl

theorem RefinesList.nonneg {k : Int} (h : q.RefinesList l ops) (hk : .popleftN k ∈ ops) :
    0 ≤ k := by
  induction ops generalizing q l with
  | nil => cases hk
  | cons op ops ih =>
    obtain ⟨hq, hrest⟩ := h
    rcases mem_cons.mp hk with rfl | hmem
    · by_contra hneg
      rw [QueueOp.onList, if_pos (by omega)] at hrest
      obtain ⟨q', hq', hrest⟩ := hrest
      rw [hq.popleftN_neg (by omega)] at hq'
      obtain ⟨rfl, -⟩ := Prod.mk.inj (Except.ok.inj hq')
      have hnum := hrest.represents.num
      rw [Int.toNat_of_nonpos (by omega), drop_zero] at hnum
      dsimp only at hnum
      omega
    · split at hrest
      · exact ih hrest.2 hmem
      · obtain ⟨q', -, hrest⟩ := hrest
        exact ih hrest hmem

theorem Represents.refinesList (h : q.Represents l) (hhead : q.fakeFreeListHead = n)
    (htail : q.fakeFreeListTail = n + 1) (hops : QueueOp.ProperRun n l ops)
    (hpos : ∀ k, .popleftN k ∈ ops → 0 ≤ k) : q.RefinesList l ops := by
  induction ops generalizing q l with
  | nil => exact h
  | cons op ops ih =>
    have hstep := h.step hhead htail hops.1 fun k hk => hpos k (hk ▸ mem_cons_self)
    replace hpos : ∀ k, .popleftN k ∈ ops → 0 ≤ k := fun k hk => hpos k (mem_cons_of_mem _ hk)
    have hrun := hops.2
    refine ⟨h, ?_⟩
    split <;> rename_i heq <;> rw [heq] at hstep hrun
    · exact ⟨hstep, ih h hhead htail hrun hpos⟩
    · obtain ⟨q', hq', h', hhead', htail'⟩ := hstep
      exact ⟨q', hq', ih h' hhead' htail' hrun hpos⟩

/-- The queue behaves as the list of its blocks in exactly the runs that pop no negative number of
blocks. -/
theorem init_refinesList_iff (n : Nat) (ops : List QueueOp)
    (h : QueueOp.ProperRun n (range n) ops) :
    (init n).RefinesList (range n) ops ↔ ∀ k, .popleftN k ∈ ops → 0 ≤ k :=
  ⟨fun hrefines _ hk => hrefines.nonneg hk,
    fun hpos => (init_represents n).refinesList rfl rfl h hpos⟩

def sampleOps : List QueueOp :=
  [.popleftN 2, .remove 3, .appendN [1, 0], .popleft, .append 2, .getAllFreeBlocks 9]

/-- Every block is taken once, and all but block 3 come back. -/
theorem init_refinesList_iff_sample : QueueOp.ProperRun 4 (range 4) sampleOps ∧
    (init 4).RefinesList (range 4) sampleOps := by
  have hrun : QueueOp.ProperRun 4 (range 4) sampleOps := by
    simp [sampleOps, QueueOp.ProperRun, QueueOp.Proper, QueueOp.onList, range_succ]
  refine ⟨hrun, (init_refinesList_iff _ _ hrun).mpr fun k hk => ?_⟩
  simp [sampleOps] at hk
  omega

/-- A negative count moves the counter away from the list. -/
theorem popleftN_breaks_count : ¬ (init 1).RefinesList (range 1) [.popleftN (-1)] :=
  fun h => absurd (h.nonneg mem_cons_self) (by decide)

end FreeKVCacheBlockQueue

end VllmEcho
