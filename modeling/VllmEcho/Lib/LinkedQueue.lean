import Mathlib

/-!
# Doubly linked queues

Nodes carry two optional links.  A queue between a sentinel head and a sentinel tail represents a
list when consecutive nodes point at each other; unlinking a node, popping a prefix and splicing a
list in front of the tail are the list operations `erase`, `drop` and `append`.
-/

namespace VllmEcho.Lib

open Function List

universe u

structure Links (α : Type u) where
  next : α → Option α
  prev : α → Option α

namespace Links

variable {α : Type u} [DecidableEq α] (L : Links α) (a : α) (v : Option α)

def setNext : Links α :=
  { L with next := update L.next a v }

def setPrev : Links α :=
  { L with prev := update L.prev a v }

variable (L : Links α) (a : α) (v : Option α)

@[simp] theorem setNext_prev : (L.setNext a v).prev = L.prev := rfl

@[simp] theorem setPrev_next : (L.setPrev a v).next = L.next := rfl

variable (b : α)

@[simp] theorem setNext_next (v : Option α) :
    (L.setNext a v).next b = if b = a then v else L.next b := by
  simp [setNext, update_apply]

@[simp] theorem setPrev_prev (v : Option α) :
    (L.setPrev a v).prev b = if b = a then v else L.prev b := by
  simp [setPrev, update_apply]

def detach (L : Links α) (a : α) : Links α := (L.setPrev a none).setNext a none

@[simp] theorem detach_next : (L.detach a).next b = if b = a then none else L.next b := by
  simp [detach]

@[simp] theorem detach_prev : (L.detach a).prev b = if b = a then none else L.prev b := by
  simp [detach]

def join (L : Links α) (a b : α) : Links α := (L.setNext a (some b)).setPrev b (some a)

@[simp] theorem join_next (c : α) : (L.join a b).next c = if c = a then some b else L.next c := by
  simp [join]

@[simp] theorem join_prev (c : α) : (L.join a b).prev c = if c = b then some a else L.prev c := by
  simp [join]

def Linked (L : Links α) : List α → Prop
  | [] => True
  | [_] => True
  | a :: b :: l => L.next a = some b ∧ L.prev b = some a ∧ Linked L (b :: l)

omit [DecidableEq α] in
theorem Linked.of_cons {L : Links α} {a : α} {l : List α} (h : L.Linked (a :: l)) (hl : l ≠ []) :
    L.next a = l.head? ∧ L.Linked l := by
  cases l with
  | nil => exact absurd rfl hl
  | cons b l => exact ⟨h.1, h.2.2⟩

omit [DecidableEq α] in
theorem linked_append (l : List α) (a : α) (l' : List α) :
    L.Linked (l ++ a :: l') ↔ L.Linked (l ++ [a]) ∧ L.Linked (a :: l') := by
  induction l with
  | nil => simp [Linked]
  | cons b l ih =>
    cases l with
    | nil => simp [Linked, and_assoc]
    | cons c l =>
      simp only [cons_append, Linked] at ih ⊢
      rw [ih]
      tauto

omit [DecidableEq α] in
theorem linked_congr {L L' : Links α} {l : List α} (h : L.Linked l)
    (hnext : ∀ a ∈ l.dropLast, L'.next a = L.next a)
    (hprev : ∀ a ∈ l.tail, L'.prev a = L.prev a) : L'.Linked l := by
  induction l with
  | nil => trivial
  | cons a l ih =>
    cases l with
    | nil => trivial
    | cons b l =>
      obtain ⟨hn, hp, hl⟩ := h
      refine ⟨?_, ?_, ih hl ?_ ?_⟩
      · rw [hnext a (by simp [dropLast]), hn]
      · rw [hprev b (by simp), hp]
      · intro c hc
        exact hnext c (by simp only [dropLast]; exact mem_cons_of_mem a hc)
      · intro c hc
        exact hprev c (by simpa using Or.inr hc)

/-- Joining the end of one linked list to the start of another makes them one linked list. -/
theorem Linked.join {L : Links α} {ps ns : List α} {p n : α} (hp : L.Linked (ps ++ [p]))
    (hn : L.Linked (n :: ns)) (hnd : (ps ++ [p] ++ n :: ns).Nodup) :
    (L.join p n).Linked (ps ++ [p] ++ n :: ns) := by
  rw [append_assoc, singleton_append] at hnd ⊢
  rw [nodup_append] at hnd
  rw [linked_append]
  refine ⟨linked_congr hp ?_ ?_, by simp, by simp, linked_congr hn ?_ ?_⟩
  · intro a ha
    rw [dropLast_concat] at ha
    rw [join_next, if_neg (hnd.2.2 a ha p mem_cons_self)]
  · intro a ha
    rw [join_prev, if_neg]
    rintro rfl
    rcases mem_append.mp (mem_of_mem_tail ha) with hm | hm
    · exact hnd.2.2 a hm a (by simp) rfl
    · exact (nodup_cons.mp hnd.2.1).1 (mem_singleton.mp hm ▸ mem_cons_self)
  · intro a ha
    rw [join_next, if_neg]
    rintro rfl
    exact (nodup_cons.mp hnd.2.1).1 ((dropLast_sublist _).subset ha)
  · intro a ha
    rw [join_prev, if_neg]
    rintro rfl
    exact (nodup_cons.mp (nodup_cons.mp hnd.2.1).2).1 ha

theorem Linked.detach {L : Links α} {l : List α} (h : L.Linked l) {b : α} (hb : b ∉ l) :
    (L.detach b).Linked l := by
  apply linked_congr h
  · intro a ha
    rw [detach_next, if_neg]
    rintro rfl
    exact hb ((dropLast_sublist _).subset ha)
  · intro a ha
    rw [detach_prev, if_neg]
    rintro rfl
    exact hb (mem_of_mem_tail ha)

structure Repr (L : Links α) (head tail : α) (l : List α) : Prop where
  nodup : (head :: (l ++ [tail])).Nodup
  linked : L.Linked (head :: (l ++ [tail]))

namespace Repr

variable {L : Links α} {head tail : α}

variable {l : List α}

omit [DecidableEq α] in
theorem list_nodup (h : L.Repr head tail l) : l.Nodup :=
  (nodup_append.mp (nodup_cons.mp h.nodup).2).1

omit [DecidableEq α] in
theorem tail_not_mem (h : L.Repr head tail l) : tail ∉ l := fun hm =>
  (nodup_append.mp (nodup_cons.mp h.nodup).2).2.2 tail hm tail (by simp) rfl

omit [DecidableEq α] in
theorem next_head_cons {a : α} (h : L.Repr head tail (a :: l)) : L.next head = some a := h.linked.1

omit [DecidableEq α] in
theorem last (h : L.Repr head tail l) :
    ∃ ps p, head :: l = ps ++ [p] ∧ L.Linked (ps ++ [p]) ∧ L.prev tail = some p := by
  obtain ⟨ps, p, hp⟩ : ∃ ps p, head :: l = ps ++ [p] :=
    ⟨_, _, (dropLast_append_getLast (by simp)).symm⟩
  have hl := h.linked
  rw [← cons_append, hp, append_assoc, singleton_append, linked_append] at hl
  exact ⟨ps, p, hp, hl.1, hl.2.2.1⟩

omit [DecidableEq α] in
theorem neighbours {xs ys : List α} {b : α} (h : L.Repr head tail (xs ++ b :: ys)) :
    ∃ ps p n ns, head :: xs = ps ++ [p] ∧ ys ++ [tail] = n :: ns ∧
      L.prev b = some p ∧ L.next b = some n := by
  obtain ⟨ps, p, hp⟩ : ∃ ps p, head :: xs = ps ++ [p] :=
    ⟨_, _, (dropLast_append_getLast (l := head :: xs) (by simp)).symm⟩
  obtain ⟨n, ns, hn⟩ : ∃ n ns, ys ++ [tail] = n :: ns := by
    cases ys with
    | nil => exact ⟨tail, [], rfl⟩
    | cons y ys => exact ⟨y, ys ++ [tail], rfl⟩
  have hl := h.linked
  rw [append_assoc, cons_append, ← cons_append, hp, hn, append_assoc,
    singleton_append] at hl
  have hb := ((L.linked_append _ _ _).mp hl).2
  exact ⟨ps, p, n, ns, hp, hn, hb.2.1, hb.2.2.1⟩

theorem unlink {xs ys : List α} {b p n : α} (h : L.Repr head tail (xs ++ b :: ys))
    (hp : L.prev b = some p) (hn : L.next b = some n) :
    ((L.join p n).detach b).Repr head tail (xs ++ ys) := by
  obtain ⟨ps, p', n', ns, hps, hns, hp', hn'⟩ := h.neighbours
  obtain rfl : p' = p := Option.some.inj (hp'.symm.trans hp)
  obtain rfl : n' = n := Option.some.inj (hn'.symm.trans hn)
  have hnd := h.nodup
  have hl := h.linked
  rw [append_assoc, cons_append, ← cons_append, hps, hns] at hnd hl
  rw [nodup_middle, nodup_cons] at hnd
  rw [append_assoc, singleton_append, linked_append] at hl
  constructor <;> rw [append_assoc, ← cons_append, hps, hns]
  · exact hnd.2
  · exact (hl.1.join hl.2.2.2.2.2 hnd.2).detach hnd.1

theorem popHead {a : α} (h : L.Repr head tail (a :: l)) :
    ∃ n ∈ l ++ [tail], L.next a = some n ∧ ((L.join head n).detach a).Repr head tail l := by
  have hsplit : L.Repr head tail ([] ++ a :: l) := h
  obtain ⟨ps, p, n, ns, hps, hns, hp, hn⟩ := hsplit.neighbours
  obtain ⟨rfl, rfl⟩ : ps = [] ∧ p = head := by
    cases ps with
    | nil => simpa using hps.symm
    | cons c cs => simp at hps
  exact ⟨n, hns ▸ mem_cons_self, hn, hsplit.unlink hp hn⟩

end Repr

structure Cleared (L : Links α) (head tail : α) (l : List α) : Prop where
  next : ∀ a ∉ l, a ≠ head → L.next a = none
  prev : ∀ a ∉ l, a ≠ tail → L.prev a = none

namespace Cleared

variable {L : Links α} {head tail : α} {l l' : List α}

omit [DecidableEq α] in
theorem mono (h : L.Cleared head tail l) (hsub : l ⊆ l') : L.Cleared head tail l' where
  next a ha := h.next a fun hmem => ha (hsub hmem)
  prev a ha := h.prev a fun hmem => ha (hsub hmem)

theorem join (h : L.Cleared head tail l) {a b : α} (ha : a ∈ head :: l) (hb : b ∈ l ++ [tail]) :
    (L.join a b).Cleared head tail l where
  next c hc hhead := by
    rw [join_next, if_neg, h.next c hc hhead]
    rintro rfl
    exact (mem_cons.mp ha).elim hhead hc
  prev c hc htail := by
    rw [join_prev, if_neg, h.prev c hc htail]
    rintro rfl
    exact (mem_append.mp hb).elim hc fun heq => htail (mem_singleton.mp heq)

theorem detach (h : L.Cleared head tail l) {b : α} (hsub : l ⊆ b :: l') :
    (L.detach b).Cleared head tail l' where
  next c hc hhead := by
    rw [detach_next]
    split
    · rfl
    · rename_i hcb
      exact h.next c (fun hl => hc ((mem_cons.mp (hsub hl)).resolve_left hcb)) hhead
  prev c hc htail := by
    rw [detach_prev]
    split
    · rfl
    · rename_i hcb
      exact h.prev c (fun hl => hc ((mem_cons.mp (hsub hl)).resolve_left hcb)) htail

theorem unlink {xs ys : List α} {b p n : α} (h : L.Cleared head tail (xs ++ b :: ys))
    (hp : p ∈ head :: xs) (hn : n ∈ ys ++ [tail]) :
    ((L.join p n).detach b).Cleared head tail (xs ++ ys) := by
  apply (h.join _ _).detach
  · exact perm_middle.subset
  · exact mem_append_left _ hp
  · rw [append_assoc]
    exact mem_append_right _ (mem_cons_of_mem b hn)

end Cleared

def walk (L : Links α) (tail : α) : Nat → Option α → List α
  | 0, _ => []
  | _ + 1, none => []
  | n + 1, some a => if a = tail then [] else a :: walk L tail n (L.next a)

theorem walk_linked {L : Links α} {tail : α} (l : List α) {a : α} {n : Nat} (hn : l.length < n)
    (hnot : tail ∉ l) (h : L.Linked (a :: (l ++ [tail]))) : walk L tail n (L.next a) = l := by
  induction l generalizing a n with
  | nil =>
    obtain ⟨n, rfl⟩ : ∃ k, n = k + 1 := ⟨n - 1, by omega⟩
    rw [h.1, walk, if_pos rfl]
  | cons b l ih =>
    obtain ⟨n, rfl⟩ : ∃ k, n = k + 1 := ⟨n - 1, by omega⟩
    rw [mem_cons, not_or] at hnot
    rw [h.1, walk, if_neg (Ne.symm hnot.1), ih (by simpa using hn) hnot.2 h.2.2]

theorem Repr.walk_eq {L : Links α} {head tail : α} {l : List α} (h : L.Repr head tail l) {n : Nat}
    (hn : l.length < n) : walk L tail n (L.next head) = l :=
  walk_linked l hn h.tail_not_mem h.linked

end Links

end VllmEcho.Lib
