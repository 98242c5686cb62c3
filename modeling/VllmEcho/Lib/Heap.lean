import Mathlib

/-!
# Binary heaps in a list

The array heap of Python's `heapq`, over an arbitrary comparison.  Nothing is assumed of the
comparison and nothing of the order of the entries, which may have changed since they were pushed:
what every operation does keep is the multiset of the entries.
-/

namespace VllmEcho.Lib.Heap

open List

universe u

variable {α : Type u} (lt : α → α → Bool)

def swap (heap : List α) (i j : Nat) : List α :=
  match heap[i]?, heap[j]? with
  | some x, some y => (heap.set i y).set j x
  | _, _ => heap

def below (heap : List α) (i j : Nat) : Bool :=
  match heap[i]?, heap[j]? with
  | some x, some y => lt x y
  | _, _ => false

/-- `_siftdown`: the entry at `pos` rises until its parent is not above it.  The first argument
bounds the number of rounds. -/
def siftdown : Nat → List α → Nat → Nat → List α
  | 0, heap, _, _ => heap
  | fuel + 1, heap, startpos, pos =>
    if startpos < pos then
      let parentpos := (pos - 1) / 2
      if below lt heap pos parentpos then
        siftdown fuel (swap heap pos parentpos) startpos parentpos
      else heap
    else heap

def smallerChild (heap : List α) (childpos : Nat) : Nat :=
  if childpos + 1 < heap.length ∧ below lt heap childpos (childpos + 1) = false then childpos + 1
  else childpos

def sinkToLeaf : Nat → List α → Nat → List α × Nat
  | 0, heap, pos => (heap, pos)
  | fuel + 1, heap, pos =>
    if 2 * pos + 1 < heap.length then
      let childpos := smallerChild lt heap (2 * pos + 1)
      sinkToLeaf fuel (swap heap pos childpos) childpos
    else (heap, pos)

def siftup (heap : List α) (pos : Nat) : List α :=
  let r := sinkToLeaf lt heap.length heap pos
  siftdown lt r.2 r.1 pos r.2

def heappush (heap : List α) (item : α) : List α :=
  siftdown lt heap.length (heap ++ [item]) 0 heap.length

def heappop (heap : List α) : Option (α × List α) :=
  match heap.getLast? with
  | none => none
  | some lastelt =>
    match heap.dropLast with
    | [] => some (lastelt, [])
    | returnitem :: rest => some (returnitem, siftup lt (lastelt :: rest) 0)

def heapify (heap : List α) : List α :=
  (range (heap.length / 2)).reverse.foldl (siftup lt) heap

def popAll : Nat → List α → List α
  | 0, _ => []
  | fuel + 1, heap =>
    match heappop lt heap with
    | none => []
    | some r => r.1 :: popAll fuel r.2

theorem swap_perm (heap : List α) (i j : Nat) : (swap heap i j).Perm heap := by
  unfold swap
  split
  · rename_i x y hx hy
    obtain ⟨hi, rfl⟩ := List.getElem?_eq_some_iff.mp hx
    obtain ⟨hj, rfl⟩ := List.getElem?_eq_some_iff.mp hy
    exact set_set_perm hi hj
  · exact List.Perm.refl heap

theorem siftdown_perm (fuel : Nat) (heap : List α) (startpos pos : Nat) :
    (siftdown lt fuel heap startpos pos).Perm heap := by
  induction fuel generalizing heap pos with
  | zero => exact List.Perm.refl heap
  | succ fuel ih =>
    rw [siftdown]
    split
    · dsimp only
      split
      · exact (ih _ _).trans (swap_perm heap _ _)
      · exact List.Perm.refl heap
    · exact List.Perm.refl heap

theorem sinkToLeaf_perm (fuel : Nat) (heap : List α) (pos : Nat) :
    (sinkToLeaf lt fuel heap pos).1.Perm heap := by
  induction fuel generalizing heap pos with
  | zero => exact List.Perm.refl heap
  | succ fuel ih =>
    rw [sinkToLeaf]
    split
    · exact (ih _ _).trans (swap_perm heap _ _)
    · exact List.Perm.refl heap

theorem siftup_perm (heap : List α) (pos : Nat) : (siftup lt heap pos).Perm heap :=
  (siftdown_perm lt _ _ _ _).trans (sinkToLeaf_perm lt _ heap pos)

theorem heappush_perm (heap : List α) (item : α) : (heappush lt heap item).Perm (item :: heap) :=
  (siftdown_perm lt _ _ _ _).trans (perm_append_singleton item heap)

theorem heappop_spec {heap rest : List α} {item : α} (h : heappop lt heap = some (item, rest)) :
    heap.head? = some item ∧ (item :: rest).Perm heap := by
  unfold heappop at h
  cases hlast : heap.getLast? with
  | none =>
    rw [hlast] at h
    cases h
  | some lastelt =>
    rw [hlast] at h
    have hheap : heap.dropLast ++ [lastelt] = heap := dropLast_append_getLast? lastelt hlast
    cases hdrop : heap.dropLast with
    | nil =>
      rw [hdrop] at h hheap
      cases h
      rw [← hheap]
      exact ⟨rfl, List.Perm.refl _⟩
    | cons returnitem tail =>
      rw [hdrop] at h hheap
      cases h
      rw [← hheap]
      refine ⟨rfl, ?_⟩
      have hsift := siftup_perm lt (lastelt :: tail) 0
      exact (hsift.cons item).trans ((perm_append_singleton lastelt tail).symm.cons item)

theorem heappop_eq_none {heap : List α} (h : heappop lt heap = none) : heap = [] := by
  unfold heappop at h
  split at h
  · rename_i hlast
    exact getLast?_eq_none_iff.mp hlast
  · split at h <;> cases h

theorem heapify_perm (heap : List α) : (heapify lt heap).Perm heap := by
  unfold heapify
  generalize (range (heap.length / 2)).reverse = ps
  induction ps generalizing heap with
  | nil => exact List.Perm.refl heap
  | cons p ps ih => exact (ih _).trans (siftup_perm lt heap p)

theorem popAll_perm {fuel : Nat} {heap : List α} (hfuel : heap.length ≤ fuel) :
    (popAll lt fuel heap).Perm heap := by
  induction fuel generalizing heap with
  | zero =>
    have hnil : heap = [] := eq_nil_of_length_eq_zero (by omega)
    rw [hnil]
    exact List.Perm.refl []
  | succ fuel ih =>
    rw [popAll]
    cases hpop : heappop lt heap with
    | none =>
      rw [heappop_eq_none lt hpop]
    | some r =>
      have hperm := (heappop_spec lt hpop).2
      have hlen := hperm.length_eq
      rw [length_cons] at hlen
      exact ((ih (by omega)).cons r.1).trans hperm

end VllmEcho.Lib.Heap
