import Mathlib

/-!
# Insertion-ordered dictionaries

A Python `dict`: assignment to a present key keeps its place, assignment to a new key appends, and
`pop` forgets the key.  The weighted sums over the entries are what occurrence counts over a table
of tables need.
-/

namespace VllmEcho.Lib

open List

universe u v

structure Dict (κ : Type u) (α : Type v) where
  entries : List (κ × α)
  nodup : (entries.map Prod.fst).Nodup

namespace Dict

variable {κ : Type u} {α : Type v} [DecidableEq κ]

def lookup (k : κ) : List (κ × α) → Option α
  | [] => none
  | e :: es => if e.1 = k then some e.2 else lookup k es

def assign (k : κ) (v : α) : List (κ × α) → List (κ × α)
  | [] => [(k, v)]
  | e :: es => if e.1 = k then (k, v) :: es else e :: assign k v es

def drop (k : κ) : List (κ × α) → List (κ × α)
  | [] => []
  | e :: es => if e.1 = k then es else e :: drop k es

theorem lookup_eq_none_iff (k : κ) (es : List (κ × α)) :
    lookup k es = none ↔ k ∉ es.map Prod.fst := by
  induction es with
  | nil => simp [lookup]
  | cons e es ih =>
    by_cases he : e.1 = k
    · simp [lookup, he]
    · simp [lookup, he, ih, Ne.symm he]

variable {k : κ} {es : List (κ × α)} {v : α}

theorem lookup_mem (h : lookup k es = some v) : (k, v) ∈ es := by
  induction es with
  | nil => simp [lookup] at h
  | cons e es ih =>
    by_cases he : e.1 = k
    · simp only [lookup, if_pos he, Option.some.injEq] at h
      subst he h
      exact mem_cons_self
    · simp only [lookup, if_neg he] at h
      exact mem_cons_of_mem e (ih h)

theorem lookup_of_mem (hn : (es.map Prod.fst).Nodup) (h : (k, v) ∈ es) : lookup k es = some v := by
  induction es with
  | nil => simp at h
  | cons e es ih =>
    rw [map_cons, nodup_cons] at hn
    rcases mem_cons.mp h with he | hes
    · subst he
      simp [lookup]
    · have hne : e.1 ≠ k := by
        intro hk
        exact hn.1 (hk ▸ mem_map_of_mem hes)
      simp only [lookup, if_neg hne]
      exact ih hn.2 hes

theorem keys_assign : (assign k v es).map Prod.fst =
      if k ∈ es.map Prod.fst then es.map Prod.fst else es.map Prod.fst ++ [k] := by
  induction es with
  | nil => simp [assign]
  | cons e es ih =>
    by_cases he : e.1 = k
    · simp [assign, he]
    · simp only [assign, if_neg he, map_cons, ih, mem_cons, Ne.symm he, false_or]
      split <;> simp

theorem drop_sublist (k : κ) (es : List (κ × α)) : (drop k es).Sublist es := by
  induction es with
  | nil => exact List.Sublist.refl _
  | cons e es ih =>
    by_cases he : e.1 = k
    · simpa only [drop, if_pos he] using sublist_cons_self e es
    · simpa only [drop, if_neg he] using ih.cons_cons e

theorem lookup_assign_self : lookup k (assign k v es) = some v := by
  induction es with
  | nil => simp [assign, lookup]
  | cons e es ih =>
    by_cases he : e.1 = k
    · simp [assign, lookup, he]
    · simp [assign, lookup, he, ih]

theorem lookup_assign_ne {k' : κ} (hk : k' ≠ k) : lookup k' (assign k v es) = lookup k' es := by
  induction es with
  | nil => simp [assign, lookup, hk.symm]
  | cons e es ih =>
    by_cases he : e.1 = k
    · simp [assign, lookup, he, hk.symm]
    · simp only [assign, if_neg he, lookup, ih]

theorem lookup_drop_ne {k' : κ} (hk : k' ≠ k) : lookup k' (drop k es) = lookup k' es := by
  induction es with
  | nil => rfl
  | cons e es ih =>
    by_cases he : e.1 = k
    · simp [drop, lookup, he, hk.symm]
    · simp only [drop, if_neg he, lookup, ih]

theorem lookup_drop_self (hn : (es.map Prod.fst).Nodup) : lookup k (drop k es) = none := by
  induction es with
  | nil => rfl
  | cons e es ih =>
    rw [map_cons, nodup_cons] at hn
    by_cases he : e.1 = k
    · simp only [drop, if_pos he, lookup_eq_none_iff]
      exact he ▸ hn.1
    · simp only [drop, if_neg he, lookup, ih hn.2]

def empty : Dict κ α := ⟨[], nodup_nil⟩

variable (d : Dict κ α)

def get? (k : κ) : Option α := lookup k d.entries

def contains (k : κ) : Bool := (d.get? k).isSome

def set (k : κ) (v : α) : Dict κ α where
  entries := assign k v d.entries
  nodup := by
    rw [keys_assign]
    split
    · exact d.nodup
    · rename_i hk
      exact nodup_append.mpr ⟨d.nodup, by simp, by
        intro a ha b hb
        rw [mem_singleton.mp hb]
        exact fun he => hk (he ▸ ha)⟩

def erase (k : κ) : Dict κ α where
  entries := drop k d.entries
  nodup := d.nodup.sublist ((drop_sublist k d.entries).map Prod.fst)

def keys : List κ := d.entries.map Prod.fst

def values : List α := d.entries.map Prod.snd

@[simp] theorem get?_empty : (empty : Dict κ α).get? k = none := rfl

section

variable (d : Dict κ α)

@[simp] theorem get?_set_self : (d.set k v).get? k = some v :=
  lookup_assign_self

theorem get?_set_ne {k k' : κ} (hk : k' ≠ k) {v : α} : (d.set k v).get? k' = d.get? k' :=
  lookup_assign_ne hk

theorem get?_set {k' : κ} {v : α} : (d.set k v).get? k' = if k' = k then some v else d.get? k' := by
  by_cases hk : k' = k
  · rw [if_pos hk, hk, get?_set_self]
  · rw [if_neg hk, get?_set_ne d hk]

@[simp] theorem get?_erase_self : (d.erase k).get? k = none :=
  lookup_drop_self d.nodup

theorem get?_erase_ne {k k' : κ} (hk : k' ≠ k) : (d.erase k).get? k' = d.get? k' :=
  lookup_drop_ne hk

theorem get?_erase {k' : κ} : (d.erase k).get? k' = if k' = k then none else d.get? k' := by
  by_cases hk : k' = k
  · rw [if_pos hk, hk, get?_erase_self]
  · rw [if_neg hk, get?_erase_ne d hk]

theorem get?_eq_some_iff : d.get? k = some v ↔ (k, v) ∈ d.entries :=
  ⟨lookup_mem, lookup_of_mem d.nodup⟩

theorem get?_eq_none_iff : d.get? k = none ↔ k ∉ d.keys :=
  lookup_eq_none_iff k d.entries

theorem keys_set_of_mem {k : κ} (hk : k ∈ d.keys) : (d.set k v).keys = d.keys := by
  show (assign k v d.entries).map Prod.fst = d.keys
  rw [keys_assign]
  exact if_pos hk

end

/-! ## Weighted sums over the entries -/

section Sum

variable (w : κ → α → ℕ)

def entrySum (es : List (κ × α)) : ℕ := (es.map fun e => w e.1 e.2).sum

def keyWeight (k : κ) (v : Option α) : ℕ := v.elim 0 (w k)

theorem entrySum_assign (v : α) :
    entrySum w (assign k v es) + keyWeight w k (lookup k es) = entrySum w es + w k v := by
  induction es with
  | nil => simp [entrySum, assign, lookup, keyWeight]
  | cons e es ih =>
    simp only [entrySum] at ih ⊢
    by_cases he : e.1 = k
    · subst he
      simp only [assign, lookup, if_true, map_cons, sum_cons, keyWeight, Option.elim]
      omega
    · simp only [assign, lookup, if_neg he, map_cons, sum_cons]
      omega

theorem entrySum_drop : entrySum w (drop k es) + keyWeight w k (lookup k es) = entrySum w es := by
  induction es with
  | nil => simp [entrySum, drop, lookup, keyWeight]
  | cons e es ih =>
    simp only [entrySum] at ih ⊢
    by_cases he : e.1 = k
    · subst he
      simp only [drop, lookup, if_true, map_cons, sum_cons, keyWeight, Option.elim]
      omega
    · simp only [drop, lookup, if_neg he, map_cons, sum_cons]
      omega

def sum (d : Dict κ α) : ℕ := entrySum w d.entries

theorem sum_set (d : Dict κ α) (k : κ) (v : α) :
    (d.set k v).sum w + keyWeight w k (d.get? k) = d.sum w + w k v :=
  entrySum_assign w v

theorem sum_erase (d : Dict κ α) (k : κ) : (d.erase k).sum w + keyWeight w k (d.get? k) = d.sum w :=
  entrySum_drop w

theorem sum_eq_of_get? {w w' : κ → α → ℕ} {d d' : Dict κ α} (h : ∀ k, d'.get? k = d.get? k)
    (hw : ∀ k v, d.get? k = some v → w' k v = w k v) : d'.sum w' = d.sum w := by
  have hperm : d'.entries.Perm d.entries := by
    rw [perm_ext_iff_of_nodup d'.nodup.of_map d.nodup.of_map]
    rintro ⟨k, v⟩
    rw [← get?_eq_some_iff, ← get?_eq_some_iff, h k]
  calc (d'.entries.map fun e => w' e.1 e.2).sum
      = (d.entries.map fun e => w' e.1 e.2).sum := (hperm.map _).sum_eq
    _ = (d.entries.map fun e => w e.1 e.2).sum :=
        congrArg List.sum (map_congr_left fun e he =>
          hw e.1 e.2 ((d.get?_eq_some_iff).mpr he))

end Sum

end Dict

end VllmEcho.Lib
