import VllmEcho.KVCache.Basic
import VllmEcho.Lib.Dict
import VllmEcho.Lib.Runs

/-!
# The LRU cache

`vllm/utils/cache.py`: `LRUCache` over `cachetools`, whose `Cache` owns the values and whose
`LRUCache` owns the order of the keys.  `touch` writes to the order alone, so a key that is not
stored can come to stand there, and `popitem` then removes nothing.  The source has floats for the
capacity and the sizes; they are natural numbers here, as all sizes that it passes are.
-/

namespace VllmEcho

open Lib List

structure LRUCache (κ ν : Type) where
  capacity : Nat
  getsizeof : ν → Nat
  data : Dict κ ν
  order : List κ
  pinnedItems : List κ

namespace LRUCache

variable {κ ν : Type} [DecidableEq κ]

def init (capacity : Nat) (getsizeof : ν → Nat) : LRUCache κ ν :=
  ⟨capacity, getsizeof, Dict.empty, [], []⟩

variable (s : LRUCache κ ν)

def currsize : Nat := s.data.sum fun _ v => s.getsizeof v

variable (k : κ)

def touch : LRUCache κ ν :=
  { s with order := s.order.erase k ++ [k] }

def get (k : κ) : Option ν × LRUCache κ ν :=
  match s.data.get? k with
  | none => (none, s)
  | some v => (some v, s.touch k)

def delItem : LRUCache κ ν :=
  { s with
    data := s.data.erase k
    order := s.order.erase k
    pinnedItems := s.pinnedItems.filter (· ≠ k) }

def pop : Option ν × LRUCache κ ν :=
  match s.data.get? k with
  | none => (none, s)
  | some v => (some v, s.delItem k)

def popitem (removePinned : Bool) (s : LRUCache κ ν) :
    Except PyError ((κ × Option ν) × LRUCache κ ν) :=
  match s.order.find? fun k => removePinned || decide (k ∉ s.pinnedItems) with
  | none => .error (if removePinned then .stopIteration
      else .runtimeError "All items are pinned, cannot remove oldest from the cache.")
  | some k => .ok ((k, (s.pop k).1), (s.pop k).2)

/-- A loop that calls `popitem` until `done`.  The cache and the exception it leaves; `none` is a
loop that is still running. -/
def popUntil (done : LRUCache κ ν → Bool) (removePinned : Bool) :
    Nat → LRUCache κ ν → Option (LRUCache κ ν × Option PyError)
  | 0, _ => none
  | fuel + 1, s =>
    if done s then some (s, none)
    else match s.popitem removePinned with
      | .error e => some (s, some e)
      | .ok (_, s) => popUntil done removePinned fuel s

def makeRoom (size : Nat) : Nat → LRUCache κ ν → Option (LRUCache κ ν × Option PyError) :=
  popUntil (fun s => s.currsize + size ≤ s.capacity) false

def clear : Nat → LRUCache κ ν → Option (LRUCache κ ν × Option PyError) :=
  popUntil (fun s => s.data.keys.isEmpty) true

def grows (v : ν) : Bool :=
  match s.data.get? k with
  | none => true
  | some v₀ => s.getsizeof v₀ < s.getsizeof v

def store (v : ν) : LRUCache κ ν :=
  { s with data := s.data.set k v }.touch k

def put (fuel : Nat) (s : LRUCache κ ν) (k : κ) (v : ν) : Option (LRUCache κ ν × Option PyError) :=
  if s.capacity < s.getsizeof v then some (s, some (.valueError "value too large"))
  else if s.grows k v then
    match makeRoom (s.getsizeof v) fuel s with
    | none => none
    | some (s, some e) => some (s, some e)
    | some (s, none) => some (s.store k v, none)
  else some (s.store k v, none)

def pin [ToString κ] (s : LRUCache κ ν) (k : κ) : LRUCache κ ν × Option PyError :=
  if s.data.contains k then ({ s with pinnedItems := k :: s.pinnedItems }, none)
  else (s, some (.valueError ("Cannot pin key: " ++ toString k ++ " not in cache.")))

inductive Call (κ ν : Type) where
  | get (k : κ)
  | put (k : κ) (v : ν)
  | touch (k : κ)
  | pin (k : κ)
  | pop (k : κ)
  | popitem
  | clear

def exec [ToString κ] (fuel : Nat) (s : LRUCache κ ν) :
    Call κ ν → Option (LRUCache κ ν × Option PyError)
  | .get k => some ((s.get k).2, none)
  | .put k v => put fuel s k v
  | .touch k => some (s.touch k, none)
  | .pin k => some (s.pin k)
  | .pop k => some ((s.pop k).2, none)
  | .popitem => match s.popitem false with
    | .error e => some (s, some e)
    | .ok (_, s) => some (s, none)
  | .clear => clear fuel s

def TouchesStored : Call κ ν → Prop
  | .touch k => k ∈ s.data.keys
  | _ => True

/-- The order has the stored keys, pinned items are stored, and the items fit. -/
structure Sound : Prop where
  nodup : s.order.Nodup
  order : ∀ k, k ∈ s.order ↔ k ∈ s.data.keys
  pinned : ∀ k ∈ s.pinnedItems, k ∈ s.data.keys
  fits : s.currsize ≤ s.capacity

def AllPinned : Prop := s.data.keys ≠ [] ∧ ∀ k ∈ s.data.keys, k ∈ s.pinnedItems

section

variable {s : LRUCache κ ν} {k : κ} {v : ν}

theorem mem_keys_iff {d : Dict κ ν} : k ∈ d.keys ↔ ∃ v, d.get? k = some v := by
  rw [← not_iff_not, ← Dict.get?_eq_none_iff, Option.eq_none_iff_forall_ne_some, not_exists]

theorem mem_keys_erase {d : Dict κ ν} {q : κ} : q ∈ (d.erase k).keys ↔ q ≠ k ∧ q ∈ d.keys := by
  rw [mem_keys_iff, mem_keys_iff, Dict.get?_erase]
  by_cases hq : q = k <;> simp [hq]

theorem mem_keys_set {d : Dict κ ν} {q : κ} : q ∈ (d.set k v).keys ↔ q = k ∨ q ∈ d.keys := by
  rw [mem_keys_iff, mem_keys_iff, Dict.get?_set]
  by_cases hq : q = k <;> simp [hq]

omit [DecidableEq κ] in
theorem currsize_of_empty (h : s.data.keys = []) : s.currsize = 0 := by
  rw [currsize, Dict.sum, map_eq_nil_iff.mp h]
  rfl

theorem nodup_touch (h : s.order.Nodup) : (s.touch k).order.Nodup :=
  nodup_append_comm.mp (nodup_cons.mpr ⟨h.not_mem_erase, h.erase k⟩)

theorem mem_touch {q : κ} : q ∈ (s.touch k).order ↔ q = k ∨ q ∈ s.order := by
  rw [touch, mem_append]
  by_cases hq : q = k <;> simp [hq]

section

variable (h : s.Sound)
include h

theorem Sound.touch (hk : k ∈ s.data.keys) : (s.touch k).Sound := by
  refine ⟨nodup_touch h.nodup, fun q => ?_, h.pinned, h.fits⟩
  rw [mem_touch, h.order]
  exact ⟨fun hq => hq.elim (fun hqk => hqk ▸ hk) id, Or.inr⟩

theorem Sound.delItem (hk : k ∈ s.data.keys) : (s.delItem k).Sound ∧
      ((s.delItem k).data.sum fun _ _ => 1) + 1 = s.data.sum fun _ _ => 1 := by
  obtain ⟨v, hv⟩ := mem_keys_iff.mp hk
  have hsize := s.data.sum_erase (fun _ v => s.getsizeof v) k
  have hcount := s.data.sum_erase (fun _ _ => 1) k
  rw [hv, Dict.keyWeight] at hsize hcount
  refine ⟨⟨h.nodup.erase k, fun q => ?_, fun q hq => ?_, ?_⟩, hcount⟩
  · show q ∈ s.order.erase k ↔ q ∈ (s.data.erase k).keys
    rw [h.nodup.mem_erase_iff, h.order, mem_keys_erase]
  · obtain ⟨hq, hne⟩ := mem_filter.mp hq
    exact mem_keys_erase.mpr ⟨of_decide_eq_true hne, h.pinned q hq⟩
  · have hfits : s.data.sum (fun _ v => s.getsizeof v) ≤ s.capacity := h.fits
    show (s.data.erase k).sum (fun _ v => s.getsizeof v) ≤ s.capacity
    omega

theorem Sound.popitem (removePinned : Bool) :
    (∃ k v, s.data.get? k = some v ∧ s.popitem removePinned = .ok ((k, some v), s.delItem k)) ∨
      (∃ e, s.popitem removePinned = .error e) ∧
        ∀ k ∈ s.data.keys, removePinned = false ∧ k ∈ s.pinnedItems := by
  rw [LRUCache.popitem]
  cases hfind : s.order.find? fun k => removePinned || decide (k ∉ s.pinnedItems) with
  | none =>
    refine Or.inr ⟨⟨_, rfl⟩, fun k hk => ?_⟩
    have hkept := find?_eq_none.mp hfind k ((h.order k).mpr hk)
    simpa using hkept
  | some k =>
    obtain ⟨v, hv⟩ := mem_keys_iff.mp ((h.order k).mp (mem_of_find?_eq_some hfind))
    refine Or.inl ⟨k, v, hv, ?_⟩
    simp only [pop, hv]

/-- Every turn of the loop removes an item, until it is done or only pinned items are left. -/
theorem Sound.popUntil (done : LRUCache κ ν → Bool) (removePinned : Bool) :
    ∃ fuel s' e, popUntil done removePinned fuel s = some (s', e) ∧ s'.Sound ∧
      s'.capacity = s.capacity ∧ s'.getsizeof = s.getsizeof ∧ (e = none → done s' = true) ∧
      (e ≠ none → done s' = false ∧ ∀ k ∈ s'.data.keys, removePinned = false ∧
        k ∈ s'.pinnedItems) := by
  -- on the number of stored items
  induction hcount : s.data.sum (fun _ _ => 1) using Nat.strong_induction_on generalizing s with
  | _ n ih =>
    cases hdone : done s with
    | true =>
      exact ⟨1, s, none, by rw [LRUCache.popUntil, if_pos hdone], h, rfl, rfl, fun _ => hdone,
        fun hno => absurd rfl hno⟩
    | false =>
      have hgo : ¬ done s = true := by rw [hdone]; exact Bool.false_ne_true
      rcases h.popitem removePinned with ⟨k, v, hv, hpop⟩ | ⟨⟨e, hpop⟩, hpinned⟩
      · obtain ⟨hdel, hlen⟩ := h.delItem (mem_keys_iff.mpr ⟨v, hv⟩)
        obtain ⟨fuel, s', e, hloop, hspec⟩ := ih _ (by omega) hdel rfl
        exact ⟨fuel + 1, s', e, by rw [LRUCache.popUntil, if_neg hgo, hpop]; exact hloop, hspec⟩
      · exact ⟨1, s, some e, by rw [LRUCache.popUntil, if_neg hgo, hpop], h, rfl, rfl, nofun,
          fun _ => ⟨hdone, hpinned⟩⟩

theorem Sound.makeRoom {size : Nat} (hsize : size ≤ s.capacity) :
    ∃ fuel s' e, makeRoom size fuel s = some (s', e) ∧ s'.Sound ∧ s'.capacity = s.capacity ∧
      s'.getsizeof = s.getsizeof ∧ (e = none → s'.currsize + size ≤ s'.capacity) ∧
      (e ≠ none → s'.AllPinned) := by
  obtain ⟨fuel, s', e, hloop, hsound, hcap, hof, hdone, herror⟩ :=
    h.popUntil (fun s => s.currsize + size ≤ s.capacity) false
  refine ⟨fuel, s', e, hloop, hsound, hcap, hof, fun he => of_decide_eq_true (hdone he),
    fun he => ?_⟩
  obtain ⟨hfull, hpinned⟩ := herror he
  refine ⟨fun hempty => of_decide_eq_false hfull ?_, fun k hk => (hpinned k hk).2⟩
  rw [currsize_of_empty hempty]
  omega

theorem Sound.store (hfits : (s.data.set k v).sum (fun _ v => s.getsizeof v) ≤ s.capacity) :
    (s.store k v).Sound ∧ (s.store k v).data.get? k = some v := by
  refine ⟨⟨nodup_touch h.nodup, fun q => ?_, fun q hq => ?_, hfits⟩, Dict.get?_set_self ..⟩
  · have htouch : q ∈ (s.store k v).order ↔ q = k ∨ q ∈ s.order := mem_touch
    exact htouch.trans ((or_congr_right (h.order q)).trans mem_keys_set.symm)
  · exact mem_keys_set.mpr (Or.inr (h.pinned q hq))

/-- Storing an item that fits succeeds, unless every item of the cache is pinned. -/
theorem Sound.put (hsize : s.getsizeof v ≤ s.capacity) :
    ∃ fuel s' e, LRUCache.put fuel s k v = some (s', e) ∧ s'.Sound ∧
      (e = none → s'.data.get? k = some v) ∧ (e ≠ none → s'.AllPinned) := by
  have hset (s' : LRUCache κ ν) := s'.data.sum_set (fun _ v => s'.getsizeof v) k v
  simp only [LRUCache.put, if_neg (Nat.not_lt.mpr hsize)]
  by_cases hgrows : s.grows k v = true
  · obtain ⟨fuel, s', e, hroom, hsound, hcap, hof, hfits, hpinned⟩ := h.makeRoom hsize
    refine ⟨fuel, ?_⟩
    rw [if_pos hgrows, hroom]
    cases e with
    | some e => exact ⟨s', some e, rfl, hsound, nofun, hpinned⟩
    | none =>
      have hroom' : s'.data.sum (fun _ v => s'.getsizeof v) + s.getsizeof v ≤ s'.capacity :=
        hfits rfl
      have hset' := hset s'
      rw [hof] at hset' hroom'
      obtain ⟨hstored, hget⟩ := hsound.store (k := k) (v := v) (by rw [hof]; omega)
      exact ⟨_, none, rfl, hstored, fun _ => hget, fun hno => absurd rfl hno⟩
  -- a value that does not grow replaces the old one
  obtain ⟨v₀, hv₀, hle⟩ : ∃ v₀, s.data.get? k = some v₀ ∧ s.getsizeof v ≤ s.getsizeof v₀ := by
    rw [grows] at hgrows
    cases hv₀ : s.data.get? k with
    | none => simp [hv₀] at hgrows
    | some v₀ => exact ⟨v₀, rfl, by simpa [hv₀] using hgrows⟩
  have hset' := hset s
  rw [hv₀, Dict.keyWeight, Option.elim] at hset'
  have hfits : s.data.sum (fun _ v => s.getsizeof v) ≤ s.capacity := h.fits
  obtain ⟨hstored, hget⟩ := h.store (k := k) (v := v) (by omega)
  exact ⟨0, _, none, if_neg hgrows, hstored, fun _ => hget, fun hno => absurd rfl hno⟩

theorem Sound.clear : ∃ fuel s' e, LRUCache.clear fuel s = some (s', e) ∧ s'.Sound := by
  obtain ⟨fuel, s', e, hloop, hsound, -⟩ := h.popUntil (fun s => s.data.keys.isEmpty) true
  exact ⟨fuel, s', e, hloop, hsound⟩

end

end

/-- `put` has stored an item that is not larger than the cache, and `popitem` has removed a stored
item, unless there is none or all are pinned. -/
def Leaves (s s' : LRUCache κ ν) (e : Option PyError) : Call κ ν → Prop
  | .put k v => s.getsizeof v ≤ s.capacity → e = none ∧ s'.data.get? k = some v ∨ s'.AllPinned
  | .popitem => (∃ k v, e = none ∧ s.data.get? k = some v ∧ s'.data = s.data.erase k) ∨
    s.data.keys = [] ∨ s.AllPinned
  | _ => True

variable [ToString κ]

/-- What the cache promises of a call: it returns, the order has the stored keys and the items
fit. -/
def Keeps (call : Call κ ν) : Prop :=
  ∃ fuel s' e, exec fuel s call = some (s', e) ∧
    (∀ k, k ∈ s'.order ↔ k ∈ s'.data.keys) ∧ s'.currsize ≤ s'.capacity ∧ s.Leaves s' e call

def ReachedTouching (capacity : Nat) (getsizeof : ν → Nat) : LRUCache κ ν → Prop :=
  Reaches (· = init capacity getsizeof) (fun s call s' => ∃ fuel e, exec fuel s call = some (s', e))
    TouchesStored

section

variable {s s' : LRUCache κ ν} {call : Call κ ν}

/-- One call leaves behind what the specification of the cache says. -/
theorem Sound.keeps (h : s.Sound) (htouch : s.TouchesStored call) :
    ∃ fuel s' e, exec fuel s call = some (s', e) ∧ s'.Sound ∧ s.Leaves s' e call := by
  cases call with
  | get k =>
    refine ⟨0, _, none, rfl, ?_, trivial⟩
    rw [LRUCache.get]
    cases hv : s.data.get? k with
    | none => exact h
    | some v => exact h.touch (mem_keys_iff.mpr ⟨v, hv⟩)
  | put k v =>
    by_cases hsize : s.getsizeof v ≤ s.capacity
    · obtain ⟨fuel, s', e, hput, hsound, hget, hpinned⟩ := h.put hsize
      refine ⟨fuel, s', e, hput, hsound, fun _ => ?_⟩
      by_cases he : e = none
      · exact Or.inl ⟨he, hget he⟩
      · exact Or.inr (hpinned he)
    · exact ⟨0, s, _, if_pos (Nat.lt_of_not_le hsize), h, fun hle => absurd hle hsize⟩
  | touch k => exact ⟨0, _, none, rfl, h.touch htouch, trivial⟩
  | pin k =>
    refine ⟨0, (s.pin k).1, (s.pin k).2, rfl, ?_, trivial⟩
    rw [pin]
    split
    · rename_i hk
      refine ⟨h.nodup, h.order, fun q hq => ?_, h.fits⟩
      rcases mem_cons.mp hq with rfl | hq
      · exact mem_keys_iff.mpr (Option.isSome_iff_exists.mp hk)
      · exact h.pinned q hq
    · exact h
  | pop k =>
    refine ⟨0, _, none, rfl, ?_, trivial⟩
    rw [LRUCache.pop]
    cases hv : s.data.get? k with
    | none => exact h
    | some v => exact (h.delItem (mem_keys_iff.mpr ⟨v, hv⟩)).1
  | popitem =>
    simp only [exec]
    rcases h.popitem false with ⟨k, v, hv, hpop⟩ | ⟨⟨e, hpop⟩, hpinned⟩
    · rw [hpop]
      exact ⟨0, _, none, rfl, (h.delItem (mem_keys_iff.mpr ⟨v, hv⟩)).1,
        Or.inl ⟨k, v, rfl, hv, rfl⟩⟩
    · rw [hpop]
      refine ⟨0, s, some e, rfl, h, Or.inr ?_⟩
      by_cases hempty : s.data.keys = []
      · exact Or.inl hempty
      · exact Or.inr ⟨hempty, fun k hk => (hpinned k hk).2⟩
  | clear =>
    obtain ⟨fuel, s', e, hclear, hsound⟩ := h.clear
    exact ⟨fuel, s', e, hclear, hsound, trivial⟩

omit [ToString κ] in
/-- More fuel does not change a result. -/
theorem popUntil_mono {done : LRUCache κ ν → Bool} {removePinned : Bool} {fuel fuel' : Nat}
    {r : LRUCache κ ν × Option PyError} (hrun : popUntil done removePinned fuel s = some r)
    (hle : fuel ≤ fuel') : popUntil done removePinned fuel' s = some r := by
  induction fuel generalizing s fuel' with
  | zero => cases hrun
  | succ fuel ih =>
    obtain ⟨n, rfl⟩ := Nat.exists_eq_add_of_le' hle
    rw [← Nat.add_assoc, popUntil]
    rw [popUntil] at hrun
    split
    · rwa [if_pos ‹_›] at hrun
    rw [if_neg ‹_›] at hrun
    cases hpop : s.popitem removePinned with
    | error e => rwa [hpop] at hrun
    | ok x =>
      rw [hpop] at hrun
      exact ih hrun (Nat.le_add_left ..)

theorem exec_mono {fuel fuel' : Nat} {r : LRUCache κ ν × Option PyError}
    (hrun : exec fuel s call = some r) (hle : fuel ≤ fuel') : exec fuel' s call = some r := by
  cases call with
  | put k v =>
    simp only [exec, put] at hrun ⊢
    split
    · rwa [if_pos ‹_›] at hrun
    rw [if_neg ‹_›] at hrun
    split
    · rw [if_pos ‹_›] at hrun
      cases hroom : makeRoom (s.getsizeof v) fuel s with
      | none => rw [hroom] at hrun; cases hrun
      | some x =>
        have hroom' : makeRoom (s.getsizeof v) fuel' s = some x := popUntil_mono hroom hle
        rwa [hroom'.trans hroom.symm]
    · rwa [if_neg ‹_›] at hrun
  | clear => exact popUntil_mono hrun hle
  | get k => exact hrun
  | touch k => exact hrun
  | pin k => exact hrun
  | pop k => exact hrun
  | popitem => exact hrun

theorem ReachedTouching.sound {capacity : Nat} {getsizeof : ν → Nat}
    (hrun : ReachedTouching capacity getsizeof s) : s.Sound := by
  apply hrun.invariant
  · rintro s rfl
    exact ⟨nodup_nil, fun k => Iff.rfl, nofun, Nat.zero_le capacity⟩
  · rintro s call s' hs htouch ⟨fuel, e, hexec⟩
    obtain ⟨fuel₁, s₁, e₁, hexec₁, hsound, -⟩ := hs.keeps htouch
    have hsame := exec_mono hexec (Nat.le_max_left fuel fuel₁)
    rw [exec_mono hexec₁ (Nat.le_max_right fuel fuel₁), Option.some.injEq, Prod.mk.injEq] at hsame
    exact hsame.1 ▸ hsound

end

/-- Along every run that touches stored keys only, a call keeps the promises of the cache exactly
when it touches a stored key itself. -/
theorem lruCache_keeps_iff {capacity : Nat} {getsizeof : ν → Nat} {s : LRUCache κ ν}
    (hrun : ReachedTouching capacity getsizeof s) (call : Call κ ν) :
    s.Keeps call ↔ s.TouchesStored call := by
  constructor
  · intro hkeeps
    cases call with
    | touch k =>
      obtain ⟨fuel, s', e, hexec, horder, -⟩ := hkeeps
      cases hexec
      -- the touched key is in the order of the cache
      exact (horder k).mp (mem_append_right _ mem_cons_self)
    | _ => trivial
  · intro htouch
    obtain ⟨fuel, s', e, hexec, hsound, hspec⟩ := hrun.sound.keeps htouch
    exact ⟨fuel, s', e, hexec, hsound.order, hsound.fits, hspec⟩

def evictedSecond : LRUCache Nat Nat :=
  (((((init 2 id).store 0 1).store 1 1).touch 0).delItem 1).store 2 1

/-- The touched item survives an eviction. -/
theorem lruCache_keeps_touch : ReachedTouching 2 id evictedSecond ∧
    evictedSecond.data.keys = [0, 2] ∧ evictedSecond.Keeps (.touch 0) := by
  have hzero : ReachedTouching 2 id ((init 2 id : LRUCache Nat Nat).store 0 1) :=
    Reaches.next (i := .put 0 1) (.start rfl) trivial ⟨1, none, rfl⟩
  have hone : ReachedTouching 2 id (((init 2 id : LRUCache Nat Nat).store 0 1).store 1 1) :=
    Reaches.next (i := .put 1 1) hzero trivial ⟨1, none, rfl⟩
  have htouched : ReachedTouching 2 id
      ((((init 2 id : LRUCache Nat Nat).store 0 1).store 1 1).touch 0) :=
    Reaches.next (i := .touch 0) hone (show 0 ∈ [0, 1] by decide) ⟨1, none, rfl⟩
  have hrun : ReachedTouching 2 id evictedSecond :=
    Reaches.next (i := .put 2 1) htouched trivial ⟨2, none, rfl⟩
  exact ⟨hrun, rfl, (lruCache_keeps_iff hrun (.touch 0)).mpr (show 0 ∈ [0, 2] by decide)⟩

def touchedAbsent : LRUCache Nat Nat := ((init 1 id).touch 0).store 1 1

/-- The touched key stands before the stored one: `popitem` removes nothing, and `put` never
returns. -/
theorem touchedAbsent_put_never_returns :
    exec 1 ((init 1 id).touch 0) (.put 1 1) = some (touchedAbsent, none) ∧
      ∀ fuel, exec fuel touchedAbsent (.put 2 1) = none := by
  refine ⟨rfl, fun fuel => ?_⟩
  have hstuck : makeRoom (touchedAbsent.getsizeof 1) fuel touchedAbsent = none := by
    induction fuel with
    | zero => rfl
    | succ fuel ih => exact ih
  rw [exec, put, if_neg (by decide), if_pos (by decide), hstuck]

end LRUCache

end VllmEcho
