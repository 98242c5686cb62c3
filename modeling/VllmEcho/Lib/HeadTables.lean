import Mathlib

/-!
# Tables of heads

A block of memory holds rows, a row holds sections and a section holds heads of one width.  Blocks
of the same shape that hold consecutive heads are copied into one block that holds the heads of all
of them.
-/

namespace VllmEcho.Lib

open List

variable {α β γ : Type}

/-- Consecutive spans of one length join. -/
theorem flatMap_range_span (start step n : Nat) :
    ((range n).flatMap fun i => range' (start + i * step) step) = range' start (n * step) := by
  induction n with
  | zero => rw [Nat.zero_mul]; rfl
  | succ n ih =>
    rw [range_succ, flatMap_append, ih, flatMap_singleton, range'_append_1, Nat.succ_mul]

theorem flatMap_comm_perm (xs : List α) (ys : List β) (f : α → β → List γ) :
    (xs.flatMap fun x => ys.flatMap (f x)) ~ ys.flatMap fun y => xs.flatMap fun x => f x y := by
  have hbind := Multiset.bind_bind (xs : Multiset α) (ys : Multiset β)
    (f := fun x y => (f x y : Multiset γ))
  simp only [Multiset.coe_bind] at hbind
  exact Multiset.coe_eq_coe.mp hbind

theorem mul_add_lt {i m o n : Nat} (hi : i < m) (ho : o < n) : i * n + o < m * n :=
  calc i * n + o < i * n + n := Nat.add_lt_add_left ho _
    _ = (i + 1) * n := (Nat.succ_mul i n).symm
    _ ≤ m * n := Nat.mul_le_mul_right n hi

structure Transfer where
  src : Nat
  dst : Nat
  length : Nat

def Transfer.written (t : Transfer) : List Nat := range' t.dst t.length

def Carried (ts : List Transfer) (src dst : Nat) : Prop :=
  ∃ t ∈ ts, ∃ o < t.length, src = t.src + o ∧ dst = t.dst + o

structure HeadTable where
  rows : Nat
  sections : List (Nat × Nat)
  unit : Nat

namespace HeadTable

variable (T : HeadTable) (ratio : Nat)

def sizes : List Nat := T.sections.map fun s => s.1 * s.2

def width : Nat := T.sizes.sum

def start (j : Nat) : Nat := (T.sizes.take j).sum

def length : Nat := T.unit * (T.rows * T.width)

def place (row j head : Nat) : Nat :=
  let s := T.sections.getD j (0, 0)
  row * T.width + T.start j + head % s.1 * s.2

def widen : HeadTable := { T with sections := T.sections.map fun s => (s.1 * ratio, s.2) }

def send (r src dst : Nat) : List Transfer :=
  if ratio = 1 then [⟨src, dst, T.length⟩]
  else (range T.rows).flatMap fun i => (range T.sizes.length).map fun j =>
    let size := T.sizes.getD j 0
    { src := src + (i * T.width + T.start j) * T.unit
      dst := dst + ((i * T.width + T.start j) * ratio + r * size) * T.unit
      length := size * T.unit }

variable {T ratio}

theorem sizes_widen : (T.widen ratio).sizes = T.sizes.map (· * ratio) := by
  simp only [sizes, widen, map_map]
  apply map_congr_left
  intro s _
  exact Nat.mul_right_comm _ _ _

theorem width_widen : (T.widen ratio).width = T.width * ratio := by
  rw [width, sizes_widen, sum_map_mul_right, map_id']
  rfl

theorem start_widen (j : Nat) : (T.widen ratio).start j = T.start j * ratio := by
  rw [start, sizes_widen, ← map_take, sum_map_mul_right, map_id']
  rfl

theorem length_widen : (T.widen ratio).length = T.rows * (T.width * (ratio * T.unit)) := by
  rw [length, width_widen]
  simp only [widen]
  ring

theorem start_succ {j : Nat} (hj : j < T.sizes.length) :
    T.start (j + 1) = T.start j + T.sizes.getD j 0 := by
  rw [start, sum_take_succ _ _ hj, getD_eq_getElem?_getD, getElem?_eq_getElem hj]
  rfl

theorem start_le_width (j : Nat) : T.start j ≤ T.width := Nat.le.intro (sum_take_add_sum_drop _ j)

/-- The sections of a row stand one after the other. -/
theorem sections_join (base m : Nat) {n : Nat} (hn : n ≤ T.sizes.length) :
    ((range n).flatMap fun j => range' (base + T.start j * m) (T.sizes.getD j 0 * m)) =
      range' base (T.start n * m) := by
  induction n with
  | zero => rw [start, take_zero, sum_nil, Nat.zero_mul]; rfl
  | succ n ih =>
    rw [range_succ, flatMap_append, ih (by omega), flatMap_singleton, range'_append_1,
      start_succ (by omega), Nat.add_mul]

/-- The ranks together write every place of the wider table exactly once. -/
theorem send_tile (src : Nat → Nat) (dst : Nat) :
    ((range ratio).flatMap fun r => (T.send ratio r (src r) dst).flatMap Transfer.written) ~
      range' dst (T.widen ratio).length := by
  have hparts : ∀ i j, ((range ratio).flatMap fun r => range'
      (dst + ((i * T.width + T.start j) * ratio + r * T.sizes.getD j 0) * T.unit)
      (T.sizes.getD j 0 * T.unit)) =
      range' (dst + i * (T.width * (ratio * T.unit)) + T.start j * (ratio * T.unit))
        (T.sizes.getD j 0 * (ratio * T.unit)) := by
    intro i j
    rw [Nat.mul_left_comm (T.sizes.getD j 0), ← flatMap_range_span]
    apply flatMap_congr
    intro r _
    congr 1
    ring
  rw [length_widen]
  unfold send
  split
  · next hone =>
    have hlen : T.length = T.rows * (T.width * (ratio * T.unit)) := by
      rw [length, hone]
      ring
    rw [← hlen, hone, range_one]
    simp only [flatMap_singleton, Transfer.written]
    rfl
  · simp only [flatMap_assoc, flatMap_map, Transfer.written]
    -- the wide table row by row, with the blocks inside each section
    refine (flatMap_comm_perm _ _ _).trans
      ((Perm.flatMap_left _ fun i _ => flatMap_comm_perm _ _ _).trans ?_)
    have hwidth : T.start T.sizes.length = T.width := by rw [start, take_length, width]
    simp only [hparts, sections_join _ _ le_rfl, hwidth, flatMap_range_span]
    rfl

variable {row j head y heads dim : Nat}

theorem place_eq (hj : T.sections[j]? = some (heads, dim)) :
    T.place row j head = row * T.width + T.start j + head % heads * dim := by
  rw [place, getD_eq_getElem?_getD, hj]
  rfl

theorem sizes_eq (hj : T.sections[j]? = some (heads, dim)) :
    j < T.sizes.length ∧ T.sizes.getD j 0 = heads * dim := by
  rw [sizes, getD_eq_getElem?_getD, getElem?_map, hj, length_map]
  exact ⟨(List.getElem?_eq_some_iff.mp hj).1, rfl⟩

/-- Each element of a head is carried to the place of that head in the wider table. -/
theorem send_carried (src dst : Nat) (hj : T.sections[j]? = some (heads, dim)) (hrow : row < T.rows)
    (hheads : 0 < heads) (hy : y < dim * T.unit) :
    Carried (T.send ratio (head / heads % ratio) src dst) (src + T.place row j head * T.unit + y)
      (dst + (T.widen ratio).place row j head * T.unit + y) := by
  have hwide : (T.widen ratio).sections[j]? = some (heads * ratio, dim) := by
    rw [widen, getElem?_map, hj]
    rfl
  obtain ⟨hlt, hsize⟩ := sizes_eq hj
  have ho : head % heads * (dim * T.unit) + y < heads * (dim * T.unit) :=
    mul_add_lt (Nat.mod_lt _ hheads) hy
  rw [place_eq hj, place_eq hwide, width_widen, start_widen, Nat.mod_mul, send]
  split
  · next hone =>
    refine ⟨_, mem_singleton_self _, (row * T.width + T.start j + head % heads * dim) *
      T.unit + y, ?_, Nat.add_assoc _ _ _, ?_⟩
    · have hrest : T.start j * T.unit + (head % heads * (dim * T.unit) + y) < T.width * T.unit :=
        calc _ < T.start j * T.unit + heads * (dim * T.unit) := Nat.add_lt_add_left ho _
          _ = T.start (j + 1) * T.unit := by rw [start_succ hlt, hsize]; ring
          _ ≤ T.width * T.unit := Nat.mul_le_mul_right _ (start_le_width _)
      calc _ = row * (T.width * T.unit) +
          (T.start j * T.unit + (head % heads * (dim * T.unit) + y)) :=
            by ring
        _ < T.rows * (T.width * T.unit) := mul_add_lt hrow hrest
        _ = T.length := by rw [length]; ring
    · rw [hone, Nat.mod_one]
      ring
  · refine ⟨_, mem_flatMap.mpr ⟨row, mem_range.mpr hrow, mem_map_of_mem (mem_range.mpr hlt)⟩,
      head % heads * (dim * T.unit) + y, ?_, ?_, ?_⟩
    · show _ < T.sizes.getD j 0 * T.unit
      rw [hsize, Nat.mul_assoc]
      exact ho
    · ring
    · rw [hsize]
      ring

end HeadTable

end VllmEcho.Lib
