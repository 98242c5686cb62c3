import Mathlib

/-!
# Rows that are filled, cleared and moved

A table of rows is a function from row numbers to values with a default value for rows that are
not in use.  An update of the table fills rows, clears rows and then moves rows, one way or as a
swap.  An update can be replayed on every table that is a pointwise image of the first one.
-/

namespace VllmEcho.Lib

open Function List

variable {V W : Type}

inductive MoveDirectionality where
  | unidirectional
  | swap
  deriving DecidableEq

structure Move where
  src : Nat
  dst : Nat
  direction : MoveDirectionality
  deriving DecidableEq

def fillRows (f : Nat → V) (added : List (Nat × V)) : Nat → V :=
  added.foldl (fun f a => update f a.1 a.2) f

variable (d : V) (f : Nat → V) (removed : List Nat)

def clearRows (f : Nat → V) (removed : List Nat) : Nat → V :=
  removed.foldl (fun f i => update f i d) f

def moveRow (f : Nat → V) (m : Move) : Nat → V :=
  match m.direction with
  | .unidirectional => update (update f m.src d) m.dst (f m.src)
  | .swap => update (update f m.src (f m.dst)) m.dst (f m.src)

def moveRows (f : Nat → V) (moved : List Move) : Nat → V :=
  moved.foldl (moveRow d) f

def replayRows (f : Nat → V) (added : List (Nat × V)) (removed : List Nat) (moved : List Move) :
    Nat → V :=
  moveRows d (clearRows d (fillRows f added) removed) moved

variable {i : Nat}

theorem fillRows_concat (added : List (Nat × V)) (v : V) :
    fillRows f (added ++ [(i, v)]) = update (fillRows f added) i v := by
  unfold fillRows
  rw [foldl_append]
  rfl

variable {ms : List Move}

theorem moveRows_append (ns : List Move) :
    moveRows d f (ms ++ ns) = moveRows d (moveRows d f ms) ns := foldl_append

theorem moveRows_cons (m : Move) : moveRows d f (m :: ms) = moveRows d (moveRow d f m) ms := rfl

theorem clearRows_apply : clearRows d f removed i = if i ∈ removed then d else f i := by
  induction removed generalizing f with
  | nil => rfl
  | cons j removed ih =>
    show clearRows d (update f j d) removed i = _
    rw [ih]
    by_cases hij : i = j
    · rw [hij, update_self, if_pos mem_cons_self, ite_self]
    · simp [hij]

theorem moveRow_of_ne {m : Move} (hsrc : i ≠ m.src) (hdst : i ≠ m.dst) : moveRow d f m i = f i := by
  unfold moveRow
  cases m.direction <;> dsimp only <;> rw [update_of_ne hdst, update_of_ne hsrc]

theorem moveRows_congr {f g : Nat → V} {S : Nat → Prop} (hfg : ∀ i, ¬ S i → f i = g i)
    (hms : ∀ m ∈ ms, ¬ S m.src ∧ ¬ S m.dst) :
    ∀ i, ¬ S i → moveRows d f ms i = moveRows d g ms i := by
  induction ms generalizing f g with
  | nil => exact hfg
  | cons m ms ih =>
    have hm := hms m mem_cons_self
    apply ih
    · intro i hi
      unfold moveRow
      cases m.direction with
      | unidirectional =>
        simp only [update_apply, hfg _ hm.1, hfg i hi]
      | swap =>
        simp only [update_apply, hfg _ hm.1, hfg _ hm.2, hfg i hi]
    · exact fun n hn => hms n (mem_cons_of_mem _ hn)

theorem replayRows_empty (moved : List Move) :
    replayRows d (fun _ => d) [] removed moved = fun _ => d := by
  have hclear : clearRows d (fun _ => d) removed = fun _ => d := by
    funext i
    rw [clearRows_apply, ite_self]
  have hmove : ∀ m, moveRow d (fun _ => d) m = fun _ => d := by
    intro m
    unfold moveRow
    cases m.direction <;> dsimp only <;> funext i <;>
      rw [update_apply, update_apply, ite_self, ite_self]
  show moveRows d (clearRows d (fun _ => d) removed) moved = _
  rw [hclear]
  induction moved with
  | nil => rfl
  | cons m moved ih => rw [moveRows_cons, hmove, ih]

/-! ## Pointwise images -/

section Map

variable (φ : V → W)

theorem comp_fillRows {f : Nat → V} (added : List (Nat × V)) :
    φ ∘ fillRows f added = fillRows (φ ∘ f) (added.map fun a => (a.1, φ a.2)) := by
  induction added generalizing f with
  | nil => rfl
  | cons a added ih =>
    show φ ∘ fillRows (update f a.1 a.2) added = _
    rw [ih, comp_update]
    rfl

theorem comp_clearRows {d : V} {f : Nat → V} (removed : List Nat) :
    φ ∘ clearRows d f removed = clearRows (φ d) (φ ∘ f) removed := by
  induction removed generalizing f with
  | nil => rfl
  | cons i removed ih =>
    show φ ∘ clearRows d (update f i d) removed = _
    rw [ih, comp_update]
    rfl

theorem comp_moveRows {d : V} {f : Nat → V} (moved : List Move) :
    φ ∘ moveRows d f moved = moveRows (φ d) (φ ∘ f) moved := by
  induction moved generalizing f with
  | nil => rfl
  | cons m moved ih =>
    rw [moveRows_cons, ih, moveRows_cons]
    unfold moveRow
    cases m.direction <;> simp only [comp_update, comp_apply]

theorem comp_replayRows (d : V) (f : Nat → V) (added : List (Nat × V)) (removed : List Nat)
    (moved : List Move) : φ ∘ replayRows d f added removed moved =
      replayRows (φ d) (φ ∘ f) (added.map fun a => (a.1, φ a.2)) removed moved := by
  unfold replayRows
  rw [comp_moveRows, comp_clearRows, comp_fillRows]

end Map

/-! ## Moves that keep what they find -/

section Keep

variable {T : Type}

def keepRow (f : Nat → Option T) (m : Move) : Nat → Option T :=
  match m.direction with
  | .unidirectional =>
    match f m.src with
    | some v => update (update f m.src none) m.dst (some v)
    | none => update f m.src none
  | .swap => moveRow none f m

def keepRows (f : Nat → Option T) (moved : List Move) : Nat → Option T :=
  moved.foldl keepRow f

theorem keepRow_eq {f : Nat → Option T} {m : Move}
    (h : m.direction = .unidirectional → f m.src = none → f m.dst = none) :
    keepRow f m = moveRow none f m := by
  unfold keepRow
  cases hdir : m.direction with
  | swap => rfl
  | unidirectional =>
    unfold moveRow
    rw [hdir]
    cases hsrc : f m.src with
    | some v => rfl
    | none =>
      have hdst := h hdir hsrc
      dsimp only
      funext i
      rw [update_apply, update_apply, update_apply]
      by_cases hi : i = m.dst
      · rw [if_pos hi, hi, hdst, ite_self]
      · rw [if_neg hi]

def Move.Apart (m n : Move) : Prop :=
  n.src ≠ m.src ∧ n.src ≠ m.dst ∧ n.dst ≠ m.src ∧ n.dst ≠ m.dst

theorem keepRows_swaps {ns : List Move} (hswap : ∀ m ∈ ns, m.direction = .swap)
    {f : Nat → Option T} :
    keepRows f ns = moveRows none f ns := by
  induction ns generalizing f with
  | nil => rfl
  | cons m ns ih =>
    have hm : m.direction = .swap := hswap m mem_cons_self
    have hkeep : keepRow f m = moveRow none f m := by
      apply keepRow_eq
      intro hdir
      rw [hm] at hdir
      cases hdir
    show keepRows (keepRow f m) ns = _
    rw [hkeep, ih fun n hn => hswap n (mem_cons_of_mem _ hn)]
    rfl

/-- Where the one-way moves come first and name different rows, keeping makes no difference as long
as no empty row is moved to a row in use. -/
theorem keepRows_eq {ns : List Move} (hapart : ms.Pairwise Move.Apart)
    (hswap : ∀ m ∈ ns, m.direction = .swap) {f : Nat → Option T}
    (h : ∀ m ∈ ms, m.direction = .unidirectional → f m.src = none → f m.dst = none) :
    keepRows f (ms ++ ns) = moveRows none f (ms ++ ns) := by
  induction ms generalizing f with
  | nil =>
    exact keepRows_swaps hswap
  | cons m ms ih =>
    have happ := pairwise_cons.mp hapart
    show keepRows (keepRow f m) (ms ++ ns) = _
    rw [keepRow_eq (h m mem_cons_self), ih happ.2]
    · rfl
    · intro n hn hdir
      obtain ⟨h1, h2, h3, h4⟩ := happ.1 n hn
      rw [moveRow_of_ne none f h1 h2, moveRow_of_ne none f h3 h4]
      exact h n (mem_cons_of_mem _ hn) hdir

end Keep

end VllmEcho.Lib
