import Mathlib

/-!
# Shared vocabulary of the KV cache core

Request ids, block references, block hashes and the exceptions the Python code raises.  A block
reference is the object identity of a `KVCacheBlock`: the real blocks are their ids
`0 … num_gpu_blocks - 1`, and the two fake nodes of the free list follow them.
-/

namespace VllmEcho

variable {ε α β : Type} {x : Except ε α}

theorem lt_of_getElem? {l : List α} {i : Nat} {a : α} (h : l[i]? = some a) : i < l.length :=
  (List.getElem?_eq_some_iff.mp h).1

/-- Request ids are opaque dictionary keys; natural numbers stand for the strings. -/
abbrev ReqId := Nat

abbrev BlockRef := Nat

theorem filter_ne_self {l : List Nat} {n : Nat} (hn : n ∉ l) : l.filter (· ≠ n) = l :=
  List.filter_eq_self.mpr fun _ hm => decide_eq_true fun heq => hn (heq ▸ hm)

abbrev BlockHash := List UInt8

abbrev BlockHashWithGroupId := List UInt8

inductive PyError
  | valueError (msg : String)
  | runtimeError (msg : String)
  | assertionError (msg : String)
  | notImplementedError (msg : String)
  | typeError (msg : String)
  | indexError
  | keyError
  | zeroDivisionError
  | stopIteration
  deriving DecidableEq, Repr

def assertThat (cond : Bool) (msg : String) : Except PyError Unit :=
  if cond then .ok () else .error (.assertionError msg)

theorem assertThat_eq_ok {cond : Bool} {msg : String} {u : Unit} :
    assertThat cond msg = .ok u ↔ cond = true := by
  cases cond <;> simp [assertThat]

@[simp] theorem assertThat_true (msg : String) : assertThat true msg = .ok () := rfl

variable {f : α → Except ε β}

theorem bind_eq_ok {r : β} : (x >>= f) = .ok r ↔ ∃ a, x = .ok a ∧ f a = .ok r := by
  cases x with
  | error e => simp [bind, Except.bind]
  | ok a => simp [bind, Except.bind]

theorem of_bind {r : β} (h : (x >>= f) = .ok r) : ∃ a, x = .ok a ∧ f a = .ok r :=
  bind_eq_ok.mp h

theorem toOption_eq_some {a : α} (h : x.toOption = some a) : x = .ok a := by
  cases x with
  | error e => cases h
  | ok b => exact congrArg _ (Option.some.inj h)

instance decidableExistsOk {P : α → Prop} [DecidablePred P] : Decidable (∃ a, x = .ok a ∧ P a) :=
  match x with
  | .error _ => .isFalse nofun
  | .ok a => decidable_of_iff (P a) ⟨fun h => ⟨a, rfl, h⟩, fun ⟨_, ha, h⟩ => Except.ok.inj ha ▸ h⟩

instance decidableEqError [DecidableEq ε] (e : ε) : Decidable (x = .error e) :=
  match x with
  | .error e' => decidable_of_iff (e' = e) ⟨congrArg _, Except.error.inj⟩
  | .ok _ => .isFalse nofun

theorem ok_ne_error {a : α} {e : ε} : (.ok a : Except ε α) ≠ .error e := by
  intro h
  cases h

theorem bind_eq_error {e : ε} :
    (x >>= f) = .error e ↔ x = .error e ∨ ∃ a, x = .ok a ∧ f a = .error e := by
  cases x with
  | error e' => simp [bind, Except.bind]
  | ok a => simp [bind, Except.bind]

theorem bind_ne_error {e : ε} (hx : x ≠ .error e) (hf : ∀ a, f a ≠ .error e) :
    (x >>= f) ≠ .error e := fun h => (bind_eq_error.mp h).elim hx fun ⟨a, _, ha⟩ => hf a ha

theorem assertThat_eq_error {cond : Bool} {msg : String} {e : PyError} :
    assertThat cond msg = .error e ↔ cond = false ∧ e = .assertionError msg := by
  cases cond <;> simp [assertThat, eq_comm]

theorem assertThat_ne_error {cond : Bool} {msg : String} {e : PyError}
    (h : e ≠ .assertionError msg) :
    assertThat cond msg ≠ .error e := fun herr => h (assertThat_eq_error.mp herr).2

@[simp] theorem ok_bind (a : α) (f : α → Except ε β) :
    ((Except.ok a : Except ε α) >>= f) = f a := rfl

@[simp] theorem error_bind (e : ε) (f : α → Except ε β) :
    ((Except.error e : Except ε α) >>= f) = .error e := rfl

@[simp] theorem pure_eq_ok (a : α) : (pure a : Except ε α) = .ok a := rfl

@[simp] theorem throw_eq_error (e : ε) : (throw e : Except ε α) = .error e := rfl

theorem mapM_ok {f : α → Except PyError β} (g : α → β) (xs : List α)
    (hf : ∀ x ∈ xs, f x = .ok (g x)) : xs.mapM f = .ok (xs.map g) := by
  induction xs with
  | nil => rfl
  | cons x xs ih =>
    rw [List.mapM_cons, hf x List.mem_cons_self,
      ih fun y hy => hf y (List.mem_cons_of_mem _ hy)]
    rfl

def cdiv (a b : Nat) : Nat := (a + b - 1) / b

variable {b : Nat}

theorem cdiv_mul_ge (a : Nat) (hb : 0 < b) : a ≤ cdiv a b * b := by
  unfold cdiv
  have h := Nat.div_add_mod (a + b - 1) b
  have hm := Nat.mod_lt (a + b - 1) hb
  rw [Nat.mul_comm] at h
  omega

theorem cdiv_le_iff {a n : Nat} (hb : 0 < b) : cdiv a b ≤ n ↔ a ≤ n * b := by
  unfold cdiv
  rw [Nat.div_le_iff_le_mul_add_pred hb, Nat.mul_comm]
  omega

theorem div_le_cdiv (a : Nat) (hb : 0 < b) : a / b ≤ cdiv a b := by
  rw [Nat.div_le_iff_le_mul_add_pred hb]
  have h := cdiv_mul_ge a hb
  rw [Nat.mul_comm] at h
  omega

theorem cdiv_mono {a a' : Nat} (h : a ≤ a') (b : Nat) : cdiv a b ≤ cdiv a' b :=
  Nat.div_le_div_right (by omega)

theorem cdiv_mul (n : Nat) (hb : 0 < b) : cdiv (n * b) b = n := by
  apply Nat.le_antisymm
  · exact (cdiv_le_iff hb).mpr le_rfl
  · exact Nat.le_of_mul_le_mul_right (cdiv_mul_ge (n * b) hb) hb

end VllmEcho
