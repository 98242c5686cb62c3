import Mathlib

/-!
# Claims on a queue

Clients are served one after the other.  Each first removes the elements it claims, wherever they
are in the queue, and then pops some elements from the front.  A pop may hit an element that a later
client claims; `forall_served_iff` says for which queues this does not happen.
-/

namespace VllmEcho.Lib

open List

variable {α : Type} (cs : List (List α × Nat))

def claimed : List α := cs.flatMap Prod.fst

def popped : Nat := (cs.map Prod.snd).sum

variable {c : List α × Nat}

theorem claimed_concat : claimed (cs ++ [c]) = claimed cs ++ c.1 := by
  simp [claimed]

theorem popped_concat : popped (cs ++ [c]) = popped cs + c.2 := by
  simp [popped]

variable {l : List α}

theorem filter_of_take {p : α → Bool} {n : Nat} (h : ∀ b ∈ l.take n, p b = true) :
    (l.filter p).take n = l.take n ∧ (l.filter p).drop n = (l.drop n).filter p := by
  have hfront : (l.take n).filter p = l.take n := filter_eq_self.mpr h
  have hsplit : l.filter p = l.take n ++ (l.drop n).filter p := by
    conv_lhs => rw [← take_append_drop n l, filter_append, hfront]
  rcases Nat.le_total n l.length with hn | hn
  · have hlen : (l.take n).length = n := length_take_of_le hn
    rw [hsplit]
    exact ⟨take_left' hlen, drop_left' hlen⟩
  · rw [hsplit, drop_eq_nil_of_le hn]
    simp [take_of_length_le hn, hn]

variable [DecidableEq α]

def serve : List (List α × Nat) → List α → List α × List α
  | [], l => ([], l)
  | c :: cs, l =>
    ((l.filter (· ∉ c.1)).take c.2 ++ (serve cs ((l.filter (· ∉ c.1)).drop c.2)).1,
      (serve cs ((l.filter (· ∉ c.1)).drop c.2)).2)

/-- For the first clients, however many: without what they claim, the front of the queue that they
pop has no element of `X`. -/
def Undisturbed (X : α → Prop) (cs : List (List α × Nat)) (l : List α) : Prop :=
  ∀ pre ∈ cs.inits, ∀ b ∈ (l.filter (· ∉ claimed pre)).take (popped pre), ¬ X b

instance (X : α → Prop) [DecidablePred X] (cs : List (List α × Nat)) (l : List α) :
    Decidable (Undisturbed X cs l) := by
  unfold Undisturbed
  infer_instance

theorem serve_append (ds : List (List α × Nat)) : serve (cs ++ ds) l =
      ((serve cs l).1 ++ (serve ds (serve cs l).2).1, (serve ds (serve cs l).2).2) := by
  induction cs generalizing l with
  | nil => rfl
  | cons c cs ih => simp only [cons_append, serve, ih, append_assoc]

theorem serve_subperm (l : List α) : (serve cs l).1.Subperm l := by
  induction cs generalizing l with
  | nil => exact nil_subperm
  | cons c cs ih =>
    have hrest := (subperm_append_left ((l.filter (· ∉ c.1)).take c.2)).mpr
      (ih ((l.filter (· ∉ c.1)).drop c.2))
    rw [take_append_drop] at hrest
    exact hrest.trans filter_sublist.subperm

theorem serve_nodup (h : l.Nodup) : (serve cs l).1.Nodup := by
  obtain ⟨l', hperm, hsub⟩ := serve_subperm cs l
  exact hperm.nodup_iff.mp (h.sublist hsub)

variable {X : α → Prop} {cs : List (List α × Nat)} {l : List α}

theorem Undisturbed.of_prefix {ds : List (List α × Nat)} (h : Undisturbed X ds l)
    (hcs : cs <+: ds) :
    Undisturbed X cs l := fun pre hpre =>
  h pre ((mem_inits _ _).mpr (((mem_inits _ _).mp hpre).trans hcs))

theorem Undisturbed.front (h : Undisturbed X cs l) :
    ∀ b ∈ (l.filter (· ∉ claimed cs)).take (popped cs), ¬ X b :=
  h cs ((mem_inits _ _).mpr (prefix_refl cs))

theorem serve_concat (hc : ∀ b ∈ c.1, X b)
    (hserve : serve cs l = ((l.filter (· ∉ claimed cs)).take (popped cs),
      (l.filter (· ∉ claimed cs)).drop (popped cs)))
    (hfront : ∀ b ∈ (l.filter (· ∉ claimed cs)).take (popped cs), ¬ X b) : serve (cs ++ [c]) l =
      ((l.filter (· ∉ claimed (cs ++ [c]))).take (popped (cs ++ [c])),
        (l.filter (· ∉ claimed (cs ++ [c]))).drop (popped (cs ++ [c]))) := by
  have hboth : l.filter (· ∉ claimed (cs ++ [c])) =
      (l.filter (· ∉ claimed cs)).filter (· ∉ c.1) := by
    rw [filter_filter]
    refine filter_congr fun b _ => ?_
    simp [claimed_concat, and_comm]
  obtain ⟨htake, hdrop⟩ := filter_of_take (p := (· ∉ c.1)) fun b hb =>
    decide_eq_true fun hbc => hfront b hb (hc b hbc)
  rw [serve_append, hserve, hboth, popped_concat]
  simp only [serve, append_nil]
  rw [← hdrop, ← htake, take_add, drop_drop]

theorem Undisturbed.serve_eq (hX : ∀ c ∈ cs, ∀ b ∈ c.1, X b) (h : Undisturbed X cs l) :
    serve cs l = ((l.filter (· ∉ claimed cs)).take (popped cs),
      (l.filter (· ∉ claimed cs)).drop (popped cs)) := by
  induction cs using reverseRecOn with
  | nil => simp [serve, claimed, popped]
  | append_singleton cs c ih =>
    have hcs := h.of_prefix (prefix_append cs [c])
    exact serve_concat (hX c (by simp)) (ih (fun d hd => hX d (by simp [hd])) hcs) hcs.front

theorem forall_served_iff (hX : ∀ c ∈ cs, ∀ b ∈ c.1, X b) :
    (∀ b ∈ (serve cs l).1, ¬ X b) ↔ Undisturbed X cs l := by
  constructor
  · intro h
    -- Clients that come first pop the same with and without the others.
    induction cs using reverseRecOn with
    | nil =>
      intro pre hpre b hb
      obtain rfl : pre = [] := prefix_nil.mp ((mem_inits _ _).mp hpre)
      simp [popped] at hb
    | append_singleton cs c ih =>
      have hX' : ∀ d ∈ cs, ∀ b ∈ d.1, X b := fun d hd => hX d (by simp [hd])
      have hcs : Undisturbed X cs l := ih hX' fun b hb => h b (by
        rw [serve_append]
        exact mem_append_left _ hb)
      intro pre hpre
      rcases prefix_concat_iff.mp ((mem_inits _ _).mp hpre) with rfl | hpre
      · rw [serve_concat (hX c (by simp)) (hcs.serve_eq hX') hcs.front] at h
        exact h
      · exact hcs pre ((mem_inits _ _).mpr hpre)
  · intro h
    rw [h.serve_eq hX]
    exact h.front

end VllmEcho.Lib
