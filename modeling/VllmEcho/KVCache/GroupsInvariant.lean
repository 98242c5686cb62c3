import VllmEcho.KVCache.AlignAlloc
import VllmEcho.KVCache.KVCacheManager
import VllmEcho.KVCache.ManagerCache

/-!
# The managers of all groups over one pool

`GroupsInv` is the pool invariant seen from a list of managers.  The coordinator runs every method
on one manager after the other; `forManagers_rule` is the rule for such a loop: what holds of one
manager, with all other tables as its surroundings, holds of the whole loop.
-/

namespace VllmEcho

open Lib BlockPool SingleTypeKVCacheManager List

variable (ms : List SingleTypeKVCacheManager) (b : BlockRef)

def occAll : Nat :=
  (ms.map fun m => m.occ b).sum

def uncAll : Nat :=
  (ms.map fun m => m.unc b).sum

@[simp] theorem occAll_nil : occAll [] b = 0 := rfl

@[simp] theorem uncAll_nil : uncAll [] b = 0 := rfl

variable (m : SingleTypeKVCacheManager) (ms : List SingleTypeKVCacheManager) (b : BlockRef)

@[simp] theorem occAll_cons : occAll (m :: ms) b = m.occ b + occAll ms b := by
  simp [occAll]

@[simp] theorem uncAll_cons : uncAll (m :: ms) b = m.unc b + uncAll ms b := by
  simp [uncAll]

theorem SingleTypeKVCacheManager.unc_le_occ : m.unc b ≤ m.occ b := by
  refine sum_le_sum fun e _ => ?_
  exact (drop_sublist _ _).count_le b

theorem uncAll_le_occAll : uncAll ms b ≤ occAll ms b :=
  sum_le_sum fun m _ => m.unc_le_occ b

structure GroupsInv (p : BlockPool) (l : List BlockRef) (O U : BlockRef → Nat)
    (ms : List SingleTypeKVCacheManager) : Prop where
  core : CoreInv p (fun b => O b + occAll ms b) (fun b => U b + uncAll ms b)
  free : FreeInv p (fun b => O b + occAll ms b) l
  le : ∀ b, U b ≤ O b
  tables : ∀ m ∈ ms, ∀ id, TableOk p.nullBlock m id

namespace GroupsInv

variable {p p' : BlockPool} {l l' : List BlockRef} {O U : BlockRef → Nat}
  {m m' : SingleTypeKVCacheManager} {ms ms' : List SingleTypeKVCacheManager}

theorem head (h : GroupsInv p l O U (m :: ms)) :
    MgrInv p l (fun b => O b + occAll ms b) (fun b => U b + uncAll ms b) m := by
  refine ⟨h.core.mono ?_ ?_, h.free.congr ?_, ?_, h.tables m mem_cons_self⟩
  · intro b _
    rw [occAll_cons]
    omega
  · intro b _
    rw [uncAll_cons]
    omega
  · intro b _
    rw [occAll_cons]
    omega
  · exact fun b => Nat.add_le_add (h.le b) (uncAll_le_occAll ms b)

theorem tail (h : GroupsInv p l O U (m :: ms)) (hframe : Frame p p')
    (hm : MgrInv p' l' (fun b => O b + occAll ms b) (fun b => U b + uncAll ms b) m') :
    GroupsInv p' l' (fun b => O b + m'.occ b) (fun b => U b + m'.unc b) ms := by
  refine ⟨hm.core.mono ?_ ?_, hm.free.congr ?_, ?_, ?_⟩
  · exact fun b _ => by omega
  · exact fun b _ => by omega
  · exact fun b _ => by omega
  · exact fun b => Nat.add_le_add (h.le b) (m'.unc_le_occ b)
  · intro k hk id
    rw [hframe.nullBlock]
    exact h.tables k (mem_cons_of_mem m hk) id

theorem cons (h : GroupsInv p l (fun b => O b + m.occ b) (fun b => U b + m.unc b) ms)
    (hle : ∀ b, U b ≤ O b) (htable : ∀ id, TableOk p.nullBlock m id) :
    GroupsInv p l O U (m :: ms) := by
  refine ⟨h.core.mono ?_ ?_, h.free.congr ?_, hle, ?_⟩
  · intro b _
    rw [occAll_cons]
    omega
  · intro b _
    rw [uncAll_cons]
    omega
  · intro b _
    rw [occAll_cons]
    omega
  · intro k hk
    rcases mem_cons.mp hk with rfl | hk
    · exact htable
    · exact h.tables k hk

end GroupsInv

/-! ## Loops over the managers -/

abbrev RoundRel := BlockPool → List BlockRef → SingleTypeKVCacheManager → BlockPool →
  List BlockRef → SingleTypeKVCacheManager → Prop

inductive LoopTrace (R : RoundRel) : BlockPool → List BlockRef → List SingleTypeKVCacheManager →
    BlockPool → List BlockRef → List SingleTypeKVCacheManager → Prop
  | nil (p : BlockPool) (l : List BlockRef) : LoopTrace R p l [] p l []
  | cons {p p' p'' : BlockPool} {l l' l'' : List BlockRef} {m m' : SingleTypeKVCacheManager}
      {ms ms' : List SingleTypeKVCacheManager} (hround : R p l m p' l' m')
      (hrest : LoopTrace R p' l' ms p'' l'' ms') : LoopTrace R p l (m :: ms) p'' l'' (m' :: ms')

section Loop

variable {β : Type} {f : BlockPool → SingleTypeKVCacheManager →
    Except PyError (BlockPool × SingleTypeKVCacheManager × β)}
  {J : List SingleTypeKVCacheManager → BlockPool → List BlockRef → Prop} {R : RoundRel}
  {E : PyError → Prop}

variable {p p' : BlockPool} {l l' : List BlockRef} {ms' : List SingleTypeKVCacheManager}
  {Q : SingleTypeKVCacheManager → SingleTypeKVCacheManager → Prop}
  {ms : List SingleTypeKVCacheManager}

theorem forall₂_mem (h : List.Forall₂ Q ms ms') {m' : SingleTypeKVCacheManager} (hm : m' ∈ ms') :
    ∃ m ∈ ms, Q m m' := by
  induction h with
  | nil => cases hm
  | cons hQ _ ih =>
    rcases mem_cons.mp hm with rfl | hm
    · exact ⟨_, mem_cons_self, hQ⟩
    · obtain ⟨m, hmem, hQ⟩ := ih hm
      exact ⟨m, mem_cons_of_mem _ hmem, hQ⟩

theorem map_eq_of_forall₂ {β : Type} {f g : SingleTypeKVCacheManager → β}
    (h : List.Forall₂ (fun m m' => f m' = g m) ms ms') : ms'.map f = ms.map g := by
  induction h with
  | nil => rfl
  | cons hfg _ ih => rw [map_cons, map_cons, hfg, ih]

theorem LoopTrace.forall₂ (h : LoopTrace R p l ms p' l' ms')
    (hQ : ∀ p l m p' l' m', R p l m p' l' m' → Q m m') : List.Forall₂ Q ms ms' := by
  induction h with
  | nil => exact .nil
  | cons hround _ ih => exact .cons (hQ _ _ _ _ _ _ hround) ih

theorem LoopTrace.forall₂_frame {p₀ : BlockPool}
    (h : LoopTrace R p l ms p' l' ms') (h₀ : Frame p₀ p)
    (hR : ∀ p l m p' l' m', R p l m p' l' m' → Frame p p')
    (hQ : ∀ p l m p' l' m', Frame p₀ p → R p l m p' l' m' → Q m m') : List.Forall₂ Q ms ms' := by
  induction h with
  | nil => exact .nil
  | cons hround _ ih =>
    exact .cons (hQ _ _ _ _ _ _ h₀ hround) (ih (h₀.trans (hR _ _ _ _ _ _ hround)))

theorem LoopTrace.keeps {P : BlockPool → Prop}
    (h : LoopTrace R p l ms p' l' ms') (hP : ∀ p l m p' l' m', R p l m p' l' m' → P p → P p')
    (hp : P p) : P p' := by
  induction h with
  | nil => exact hp
  | cons hround _ ih => exact ih (hP _ _ _ _ _ _ hround hp)

theorem LoopTrace.pool_eq {α : Type} {F : BlockPool → α}
    (h : LoopTrace R p l ms p' l' ms') (hF : ∀ p l m p' l' m', R p l m p' l' m' → F p' = F p) :
    F p' = F p :=
  h.keeps (fun _ _ _ _ _ _ hr hp => (hF _ _ _ _ _ _ hr).trans hp) rfl

variable (f J R E) in
/-- `J` holds before each round of the managers still to come; each round keeps the manager's
invariant or raises one of the exceptions `E`. -/
def RoundRule : Prop :=
  ∀ m rest p l O U, J (m :: rest) p l → MgrInv p l O U m →
    (∃ p' m' out l', f p m = .ok (p', m', out) ∧ MgrInv p' l' O U m' ∧ Frame p p' ∧
      J rest p' l' ∧ R p l m p' l' m') ∨ ∃ e, f p m = .error e ∧ E e

/-- A loop over the managers. -/
theorem forManagers_rule (hstep : RoundRule f J R E) (ms : List SingleTypeKVCacheManager)
    {O U : BlockRef → Nat}
    (hJ : J ms p l) (h : GroupsInv p l O U ms) :
    (∃ p' ms' outs l', forManagers f p ms = .ok (p', ms', outs) ∧ GroupsInv p' l' O U ms' ∧
      Frame p p' ∧ J [] p' l' ∧ LoopTrace R p l ms p' l' ms') ∨
    ∃ e, forManagers f p ms = .error e ∧ E e := by
  induction ms generalizing p l O U with
  | nil => exact Or.inl ⟨p, [], [], l, rfl, h, Frame.refl p, hJ, .nil p l⟩
  | cons m ms ih =>
    rcases hstep m ms p l _ _ hJ h.head with ⟨p₁, m₁, out, l₁, hok, hm, hframe, hJ₁, hR⟩ |
      ⟨e, herr, he⟩
    · rcases ih hJ₁ (h.tail hframe hm) with ⟨p₂, ms₂, outs, l₂, hok₂, hg, hframe₂, hJ₂, hRs⟩ |
        ⟨e, herr, he⟩
      · refine Or.inl ⟨p₂, m₁ :: ms₂, out :: outs, l₂, ?_, hg.cons h.le ?_, hframe.trans hframe₂,
          hJ₂, .cons hR hRs⟩
        · simp [forManagers, hok, hok₂]
        · intro id
          rw [hframe₂.nullBlock]
          exact hm.tables id
      · exact Or.inr ⟨e, by simp [forManagers, hok, herr], he⟩
    · exact Or.inr ⟨e, by simp [forManagers, herr], he⟩

end Loop

variable {r : Except PyError (BlockPool × SingleTypeKVCacheManager)}

theorem noResult_ok {s : BlockPool × SingleTypeKVCacheManager} (h : r = .ok s) :
    noResult r = .ok (s.1, s.2, ()) := by
  rw [h]
  rfl

theorem noResult_error {e : PyError} (h : r = .error e) : noResult r = .error e := by
  rw [h]
  rfl

end VllmEcho
