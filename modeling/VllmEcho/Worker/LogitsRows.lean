import VllmEcho.Worker.LogitsProcessors

/-!
# The processors replay the update

Read as tables of rows, the processors with a dictionary and the min-p array replay the update; the
thinking budget replays it with a one-way move that may leave a stale state behind.
-/

namespace VllmEcho

open Lib Dict Function List

/-! ## Dictionaries -/

section DictUpdates

variable {T : Type}

variable (d : Dict Nat T)

theorem get?_setOrPop (i : Nat) (o : Option T) : (setOrPop d i o).get? = update d.get? i o := by
  funext k
  rw [update_apply]
  cases o with
  | none => exact get?_erase d
  | some v => exact get?_set d

theorem get?_foldl_erase (removed : List Nat) :
    (removed.foldl Dict.erase d).get? = clearRows none d.get? removed := by
  induction removed generalizing d with
  | nil => rfl
  | cons i removed ih =>
    have herase : (d.erase i).get? = update d.get? i none := get?_setOrPop d i none
    rw [foldl_cons, ih, herase]
    rfl

theorem get?_foldl_added {A : Type} (added : List (Nat × A)) (newState : A → Option T) :
    (added.foldl (fun d a => setOrPop d a.1 (newState a.2)) d).get? =
      fillRows d.get? (added.map fun a => (a.1, newState a.2)) := by
  induction added generalizing d with
  | nil => rfl
  | cons a added ih =>
    rw [foldl_cons, ih, get?_setOrPop]
    rfl

theorem get?_moveEntry (m : Move) : (moveEntry d m).get? = moveRow none d.get? m := by
  obtain ⟨src, dst, direction⟩ := m
  funext k
  unfold moveEntry moveRow
  dsimp only
  by_cases hsame : dst = src
  · -- the popped entry is put back
    subst hsame
    rw [get?_erase_self]
    cases hsrc : d.get? dst <;> cases direction <;>
      simp only [get?_set, get?_erase, update_apply] <;>
      by_cases hk : k = dst <;> simp [hk]
  · rw [get?_erase_ne _ hsame]
    cases hsrc : d.get? src <;> cases hdst : d.get? dst <;> cases direction <;>
      simp only [get?_set, get?_erase, update_apply] <;>
      by_cases hkd : k = dst <;> by_cases hks : k = src <;> simp_all

theorem get?_processDictUpdates (newState : NewRequest → Option T) (u : BatchUpdate) :
    (processDictUpdates d newState (some u)).get? =
      replayRows none d.get? (u.added.map fun a => (a.1, newState a.2)) u.removed u.moved := by
  have hmoves : ∀ (ms : List Move) (d : Dict Nat T),
      (ms.foldl moveEntry d).get? = moveRows none d.get? ms := by
    intro ms
    induction ms with
    | nil => exact fun d => rfl
    | cons m ms ih =>
      intro d
      rw [foldl_cons, ih, get?_moveEntry]
      rfl
  unfold processDictUpdates
  dsimp only
  have hadded := get?_foldl_added d u.added newState
  set filled := u.added.foldl (fun d a => setOrPop d a.1 (newState a.2)) d
  unfold replayRows
  rw [← hadded]
  split
  · -- `if not req_entries: return`
    rename_i hempty
    have hnone : filled.get? = fun _ => none := by
      funext i
      rw [get?_eq_none_iff]
      unfold Dict.keys
      rw [isEmpty_iff.mp hempty]
      exact not_mem_nil
    rw [hnone]
    exact (replayRows_empty none u.removed u.moved).symm
  · rw [hmoves, get?_foldl_erase]

end DictUpdates

theorem MinTokens.get?_updateState (outputs : ReqId → List TokenId) (d : Dict Nat MinTokens)
    (u : Option BatchUpdate) (i : Nat) : (MinTokens.updateState outputs d u).get? i =
      ((processDictUpdates d (addRequest outputs) u).get? i).filter (pending outputs) := by
  unfold updateState
  set e := processDictUpdates d (addRequest outputs) u
  rw [get?_foldl_erase, clearRows_apply]
  cases hi : e.get? i with
  | none => rw [ite_self, Option.filter_none]
  | some v =>
    have hmem : i ∈ (e.entries.filter fun x => !x.2.pending outputs).map Prod.fst ↔
        v.pending outputs = false := by
      rw [mem_map]
      constructor
      · rintro ⟨⟨j, w⟩, hw, hj⟩
        obtain rfl : j = i := hj
        obtain ⟨hin, hp⟩ := mem_filter.mp hw
        rw [← get?_eq_some_iff, hi] at hin
        cases hin
        simpa using hp
      · intro hp
        refine ⟨(i, v), mem_filter.mpr ⟨(get?_eq_some_iff e).mp hi, ?_⟩, rfl⟩
        simpa using hp
    cases hp : v.pending outputs with
    | false => rw [if_pos (hmem.mpr hp), Option.filter_some, hp, if_neg Bool.false_ne_true]
    | true =>
      rw [if_neg fun hin => Bool.false_ne_true ((hmem.mp hin).symm.trans hp),
        Option.filter_some, hp, if_pos rfl]

/-! ## The thinking budget -/

variable {d : Dict Nat ThinkState} (cfg : ThinkingConfig)

namespace ThinkingBudget

theorem get?_moveState (m : Move) : (moveState d m).get? = keepRow d.get? m := by
  obtain ⟨src, dst, direction⟩ := m
  cases direction with
  | swap =>
    have hentry : moveState d ⟨src, dst, .swap⟩ = moveEntry d ⟨src, dst, .swap⟩ := by
      unfold moveState moveEntry
      dsimp only
      cases d.get? src <;> cases (d.erase src).get? dst <;> rfl
    rw [hentry, get?_moveEntry]
    rfl
  | unidirectional =>
    funext k
    unfold moveState keepRow
    cases hsrc : d.get? src <;>
      simp only [get?_set, get?_erase, update_apply]

theorem get?_followBatch (u : BatchUpdate) : (followBatch cfg d (some u)).get? =
      keepRows (clearRows none
        (fillRows d.get? (u.added.map fun a => (a.1, newState cfg a.2))) u.removed) u.moved := by
  have hmoves : ∀ (ms : List Move) (d : Dict Nat ThinkState),
      (ms.foldl moveState d).get? = keepRows d.get? ms := by
    intro ms
    induction ms with
    | nil => exact fun d => rfl
    | cons m ms ih =>
      intro d
      rw [foldl_cons, ih, get?_moveState]
      rfl
  unfold followBatch
  rw [hmoves, get?_foldl_erase, get?_foldl_added]

theorem get?_advance (outputs : ReqId → List TokenId) (i : Nat) :
    (advance cfg outputs d).get? i = (d.get? i).map (ThinkState.update cfg outputs) := by
  show Dict.lookup i (d.entries.map fun e => (e.1, e.2.update cfg outputs)) =
    (Dict.lookup i d.entries).map _
  induction d.entries with
  | nil => rfl
  | cons e es ih =>
    rw [map_cons, Dict.lookup, Dict.lookup, ih]
    split <;> rfl

end ThinkingBudget

/-! ## Min-p -/

namespace MinPLogitsProcessor

def Counted (s : MinPLogitsProcessor) : Prop :=
  (support s.minPCpu).Finite ∧ s.minPCount = (support s.minPCpu).ncard

theorem ncard_support_update {f : Nat → ℚ} (hfin : (support f).Finite) (i : Nat) (v : ℚ) :
    (support (update f i v)).Finite ∧ ((support (update f i v)).ncard : Int) =
        (support f).ncard + (if v ≠ 0 then 1 else 0) - (if f i ≠ 0 then 1 else 0) := by
  by_cases hv : v = 0
  · rw [hv, support_update_zero]
    refine ⟨hfin.sdiff, ?_⟩
    by_cases hi : f i = 0
    · simp [hi]
    · have hcard := Set.ncard_sdiff_singleton_add_one (mem_support.mpr hi) hfin
      rw [if_neg (by simp), if_pos hi]
      omega
  · rw [support_update_of_ne_zero _ _ hv]
    refine ⟨hfin.insert i, ?_⟩
    by_cases hi : f i = 0
    · rw [Set.ncard_insert_of_notMem (by simpa using hi) hfin]
      simp [hv, hi]
    · simp [hv, hi]

variable {s : MinPLogitsProcessor} {toFloat32 : ℚ → ℚ} {i : Nat}

def Rounded (toFloat32 : ℚ → ℚ) (s : MinPLogitsProcessor) : Prop :=
  ∀ i, toFloat32 (s.minPCpu i) = s.minPCpu i

theorem add_cpu (h : s.Rounded toFloat32) (minP : ℚ) :
    (s.add toFloat32 i minP).minPCpu = update s.minPCpu i (toFloat32 minP) := by
  unfold add
  dsimp only
  split
  · rfl
  · rename_i heq
    rw [← not_not.mp heq, h i, update_eq_self]

theorem Counted.add (h : Counted s) (hs : s.Rounded toFloat32) (hzero : toFloat32 0 = 0) {minP : ℚ}
    (hround : minP ≠ 0 → toFloat32 minP ≠ 0) : Counted (s.add toFloat32 i minP) := by
  have hcard := ncard_support_update h.1 i (toFloat32 minP)
  have hold := hs i
  unfold Counted
  rw [add_cpu hs]
  refine ⟨hcard.1, ?_⟩
  rw [hcard.2, ← h.2]
  unfold MinPLogitsProcessor.add
  by_cases hp : minP = 0 <;> by_cases hb : s.minPCpu i = 0 <;> simp_all
  · rw [if_neg (Ne.symm hp)]
  · split <;> rfl

theorem remove_cpu : (s.remove i).minPCpu = update s.minPCpu i 0 := by
  unfold remove
  split
  · rfl
  · rename_i heq
    rw [← not_not.mp heq, update_eq_self]

theorem Counted.remove (h : Counted s) (i : Nat) : Counted (s.remove i) := by
  have hcard := ncard_support_update h.1 i 0
  unfold Counted
  rw [remove_cpu]
  refine ⟨hcard.1, ?_⟩
  rw [hcard.2, ← h.2]
  unfold MinPLogitsProcessor.remove
  by_cases hb : s.minPCpu i = 0 <;> simp [hb]

theorem move_cpu (s : MinPLogitsProcessor) {m : Move}
    (hne : m.direction = .unidirectional → m.dst ≠ m.src) :
    (s.move m).minPCpu = moveRow 0 s.minPCpu m := by
  obtain ⟨src, dst, direction⟩ := m
  unfold move moveRow
  funext k
  cases direction with
  | swap =>
    dsimp only
    split
    · by_cases hkd : k = dst <;> by_cases hks : k = src <;> simp_all
    · rename_i heq
      by_cases hkd : k = dst <;> by_cases hks : k = src <;> simp_all
  | unidirectional =>
    dsimp only
    split <;> split <;> by_cases hkd : k = dst <;> by_cases hks : k = src <;>
      simp_all

theorem Counted.move (h : Counted s) {m : Move}
    (hne : m.direction = .unidirectional → m.dst ≠ m.src) : Counted (s.move m) := by
  have hcpu := s.move_cpu hne
  unfold Counted
  rw [hcpu]
  obtain ⟨src, dst, direction⟩ := m
  cases direction with
  | swap =>
    have hfirst := ncard_support_update h.1 src (s.minPCpu dst)
    have hsecond := ncard_support_update hfirst.1 dst (s.minPCpu src)
    refine ⟨hsecond.1, ?_⟩
    show s.minPCount = _
    unfold moveRow
    rw [hsecond.2, hfirst.2, h.2, update_apply]
    by_cases hds : dst = src
    · rw [if_pos hds]
      omega
    · rw [if_neg hds]
      omega
  | unidirectional =>
    have hds : dst ≠ src := hne rfl
    have hfirst := ncard_support_update h.1 src 0
    have hsecond := ncard_support_update hfirst.1 dst (s.minPCpu src)
    refine ⟨hsecond.1, ?_⟩
    show (if s.minPCpu dst ≠ 0 then s.minPCount - 1 else s.minPCount) = _
    unfold moveRow
    rw [hsecond.2, hfirst.2, h.2, update_of_ne hds]
    by_cases hd : s.minPCpu dst = 0 <;> simp [hd]

theorem Rounded.add (h : s.Rounded toFloat32)
    (hidem : ∀ x, toFloat32 (toFloat32 x) = toFloat32 x) (minP : ℚ) :
    (s.add toFloat32 i minP).Rounded toFloat32 := by
  intro j
  rw [add_cpu h]
  by_cases hj : j = i
  · rw [hj, update_self]
    exact hidem minP
  · rw [update_of_ne hj]
    exact h j

theorem foldl_add (hzero : toFloat32 0 = 0) (hidem : ∀ x, toFloat32 (toFloat32 x) = toFloat32 x)
    {added : List (Nat × NewRequest)} (h : Counted s) (hs : s.Rounded toFloat32)
    (hround : ∀ a ∈ added, a.2.params.minP ≠ 0 → toFloat32 a.2.params.minP ≠ 0) :
    Counted (added.foldl (fun s a => s.add toFloat32 a.1 a.2.params.minP) s) ∧
      (added.foldl (fun s a => s.add toFloat32 a.1 a.2.params.minP) s).minPCpu =
        fillRows s.minPCpu (added.map fun a => (a.1, toFloat32 a.2.params.minP)) := by
  induction added generalizing s with
  | nil => exact ⟨h, rfl⟩
  | cons a added ih =>
    obtain ⟨hcount, hcpu⟩ := ih (h.add hs hzero (hround a mem_cons_self)) (hs.add hidem _)
      fun c hc => hround c (mem_cons_of_mem _ hc)
    refine ⟨hcount, ?_⟩
    rw [foldl_cons, hcpu, add_cpu hs]
    rfl

theorem foldl_remove (h : Counted s) (removed : List Nat) : Counted (removed.foldl remove s) ∧
      (removed.foldl remove s).minPCpu = clearRows 0 s.minPCpu removed := by
  induction removed generalizing s with
  | nil => exact ⟨h, rfl⟩
  | cons i removed ih =>
    obtain ⟨hcount, hcpu⟩ := ih (h.remove i)
    refine ⟨hcount, ?_⟩
    rw [foldl_cons, hcpu, remove_cpu]
    rfl

theorem foldl_move {moved : List Move} (h : Counted s)
    (hmoved : ∀ m ∈ moved, m.direction = .unidirectional → m.dst ≠ m.src) :
    Counted (moved.foldl move s) ∧ (moved.foldl move s).minPCpu = moveRows 0 s.minPCpu moved := by
  induction moved generalizing s with
  | nil => exact ⟨h, rfl⟩
  | cons m moved ih =>
    have hm := hmoved m mem_cons_self
    obtain ⟨hcount, hcpu⟩ := ih (h.move hm) fun n hn => hmoved n (mem_cons_of_mem _ hn)
    refine ⟨hcount, ?_⟩
    rw [foldl_cons, hcpu, move_cpu _ hm]
    rfl

theorem updateState_replay (h : Counted s) (hs : s.Rounded toFloat32) (hzero : toFloat32 0 = 0)
    (hidem : ∀ x, toFloat32 (toFloat32 x) = toFloat32 x) {u : BatchUpdate}
    (hmoved : ∀ m ∈ u.moved, m.direction = .unidirectional → m.dst ≠ m.src)
    (hround : ∀ a ∈ u.added, a.2.params.minP ≠ 0 → toFloat32 a.2.params.minP ≠ 0) :
    Counted (s.updateState toFloat32 (some u)) ∧ (s.updateState toFloat32 (some u)).minPCpu =
        replayRows 0 s.minPCpu (u.added.map fun a => (a.1, toFloat32 a.2.params.minP)) u.removed
          u.moved := by
  obtain ⟨hcount, hcpu⟩ := foldl_add hzero hidem h hs hround
  unfold updateState replayRows
  rw [← hcpu]
  dsimp only
  split
  · obtain ⟨hcount₁, hcpu₁⟩ := foldl_remove hcount u.removed
    obtain ⟨hcount₂, hcpu₂⟩ := foldl_move hcount₁ hmoved
    exact ⟨hcount₂, by rw [hcpu₂, hcpu₁]⟩
  -- `if self.min_p_count`: no row is in use
  rename_i hnone
  refine ⟨hcount, ?_⟩
  have hempty : support
      (u.added.foldl (fun s a => s.add toFloat32 a.1 a.2.params.minP) s).minPCpu = ∅ := by
    have hzero := hcount.2
    exact (Set.ncard_eq_zero hcount.1).mp (by omega)
  rw [support_eq_empty_iff] at hempty
  rw [hempty]
  exact (replayRows_empty 0 u.removed u.moved).symm

end MinPLogitsProcessor

end VllmEcho
