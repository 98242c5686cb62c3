import VllmEcho.Sched.EncoderRange

/-!
# The accounts of the encoder cache

`num_free_slots` and `num_freeable_slots` are kept by every method on its own, with the size taken
from the item at hand.  When an identifier always stands for the same number of embeddings they are
the sizes of what is cached and of what nobody refers to, in every state the scheduler reaches.
-/

namespace VllmEcho

open Lib Dict List

variable {k : String} {refs : List ReqId} {f : MMFeature} (m : EncoderCacheManager)
  {fs : List MMFeature} {refs' : List ReqId}

namespace EncoderCacheManager

def reset : EncoderCacheManager :=
  { m with
    cached := Dict.empty
    freeable := Dict.empty
    freed := []
    numFreeSlots := m.cacheSize
    numFreeableSlots := m.cacheSize }

structure Accounted (size : String → Nat) (m : EncoderCacheManager) : Prop where
  free : m.numFreeSlots = m.cacheSize - ((m.cached.sum fun k _ => size k : Nat) : Int)
  nonneg : 0 ≤ m.numFreeSlots
  freeable : m.numFreeableSlots = m.numFreeSlots + ((m.freeable.sum fun _ n => n : Nat) : Int)
  unreferenced : ∀ k n, m.freeable.get? k = some n ↔ m.cached.get? k = some [] ∧ n = size k

structure Keeps (m' : EncoderCacheManager) : Prop where
  cacheSize : m'.cacheSize = m.cacheSize
  room : m.numFreeSlots ≤ m'.numFreeSlots
  absent : ∀ k, m.cached.get? k = none → m'.cached.get? k = none

theorem Keeps.refl : Keeps m m := ⟨rfl, le_refl _, fun _ h => h⟩

theorem Keeps.trans {m m' m'' : EncoderCacheManager} (h : Keeps m m') (h' : Keeps m' m'') :
    Keeps m m'' :=
  ⟨h'.cacheSize.trans h.cacheSize, h.room.trans h'.room, fun k hk => h'.absent k (h.absent k hk)⟩

def HoldsRef (r : ReqId) (k : String) : Prop := ∃ refs, m.cached.get? k = some refs ∧ r ∈ refs

structure Holds (m' : EncoderCacheManager) : Prop extends Keeps m m' where
  refs : ∀ r q, m.HoldsRef r q → m'.HoldsRef r q

theorem Holds.refl : Holds m m := ⟨Keeps.refl m, fun _ _ h => h⟩

section

variable {size : String → Nat} {m : EncoderCacheManager}

theorem Accounted.init (size : String → Nat) (cacheSize : Nat) :
    Accounted size (EncoderCacheManager.init cacheSize) where
  free := by simp [EncoderCacheManager.init, Dict.sum, Dict.entrySum, Dict.empty]
  nonneg := Int.natCast_nonneg cacheSize
  freeable := by simp [EncoderCacheManager.init, Dict.sum, Dict.entrySum, Dict.empty]
  unreferenced := by simp [EncoderCacheManager.init]

theorem Accounted.reset (size : String → Nat) (m : EncoderCacheManager) : Accounted size m.reset :=
  ⟨(Accounted.init size m.cacheSize).free, (Accounted.init size m.cacheSize).nonneg,
    (Accounted.init size m.cacheSize).freeable, (Accounted.init size m.cacheSize).unreferenced⟩

theorem sum_set_cached {d : Dict String (List ReqId)} (hk : d.get? k = some refs) :
    ((d.set k refs').sum fun k _ => size k) = d.sum fun k _ => size k := by
  have hset := d.sum_set (fun k _ => size k) k refs'
  rw [hk, keyWeight, Option.elim] at hset
  omega

theorem Keeps.set_cached (hk : m.cached.get? k = some refs) {m' : EncoderCacheManager}
    (hsize : m'.cacheSize = m.cacheSize) (hfree : m'.numFreeSlots = m.numFreeSlots)
    (hcached : m'.cached = m.cached.set k refs') : Keeps m m' := by
  refine ⟨hsize, hfree.ge, fun q hq => ?_⟩
  have hne : q ≠ k := by
    rintro rfl
    rw [hk] at hq
    cases hq
  rw [hcached, get?_set_ne _ hne, hq]

theorem Holds.set_cached (hk : m.cached.get? k = some refs) {m' : EncoderCacheManager}
    (hsize : m'.cacheSize = m.cacheSize) (hfree : m'.numFreeSlots = m.numFreeSlots)
    (hcached : m'.cached = m.cached.set k refs') (hsub : ∀ r ∈ refs, r ∈ refs') : Holds m m' := by
  refine ⟨Keeps.set_cached hk hsize hfree hcached, fun r q ⟨refs₁, hget, hr⟩ => ?_⟩
  rw [HoldsRef, hcached]
  by_cases hq : q = k
  · subst hq
    obtain rfl := Option.some.inj (hk.symm.trans hget)
    exact ⟨refs', get?_set_self _, hsub r hr⟩
  · exact ⟨refs₁, by rw [get?_set_ne _ hq, hget], hr⟩

theorem mem_addRef {q r : ReqId} : q ∈ addRef refs r ↔ q ∈ refs ∨ q = r := by
  rw [addRef]
  split
  · rename_i hmem
    exact ⟨Or.inl, fun h => h.elim id fun hq => hq ▸ hmem⟩
  · simp

theorem addRef_ne_nil (r : ReqId) : addRef refs r ≠ [] :=
  ne_nil_of_mem (mem_addRef.mpr (Or.inr rfl))

section

variable (h : Accounted size m)
include h

theorem Accounted.relabel (hk : m.cached.get? k = some refs) (hrefs : refs ≠ [])
    (hrefs' : refs' ≠ []) : Accounted size { m with cached := m.cached.set k refs' } := by
  refine ⟨?_, h.nonneg, h.freeable, fun q n => ?_⟩
  · rw [sum_set_cached hk]
    exact h.free
  · rw [h.unreferenced, get?_set]
    by_cases hq : q = k
    · rw [hq, hk]
      simp [hrefs, hrefs']
    · rw [if_neg hq]

theorem Accounted.check (r : ReqId) (f : MMFeature) :
    ∃ hit m', m.checkAndUpdateCache r f = .ok (hit, m') ∧ Accounted size m' ∧ Holds m m' ∧
      (hit = false → m'.cached.get? f.identifier = none) ∧
      (hit = true → m'.HoldsRef r f.identifier) := by
  rw [checkAndUpdateCache]
  split
  · rename_i hnone
    exact ⟨false, m, rfl, h, Holds.refl m, fun _ => hnone, fun he => by cases he⟩
  · rename_i hnil
    -- the entry is in `freeable` and leaves it
    have hfreeable := (h.unreferenced f.identifier _).mpr ⟨hnil, rfl⟩
    rw [hfreeable]
    refine ⟨true, _, rfl, ⟨?_, h.nonneg, ?_, fun q n => ?_⟩, Holds.set_cached hnil rfl rfl rfl
      fun _ hr => absurd hr not_mem_nil, (fun he => by cases he),
      fun _ => ⟨_, get?_set_self _, mem_singleton_self r⟩⟩
    · rw [sum_set_cached hnil]
      exact h.free
    · have herase := m.freeable.sum_erase (fun _ n => n) f.identifier
      rw [hfreeable, keyWeight, Option.elim] at herase
      have := h.freeable
      dsimp only
      omega
    · rw [get?_erase, get?_set]
      by_cases hq : q = f.identifier
      · simp [hq]
      · rw [if_neg hq, if_neg hq]
        exact h.unreferenced q n
  · rename_i refs hne hsome
    exact ⟨true, _, rfl, h.relabel hsome hne (addRef_ne_nil r),
      Holds.set_cached hsome rfl rfl rfl fun _ hq => mem_addRef.mpr (Or.inl hq),
      (fun he => by cases he),
      fun _ => ⟨_, get?_set_self _, mem_addRef.mpr (Or.inr rfl)⟩⟩

/-- Eviction succeeds if the freeable slots suffice. -/
theorem Accounted.evict {numEmbeds : Int} {fuel : Nat}
    (hfuel : m.freeable.entries.length = fuel) (hroom : numEmbeds ≤ m.numFreeableSlots) :
    ∃ m', evictLoop numEmbeds fuel m = .ok m' ∧ Accounted size m' ∧ Holds m m' ∧
      numEmbeds ≤ m'.numFreeSlots := by
  induction fuel generalizing m with
  | zero =>
    have hempty : (m.freeable.sum fun _ n => n) = 0 := by
      rw [Dict.sum, eq_nil_of_length_eq_zero hfuel]
      rfl
    have hfits : ¬ m.numFreeSlots < numEmbeds := by
      have := h.freeable
      omega
    rw [evictLoop, if_neg hfits]
    exact ⟨m, rfl, h, Holds.refl m, Int.not_lt.mp hfits⟩
  | succ fuel ih =>
    rw [evictLoop]
    split
    · cases hentries : m.freeable.entries with
      | nil =>
        rw [hentries] at hfuel
        cases hfuel
      | cons e es =>
        obtain ⟨k, n⟩ := e
        have hget : m.freeable.get? k = some n :=
          (m.freeable.get?_eq_some_iff).mpr (hentries ▸ mem_cons_self)
        obtain ⟨hnil, hn⟩ := (h.unreferenced k n).mp hget
        have hfree := m.freeable.sum_erase (fun _ n => n) k
        have hcached := m.cached.sum_erase (fun k _ => size k) k
        rw [hget, keyWeight, Option.elim] at hfree
        rw [hnil, keyWeight, Option.elim] at hcached
        have hfree' := h.free
        have hfreeable := h.freeable
        have hnonneg := h.nonneg
        dsimp only
        rw [if_pos (by rw [Dict.contains, hnil]; rfl)]
        obtain ⟨m', hloop, hacc, hholds, hfits⟩ := ih (m :=
          { m with
            freeable := m.freeable.erase k
            cached := m.cached.erase k
            freed := m.freed ++ [k]
            numFreeSlots := m.numFreeSlots + n })
          ⟨by dsimp only; omega, by dsimp only; omega, by dsimp only; omega, fun q n' => by
            rw [get?_erase, get?_erase]
            by_cases hq : q = k
            · simp [hq]
            · rw [if_neg hq, if_neg hq]
              exact h.unreferenced q n'⟩
          (by
            show (Dict.drop k m.freeable.entries).length = fuel
            rw [hentries, Dict.drop]
            simpa [hentries] using hfuel)
          hroom
        refine ⟨m', hloop, hacc, ⟨⟨hholds.cacheSize, ?_, fun q hq => hholds.absent q ?_⟩,
          fun r q hold => ?_⟩, hfits⟩
        · omega
        · rw [get?_erase]
          split
          · rfl
          · exact hq
        obtain ⟨refs, hq, hr⟩ := hold
        -- the entry that leaves has no reference
        have hne : q ≠ k := by
          rintro rfl
          rw [hnil, Option.some.injEq] at hq
          rw [← hq] at hr
          cases hr
        refine hholds.refs r q ⟨refs, ?_, hr⟩
        rw [get?_erase, if_neg hne, hq]
    · rename_i hfits
      exact ⟨m, rfl, h, Holds.refl m, Int.not_lt.mp hfits⟩

theorem Accounted.canAllocate (f : MMFeature) (budget : Int) (reserved : Nat) :
    ∃ fits m', m.canAllocate f budget reserved = .ok (fits, m') ∧ Accounted size m' ∧
      Holds m m' ∧ (fits = true → (f.getNumEmbeds + reserved : Int) ≤ m'.numFreeSlots ∧
        (f.getNumEmbeds : Int) ≤ budget) := by
  rw [EncoderCacheManager.canAllocate]
  dsimp only
  split
  · exact ⟨false, m, rfl, h, Holds.refl m, nofun⟩
  rename_i hbudget
  split
  · rename_i hfits
    exact ⟨true, m, rfl, h, Holds.refl m, fun _ => ⟨hfits, Int.not_lt.mp hbudget⟩⟩
  split
  · exact ⟨false, m, rfl, h, Holds.refl m, nofun⟩
  · rename_i hroom
    obtain ⟨m', hloop, hacc, hholds, hfits⟩ := h.evict rfl (Int.not_lt.mp hroom)
    rw [hloop]
    exact ⟨true, m', rfl, hacc, hholds, fun _ => ⟨hfits, Int.not_lt.mp hbudget⟩⟩

theorem Accounted.allocate (r : ReqId)
    (hsize : f.getNumEmbeds = size f.identifier) (habsent : m.cached.get? f.identifier = none)
    (hroom : (f.getNumEmbeds : Int) ≤ m.numFreeSlots) :
    ∃ m', m.allocate r f = .ok m' ∧ Accounted size m' ∧ m'.cacheSize = m.cacheSize ∧
      m'.numFreeSlots = m.numFreeSlots - f.getNumEmbeds ∧
      ∀ k, k ≠ f.identifier → m'.cached.get? k = m.cached.get? k := by
  have hfreeable := h.freeable
  have hset := m.cached.sum_set (fun k _ => size k) f.identifier
    (addRef ((m.cached.get? f.identifier).getD []) r)
  rw [habsent, keyWeight, Option.elim] at hset
  have hfree := h.free
  rw [EncoderCacheManager.allocate, assertThat, if_pos (decide_eq_true hroom), assertThat,
    if_pos (decide_eq_true (by omega))]
  refine ⟨_, rfl, ⟨?_, ?_, ?_, fun q n => ?_⟩, rfl, rfl, fun k hk => get?_set_ne _ hk⟩
  · dsimp only
    rw [habsent]
    omega
  · dsimp only
    omega
  · dsimp only
    omega
  · rw [h.unreferenced, get?_set]
    by_cases hq : q = f.identifier
    · rw [hq, habsent]
      simp [addRef_ne_nil]
    · rw [if_neg hq]

theorem Accounted.freeEncoderInput (r : ReqId) (hsize : f.getNumEmbeds = size f.identifier) :
    Accounted size (m.freeEncoderInput r f) ∧ Keeps m (m.freeEncoderInput r f) := by
  rw [EncoderCacheManager.freeEncoderInput]
  split
  · exact ⟨h, Keeps.refl m⟩
  · exact ⟨h, Keeps.refl m⟩
  rename_i refs hne hsome
  dsimp only
  split
  · rename_i hrest
    refine ⟨⟨?_, h.nonneg, ?_, fun q n => ?_⟩, Keeps.set_cached hsome rfl rfl rfl⟩
    · rw [sum_set_cached hsome]
      exact h.free
    · -- the entry was referenced, so it is new in `freeable`
      have hnone : m.freeable.get? f.identifier = none := by
        rw [Option.eq_none_iff_forall_ne_some]
        intro n hn
        have := ((h.unreferenced _ n).mp hn).1
        rw [hsome, Option.some.injEq] at this
        exact hne this
      have hset := m.freeable.sum_set (fun _ n => n) f.identifier f.getNumEmbeds
      rw [hnone, keyWeight, Option.elim] at hset
      have := h.freeable
      dsimp only
      omega
    · rw [get?_set, get?_set, hrest]
      by_cases hq : q = f.identifier
      · rw [hq, hsize]
        simp [eq_comm]
      · rw [if_neg hq, if_neg hq]
        exact h.unreferenced q n
  · rename_i hrest
    exact ⟨h.relabel hsome hne hrest, Keeps.set_cached hsome rfl rfl rfl⟩

theorem Accounted.freeEncoderInputs {r : ReqId}
    (hsize : ∀ f ∈ fs, f.getNumEmbeds = size f.identifier) :
    Accounted size (fs.foldl (fun m f => m.freeEncoderInput r f) m) ∧
      Keeps m (fs.foldl (fun m f => m.freeEncoderInput r f) m) := by
  induction fs generalizing m with
  | nil => exact ⟨h, Keeps.refl m⟩
  | cons f fs ih =>
    obtain ⟨hacc, hkeeps⟩ := h.freeEncoderInput r (hsize f mem_cons_self)
    obtain ⟨hacc', hkeeps'⟩ := ih hacc fun f' hf' => hsize f' (mem_cons_of_mem f hf')
    exact ⟨hacc', hkeeps.trans hkeeps'⟩

end

end

end EncoderCacheManager

/-! ## The inputs selected for a step -/

namespace EncoderPlan

variable {size : String → Nat} {r : Request} {p p' p'' : EncoderPlan}

def encoded (r : Request) (p : EncoderPlan) : List MMFeature :=
  p.encoderInputsToSchedule.filterMap (r.mmFeatures[·]?)

def selected (p : EncoderPlan) : List Nat :=
  p.encoderInputsToSchedule ++ p.externalLoadEncoderInput

def items (r : Request) (p : EncoderPlan) : List MMFeature :=
  p.selected.filterMap (r.mmFeatures[·]?)

/-- The selected inputs are items of the request with distinct identifiers, none of them is cached,
and the free slots hold them all. -/
structure Planned (size : String → Nat) (r : Request) (p : EncoderPlan) : Prop where
  accounted : p.cache.Accounted size
  valid : ∀ i ∈ p.selected, i < r.mmFeatures.length
  hashes : ((p.items r).map MMFeature.identifier).Perm p.mmHashesToSchedule
  distinct : p.mmHashesToSchedule.Nodup
  absent : ∀ k ∈ p.mmHashesToSchedule, p.cache.cached.get? k = none
  embeds : ((p.items r).map MMFeature.getNumEmbeds).sum = p.numEmbedsToSchedule
  room : (p.numEmbedsToSchedule : Int) ≤ p.cache.numFreeSlots

def Supplied (p : EncoderPlan) (id : ReqId) (k : String) : Prop :=
  k ∈ p.mmHashesToSchedule ∨ p.cache.HoldsRef id k

theorem Planned.setCache (h : Planned size r p) {cache : EncoderCacheManager}
    (hacc : cache.Accounted size) (hkeeps : p.cache.Keeps cache) :
    Planned size r { p with cache := cache } :=
  { h with
    accounted := hacc
    absent := fun k hk => hkeeps.absent k (h.absent k hk)
    room := h.room.trans hkeeps.room }

structure Advance (size : String → Nat) (r : Request) (p p' : EncoderPlan) : Prop where
  planned : Planned size r p'
  cacheSize : p'.cache.cacheSize = p.cache.cacheSize
  supplied : ∀ k, p.Supplied r.requestId k → p'.Supplied r.requestId k
  paid : (((p'.encoded r).map MMFeature.getNumEmbeds).sum : Int) + p'.encoderComputeBudget =
    ((p.encoded r).map MMFeature.getNumEmbeds).sum + p.encoderComputeBudget
  affordable : 0 ≤ p.encoderComputeBudget → 0 ≤ p'.encoderComputeBudget
  tokens : 0 ≤ p.numNewTokens → 0 ≤ p'.numNewTokens ∧ p'.numNewTokens ≤ p.numNewTokens

theorem Advance.setCache (h : Planned size r p) {cache : EncoderCacheManager}
    (hacc : cache.Accounted size) (hholds : p.cache.Holds cache) :
    Advance size r p { p with cache := cache } :=
  ⟨h.setCache hacc hholds.toKeeps, hholds.cacheSize, fun k hk => hk.imp_right (hholds.refs _ k),
    rfl, fun hle => hle, fun hle => ⟨hle, le_refl _⟩⟩

theorem Advance.refl (h : Planned size r p) : Advance size r p p :=
  Advance.setCache h h.accounted (EncoderCacheManager.Holds.refl p.cache)

theorem Advance.trans (h : Advance size r p p') (h' : Advance size r p' p'') :
    Advance size r p p'' where
  planned := h'.planned
  cacheSize := h'.cacheSize.trans h.cacheSize
  supplied k hk := h'.supplied k (h.supplied k hk)
  paid := h'.paid.trans h.paid
  affordable hle := h'.affordable (h.affordable hle)
  tokens hle :=
    ⟨(h'.tokens (h.tokens hle).1).1, (h'.tokens (h.tokens hle).1).2.trans (h.tokens hle).2⟩

section

variable {i : Nat} (h : Planned size r p) (hi : r.mmFeatures[i]? = some f)
  (hnew : f.identifier ∉ p.mmHashesToSchedule)
  (habsent : p.cache.cached.get? f.identifier = none)
  (hroom : (f.getNumEmbeds + p.numEmbedsToSchedule : Int) ≤ p.cache.numFreeSlots)
include h hi hnew habsent hroom

theorem Planned.add (hselected : p'.selected.Perm (p.selected ++ [i]))
    (hhashes : p'.mmHashesToSchedule = p.mmHashesToSchedule ++ [f.identifier])
    (hembeds : p'.numEmbedsToSchedule = p.numEmbedsToSchedule + f.getNumEmbeds)
    (hcache : p'.cache = p.cache) : Planned size r p' := by
  have hitems : (p'.items r).Perm (p.items r ++ [f]) := by
    have hperm := hselected.filterMap (r.mmFeatures[·]?)
    rwa [filterMap_append, filterMap_cons_some hi] at hperm
  refine ⟨hcache ▸ h.accounted, fun j hj => ?_, ?_, ?_, fun k hk => ?_, ?_, ?_⟩
  · rw [hselected.mem_iff, mem_append, mem_singleton] at hj
    rcases hj with hj | rfl
    · exact h.valid j hj
    · exact lt_of_getElem? hi
  · have hids := hitems.map MMFeature.identifier
    rw [map_append] at hids
    rw [hhashes]
    exact hids.trans (h.hashes.append_right _)
  · rw [hhashes]
    exact nodup_append_comm.mp (nodup_cons.mpr ⟨hnew, h.distinct⟩)
  · rw [hhashes, mem_append, mem_singleton] at hk
    rw [hcache]
    rcases hk with hk | rfl
    · exact h.absent k hk
    · exact habsent
  · rw [hembeds, (hitems.map _).sum_eq, map_append, sum_append, h.embeds]
    rfl
  · rw [hcache]
    omega

theorem Planned.take (cfg : SchedulerConfig) (env : CallEnv)
    (hbudget : (f.getNumEmbeds : Int) ≤ p.encoderComputeBudget) :
    Advance size r p (p.take cfg env f i) ∧
      f.identifier ∈ (p.take cfg env f i).mmHashesToSchedule ∧
      (p.take cfg env f i).numNewTokens = p.numNewTokens := by
  have hmem : f.identifier ∈ p.mmHashesToSchedule ++ [f.identifier] :=
    mem_append_right _ (mem_singleton_self _)
  have hkept : ∀ k, k ∈ p.mmHashesToSchedule ∨ p.cache.HoldsRef r.requestId k →
      k ∈ p.mmHashesToSchedule ++ [f.identifier] ∨ p.cache.HoldsRef r.requestId k :=
    fun k hk => hk.imp_left (mem_append_left _)
  rw [EncoderPlan.take]
  split
  · refine ⟨⟨h.add hi hnew habsent hroom ?_ rfl rfl rfl, rfl, hkept, rfl, fun hle => hle,
      fun hle => ⟨hle, le_refl _⟩⟩, hmem, rfl⟩
    rw [selected, selected, append_assoc]
  refine ⟨⟨h.add hi hnew habsent hroom ?_ rfl rfl rfl, rfl, hkept, ?_, fun _ => ?_,
    fun hle => ⟨hle, le_refl _⟩⟩, hmem, rfl⟩
  · rw [selected, selected, append_assoc, append_assoc]
    exact perm_append_comm.append_left _
  · simp [encoded, hi]
  · dsimp only
    omega

end

variable (cfg : SchedulerConfig) (env : CallEnv) (c : Int) (shift : Nat)

/-- After the loop an item is supplied, or nothing of it was among the tokens, or the tokens end
before it. -/
def Settled (id : ReqId) (n : Int) (p' : EncoderPlan) (f : MMFeature) : Prop :=
  p'.Supplied id f.identifier ∨ ¬ f.Seen cfg.disableChunkedMMInput c n ∨
    p'.numNewTokens = 0 ∨ c + p'.numNewTokens + shift ≤ f.offset

def Looked (id : ReqId) (p : EncoderPlan) (f : MMFeature) (p' : EncoderPlan) (goOn : Bool) : Prop :=
  if goOn then p'.numNewTokens = p.numNewTokens ∧ (f.Masked → 0 < p.numNewTokens → shift ≤ 1 →
    p'.Supplied id f.identifier ∨ ¬ f.Seen cfg.disableChunkedMMInput c p.numNewTokens)
  else p'.numNewTokens = 0 ∨ c + p'.numNewTokens + shift ≤ f.offset

theorem Planned.rollBack (h : Planned size r p) {room : Int}
    (hlt : f.offset < c + p.numNewTokens + shift)
    (hroom : room = max 0 (f.offset - (c + shift))) :
    Advance size r p { p with numNewTokens := room } ∧
      Looked cfg c shift r.requestId p f { p with numNewTokens := room } false := by
  refine ⟨⟨{ h with }, rfl, fun k hk => hk, rfl, fun hle => hle, fun hle => ?_⟩, ?_⟩
  · dsimp only
    omega
  · rw [Looked, if_neg (by decide)]
    dsimp only
    omega

theorem Planned.place (h : Planned size r p) {i : Nat}
    (hi : r.mmFeatures[i]? = some f) (hnew : f.identifier ∉ p.mmHashesToSchedule)
    (habsent : p.cache.cached.get? f.identifier = none)
    (hlt : f.offset < c + p.numNewTokens + shift) (hstop : c < f.stop) :
    ∃ p' goOn, p.place cfg env c shift f i = .ok (p', goOn) ∧ Advance size r p p' ∧
      Looked cfg c shift r.requestId p f p' goOn := by
  rw [EncoderPlan.place]
  split
  · obtain ⟨hadvance, hlooked⟩ := h.rollBack cfg c shift hlt rfl
    exact ⟨_, _, rfl, hadvance, hlooked⟩
  rename_i hwhole
  obtain ⟨fits, cache, hcan, hacc, hholds, hfits⟩ :=
    h.accounted.canAllocate f p.encoderComputeBudget p.numEmbedsToSchedule
  have hcache := Advance.setCache h hacc hholds
  rw [hcan, ok_bind]
  dsimp only
  cases fits with
  | false =>
    have hroom : (if c + shift < f.offset then f.offset - (c + shift) else 0) =
        max 0 (f.offset - (c + shift)) := by
      split <;> omega
    obtain ⟨hadvance, hlooked⟩ := hcache.planned.rollBack cfg c shift hlt hroom
    exact ⟨_, _, rfl, hcache.trans hadvance, hlooked⟩
  | true =>
    rw [if_neg (by simp)]
    split
    · rename_i hempty
      refine ⟨_, _, rfl, hcache, rfl, fun hmask hn hshift => Or.inr ?_⟩
      have hnone := (embedsInRange_eq_iff hmask hn hstop (by omega)).mp hempty
      rintro (hplace | hlast | ⟨hdisable, hbefore, -, hpart⟩)
      · exact hnone (Or.inl hplace)
      · exact hnone (Or.inr (Or.inl hlast))
      · exact hwhole ⟨hdisable, hbefore, hpart⟩
    · obtain ⟨hadvance, hmem, hsame⟩ := hcache.planned.take hi hnew
        (hholds.absent _ habsent) (hfits rfl).1 cfg env (hfits rfl).2
      exact ⟨_, _, rfl, hcache.trans hadvance, hsame, fun _ _ _ => Or.inl (Or.inl hmem)⟩

theorem Planned.item (h : Planned size r p) {i : Nat} (hi : r.mmFeatures[i]? = some f) :
    ∃ p' goOn, p.item cfg env r.requestId c shift f i = .ok (p', goOn) ∧ Advance size r p p' ∧
      Looked cfg c shift r.requestId p f p' goOn := by
  have hrefl := Advance.refl h
  rw [EncoderPlan.item]
  split
  · exact ⟨_, _, rfl, hrefl, Or.inr ‹_›⟩
  rename_i hlt
  split
  · rename_i hstop
    refine ⟨_, _, rfl, hrefl, rfl, fun hmask hn _ => Or.inr fun hseen => ?_⟩
    exact hstop.not_gt (hseen.lt_stop hmask hn.le)
  rename_i hstop
  split
  · exact ⟨_, _, rfl, hrefl, rfl, fun _ _ _ => Or.inl (Or.inl ‹_›)⟩
  rename_i hnew
  obtain ⟨hit, cache, hcheck, hacc, hholds, habsent, hself⟩ := h.accounted.check r.requestId f
  rw [hcheck]
  have hcache := Advance.setCache h hacc hholds
  cases hit with
  | true => exact ⟨_, _, rfl, hcache, rfl, fun _ _ _ => Or.inl (Or.inr (hself rfl))⟩
  | false =>
    obtain ⟨p', goOn, hplace, hadvance, hlooked⟩ := hcache.planned.place cfg env c shift hi hnew
      (habsent rfl) (Int.not_le.mp hlt) (Int.not_le.mp hstop)
    exact ⟨p', goOn, hplace, hcache.trans hadvance, hlooked⟩

/-- The loop over the items of a request. -/
theorem Planned.loop (h : Planned size r p) {fs : List (MMFeature × Nat)}
    (hfs : ∀ x ∈ fs, r.mmFeatures[x.2]? = some x.1) :
    ∃ p', loop cfg env r.requestId c shift fs p = .ok p' ∧ Advance size r p p' ∧
      (0 < p.numNewTokens → shift ≤ 1 → (∀ x ∈ fs, x.1.Masked) →
        fs.Pairwise (fun x y => x.1.offset ≤ y.1.offset) → ∀ x ∈ fs,
          Settled cfg c shift r.requestId p.numNewTokens p' x.1) := by
  induction fs generalizing p with
  | nil => exact ⟨p, rfl, Advance.refl h, by simp⟩
  | cons x fs ih =>
    obtain ⟨p₁, goOn, hitem, hadvance₁, hlooked⟩ := h.item cfg env c shift (hfs x mem_cons_self)
    rw [EncoderPlan.loop, hitem]
    cases goOn with
    | false =>
      refine ⟨p₁, rfl, hadvance₁, fun _ _ _ hsorted y hy => ?_⟩
      have hle : x.1.offset ≤ y.1.offset := by
        rcases mem_cons.mp hy with rfl | hy
        · exact le_refl _
        · exact (pairwise_cons.mp hsorted).1 y hy
      rcases hlooked with hzero | hbefore
      · exact Or.inr (Or.inr (Or.inl hzero))
      · exact Or.inr (Or.inr (Or.inr (by omega)))
    | true =>
      obtain ⟨p', hloop, hadvance, hsettled⟩ :=
        ih hadvance₁.planned fun x' hx' => hfs x' (mem_cons_of_mem x hx')
      obtain ⟨hsame, hx⟩ := hlooked
      refine ⟨p', hloop, hadvance₁.trans hadvance, fun hn hshift hmask hsorted y hy => ?_⟩
      rcases mem_cons.mp hy with rfl | hy
      · rcases hx (hmask y mem_cons_self) hn hshift with hsupplied | hunseen
        · exact Or.inl (hadvance.supplied _ hsupplied)
        · exact Or.inr (Or.inl hunseen)
      · rw [← hsame]
        exact hsettled (hsame ▸ hn) hshift (fun z hz => hmask z (mem_cons_of_mem x hz))
          (pairwise_cons.mp hsorted).2 y hy

end EncoderPlan

variable (cfg : SchedulerConfig)

section

variable {size : String → Nat} {m : EncoderCacheManager} {r : Request}

theorem tryScheduleEncoderInputs_planned (h : m.Accounted size) (cfg : SchedulerConfig)
    (env : CallEnv) (r : Request) (numComputedTokens numNewTokens budget : Int) :
    ∃ p, tryScheduleEncoderInputs cfg env r numComputedTokens numNewTokens budget m = .ok p ∧
        EncoderPlan.Advance size r (EncoderPlan.start numNewTokens budget m) p ∧
        (0 < numNewTokens → (∀ f ∈ r.mmFeatures, f.Masked) →
          r.mmFeatures.Pairwise (fun f g => f.offset ≤ g.offset) → ∀ f ∈ r.mmFeatures,
            EncoderPlan.Settled cfg numComputedTokens (if cfg.useEagle then 1 else 0) r.requestId
              numNewTokens p f) := by
  have hstart : (EncoderPlan.start numNewTokens budget m).Planned size r :=
    ⟨h, nofun, List.Perm.nil, nodup_nil, by simp [EncoderPlan.start], rfl, h.nonneg⟩
  rw [tryScheduleEncoderInputs]
  split
  · rename_i hidle
    refine ⟨_, rfl, EncoderPlan.Advance.refl hstart, fun hn _ _ f hf => ?_⟩
    simp [hn.ne', Request.hasEncoderInputs, ne_nil_of_mem hf] at hidle
  obtain ⟨p, hloop, hadvance, hsettled⟩ :=
    hstart.loop cfg env numComputedTokens (if cfg.useEagle then 1 else 0)
      (fun x hx => mem_zipIdx_iff_getElem?.mp hx)
  refine ⟨p, hloop, hadvance, fun hn hmask hsorted f hf => ?_⟩
  have hitems := zipIdx_map_fst 0 r.mmFeatures
  obtain ⟨x, hx, rfl⟩ := mem_map.mp (hitems.symm ▸ hf)
  refine hsettled hn (by split <;> decide) (fun y hy => hmask _ ?_) ?_ x hx
  · exact hitems ▸ mem_map_of_mem hy
  · rw [← hitems, pairwise_map] at hsorted
    exact hsorted

theorem allocateEncoderInputs_append (is js : List Nat) : allocateEncoderInputs r (is ++ js) m =
      allocateEncoderInputs r is m >>= allocateEncoderInputs r js := by
  induction is generalizing m with
  | nil => rfl
  | cons i is ih =>
    rw [cons_append, allocateEncoderInputs, allocateEncoderInputs]
    cases r.mmFeatures[i]? with
    | none => rfl
    | some f =>
      rw [bind_assoc]
      exact bind_congr fun m => ih

theorem allocateEncoderInputs_accounted (h : m.Accounted size) {is : List Nat}
    (hvalid : ∀ i ∈ is, i < r.mmFeatures.length)
    (hsize : ∀ f ∈ r.mmFeatures, f.getNumEmbeds = size f.identifier)
    (hfs : is.filterMap (r.mmFeatures[·]?) = fs) (hdistinct : (fs.map MMFeature.identifier).Nodup)
    (habsent : ∀ f ∈ fs, m.cached.get? f.identifier = none)
    (hroom : ((fs.map MMFeature.getNumEmbeds).sum : Int) ≤ m.numFreeSlots) :
    ∃ m', allocateEncoderInputs r is m = .ok m' ∧ m'.Accounted size ∧
      m'.cacheSize = m.cacheSize := by
  induction is generalizing m fs with
  | nil => exact ⟨m, rfl, h, rfl⟩
  | cons i is ih =>
    rw [forall_mem_cons] at hvalid
    obtain ⟨f, hi⟩ : ∃ f, r.mmFeatures[i]? = some f := ⟨_, getElem?_eq_getElem hvalid.1⟩
    obtain rfl : f :: is.filterMap (r.mmFeatures[·]?) = fs :=
      (filterMap_cons_some hi).symm.trans hfs
    rw [map_cons, nodup_cons] at hdistinct
    rw [map_cons, sum_cons] at hroom
    obtain ⟨m₁, hallocate, hacc, hsize₁, hfree, hsame⟩ := h.allocate r.requestId
      (hsize f (mem_of_getElem? hi)) (habsent f mem_cons_self) (by omega)
    obtain ⟨m', hrest, hacc', hsize'⟩ := ih hacc hvalid.2 rfl hdistinct.2 (fun f' hf' => by
      rw [hsame _ fun heq => hdistinct.1 (heq ▸ mem_map_of_mem hf')]
      exact habsent f' (mem_cons_of_mem f hf')) (by omega)
    rw [allocateEncoderInputs, hi]
    dsimp only
    rw [hallocate]
    exact ⟨m', hrest, hacc', hsize'.trans hsize₁⟩

end

/-! ## The scheduler's calls -/

inductive EncoderCall where
  | checkAndUpdateCache (requestId : ReqId) (f : MMFeature)
  | canAllocate (f : MMFeature) (encoderComputeBudget : Int) (numEmbedsToSchedule : Nat)
  /-- The inputs of a request are selected, other requests are preempted to make room for its
  blocks, and the selected inputs are allocated. -/
  | schedule (env : CallEnv) (r : Request) (numComputedTokens numNewTokens budget : Int)
      (preempted : List Request)
  /-- The inputs are selected but the request is not scheduled. -/
  | select (env : CallEnv) (r : Request) (numComputedTokens numNewTokens budget : Int)
  | freeEncoderInput (requestId : ReqId) (f : MMFeature)
  | free (r : Request)
  | freeComputedInputs (r : Request)
  | getFreedMMHashes
  | reset

namespace EncoderCall

def items : EncoderCall → List MMFeature
  | checkAndUpdateCache _ f | canAllocate f _ _ | freeEncoderInput _ f => [f]
  | schedule _ r _ _ _ preempted => r.mmFeatures ++ preempted.flatMap Request.mmFeatures
  | select _ r _ _ _ | free r | freeComputedInputs r => r.mmFeatures
  | getFreedMMHashes | reset => []

def exec (m : EncoderCacheManager) : EncoderCall → Except PyError EncoderCacheManager
  | checkAndUpdateCache requestId f => do
    let (_, m) ← m.checkAndUpdateCache requestId f
    pure m
  | canAllocate f budget numEmbedsToSchedule => do
    let (_, m) ← m.canAllocate f budget numEmbedsToSchedule
    pure m
  | schedule env r numComputedTokens numNewTokens budget preempted => do
    let p ← tryScheduleEncoderInputs cfg env r numComputedTokens numNewTokens budget m
    let m ← allocateEncoderInputs r p.encoderInputsToSchedule
      (preempted.foldl EncoderCacheManager.free p.cache)
    allocateEncoderInputs r p.externalLoadEncoderInput m
  | select env r numComputedTokens numNewTokens budget => do
    let p ← tryScheduleEncoderInputs cfg env r numComputedTokens numNewTokens budget m
    pure p.cache
  | freeEncoderInput requestId f => .ok (m.freeEncoderInput requestId f)
  | free r => .ok (m.free r)
  | freeComputedInputs r => .ok (m.freeComputedInputs r)
  | getFreedMMHashes => .ok m.getFreedMMHashes.2
  | reset => .ok m.reset

end EncoderCall

section

variable {size : String → Nat} {m : EncoderCacheManager}

theorem EncoderCacheManager.Accounted.freeRequest (h : m.Accounted size) {r : Request}
    (hsize : ∀ f ∈ r.mmFeatures, f.getNumEmbeds = size f.identifier) :
    (m.free r).Accounted size ∧ m.Keeps (m.free r) :=
  h.freeEncoderInputs fun f hf => hsize f (mem_of_mem_filter hf)

theorem EncoderCacheManager.Accounted.freeRequests (h : m.Accounted size) {rs : List Request}
    (hsize : ∀ f ∈ rs.flatMap Request.mmFeatures, f.getNumEmbeds = size f.identifier) :
    (rs.foldl EncoderCacheManager.free m).Accounted size ∧
      m.Keeps (rs.foldl EncoderCacheManager.free m) := by
  induction rs generalizing m with
  | nil => exact ⟨h, Keeps.refl m⟩
  | cons r rs ih =>
    obtain ⟨hacc, hkeeps⟩ := h.freeRequest fun f hf =>
      hsize f (mem_flatMap.mpr ⟨r, mem_cons_self, hf⟩)
    obtain ⟨hacc', hkeeps'⟩ := ih hacc fun f hf => by
      obtain ⟨r', hr', hf⟩ := mem_flatMap.mp hf
      exact hsize f (mem_flatMap.mpr ⟨r', mem_cons_of_mem r hr', hf⟩)
    exact ⟨hacc', hkeeps.trans hkeeps'⟩

/-- Every call succeeds and keeps the accounts. -/
theorem EncoderCall.exec_accounted (h : m.Accounted size) {call : EncoderCall}
    (hsize : ∀ f ∈ call.items, f.getNumEmbeds = size f.identifier) :
    ∃ m', call.exec cfg m = .ok m' ∧ m'.Accounted size ∧ m'.cacheSize = m.cacheSize := by
  cases call with
  | checkAndUpdateCache requestId f =>
    obtain ⟨hit, m', hcheck, hacc, hholds, -⟩ := h.check requestId f
    rw [exec, hcheck]
    exact ⟨m', rfl, hacc, hholds.cacheSize⟩
  | canAllocate f budget reserved =>
    obtain ⟨fits, m', hcan, hacc, hholds, -⟩ := h.canAllocate f budget reserved
    rw [exec, hcan]
    exact ⟨m', rfl, hacc, hholds.cacheSize⟩
  | schedule env r numComputedTokens numNewTokens budget preempted =>
    obtain ⟨p, hplan, hadvance, -⟩ :=
      tryScheduleEncoderInputs_planned h cfg env r numComputedTokens numNewTokens budget
    have hplanned := hadvance.planned
    obtain ⟨hacc, hkeeps⟩ := hplanned.accounted.freeRequests fun f hf =>
      hsize f (mem_append_right _ hf)
    -- the slots reserved by the selection are still free after the preemptions
    have hfree := hplanned.setCache hacc hkeeps
    obtain ⟨m', hallocate, hacc', hsize'⟩ := allocateEncoderInputs_accounted hacc hplanned.valid
      (fun f hf => hsize f (mem_append_left _ hf)) rfl
      (hplanned.hashes.nodup_iff.mpr hplanned.distinct)
      (fun f hf => hfree.absent _ (hplanned.hashes.mem_iff.mp (mem_map_of_mem hf)))
      (hplanned.embeds ▸ hfree.room)
    rw [exec, hplan, ok_bind, ← allocateEncoderInputs_append]
    exact ⟨m', hallocate, hacc', hsize'.trans (hkeeps.cacheSize.trans hadvance.cacheSize)⟩
  | select env r numComputedTokens numNewTokens budget =>
    obtain ⟨p, hplan, hadvance, -⟩ :=
      tryScheduleEncoderInputs_planned h cfg env r numComputedTokens numNewTokens budget
    rw [exec, hplan]
    exact ⟨p.cache, rfl, hadvance.planned.accounted, hadvance.cacheSize⟩
  | freeEncoderInput requestId f =>
    obtain ⟨hacc, hkeeps⟩ := h.freeEncoderInput requestId (hsize f mem_cons_self)
    exact ⟨_, rfl, hacc, hkeeps.cacheSize⟩
  | free r =>
    obtain ⟨hacc, hkeeps⟩ := h.freeRequest hsize
    exact ⟨_, rfl, hacc, hkeeps.cacheSize⟩
  | freeComputedInputs r =>
    have hsized : ∀ f ∈ (m.cachedInputs r).filter
        fun f => decide ((f.stop : Int) ≤ r.numComputedTokens),
        f.getNumEmbeds = size f.identifier := fun f hf =>
      hsize f (mem_of_mem_filter (mem_of_mem_filter hf))
    obtain ⟨hacc, hkeeps⟩ := h.freeEncoderInputs hsized
    exact ⟨_, rfl, hacc, hkeeps.cacheSize⟩
  | getFreedMMHashes => exact ⟨_, rfl, ⟨h.free, h.nonneg, h.freeable, h.unreferenced⟩, rfl⟩
  | reset => exact ⟨_, rfl, EncoderCacheManager.Accounted.reset size m, rfl⟩

end

/-- Every sequence of calls returns; then the free slots are what the cached entries leave, the
freeable slots add the entries nobody refers to, and `freeable` holds exactly these. -/
theorem encoderCalls_accounted (cfg : SchedulerConfig) (cacheSize : Nat) {size : String → Nat}
    {calls : List EncoderCall}
    (hsize : ∀ call ∈ calls, ∀ f ∈ call.items, f.getNumEmbeds = size f.identifier) :
    ∃ m, calls.foldlM (EncoderCall.exec cfg) (EncoderCacheManager.init cacheSize) = .ok m ∧
      m.numFreeSlots = cacheSize - ((m.cached.sum fun k _ => size k : Nat) : Int) ∧
      0 ≤ m.numFreeSlots ∧
      m.numFreeableSlots = m.numFreeSlots + ((m.freeable.sum fun _ n => n : Nat) : Int) ∧
      ∀ k n, m.freeable.get? k = some n ↔ m.cached.get? k = some [] ∧ n = size k := by
  have hrun : ∀ m₀ : EncoderCacheManager, m₀.Accounted size →
      ∃ m, calls.foldlM (EncoderCall.exec cfg) m₀ = .ok m ∧ m.Accounted size ∧
        m.cacheSize = m₀.cacheSize := by
    induction calls with
    | nil => exact fun m₀ h₀ => ⟨m₀, rfl, h₀, rfl⟩
    | cons call calls ih =>
      intro m₀ h₀
      obtain ⟨m₁, hexec, h₁, hsize₁⟩ :=
        EncoderCall.exec_accounted cfg h₀ (hsize call mem_cons_self)
      obtain ⟨m, hfold, hacc, hsize'⟩ := ih
        (fun call' hcall => hsize call' (mem_cons_of_mem call hcall)) m₁ h₁
      rw [foldlM_cons, hexec]
      exact ⟨m, hfold, hacc, hsize'.trans hsize₁⟩
  obtain ⟨m, hfold, hacc, hcache⟩ :=
    hrun _ (EncoderCacheManager.Accounted.init size cacheSize)
  refine ⟨m, hfold, ?_, hacc.nonneg, hacc.freeable, hacc.unreferenced⟩
  have hfree := hacc.free
  rw [hcache] at hfree
  exact hfree

def imageRequest (id : ReqId) (items : List MMFeature) : Request :=
  Request.unhashed { smallRequest id [1, 2, 3, 4] 4 with mmFeatures := items } 4 .waiting 4

def imageCalls : List EncoderCall :=
  [.schedule quietEnv (imageRequest 0 [⟨"a", 0, 2, none⟩, ⟨"a", 2, 2, none⟩]) 0 4 8 [],
    .free (imageRequest 0 [⟨"a", 0, 2, none⟩, ⟨"a", 2, 2, none⟩]),
    .schedule quietEnv (imageRequest 1 [⟨"b", 0, 4, none⟩]) 0 4 8 []]

def imageSize (k : String) : Nat := if k = "a" then 2 else 4

/-- One image is used twice and given up; the next takes the whole cache. -/
theorem imageCalls_accounted : ∃ m,
    imageCalls.foldlM (EncoderCall.exec (smallScheduler .fcfs false 16 0))
        (EncoderCacheManager.init 4) = .ok m ∧
      m.numFreeSlots = (4 : Nat) - ((m.cached.sum fun k _ => imageSize k : Nat) : Int) := by
  have hsize : ∀ call ∈ imageCalls, ∀ f ∈ call.items,
      f.getNumEmbeds = imageSize f.identifier := by decide
  obtain ⟨m, hrun, hfree, -⟩ :=
    encoderCalls_accounted (smallScheduler .fcfs false 16 0) 4 hsize
  exact ⟨m, hrun, hfree⟩

end VllmEcho
