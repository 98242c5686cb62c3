import VllmEcho.Sched.EncoderAccount

/-!
# The scheduled tokens have their embeddings

What `_try_schedule_encoder_inputs` promises for the tokens it returns: the items with an embedding
among them, or among the tokens after them that the drafter reads, are at hand.
-/

namespace VllmEcho

open Lib Dict List

variable (cfg : SchedulerConfig) (r : Request) (c n : Nat)

def SchedulerConfig.shiftComputedTokens : Nat := if cfg.useEagle then 1 else 0

/-- The items with an embedding among the returned tokens, or among the drafter's, are encoded or
loaded in this step or cached for the request, at a cost within the budget. -/
def SuppliesTokens (budget : Nat) (p : EncoderPlan) : Prop :=
  0 ≤ p.numNewTokens ∧ p.numNewTokens ≤ n ∧
    ((p.encoded r).map MMFeature.getNumEmbeds).sum ≤ budget ∧
    ∀ f ∈ r.mmFeatures, ∀ q : Nat, f.EmbedAt q →
      (c ≤ q ∧ q < c + p.numNewTokens ∨
        c + cfg.shiftComputedTokens ≤ q ∧ q < c + cfg.shiftComputedTokens + p.numNewTokens) →
      f.identifier ∈ (p.items r).map MMFeature.identifier ∨
        p.cache.HoldsRef r.requestId f.identifier

/-- An item with an embedding at the one token that only the drafter reads is seen for another
token. -/
def DrafterSees : Prop :=
  cfg.useEagle = true → 0 < n → ∀ f ∈ r.mmFeatures, f.EmbedAt (c + n) →
    ∃ g ∈ r.mmFeatures, g.identifier = f.identifier ∧ g.Seen cfg.disableChunkedMMInput c n

variable {cfg r c n}

theorem tryScheduleEncoderInputs_supplies (hmask : ∀ f ∈ r.mmFeatures, f.Masked)
    (hsorted : r.mmFeatures.Pairwise fun f g => f.offset ≤ g.offset)
    (hsees : DrafterSees cfg r c n) (env : CallEnv) (budget : Nat) {size : String → Nat}
    {m : EncoderCacheManager} (h : m.Accounted size) :
    ∃ p, tryScheduleEncoderInputs cfg env r c n budget m = .ok p ∧
      SuppliesTokens cfg r c n budget p := by
  obtain ⟨p, hplan, hadvance, hsettled⟩ :=
    tryScheduleEncoderInputs_planned h cfg env r c n budget
  have htokens := hadvance.tokens (Int.natCast_nonneg n)
  have hpaid := hadvance.paid
  have hleft := hadvance.affordable (Int.natCast_nonneg budget)
  have hsupplied : ∀ k, p.Supplied r.requestId k →
      k ∈ (p.items r).map MMFeature.identifier ∨ p.cache.HoldsRef r.requestId k :=
    fun k hk => hk.imp_left hadvance.planned.hashes.mem_iff.mpr
  simp only [EncoderPlan.start, EncoderPlan.encoded, filterMap_nil, map_nil, sum_nil]
    at htokens hpaid
  refine ⟨p, hplan, htokens.1, htokens.2, by rw [EncoderPlan.encoded]; omega,
    fun f hf q hembed hq => hsupplied _ ?_⟩
  have hn : (0 : Int) < n := by omega
  replace hsettled := hsettled hn hmask hsorted
  have hstart := hembed.1
  rw [SchedulerConfig.shiftComputedTokens] at hq
  rcases hsettled f hf with hdone | hunseen | hzero | hbefore
  · exact hdone
  · -- no token of the step is a place of the item, so `q` is the one after them
    have hlast : ¬ (q : Int) < c + n := fun hlt =>
      hunseen (Or.inl ⟨q, by omega, hlt, hembed⟩)
    have heagle : cfg.useEagle = true := by
      by_contra hno
      rw [if_neg hno] at hq
      omega
    rw [if_pos heagle] at hq
    obtain rfl : q = c + n := by omega
    obtain ⟨g, hg, hsame, hseen⟩ := hsees heagle (by omega) f hf hembed
    rw [← hsame]
    rcases hsettled g hg with hdone | hunseen' | hzero | hbefore
    · exact hdone
    · exact absurd hseen hunseen'
    · omega
    · have := hseen.offset_le
      rw [if_pos heagle] at hbefore
      omega
  · omega
  · omega

section

variable {k : String} {id : ReqId} {budget : Int} {m : EncoderCacheManager} (env : CallEnv)
  (hn : 0 < n) (hmissing : m.cached.get? k = none)
include hn hmissing

theorem EncoderPlan.item_skips {f : MMFeature} (i : Nat) (hmask : f.Masked)
    (hbudget : (f.getNumEmbeds : Int) ≤ budget) (hroom : (f.getNumEmbeds : Int) ≤ m.numFreeSlots)
    (hcached : f.identifier ≠ k → m.cached.get? f.identifier = some [id])
    (hunseen : f.identifier = k → ¬ f.Seen cfg.disableChunkedMMInput c n) :
    ∃ m' goOn, item cfg env id c 1 (start n budget m) f i = .ok (start n budget m', goOn) ∧
      m'.numFreeSlots = m.numFreeSlots ∧ ∀ q, m'.cached.get? q = m.cached.get? q := by
  rw [item]
  split
  · exact ⟨m, _, rfl, rfl, fun _ => rfl⟩
  rename_i hbefore
  split
  · exact ⟨m, _, rfl, rfl, fun _ => rfl⟩
  rename_i hstop
  rw [EncoderCacheManager.checkAndUpdateCache]
  dsimp only [start] at hbefore hstop ⊢
  by_cases hk : f.identifier = k
  · have hblind := hunseen hk
    have hwhole : ¬ (cfg.disableChunkedMMInput = true ∧ (c : Int) < f.offset ∧
        (c : Int) + n < f.stop) := by
      rintro ⟨hdisable, hlt, hpart⟩
      exact hblind (Or.inr (Or.inr ⟨hdisable, hlt, by omega, hpart⟩))
    have hempty := (@embedsInRange_eq_iff (start n budget m) f c hmask (by simpa [start] using hn)
      (Int.not_le.mp hstop) (by dsimp only [start]; omega)).mpr fun hseen => hblind <|
        hseen.imp_right fun h => h.imp_right fun h => absurd h.1 Bool.false_ne_true
    rw [hk, hmissing, ok_bind]
    dsimp only
    rw [if_neg (by decide), place, if_neg hwhole, EncoderCacheManager.canAllocate,
      if_neg (by dsimp only; omega), if_pos (by dsimp only; omega), ok_bind]
    dsimp only [start] at hempty ⊢
    rw [if_pos hempty]
    exact ⟨m, _, rfl, rfl, fun _ => rfl⟩
  · rw [hcached hk]
    refine ⟨_, true, rfl, rfl, fun q => ?_⟩
    rw [get?_set]
    split
    · rename_i hq
      rw [hq, hcached hk, EncoderCacheManager.addRef, if_pos (mem_singleton_self id)]
    · rfl

/-- Only the items of one identifier are missing from the cache, and none of them is seen. -/
theorem EncoderPlan.loop_skips {fs : List (MMFeature × Nat)} (hmask : ∀ x ∈ fs, x.1.Masked)
    (hbudget : ∀ x ∈ fs, (x.1.getNumEmbeds : Int) ≤ budget)
    (hroom : ∀ x ∈ fs, (x.1.getNumEmbeds : Int) ≤ m.numFreeSlots)
    (hcached : ∀ x ∈ fs, x.1.identifier ≠ k → m.cached.get? x.1.identifier = some [id])
    (hunseen : ∀ x ∈ fs, x.1.identifier = k → ¬ x.1.Seen cfg.disableChunkedMMInput c n) :
    ∃ m', loop cfg env id c 1 fs (start n budget m) = .ok (start n budget m') ∧
      m'.cached.get? k = none := by
  induction fs generalizing m with
  | nil => exact ⟨m, rfl, hmissing⟩
  | cons x fs ih =>
    rw [forall_mem_cons] at hmask hbudget hroom hcached hunseen
    obtain ⟨m₁, goOn, hitem, hfree, hsame⟩ := item_skips env hn hmissing x.2 hmask.1 hbudget.1
      hroom.1 hcached.1 hunseen.1
    rw [loop, hitem]
    cases goOn with
    | false => exact ⟨m₁, rfl, (hsame k).trans hmissing⟩
    | true =>
      exact ih ((hsame k).trans hmissing) hmask.2 hbudget.2 (hfree ▸ hroom.2)
        (fun y hy hne => (hsame _).trans (hcached.2 y hy hne)) hunseen.2

end

def itemSize (r : Request) (k : String) : Nat :=
  ((r.mmFeatures.find? (·.identifier = k)).map MMFeature.getNumEmbeds).getD 0

def cachedButOne (r : Request) (k : String) : EncoderCacheManager where
  cacheSize := (r.mmFeatures.map MMFeature.getNumEmbeds).sum +
    (((r.mmFeatures.map MMFeature.identifier).filter (· ≠ k)).dedup.map (itemSize r)).sum
  numFreeSlots := (r.mmFeatures.map MMFeature.getNumEmbeds).sum
  numFreeableSlots := (r.mmFeatures.map MMFeature.getNumEmbeds).sum
  cached :=
    ⟨((r.mmFeatures.map MMFeature.identifier).filter (· ≠ k)).dedup.map (·, [r.requestId]), by
      rw [map_map]
      exact (map_id _).symm ▸ nodup_dedup _⟩
  freeable := Dict.empty
  freed := []

theorem get?_cachedButOne {k q : String} {refs : List ReqId} :
    (cachedButOne r k).cached.get? q = some refs ↔
      ∃ f ∈ r.mmFeatures, f.identifier ≠ k ∧ f.identifier = q ∧ refs = [r.requestId] := by
  rw [get?_eq_some_iff]
  simp [cachedButOne, and_assoc, @eq_comm _ [r.requestId] refs]

theorem cachedButOne_accounted (k : String) : (cachedButOne r k).Accounted (itemSize r) where
  free := by simp [cachedButOne, Dict.sum, entrySum, Function.comp_def]
  nonneg := Int.natCast_nonneg _
  freeable := by simp [cachedButOne, Dict.sum, entrySum, Dict.empty]
  unreferenced q size := by
    rw [get?_cachedButOne]
    simp [cachedButOne]

/-- The tokens that stay scheduled are supplied in every state exactly if the drafter sees its
items. -/
theorem tryScheduleEncoderInputs_supplies_iff (hmask : ∀ f ∈ r.mmFeatures, f.Masked)
    (hsorted : r.mmFeatures.Pairwise fun f g => f.offset ≤ g.offset) :
    (∀ (env : CallEnv) (budget : Nat) (size : String → Nat) (m : EncoderCacheManager),
      m.Accounted size → ∃ p, tryScheduleEncoderInputs cfg env r c n budget m = .ok p ∧
        SuppliesTokens cfg r c n budget p) ↔ DrafterSees cfg r c n := by
  refine ⟨fun hall heagle hn f hf hembed => ?_, fun hsees env budget size m h =>
    tryScheduleEncoderInputs_supplies hmask hsorted hsees env budget h⟩
  by_contra hnone
  have hitem : ∀ x ∈ r.mmFeatures.zipIdx, x.1 ∈ r.mmFeatures := fun x hx =>
    mem_of_getElem? (mem_zipIdx_iff_getElem?.mp hx)
  have hembeds : ∀ x ∈ r.mmFeatures.zipIdx, (x.1.getNumEmbeds : Int) ≤
      ((r.mmFeatures.map MMFeature.getNumEmbeds).sum : Nat) := fun x hx =>
    Int.ofNat_le.mpr (le_sum_of_mem (mem_map_of_mem (hitem x hx)))
  have hmissing : (cachedButOne r f.identifier).cached.get? f.identifier = none :=
    Option.eq_none_iff_forall_ne_some.mpr fun refs hrefs => by
      obtain ⟨g, -, hne, hsame, -⟩ := get?_cachedButOne.mp hrefs
      exact hne hsame
  obtain ⟨m, hloop, hcached⟩ := @EncoderPlan.loop_skips cfg c n f.identifier r.requestId
    _ (cachedButOne r f.identifier) quietEnv hn hmissing r.mmFeatures.zipIdx
    (fun x hx => hmask x.1 (hitem x hx)) hembeds hembeds
    (fun x hx hne => get?_cachedButOne.mpr ⟨x.1, hitem x hx, hne, rfl, rfl⟩)
    (fun x hx hsame hseen => hnone ⟨x.1, hitem x hx, hsame, hseen⟩)
  obtain ⟨p, hplan, -, -, -, hsupplied⟩ :=
    hall quietEnv _ _ _ (cachedButOne_accounted f.identifier)
  rw [tryScheduleEncoderInputs, if_neg (by
    simp [hn.ne', Request.hasEncoderInputs, ne_nil_of_mem hf]), if_pos heagle, hloop] at hplan
  obtain rfl : EncoderPlan.start n _ m = p := Except.ok.inj hplan
  rcases hsupplied f hf _ hembed (Or.inr (by
    rw [SchedulerConfig.shiftComputedTokens, if_pos heagle]
    dsimp only [EncoderPlan.start]
    omega)) with hmem | ⟨refs, hrefs, -⟩
  · cases hmem
  · rw [EncoderPlan.start, hcached] at hrefs
    cases hrefs

def eagleScheduler : SchedulerConfig :=
  { smallScheduler .fcfs false 16 1 with useEagle := true }

/-- The image begins at the first token that only the drafter reads. -/
theorem imageAfterTokens_missed :
    ∃ p, tryScheduleEncoderInputs eagleScheduler quietEnv
        (imageRequest 0 [⟨"a", 2, 2, none⟩]) 0 2 8 (EncoderCacheManager.init 8) = .ok p ∧
      ¬ SuppliesTokens eagleScheduler (imageRequest 0 [⟨"a", 2, 2, none⟩]) 0 2 8 p := by
  refine ⟨_, rfl, ?_⟩
  rintro ⟨-, -, -, hsupplied⟩
  rcases hsupplied ⟨"a", 2, 2, none⟩ mem_cons_self 2 ⟨le_refl 2, by decide, nofun⟩
    (Or.inr ⟨by decide, by decide⟩) with hmem | ⟨refs, hrefs, -⟩
  · cases hmem
  · cases hrefs

/-- The image begins one token earlier. -/
theorem imageAtLastToken_supplied :
    ∃ p, tryScheduleEncoderInputs eagleScheduler quietEnv
        (imageRequest 0 [⟨"a", 1, 2, none⟩]) 0 2 8 (EncoderCacheManager.init 8) = .ok p ∧
      SuppliesTokens eagleScheduler (imageRequest 0 [⟨"a", 1, 2, none⟩]) 0 2 8 p := by
  refine (tryScheduleEncoderInputs_supplies_iff ?_ (pairwise_singleton _ _)).mpr ?_ quietEnv 8
    (fun _ => 2) _ (EncoderCacheManager.Accounted.init _ 8)
  · intro f hf mask hmask
    rw [mem_singleton.mp hf] at hmask
    cases hmask
  · intro _ _ f hf _
    rw [mem_singleton.mp hf]
    exact ⟨_, mem_cons_self, rfl, Or.inl ⟨1, by decide, by decide, le_refl 1, by decide, nofun⟩⟩

end VllmEcho
