import VllmEcho.Request.HashedBlocks

/-!
# Which requests share a block hash

Two requests have a block hash in common exactly when the inputs of the chain agree up to that
block.  The extra keys are an untagged concatenation, and the walk over the multimodal items can
miss some, so agreement of the inputs falls short of agreement of the requests in three ways, all
described here by the arguments the requests were built from.
-/

namespace VllmEcho

open Lib List Request

variable (h : BlockHasher) (a : RequestArgs)

namespace RequestArgs

variable (a : RequestArgs)

def loraName : Option String := a.loraRequest.map LoRARequest.loraName

def saltKey : Option String := a.cacheSalt.filter fun s => decide (s ≠ "")

def embedsDigest (h : BlockHasher) (k : Nat) : Option (List UInt8) :=
  a.promptEmbeds.map fun e => h.fn.sha256 (slice e (k * h.blockSize) ((k + 1) * h.blockSize))

def place (f : MMFeature) : String × Nat := (f.identifier, f.offset)

variable (blockSize : Nat)

def itemsOver (k : Nat) : List (String × Nat) :=
  (itemsIn a.mmFeatures (k * blockSize) ((k + 1) * blockSize)).map place

variable (outputs : List (List TokenId))

/-- The items the hasher looks at for block `k`: a block hashed after the first batch is only
compared with the last item. -/
def itemsSeen (k : Nat) : List (String × Nat) :=
  (itemsHashed a.mmFeatures (seenFrom a.mmFeatures (firstBatch blockSize a.promptLength outputs) k)
    (k * blockSize) ((k + 1) * blockSize)).map place

/-- The hasher does not come to item `j` in the block `[lo, hi)`: the batch starts behind it, it
stops at an earlier item that outlasts the block or begins behind it, or the last item has ended. -/
def Unreached (mm : List MMFeature) (b lo hi j : Nat) : Prop :=
  j < b ∨ (∃ i g, b ≤ i ∧ i < j ∧ mm[i]? = some g ∧ (hi ≤ g.offset ∨ hi < g.stop)) ∨
    ∃ last ∈ mm.getLast?, last.stop ≤ lo

/-- Some block up to `i` meets an item that the hasher does not come to. -/
def HidesItem (i : Nat) : Prop :=
  ∃ k ≤ i, ∃ j f, a.mmFeatures[j]? = some f ∧
    f.offset < (k + 1) * blockSize ∧ k * blockSize < f.stop ∧
    Unreached a.mmFeatures (seenFrom a.mmFeatures (firstBatch blockSize a.promptLength outputs) k)
      (k * blockSize) ((k + 1) * blockSize) j

def Swapped (a a' : RequestArgs) : Prop :=
  ∃ x, a.loraName = some x ∧ a.saltKey = none ∧ a'.loraName = none ∧ a'.saltKey = some x

def EmptySalt (a a' : RequestArgs) : Prop := a.cacheSalt = none ∧ a'.cacheSalt = some ""

end RequestArgs

open RequestArgs

variable (outputs : List (List TokenId)) (a' : RequestArgs) (outputs' : List (List TokenId))
  (i : Nat)

structure Indistinguishable : Prop where
  tokens : (a.tokensWith outputs).take ((i + 1) * h.blockSize) =
    (a'.tokensWith outputs').take ((i + 1) * h.blockSize)
  items : ∀ k ≤ i, a.itemsSeen h.blockSize outputs k = a'.itemsSeen h.blockSize outputs' k
  embeds : ∀ k ≤ i, a.embedsDigest h k = a'.embedsDigest h k
  names : (a.loraName = a'.loraName ∧ a.saltKey = a'.saltKey) ∨
    (i = 0 ∧ a.itemsSeen h.blockSize outputs 0 = [] ∧ (Swapped a a' ∨ Swapped a' a))

/-- The requests look the same to the hasher, and for one of the three reasons they are not. -/
structure Confusable : Prop extends Indistinguishable h a outputs a' outputs' i where
  reason : (i = 0 ∧ (Swapped a a' ∨ Swapped a' a)) ∨ (EmptySalt a a' ∨ EmptySalt a' a) ∨
    ((a.HidesItem h.blockSize outputs i ∨ a'.HidesItem h.blockSize outputs' i) ∧
      ∃ k ≤ i, a.itemsOver h.blockSize k ≠ a'.itemsOver h.blockSize k)

structure SamePrefix (blockSize : Nat) (a : RequestArgs) (outputs : List (List TokenId))
    (a' : RequestArgs) (outputs' : List (List TokenId)) (i j : Nat) : Prop where
  index : i = j
  tokens : (a.tokensWith outputs).take ((i + 1) * blockSize) =
    (a'.tokensWith outputs').take ((i + 1) * blockSize)
  lora : a.loraName = a'.loraName
  salt : a.cacheSalt = a'.cacheSalt
  items : ∀ k ≤ i, a.itemsOver blockSize k = a'.itemsOver blockSize k

/-! ## Reading the extra keys back -/

variable (lora salt : Option String)

def joinKeys (items : List (String × Int)) (salt : Option String) (embeds : Option (List UInt8)) :
    List ExtraKey :=
  lora.toList.map .text ++ items.map (fun p => .item p.1 p.2) ++ salt.toList.map .text ++
    embeds.toList.map .digest

def digestOf : ExtraKey → Option (List UInt8)
  | .digest b => some b
  | _ => none

def itemOf : ExtraKey → Option (String × Int)
  | .item s o => some (s, o)
  | _ => none

variable {m : List (String × Int)} {e : Option (List UInt8)} {l s : Option String}

theorem joinKeys_digest : (joinKeys l m s e).filterMap digestOf = e.toList := by
  have hitems : (m.map fun p => ExtraKey.item p.1 p.2).filterMap digestOf = [] := by
    rw [filterMap_map]
    exact filterMap_eq_nil_iff.mpr fun p _ => rfl
  rw [joinKeys, filterMap_append, filterMap_append, filterMap_append, hitems]
  cases l <;> cases s <;> cases e <;> rfl

theorem joinKeys_items : (joinKeys l m s e).filterMap itemOf = m := by
  have hitems : (m.map fun p => ExtraKey.item p.1 p.2).filterMap itemOf = m := by
    rw [filterMap_map]
    exact filterMap_some
  rw [joinKeys, filterMap_append, filterMap_append, filterMap_append, hitems]
  cases l <;> cases s <;> cases e <;> simp [itemOf, filterMap_cons]

/-- The joined keys determine their parts, except that an adapter name can pass for a salt. -/
theorem joinKeys_eq_iff {l' s' : Option String} {m' : List (String × Int)}
    {e' : Option (List UInt8)} : joinKeys l m s e = joinKeys l' m' s' e' ↔
      e = e' ∧ m = m' ∧ ((l = l' ∧ s = s') ∨ (m = [] ∧
        ((∃ x, l = some x ∧ s = none ∧ l' = none ∧ s' = some x) ∨
          (∃ x, l' = some x ∧ s' = none ∧ l = none ∧ s = some x)))) := by
  constructor
  · intro h
    have he : e = e' := by
      have := congrArg (List.filterMap digestOf) h
      rw [joinKeys_digest, joinKeys_digest] at this
      cases e <;> cases e' <;> simp_all
    have hm : m = m' := by
      have := congrArg (List.filterMap itemOf) h
      rwa [joinKeys_items, joinKeys_items] at this
    subst he hm
    refine ⟨rfl, rfl, ?_⟩
    have hnames := append_cancel_right h
    cases m with
    | nil =>
      cases l <;> cases l' <;> cases s <;> cases s' <;> simp_all
    | cons p ps =>
      cases l <;> cases l' <;> cases s <;> cases s' <;> simp_all
  · rintro ⟨rfl, rfl, ⟨rfl, rfl⟩ | ⟨rfl, ⟨x, rfl, rfl, rfl, rfl⟩ | ⟨x, rfl, rfl, rfl, rfl⟩⟩⟩
    · rfl
    · rfl
    · rfl

/-! ## Equal hashes -/

variable {i : Nat} {k bs : Nat}

section

variable {h : BlockHasher} {a a' : RequestArgs} {outputs outputs' : List (List TokenId)}
  {r r' : Request}

def itemPairs (a : RequestArgs) (bs : Nat) (outputs : List (List TokenId)) (k : Nat) :
    List (String × Int) :=
  (a.itemsSeen bs outputs k).map fun p => (p.1, (p.2 : Int) - (k * bs : Nat))

theorem itemPairs_inj : itemPairs a bs outputs k = itemPairs a' bs outputs' k ↔
      a.itemsSeen bs outputs k = a'.itemsSeen bs outputs' k := by
  refine Function.Injective.eq_iff (Function.Injective.list_map ?_)
  rintro ⟨s, o⟩ ⟨s', o'⟩ heq
  simp only [Prod.mk.injEq] at heq ⊢
  exact ⟨heq.1, by omega⟩

theorem itemPairs_eq_nil : itemPairs a bs outputs k = [] ↔ a.itemsSeen bs outputs k = [] := by
  rw [itemPairs, map_eq_nil_iff]

theorem Built.blockKeys_eq (hb : Built h a outputs r) :
    blockKeys h r (firstBatch h.blockSize a.promptLength outputs) k =
      joinKeys a.loraName (itemPairs a h.blockSize outputs k)
        (if k = 0 then a.saltKey else none) (a.embedsDigest h k) := by
  have hlora : genLoraExtraHashKeys r = a.loraName.toList.map .text := by
    rw [genLoraExtraHashKeys, hb.lora, RequestArgs.loraName]
    cases a.loraRequest <;> rfl
  have hsalt : cacheSaltKeys r (k * h.blockSize) =
      (if k = 0 then a.saltKey else none).toList.map .text := by
    have hk : k * h.blockSize = 0 ↔ k = 0 := by
      have := h.blockSize_pos
      rw [Nat.mul_eq_zero]
      omega
    rw [cacheSaltKeys, hb.salt, saltKey]
    cases a.cacheSalt with
    | none => simp
    | some s =>
      by_cases hs : s = "" <;> by_cases hz : k = 0 <;> simp [Option.filter, hs, hz, hk]
  have hembeds : genPromptEmbedsExtraHashKeys h.fn r (k * h.blockSize)
      ((k + 1) * h.blockSize) = (a.embedsDigest h k).toList.map .digest := by
    rw [genPromptEmbedsExtraHashKeys, hb.embeds, embedsDigest]
    cases a.promptEmbeds <;> rfl
  rw [blockKeys, joinKeys, hlora, hsalt, hembeds, hb.features, itemPairs, itemsSeen,
    map_map, map_map]
  rfl

theorem blockContents_take_eq_iff (n n' : Nat) (hi : i < numFullBlocks h r)
    (hi' : i < numFullBlocks h r') : (blockContents h r n (numFullBlocks h r)).take (i + 1) =
        (blockContents h r' n' (numFullBlocks h r')).take (i + 1) ↔
      r.allTokenIds.take ((i + 1) * h.blockSize) = r'.allTokenIds.take ((i + 1) * h.blockSize) ∧
        ∀ k ≤ i, blockKeys h r n k = blockKeys h r' n' k := by
  rw [blockContents, blockContents, ← map_take, ← map_take, take_range,
    take_range, Nat.min_eq_left hi, Nat.min_eq_left hi', map_inj_left, take_mul_eq_iff]
  simp only [mem_range, blockContent, Prod.mk.injEq, packKeys_inj, Nat.lt_succ_iff]
  constructor
  · intro hall
    exact ⟨fun k hk => (hall k hk).1, fun k hk => (hall k hk).2⟩
  · rintro ⟨htok, hkeys⟩ k hk
    exact ⟨htok k hk, hkeys k hk⟩

/-- The keys of blocks `0` to `i` agree exactly if the parts do, up to the same confusion. -/
theorem joinKeys_all_eq_iff (i : Nat) :
    (∀ k ≤ i, joinKeys a.loraName (itemPairs a h.blockSize outputs k)
          (if k = 0 then a.saltKey else none) (a.embedsDigest h k) =
        joinKeys a'.loraName (itemPairs a' h.blockSize outputs' k)
          (if k = 0 then a'.saltKey else none) (a'.embedsDigest h k)) ↔
      (∀ k ≤ i, a.itemsSeen h.blockSize outputs k = a'.itemsSeen h.blockSize outputs' k) ∧
      (∀ k ≤ i, a.embedsDigest h k = a'.embedsDigest h k) ∧
      ((a.loraName = a'.loraName ∧ a.saltKey = a'.saltKey) ∨
        (i = 0 ∧ a.itemsSeen h.blockSize outputs 0 = [] ∧ (Swapped a a' ∨ Swapped a' a))) := by
  simp only [joinKeys_eq_iff, itemPairs_inj, itemPairs_eq_nil]
  constructor
  · intro hall
    refine ⟨fun k hk => (hall k hk).2.1, fun k hk => (hall k hk).1, ?_⟩
    rcases (hall 0 (Nat.zero_le i)).2.2 with ⟨hl, hs⟩ | ⟨hnil, hswap⟩
    · exact .inl ⟨hl, hs⟩
    -- A swap in block 0 is undone by block 1, which has the LoRA name and no salt.
    cases i with
    | zero => exact .inr ⟨rfl, hnil, hswap⟩
    | succ i =>
      have hone := (hall 1 (by omega)).2.2
      simp only [Nat.one_ne_zero, if_false] at hone
      rcases hswap with ⟨x, hx, -, hx', -⟩ | ⟨x, hx, -, hx', -⟩ <;>
        rcases hone with ⟨hl, -⟩ | ⟨-, ⟨y, -, -, -, hy⟩ | ⟨y, -, -, -, hy⟩⟩ <;>
        simp_all
  · rintro ⟨hitems, hembeds, hnames⟩ k hk
    refine ⟨hembeds k hk, hitems k hk, ?_⟩
    rcases hnames with ⟨hl, hs⟩ | ⟨rfl, hnil, hswap⟩
    · left
      rw [hl, hs]
      exact ⟨rfl, rfl⟩
    · obtain rfl : k = 0 := by omega
      exact .inr ⟨hnil, hswap⟩

theorem blockHash_eq_iff (hb : Built h a outputs r) (hb' : Built h a' outputs' r') {j : Nat}
    (hi : i < r.blockHashes.length) (hj : j < r'.blockHashes.length) :
    r.blockHashes[i]? = r'.blockHashes[j]? ↔
      i = j ∧ Indistinguishable h a outputs a' outputs' i := by
  have hhash := hb.hashed
  have hhash' := hb'.hashed
  rw [hhash, chain_length, blockContents_length] at hi
  rw [hhash', chain_length, blockContents_length] at hj
  rw [hhash, hhash', chain_getElem?_eq_iff h.fn.injective h.fn.noneHash_fresh (by simpa using hi)
    (by simpa using hj)]
  apply and_congr_right
  rintro rfl
  rw [blockContents_take_eq_iff _ _ hi hj, hb.tokens, hb'.tokens]
  simp only [hb.blockKeys_eq, hb'.blockKeys_eq]
  rw [joinKeys_all_eq_iff]
  exact ⟨fun ⟨ht, hit, he, hn⟩ => ⟨ht, hit, he, hn⟩,
    fun hind => ⟨hind.tokens, hind.items, hind.embeds, hind.names⟩⟩

/-! ## The items behind the keys -/

/-- If the walk reaches every item of the block, it hashes all of them. -/
theorem itemsHashed_of_reached {mm : List MMFeature} {b lo hi : Nat}
    (hreach : ∀ j f, mm[j]? = some f → f.offset < hi → lo < f.stop →
      ¬ Unreached mm b lo hi j) : itemsHashed mm b lo hi = itemsIn mm lo hi := by
  have hskipped : itemsIn (mm.take b) lo hi = [] := by
    refine itemsIn_eq_nil_iff.mpr fun f hf hmeets => ?_
    obtain ⟨j, hj⟩ := mem_iff_getElem?.mp hf
    rw [getElem?_take] at hj
    split at hj
    · rename_i hlt
      exact hreach j f hj hmeets.1 hmeets.2 (.inl hlt)
    · cases hj
  rw [← take_append_drop b mm, itemsIn_append, hskipped, nil_append, take_append_drop, itemsHashed]
  split
  · rename_i hpast
    refine (itemsIn_eq_nil_iff.mpr fun f hf hmeets => ?_).symm
    obtain ⟨j, hj⟩ := mem_iff_getElem?.mp (mem_of_mem_drop hf)
    exact hreach j f hj hmeets.1 hmeets.2 (.inr (.inr hpast))
  · refine itemsFrom_eq (pairwise_iff_getElem.mpr fun i j hi' hj' hij hlt hmeets => ?_)
    have hj : mm[b + j]? = some (mm.drop b)[j] := by
      rw [← getElem?_drop, getElem?_eq_getElem hj']
    have hi : mm[b + i]? = some (mm.drop b)[i] := by
      rw [← getElem?_drop, getElem?_eq_getElem hi']
    by_contra hstops
    refine hreach _ _ hj hlt hmeets (.inr (.inl ⟨b + i, _, by omega, by omega, hi, ?_⟩))
    omega

theorem itemsSeen_eq (hno : ¬ a.HidesItem bs outputs i) (hk : k ≤ i) :
    a.itemsSeen bs outputs k = a.itemsOver bs k :=
  congrArg (List.map place) (itemsHashed_of_reached fun j f hj hlt hmeets hunreached =>
    hno ⟨k, hk, j, f, hj, hlt, hmeets, hunreached⟩)

theorem saltKey_eq_iff : a.saltKey = a'.saltKey ↔
    a.cacheSalt = a'.cacheSalt ∨ EmptySalt a a' ∨ EmptySalt a' a := by
  rw [saltKey, saltKey, EmptySalt, EmptySalt]
  cases a.cacheSalt with
  | none =>
    cases a'.cacheSalt with
    | none => simp
    | some s' => by_cases hs : s' = "" <;> simp [Option.filter, hs]
  | some s =>
    cases a'.cacheSalt with
    | none => by_cases hs : s = "" <;> simp [Option.filter, hs]
    | some s' =>
      by_cases hs : s = "" <;> by_cases hs' : s' = "" <;> simp [Option.filter, hs, hs', eq_comm]

theorem RequestArgs.Swapped.lora_ne (hsw : Swapped a a') : a.loraName ≠ a'.loraName := by
  obtain ⟨x, hx, -, hx', -⟩ := hsw
  simp [hx, hx']

theorem RequestArgs.EmptySalt.salt_ne (hes : EmptySalt a a') : a.cacheSalt ≠ a'.cacheSalt := by
  simp [hes.1, hes.2]

/-- Two requests with equal hashes differ only in a way that `Confusable` lists. -/
theorem Indistinguishable.same_iff (hind : Indistinguishable h a outputs a' outputs' i) :
    SamePrefix h.blockSize a outputs a' outputs' i i ↔ ¬ Confusable h a outputs a' outputs' i := by
  constructor
  · rintro hsame ⟨-, ⟨-, hsw⟩ | hes | ⟨-, k, hk, hne⟩⟩
    · rcases hsw with hsw | hsw
      · exact hsw.lora_ne hsame.lora
      · exact hsw.lora_ne hsame.lora.symm
    · rcases hes with hes | hes
      · exact hes.salt_ne hsame.salt
      · exact hes.salt_ne hsame.salt.symm
    · exact hne (hsame.items k hk)
  intro hconf
  have hnames : a.loraName = a'.loraName ∧ a.saltKey = a'.saltKey := by
    rcases hind.names with hnames | ⟨hi, -, hsw⟩
    · exact hnames
    · exact absurd ⟨hind, .inl ⟨hi, hsw⟩⟩ hconf
  refine ⟨rfl, hind.tokens, hnames.1, ?_, ?_⟩
  · rcases saltKey_eq_iff.mp hnames.2 with hsalt | hes
    · exact hsalt
    · exact absurd ⟨hind, .inr (.inl hes)⟩ hconf
  intro k hk
  by_contra hne
  -- Different items, and the same ones seen: one side hides an item.
  have hhid : a.HidesItem h.blockSize outputs i ∨ a'.HidesItem h.blockSize outputs' i := by
    by_contra hno
    rw [not_or] at hno
    apply hne
    rw [← itemsSeen_eq hno.1 hk, ← itemsSeen_eq hno.2 hk]
    exact hind.items k hk
  exact hconf ⟨hind, .inr (.inr ⟨hhid, k, hk, hne⟩)⟩

end

/-- A block hash shared by two requests separates them from every other context, unless they are
confusable at that block. -/
theorem sharedBlockHash_samePrefix_iff (h : BlockHasher) (a a' : RequestArgs)
    (outputs outputs' : List (List TokenId)) (r r' : Request) (i j : Nat)
    (hr : build (some h) a outputs = .ok r)
    (hr' : build (some h) a' outputs' = .ok r')
    (hi : i < r.blockHashes.length) (hj : j < r'.blockHashes.length) :
    (r.blockHashes[i]? = r'.blockHashes[j]? → SamePrefix h.blockSize a outputs a' outputs' i j) ↔
      ¬ (i = j ∧ Confusable h a outputs a' outputs' i) := by
  rw [blockHash_eq_iff (build_spec hr) (build_spec hr') hi hj]
  constructor
  · rintro hsep ⟨rfl, hconf⟩
    have hind := hconf.toIndistinguishable
    exact (hind.same_iff.mp (hsep ⟨rfl, hind⟩)) hconf
  · rintro hconf ⟨rfl, hind⟩
    exact hind.same_iff.mpr fun hc => hconf ⟨rfl, hc⟩

/-! ## A collision-free hash function and two tenants it does not separate -/

instance countable_byte : Countable UInt8 :=
  Function.Injective.countable (f := UInt8.toNat) fun _ _ h => UInt8.toNat_inj.mp h

instance countable_string : Countable String := by
  have hchar : Countable Char :=
    Function.Injective.countable (f := Char.toNat) fun _ _ h => Char.toNat_inj.mp h
  exact Function.Injective.countable (f := String.toList) fun _ _ h => String.toList_inj.mp h

instance countable_extraKey : Countable ExtraKey := by
  let encode : ExtraKey → String ⊕ (String × Int) ⊕ List UInt8
    | .text s => .inl s
    | .item s o => .inr (.inl (s, o))
    | .digest b => .inr (.inr b)
  apply Function.Injective.countable (f := encode)
  intro x y heq
  cases x <;> cases y <;> simp_all [encode]

theorem exists_hashFunction : Nonempty HashFunction := by
  obtain ⟨num, hnum⟩ := exists_injective_nat (BlockHash × BlockContent)
  refine ⟨⟨fun d x => List.replicate (num (d, x) + 1) 1, [0], fun _ => [], ?_, ?_, ?_⟩⟩
  · intro d x d' x' heq
    have hlen := congrArg List.length heq
    rw [length_replicate, length_replicate] at hlen
    exact Prod.mk.inj (hnum (Nat.succ.inj hlen))
  · intro d x heq
    simp [replicate_succ] at heq
  · intro d x heq
    simp [replicate_succ] at heq

def tenant : RequestArgs where
  requestId := 0
  promptTokenIds := some [7]
  samplingParams := some ⟨some 16, 0, none, [], none, none, false⟩
  poolingParams := none
  arrivalTime := 0
  promptEmbeds := none
  mmFeatures := []
  loraRequest := lora.map fun name => ⟨name, 1⟩
  cacheSalt := salt
  priority := 0
  resumable := false

variable (fn : HashFunction)

def tokenHasher : BlockHasher := ⟨fn, 1, Nat.one_pos⟩

theorem tenant_build (lora salt : Option String) :
    ∃ r, build (some (tokenHasher fn)) (tenant lora salt) [] = .ok r ∧
      0 < r.blockHashes.length := by
  obtain ⟨r, hr⟩ := exists_build (a := tenant lora salt) rfl rfl []
  refine ⟨r, hr, ?_⟩
  rw [(build_spec hr).numHashes]
  simp [tenant, RequestArgs.tokensWith, tokenHasher]

/-- Whatever the hash function, a tenant's LoRA name and another's cache salt give one hash. -/
theorem loraName_shares_hash_with_cacheSalt :
    Nonempty HashFunction ∧ ∀ fn : HashFunction, ∃ r r' : Request,
      build (some (tokenHasher fn)) (tenant (some "x") none) [] = .ok r ∧
      build (some (tokenHasher fn)) (tenant none (some "x")) [] = .ok r' ∧
      0 < r.blockHashes.length ∧ r.blockHashes[0]? = r'.blockHashes[0]? ∧
      ¬ SamePrefix 1 (tenant (some "x") none) [] (tenant none (some "x")) [] 0 0 := by
  refine ⟨exists_hashFunction, fun fn => ?_⟩
  obtain ⟨r, hr, hpos⟩ := tenant_build fn (some "x") none
  obtain ⟨r', hr', hpos'⟩ := tenant_build fn none (some "x")
  refine ⟨r, r', hr, hr', hpos, ?_, fun hsame => absurd hsame.lora (by decide)⟩
  rw [blockHash_eq_iff (build_spec hr) (build_spec hr') hpos hpos']
  refine ⟨rfl, rfl, fun k _ => rfl, fun k _ => rfl, .inr ⟨rfl, ?_, .inl ⟨"x", rfl, rfl, rfl, rfl⟩⟩⟩
  simp [itemsSeen, tenant, itemsHashed, itemsFrom]

/-- The equivalence at two tenants with different salts. -/
theorem sharedBlockHash_samePrefix_salts : ∃ fn : HashFunction, ∃ r r' : Request,
    build (some (tokenHasher fn)) (tenant (some "x") (some "s")) [] = .ok r ∧
    build (some (tokenHasher fn)) (tenant (some "x") (some "t")) [] = .ok r' ∧
    ((r.blockHashes[0]? = r'.blockHashes[0]? →
        SamePrefix 1 (tenant (some "x") (some "s")) [] (tenant (some "x") (some "t")) [] 0 0) ↔
      ¬ (0 = 0 ∧ Confusable (tokenHasher fn) (tenant (some "x") (some "s")) []
        (tenant (some "x") (some "t")) [] 0)) := by
  obtain ⟨fn⟩ := exists_hashFunction
  obtain ⟨r, hr, hpos⟩ := tenant_build fn (some "x") (some "s")
  obtain ⟨r', hr', hpos'⟩ := tenant_build fn (some "x") (some "t")
  refine ⟨fn, r, r', hr, hr', ?_⟩
  exact sharedBlockHash_samePrefix_iff (tokenHasher fn) _ _ _ _ r r' 0 0 hr hr' hpos hpos'

end VllmEcho
