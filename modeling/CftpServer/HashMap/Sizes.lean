import CftpServer.HashMap.FiniteMap
import CftpServer.Lib.Run
import Mathlib.Order.Bounds.Basic
import Mathlib.Algebra.Order.Group.Unbundled.Int

/-!
# How many elements, how many buckets

`elem_count` counts the insertions of new keys, and decides when the table grows.

* `call_sized`: what one call does to the number of elements, to `elem_count` and to the number of buckets
* `element_count_true_iff`: `elem_count` is the number of elements as long as nothing is deleted
* `growth_policy_exact`: the number of buckets is the least one that the load factor allows for `elem_count`
-/

namespace CftpServer.HashMap

open CLib Linked Rounding Runs

variable {α : Type} {t t' : HashTable α} {b : Nat → List Ptr}

/-! ## The load factor -/

theorem float_mul_two_pow {m : Nat} (k : Nat) (h : m < 2 ^ 24) :
    float ((m * 2 ^ k : Nat) : Int) = (m * 2 ^ k : Nat) := by
  rw [float, Int.natAbs_natCast, roundBits_mul_two_pow k h]
  rcases Nat.eq_zero_or_pos (m * 2 ^ k) with h0 | hpos
  · rw [h0]
    rfl
  · rw [Int.sign_natCast_of_ne_zero hpos.ne', Int.one_mul]

/-- Up to 2^24 a whole number is exact. -/
theorem float_of_le {i : Int} (h0 : 0 ≤ i) (h : i ≤ 2 ^ 24) : float i = i := by
  obtain ⟨n, rfl⟩ := Int.eq_ofNat_of_zero_le h0
  rcases Nat.lt_or_ge n (2 ^ 24) with hlt | hge
  · simpa using float_mul_two_pow 0 hlt
  · obtain rfl : n = 1 * 2 ^ 24 := by omega
    exact float_mul_two_pow 24 (by decide)

theorem float_le (i : Int) : float i ≤ 2 * max i 0 := by
  rcases Int.lt_or_le i 0 with hneg | hpos
  · rw [float, Int.sign_eq_neg_one_of_neg hneg]
    omega
  · obtain ⟨n, rfl⟩ := Int.eq_ofNat_of_zero_le hpos
    have hle := roundBits_le (p := 24) (by decide) n
    rw [float, Int.natAbs_natCast]
    rcases Nat.eq_zero_or_pos n with rfl | hn
    · simp
    · rw [Int.sign_natCast_of_ne_zero hn.ne']
      omega

theorem int32_of_lt {i : Int} (h0 : 0 ≤ i) (h : i < 2 ^ 31) : int32 i = i := Int.bmod_eq_of_le (by omega) (by omega)

theorem int32_lt (i : Int) : int32 i < 2 ^ 31 := by
  have := Int.bmod_lt (x := i) (m := 2 ^ 32) (by decide)
  rw [int32]
  omega

/-- A number of buckets that a table can have. -/
def Scaled (n : Nat) : Prop := ∃ k ≤ 29, n = HASH_TABLE_INTIAL_SIZE * 2 ^ k

/-- The comparison of `check_grow` is exact on its left. -/
theorem checkGrow_scaled (h : Scaled t.length) :
    checkGrow t = if 3 * (t.length : Int) ≤ 4 * float (int32 (t.elemCount + 1)) then 2 * t.length else 0 := by
  obtain ⟨k, hk, hlen⟩ := h
  have hpow : 2 ^ k ≤ 2 ^ 29 := Nat.pow_le_pow_right (by decide) hk
  rw [HASH_TABLE_INTIAL_SIZE] at hlen
  have hlength : float t.length = t.length := by
    rw [hlen]
    exact float_mul_two_pow k (by decide)
  have hproduct : float (3 * t.length) = 3 * t.length := by
    have h63 : (3 * t.length : Int) = (63 * 2 ^ k : Nat) := by omega
    rw [h63]
    exact float_mul_two_pow k (by decide)
  have hmod : t.length * 2 % 2 ^ 64 = 2 * t.length := by omega
  rw [checkGrow, hlength, hproduct, hmod]

/-- The number of buckets after a call that found `elem_count` so. -/
def grownLength (t : HashTable α) : Nat := if checkGrow t = 0 then t.length else checkGrow t

/-- One doubling, and never beyond what an `int` can ask for. -/
theorem grownLength_scaled (h : Scaled t.length) : Scaled (grownLength t) ∧
    grownLength t = if 3 * (t.length : Int) ≤ 4 * float (int32 (t.elemCount + 1)) then 2 * t.length else t.length := by
  have hgrow := checkGrow_scaled h
  obtain ⟨k, hk, hlen⟩ := h
  have hpos := Nat.two_pow_pos k
  rw [HASH_TABLE_INTIAL_SIZE] at hlen
  rw [grownLength, hgrow]
  by_cases hle : 3 * (t.length : Int) ≤ 4 * float (int32 (t.elemCount + 1))
  · have hne : 2 * t.length ≠ 0 := by omega
    simp only [if_pos hle, if_neg hne]
    refine ⟨⟨k + 1, ?_, by rw [HASH_TABLE_INTIAL_SIZE, Nat.pow_succ]; omega⟩, trivial⟩
    by_contra hk'
    obtain rfl : k = 29 := by omega
    have := float_le (int32 (t.elemCount + 1))
    have := int32_lt (t.elemCount + 1)
    omega
  · simp only [if_neg hle, if_true]
    exact ⟨⟨k, hk, hlen⟩, trivial⟩

/-! ## One call -/

theorem Inv.mem_elems (hi : Inv t b) {p : Ptr} : p ∈ t.elems ↔ ∃ i, i < t.length ∧ p ∈ b i := by
  rw [hi.elems_eq, mem_flatMap_buckets]

theorem Inv.elems_nodup (hi : Inv t b) : t.elems.Nodup := by
  rw [hi.elems_eq]
  exact hi.flatMap_nodup

/-- A key of an element exists. -/
theorem Inv.checkKeyExists_of_mem (hi : Inv t b) {k : Bytes} {a : Option α} {p : Ptr} (hp : p ∈ b (t.home k))
    (he : t.heap.entry p = some (k, a)) : checkKeyExists t k = some true := by
  rcases getPtrToElemByKey_spec hi k with ⟨q, a', hg, -, -⟩ | ⟨-, hno⟩
  · rw [checkKeyExists, hg]
    rfl
  · exact absurd (by rw [he]; rfl) (hno p hp)

theorem Inv.checkKeyExists_of_not (hi : Inv t b) {k : Bytes}
    (hno : ∀ p ∈ b (t.home k), (t.heap.entry p).map Prod.fst ≠ some k) : checkKeyExists t k = some false := by
  rcases getPtrToElemByKey_spec hi k with ⟨p, a, -, hp, he⟩ | ⟨hg, -⟩
  · exact absurd (by rw [he]; rfl) (hno p hp)
  · rw [checkKeyExists, hg]
    rfl

/-- The table with `elem_count` one higher. -/
def counted (t : HashTable α) : HashTable α := { t with elemCount := int32 (t.elemCount + 1) }

/-- What a call does to the sizes of a table. A deletion leaves `elem_count` and the number of buckets. -/
def Sized : Op α → HashTable α → HashTable α → Prop
  | .insert k _, t, t' =>
    (checkKeyExists t k = some true ∧ t'.elems.length = t.elems.length ∧ t'.elemCount = t.elemCount ∧
      t'.length = t.length) ∨
    (checkKeyExists t k = some false ∧ t'.elems.length = t.elems.length + 1 ∧
      t'.elemCount = int32 (t.elemCount + 1) ∧ t'.length = grownLength (counted t))
  | .delete k, t, t' =>
    t'.elemCount = t.elemCount ∧ t'.length = t.length ∧
      ((checkKeyExists t k = some true ∧ t.elems.length = t'.elems.length + 1) ∨
        (checkKeyExists t k = some false ∧ t'.elems.length = t.elems.length))

/-- The elements of a table with one more. -/
theorem Added.elems_length {k : Bytes} {a : Option α} (hi : Inv t b)
    (hno : ∀ p ∈ b (t.home k), (t.heap.entry p).map Prod.fst ≠ some k) (hadd : Added t k a t') :
    t'.elems.length = t.elems.length + 1 := by
  have hi' := hi.link hno hadd
  have hnew : t.brk ∉ t.elems := by
    intro hm
    obtain ⟨i, hlt, hp⟩ := hi.mem_elems.mp hm
    exact Nat.lt_irrefl _ (hi.lt_brk hlt hp)
  have hnodup : (t.brk :: t.elems).Nodup := List.nodup_cons.mpr ⟨hnew, hi.elems_nodup⟩
  refine ((List.perm_ext_iff_of_nodup hi'.elems_nodup hnodup).mpr fun p => ?_).length_eq
  rw [List.mem_cons, hi'.mem_elems, hi.mem_elems, hadd.length]
  constructor
  · rintro ⟨i, hlt, hp⟩
    exact (mem_update_cons.mp hp).imp And.right fun hp => ⟨i, hlt, hp⟩
  · rintro (rfl | ⟨i, hlt, hp⟩)
    · exact ⟨_, hi.home_lt k, mem_update_cons.mpr (.inl ⟨rfl, rfl⟩)⟩
    · exact ⟨i, hlt, mem_update_cons.mpr (.inr hp)⟩

/-- The elements of a table with one less. -/
theorem Removed.elems_length {k : Bytes} {cs ds : List Ptr} {p : Ptr} (hi : Inv t b)
    (hb : b (t.home k) = cs ++ p :: ds) (hrem : Removed t k cs p ds t') : t.elems.length = t'.elems.length + 1 := by
  have hi' := hi.unlink hb hrem
  have hmem : ∀ q, q ∈ t'.elems ↔ q ≠ p ∧ q ∈ t.elems := by
    intro q
    rw [hi'.mem_elems, hi.mem_elems, hrem.length]
    constructor
    · rintro ⟨i, hlt, hq⟩
      obtain ⟨hqp, hq⟩ := (hi.mem_update_append hb hlt).mp hq
      exact ⟨hqp, i, hlt, hq⟩
    · rintro ⟨hqp, i, hlt, hq⟩
      exact ⟨i, hlt, (hi.mem_update_append hb hlt).mpr ⟨hqp, hq⟩⟩
  have hp : p ∈ t.elems := hi.mem_elems.mpr ⟨_, hi.home_lt k, by rw [hb]; simp⟩
  have hnodup : (p :: t'.elems).Nodup := List.nodup_cons.mpr ⟨fun hp' => ((hmem p).mp hp').1 rfl, hi'.elems_nodup⟩
  refine ((List.perm_ext_iff_of_nodup hi.elems_nodup hnodup).mpr fun q => ?_).length_eq
  rw [List.mem_cons, hmem]
  by_cases hqp : q = p
  · simp [hqp, hp]
  · simp [hqp]

theorem resize_elems_length {n : Nat} (hi : Inv t b) (hi' : Inv t' (rehashed t b n)) (hlen : t'.length = n)
    (hn : 0 < n) : t'.elems.length = t.elems.length := by
  refine ((List.perm_ext_iff_of_nodup hi'.elems_nodup hi.elems_nodup).mpr fun p => ?_).length_eq
  rw [hi'.mem_elems, hi.mem_elems, hlen]
  simp only [rehashed, mem_movedTo, mem_flatMap_buckets]
  constructor
  · rintro ⟨i, -, hp, -⟩
    exact hp
  · rintro ⟨i, hlt, hp⟩
    obtain ⟨k, a, he, -⟩ := hi.home i hlt p hp
    exact ⟨fnv1aStringHash k % n, Nat.mod_lt _ hn, ⟨i, hlt, hp⟩, by simp [hashesTo, he]⟩

theorem checkGrow_congr (hlen : t.length = t'.length) (hcount : t.elemCount = t'.elemCount) :
    checkGrow t = checkGrow t' := by
  rw [checkGrow, checkGrow, hlen, hcount]

/-- A table that calls have led to. -/
def WellFormed (t : HashTable α) : Prop := ∃ b, Inv t b

/-- **What one call does to the sizes.** -/
theorem call_sized (h : WellFormed t) (op : Op α) :
    ∃ t' r, op.call t = some (t', r) ∧ WellFormed t' ∧ Sized op t t' := by
  obtain ⟨b, hi⟩ := h
  cases op with
  | insert k a =>
    rcases insertEntry_cases hi k a with ⟨p, hp, a₀, t', he, ho, hins⟩ | ⟨hno, t₁, r, hadd, -, hins⟩
    · have hi' := hi.overwrite hp he ho
      have helems : t'.elems = t.elems := by rw [hi'.elems_eq, hi.elems_eq, ho.length]
      exact ⟨t', _, hins, ⟨b, hi'⟩, .inl ⟨hi.checkKeyExists_of_mem hp he, by rw [helems], ho.elemCount, ho.length⟩⟩
    · have hi₁ := hi.link hno hadd
      have hlength := hadd.elems_length hi hno
      have hexists := hi.checkKeyExists_of_not hno
      have hgrow : checkGrow (counted t) = checkGrow t₁ := checkGrow_congr hadd.length.symm hadd.elemCount.symm
      by_cases h0 : checkGrow t₁ = 0
      · refine ⟨t₁, r, hins.trans (if_pos h0), ⟨_, hi₁⟩, .inr ⟨hexists, hlength, hadd.elemCount, ?_⟩⟩
        rw [grownLength, hgrow, if_pos h0, hadd.length]
        rfl
      · obtain ⟨t₂, hres, hi₂, hlen, hcount, -⟩ := resize_spec hi₁ (Nat.pos_of_ne_zero h0)
        refine ⟨t₂, r ||| HASH_TABLE_RESIZED, ?_, ⟨_, hi₂⟩, .inr ⟨hexists, ?_, hcount.trans hadd.elemCount, ?_⟩⟩
        · rw [Op.call, hins, if_neg h0, hres]
          rfl
        · rw [resize_elems_length hi₁ hi₂ hlen (Nat.pos_of_ne_zero h0), hlength]
        · rw [grownLength, hgrow, if_neg h0, hlen]
  | delete k =>
    rcases deleteEntry_cases hi k with ⟨hno, hdel⟩ | ⟨cs, p, ds, a, t', r, hb, he, hrem, -, hdel⟩
    · exact ⟨t, _, hdel, ⟨b, hi⟩, rfl, rfl, .inr ⟨hi.checkKeyExists_of_not hno, rfl⟩⟩
    · refine ⟨t', r, hdel, ⟨_, hi.unlink hb hrem⟩, hrem.elemCount, hrem.length, .inl ⟨?_, ?_⟩⟩
      · exact hi.checkKeyExists_of_mem (by rw [hb]; simp) he
      · exact hrem.elems_length hi hb

/-! ## Runs -/

/-- The table after a call. -/
def after (op : Op α) (t : HashTable α) : HashTable α := (op.call t).elim t Prod.fst

theorem after_eq {op : Op α} {r : Nat} (h : op.call t = some (t', r)) : after op t = t' := by
  rw [after, h]
  rfl

theorem after_sized (h : WellFormed t) (op : Op α) : WellFormed (after op t) ∧ Sized op t (after op t) := by
  obtain ⟨t', r, hcall, hspec⟩ := call_sized h op
  rw [after_eq hcall]
  exact hspec

/-- Every call of a run succeeds. -/
theorem runOps_eq (ops : List (Op α)) : ∀ {t : HashTable α}, WellFormed t → runOps t ops = some (run after ops t) := by
  induction ops with
  | nil => intro t _; rfl
  | cons op ops ih =>
    intro t h
    obtain ⟨t', r, hcall, h', -⟩ := call_sized h op
    rw [runOps, hcall, Option.bind_some, ih h', run_cons, after_eq hcall]

theorem createHashTable_wellFormed : WellFormed (createHashTable : HashTable α) := by
  obtain ⟨b, hi, -⟩ := (createHashTable_represents : Represents (createHashTable : HashTable α) _)
  exact ⟨b, hi⟩

/-- The states of a run from a new table, said with `runOps`. -/
theorem runOps_create (ops : List (Op α)) : runOps createHashTable ops = some (run after ops createHashTable) :=
  runOps_eq ops createHashTable_wellFormed

theorem createHashTable_scaled : Scaled (createHashTable : HashTable α).length := ⟨0, by decide, rfl⟩

theorem createHashTable_elems : (createHashTable : HashTable α).elems = [] := by
  rw [HashTable.elems, List.flatMap_eq_nil_iff]
  exact fun i _ => rfl

/-- Any call leaves a number of buckets that a table can have. -/
theorem Sized.scaled {op : Op α} (h : Sized op t t') (hs : Scaled t.length) : Scaled t'.length := by
  cases op with
  | insert k a =>
    rcases h with ⟨-, -, -, hlen⟩ | ⟨-, -, -, hlen⟩
    · rw [hlen]
      exact hs
    · rw [hlen]
      exact (grownLength_scaled (t := counted t) hs).1
  | delete k =>
    rw [h.2.1]
    exact hs

/-! ## The count -/

/-- The call deletes no element, and `elem_count` is an `int` that can count one more if it adds one. -/
def KeepsCount : Op α → HashTable α → Prop
  | .insert k _, t => checkKeyExists t k = some false → t.elemCount < 2 ^ 31 - 1
  | .delete k, t => checkKeyExists t k = some false

/-- A table whose count is true, with no more buckets than its elements asked for. -/
structure Counted (t : HashTable α) : Prop where
  wellFormed : WellFormed t
  scaled : Scaled t.length
  count : t.elemCount = t.elems.length
  bounded : t.length ≤ max HASH_TABLE_INTIAL_SIZE (6 * (t.elems.length + 1))

theorem createHashTable_counted : Counted (createHashTable : HashTable α) where
  wellFormed := createHashTable_wellFormed
  scaled := createHashTable_scaled
  count := by
    rw [createHashTable_elems]
    rfl
  bounded := Nat.le_max_left ..

/-- The table grows to no more than six buckets for an element. -/
theorem grownLength_le (hs : Scaled t.length) {n : Nat} (hn : t.elemCount = n) (hlt : n < 2 ^ 31) :
    grownLength t ≤ max t.length (6 * (n + 1)) := by
  rw [(grownLength_scaled hs).2]
  split
  · rename_i hgrow
    have hfloat := float_le (int32 (t.elemCount + 1))
    have hint : int32 (t.elemCount + 1) ≤ n + 1 := by
      rcases Nat.lt_or_ge (n + 1) (2 ^ 31) with h | h
      · rw [hn, int32_of_lt (by omega) (by omega)]
      · have := int32_lt (t.elemCount + 1)
        omega
    omega
  · exact Nat.le_max_left ..

theorem Counted.step {op : Op α} (h : Counted t) (hk : KeepsCount op t) : Counted (after op t) := by
  obtain ⟨hw, hsized⟩ := after_sized h.wellFormed op
  have hscaled := hsized.scaled h.scaled
  generalize after op t = t' at hw hsized hscaled
  have hcount := h.count
  have hbounded := h.bounded
  cases op with
  | insert k a =>
    rcases hsized with ⟨-, helems, heq, hlen⟩ | ⟨hnew, helems, heq, hlen⟩
    · exact ⟨hw, hscaled, by rw [heq, helems, hcount], by rw [hlen, helems]; exact hbounded⟩
    · have hroom := hk hnew
      have hint : int32 (t.elemCount + 1) = t.elemCount + 1 := int32_of_lt (by omega) (by omega)
      refine ⟨hw, hscaled, by omega, ?_⟩
      have hle : grownLength (counted t) ≤ max t.length (6 * (t'.elems.length + 1)) :=
        grownLength_le (t := counted t) h.scaled (hint.trans (by omega)) (by omega)
      rw [hlen]
      omega
  | delete k =>
    obtain ⟨heq, hlen, ⟨hthere, -⟩ | ⟨-, helems⟩⟩ := hsized
    · rw [show checkKeyExists t k = some false from hk] at hthere
      cases hthere
    · exact ⟨hw, hscaled, by rw [heq, helems, hcount], by rw [hlen, helems]; exact hbounded⟩

/-- A call after which the count is true has kept it. -/
theorem Counted.keepsCount {op : Op α} (h : Counted t)
    (hq : (after op t).elemCount = (after op t).elems.length) : KeepsCount op t := by
  obtain ⟨-, hsized⟩ := after_sized h.wellFormed op
  generalize after op t = t' at hq hsized
  have hcount := h.count
  cases op with
  | insert k a =>
    intro hnew
    rcases hsized with ⟨hthere, -⟩ | ⟨-, helems, heq, -⟩
    · rw [hnew] at hthere
      cases hthere
    · have := int32_lt (t.elemCount + 1)
      omega
  | delete k =>
    obtain ⟨heq, -, ⟨-, helems⟩ | ⟨habsent, -⟩⟩ := hsized
    · omega
    · exact habsent

/-- **The element count is true** exactly as long as nothing is deleted. For every sequence of calls on a new table:
`elem_count` is the number of elements in every state that it goes through, and the number of buckets is bounded by
that of the elements, if and only if no `delete_entry` of it names a stored key, and no `insert_entry` of a new key
finds `elem_count` at the largest `int`. -/
theorem element_count_true_iff (ops : List (Op α)) :
    ((∀ pre, pre <+: ops → ∃ t, runOps createHashTable pre = some t ∧ t.elemCount = t.elems.length) ∧
      ∀ n, (∀ pre, pre <+: ops → ∀ t, runOps createHashTable pre = some t → t.elems.length ≤ n) →
        ∀ pre, pre <+: ops → ∀ t, runOps createHashTable pre = some t →
          t.length ≤ max HASH_TABLE_INTIAL_SIZE (6 * (n + 1))) ↔
      Guarded after KeepsCount ops (createHashTable : HashTable α) := by
  have hexact : (∀ pre, pre <+: ops → (run after pre (createHashTable : HashTable α)).elemCount =
        (run after pre (createHashTable : HashTable α)).elems.length) ↔
      Guarded after KeepsCount ops (createHashTable : HashTable α) :=
    forall_prefix_iff_guarded (fun _ h => h.count) (fun _ _ h hq => h.keepsCount hq) (fun _ _ h hk => h.step hk) ops
      createHashTable_counted
  simp only [runOps_create, Option.some.injEq, exists_eq_left', forall_eq']
  refine ⟨fun h => hexact.mp h.1, fun h => ⟨hexact.mpr h, fun n hn pre hpre => ?_⟩⟩
  obtain ⟨post, rfl⟩ := hpre
  have hbounded := (run_inv_of_guarded (fun _ _ hk hc => hc.step hk) pre h.prefix createHashTable_counted).bounded
  have hle := hn pre (List.prefix_append pre post)
  omega

/-- An element is inserted and deleted: the count stays at one. -/
theorem deleted_element_counts :
    ∃ t, runOps (createHashTable : HashTable Unit) [.insert (ascii "a") none, .delete (ascii "a")] = some t ∧
      t.elemCount = 1 ∧ t.elems = [] :=
  ⟨_, rfl, by decide, by decide⟩

/-! ## The growth policy -/

/-- The numbers of buckets that the load factor allows for a count: 3/4 of them are more than `count + 1`. -/
def Allowed (count : Int) : Set Nat := {n | (∃ k, n = HASH_TABLE_INTIAL_SIZE * 2 ^ k) ∧ 4 * (count + 1) < 3 * (n : Int)}

/-- One doubling leads from the least number for a count to the least number for the next one. -/
theorem allowed_succ {count : Int} {n : Nat} (h0 : 0 ≤ count) (h : IsLeast (Allowed count) n) :
    IsLeast (Allowed (count + 1)) (if 3 * (n : Int) ≤ 4 * (count + 1 + 1) then 2 * n else n) := by
  obtain ⟨⟨⟨k, rfl⟩, hroom⟩, hleast⟩ := h
  have hdouble : 2 * (HASH_TABLE_INTIAL_SIZE * 2 ^ k) = HASH_TABLE_INTIAL_SIZE * 2 ^ (k + 1) := by
    rw [Nat.pow_succ, Nat.mul_comm, Nat.mul_assoc]
  split
  · rename_i hgrow
    refine ⟨⟨⟨k + 1, hdouble⟩, by omega⟩, ?_⟩
    rintro m ⟨⟨j, rfl⟩, hm⟩
    have hlt : HASH_TABLE_INTIAL_SIZE * 2 ^ k < HASH_TABLE_INTIAL_SIZE * 2 ^ j := by omega
    have hkj : k < j := (Nat.pow_lt_pow_iff_right (by decide)).mp (Nat.lt_of_mul_lt_mul_left hlt)
    calc 2 * (HASH_TABLE_INTIAL_SIZE * 2 ^ k) = HASH_TABLE_INTIAL_SIZE * 2 ^ (k + 1) := hdouble
      _ ≤ HASH_TABLE_INTIAL_SIZE * 2 ^ j := Nat.mul_le_mul_left _ (Nat.pow_le_pow_right (by decide) hkj)
  · refine ⟨⟨⟨k, rfl⟩, by omega⟩, fun m hm => hleast ⟨hm.1, ?_⟩⟩
    have := hm.2
    omega

/-- Neither `elem_count++` nor the `elem_count + 1` of `check_grow` leaves the range of `int`. -/
def CountsDefined : Op α → HashTable α → Prop
  | .insert k _, t => checkKeyExists t k = some false → t.elemCount + 2 < 2 ^ 31
  | .delete _, _ => True

/-- A table of just the length that its count asks for. -/
structure Fitting (t : HashTable α) : Prop where
  wellFormed : WellFormed t
  scaled : Scaled t.length
  nonneg : 0 ≤ t.elemCount
  stored : (t.elems.length : Int) ≤ t.elemCount
  least : t.elemCount < 2 ^ 24 → IsLeast (Allowed t.elemCount) t.length

theorem createHashTable_fitting : Fitting (createHashTable : HashTable α) where
  wellFormed := createHashTable_wellFormed
  scaled := createHashTable_scaled
  nonneg := Int.le_refl 0
  stored := by
    rw [createHashTable_elems]
    exact Int.le_refl 0
  least _ := by
    have hroom : 4 * ((0 : Int) + 1) < 3 * (HASH_TABLE_INTIAL_SIZE : Int) := by decide
    refine ⟨⟨⟨0, rfl⟩, hroom⟩, ?_⟩
    rintro n ⟨⟨k, rfl⟩, -⟩
    exact Nat.le_mul_of_pos_right _ (Nat.two_pow_pos k)

theorem Fitting.step {op : Op α} (h : Fitting t) (hd : CountsDefined op t) : Fitting (after op t) := by
  obtain ⟨hw, hsized⟩ := after_sized h.wellFormed op
  have hscaled := hsized.scaled h.scaled
  generalize after op t = t' at hw hsized hscaled
  have hnonneg := h.nonneg
  have hstored := h.stored
  cases op with
  | insert k a =>
    rcases hsized with ⟨-, helems, heq, hlen⟩ | ⟨hnew, helems, heq, hlen⟩
    · exact ⟨hw, hscaled, by omega, by omega, by rw [heq, hlen]; exact h.least⟩
    · have hroom := hd hnew
      have hcount : t'.elemCount = t.elemCount + 1 := heq.trans (int32_of_lt (by omega) (by omega))
      refine ⟨hw, hscaled, by omega, by omega, fun hlt => ?_⟩
      have hnext : float (int32 ((counted t).elemCount + 1)) = t.elemCount + 1 + 1 := by
        have hcounted : (counted t).elemCount = t.elemCount + 1 := heq.symm.trans hcount
        rw [hcounted, int32_of_lt (by omega) (by omega), float_of_le (by omega) (by omega)]
      have hgrown := (grownLength_scaled (t := counted t) h.scaled).2
      rw [hnext] at hgrown
      rw [hcount, hlen, hgrown]
      exact allowed_succ hnonneg (h.least (by omega))
  | delete k =>
    obtain ⟨heq, hlen, helems⟩ := hsized
    refine ⟨hw, hscaled, by omega, ?_, by rw [heq, hlen]; exact h.least⟩
    rcases helems with ⟨-, helems⟩ | ⟨-, helems⟩ <;> omega

/-- In a run of fewer than 2^31 - 1 calls no `int` overflows. -/
theorem countsDefined_of_short : ∀ (ops : List (Op α)) {t : HashTable α}, Fitting t →
    t.elemCount + ops.length + 1 < 2 ^ 31 → Guarded after CountsDefined ops t := by
  intro ops
  induction ops with
  | nil => exact fun _ _ => trivial
  | cons op ops ih =>
    intro t h hshort
    rw [List.length_cons] at hshort
    have hnonneg := h.nonneg
    have hdefined : CountsDefined op t := by
      cases op with
      | insert k a => exact fun _ => by omega
      | delete k => trivial
    refine ⟨hdefined, ih (h.step hdefined) ?_⟩
    have hsized := (after_sized h.wellFormed op).2
    generalize after op t = t' at hsized ⊢
    cases op with
    | insert k a =>
      rcases hsized with ⟨-, -, heq, -⟩ | ⟨-, -, heq, -⟩
      · omega
      · rw [heq, int32_of_lt (by omega) (by omega)]
        omega
    | delete k =>
      have heq := hsized.1
      omega

/-- An insertion doubles the number of buckets at most once. -/
theorem insertEntry_doubles (h : Fitting t) (k : Bytes) (a : Option α) :
    ∃ t' r, insertEntry t k a = some (t', r) ∧ (t'.length = t.length ∨ t'.length = 2 * t.length) ∧
      (t.elemCount < 2 ^ 24 → t'.elemCount < 2 ^ 24 → 4 * (t'.elemCount + 1) < 3 * (t'.length : Int)) := by
  obtain ⟨t', r, hcall, -, hsized⟩ := call_sized h.wellFormed (.insert k a)
  refine ⟨t', r, hcall, ?_, fun hlt hlt' => ?_⟩
  · rcases hsized with ⟨-, -, -, hlen⟩ | ⟨-, -, -, hlen⟩
    · exact .inl hlen
    · rw [hlen, (grownLength_scaled (t := counted t) h.scaled).2]
      split
      · exact .inr rfl
      · exact .inl rfl
  · have hfitting : Fitting (after (.insert k a) t) := h.step fun _ => by omega
    rw [after_eq hcall] at hfitting
    exact (hfitting.least hlt').1.2

/-- **The growth policy is exact.** In every state of a run from a new table in which no `int` overflows, while
`elem_count` is below 2^24: the number of buckets is the least 21 * 2^k of which 3/4 are more than `elem_count + 1`; an
insertion doubles it at most once, and 3/4 of it are again more than the new `elem_count + 1`; and the elements are
fewer than 3/4 of the buckets. -/
theorem growth_policy_exact (ops : List (Op α))
    (hdef : Guarded after CountsDefined ops (createHashTable : HashTable α)) :
    ∃ t, runOps createHashTable ops = some t ∧ (t.elemCount < 2 ^ 24 →
      IsLeast {n : Nat | (∃ k, n = 21 * 2 ^ k) ∧ 4 * (t.elemCount + 1) < 3 * (n : Int)} t.length ∧
      (∀ k a, ∃ t' r, insertEntry t k a = some (t', r) ∧ (t'.length = t.length ∨ t'.length = 2 * t.length) ∧
        (t'.elemCount < 2 ^ 24 → 4 * (t'.elemCount + 1) < 3 * (t'.length : Int))) ∧
      4 * t.elems.length < 3 * t.length) := by
  have h : Fitting (run after ops createHashTable) :=
    run_inv_of_guarded (fun _ _ hd hf => hf.step hd) ops hdef createHashTable_fitting
  refine ⟨_, runOps_create ops, fun hlt => ⟨h.least hlt, fun k a => ?_, ?_⟩⟩
  · obtain ⟨t', r, hins, hlen, hroom⟩ := insertEntry_doubles h k a
    exact ⟨t', r, hins, hlen, hroom hlt⟩
  · have hroom := (h.least hlt).1.2
    have hstored := h.stored
    omega

/-- Fifteen keys are inserted, with which the table grows, and one is deleted. -/
def fifteenKeys : List (Op Unit) :=
  (List.range 15).map (fun i => .insert [UInt8.ofNat i] none) ++ [.delete [0]]

/-- The table has 42 buckets then, as it has to. -/
theorem growth_policy_fifteenKeys :
    ∃ t, runOps (createHashTable : HashTable Unit) fifteenKeys = some t ∧ t.length = 42 ∧
      IsLeast {n : Nat | (∃ k, n = 21 * 2 ^ k) ∧ 4 * (t.elemCount + 1) < 3 * (n : Int)} t.length := by
  obtain ⟨t, ht, h⟩ := growth_policy_exact fifteenKeys
    (countsDefined_of_short fifteenKeys createHashTable_fitting (by decide))
  have hstate : (runOps (createHashTable : HashTable Unit) fifteenKeys).map (fun t => (t.length, t.elemCount)) =
      some (42, 15) := by decide +kernel
  rw [ht, Option.map_some, Option.some.injEq, Prod.mk.injEq] at hstate
  exact ⟨t, ht, hstate.1, (h (by omega)).1⟩

end CftpServer.HashMap
