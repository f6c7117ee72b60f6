import CftpServer.HashMap.Calls

/-!
# The hash table is a finite map

`replay` is the abstract map of a sequence of calls: the last inserted address of every key, and nothing for a key
deleted since or never inserted. Every call keeps "the table represents the map" (`insertEntry_spec`,
`deleteEntry_spec`), so the table reached by any sequence of calls answers every lookup as the replayed map
(`runOps_represents`), and the return values tell whether the key was bound (`hash_table_is_finite_map`).
-/

namespace CftpServer.HashMap

open CLib Linked

variable {α : Type}

/-- The abstract map: `none` for an unbound key; a bound key may be bound to NULL. -/
abbrev Map (α : Type) := Bytes → Option (Option α)

/-- One call on the abstract map. -/
def Op.replay (m : Map α) : Op α → Map α
  | .insert keyname address => Function.update m keyname (some address)
  | .delete keyname => Function.update m keyname none

/-- The map obtained by replaying a sequence of calls. -/
def replay : List (Op α) → Map α → Map α
  | [], m => m
  | op :: ops, m => replay ops (op.replay m)

/-- The table represents the map. -/
def Represents (t : HashTable α) (m : Map α) : Prop :=
  ∃ b, Inv t b ∧ ∀ k a, m k = some a ↔ Stores t b k a

/-- The empty table. -/
theorem createHashTable_represents : Represents (createHashTable : HashTable α) fun _ => none := by
  refine ⟨fun _ => [], ⟨?_, fun _ _ => .nil, ?_, ?_, fun _ _ => rfl⟩, ?_⟩
  · show 0 < HASH_TABLE_INTIAL_SIZE
    decide
  · intro i _ p hp; cases hp
  · intro i _ p hp; cases hp
  · intro k a
    constructor
    · intro h; cases h
    · rintro ⟨i, _, p, hp, _⟩; cases hp

/-! ## Lookups -/

section Lookups

variable {t : HashTable α} {m : Map α} {b : Nat → List Ptr}

/-- A key of no cell of its bucket is unbound. -/
theorem unbound_of (hi : Inv t b) (hm : ∀ k a, m k = some a ↔ Stores t b k a) {k : Bytes}
    (hno : ∀ p ∈ b (t.home k), (t.heap.entry p).map Prod.fst ≠ some k) : m k = none := by
  by_contra hne
  obtain ⟨a, ha⟩ := Option.ne_none_iff_exists'.mp hne
  obtain ⟨p, hp, he⟩ := hi.stores_iff.mp ((hm k a).mp ha)
  exact hno p hp (by rw [he]; rfl)

theorem checkKeyExists_eq (h : Represents t m) (k : Bytes) : checkKeyExists t k = some (m k).isSome := by
  obtain ⟨b, hi, hm⟩ := h
  rcases getPtrToElemByKey_spec hi k with ⟨p, a, hg, hp, he⟩ | ⟨hg, hno⟩
  · rw [checkKeyExists, hg, (hm k a).mpr (hi.stores_iff.mpr ⟨p, hp, he⟩)]; rfl
  · rw [checkKeyExists, hg, unbound_of hi hm hno]; rfl

theorem getPtrToValueByKey_eq (h : Represents t m) (k : Bytes) : getPtrToValueByKey t k = some (m k).join := by
  obtain ⟨b, hi, hm⟩ := h
  rcases getPtrToElemByKey_spec hi k with ⟨p, a, hg, hp, he⟩ | ⟨hg, hno⟩
  · obtain ⟨e, hpe, -, rfl⟩ := of_entry he
    rw [getPtrToValueByKey, hg, (hm k _).mpr (hi.stores_iff.mpr ⟨p, hp, he⟩)]
    simp [hpe]
  · rw [getPtrToValueByKey, hg, unbound_of hi hm hno]; rfl

end Lookups

/-! ## Calls -/

section Calls

variable {t : HashTable α} {m : Map α}

/-- The binding after an insertion. -/
theorem update_eq_some_iff (m : Map α) (k k' : Bytes) (a a' : Option α) :
    Function.update m k (some a) k' = some a' ↔ (k' = k ∧ a' = a) ∨ (k' ≠ k ∧ m k' = some a') := by
  by_cases hk : k' = k
  · subst hk; simp [eq_comm]
  · simp [hk]

/-- **Insertion.** -/
theorem insertEntry_spec (h : Represents t m) (k : Bytes) (a : Option α) :
    ∃ t' r, insertEntry t k a = some (t', r) ∧ Represents t' (Function.update m k (some a)) ∧
      r &&& HASH_ENTRY_SUCCESS ≠ 0 ∧ (r &&& HASH_ENTRY_UPDATED ≠ 0 ↔ (m k).isSome) := by
  obtain ⟨b, hi, hm⟩ := h
  rcases insertEntry_cases hi k a with ⟨p, hp, a₀, t', he, ho, hins⟩ | ⟨hno, t₁, r, hadd, hr, hins⟩
  · have hi' := hi.overwrite hp he ho
    have hst := hi.overwrite_stores hp he ho
    have hmk : m k = some a₀ := (hm k a₀).mpr (hi.stores_iff.mpr ⟨p, hp, he⟩)
    refine ⟨t', _, hins, ⟨b, hi', fun k' a' => ?_⟩, by decide,
      by simp [hmk, HASH_ENTRY_SUCCESS, HASH_ENTRY_UPDATED]⟩
    rw [update_eq_some_iff, hst, hm]
  · have hi₁ := hi.link hno hadd
    have hst₁ := hi.link_stores hadd
    have hmk : m k = none := unbound_of hi hm hno
    have hrep : ∀ {t' : HashTable α} {b'}, Inv t' b' → (∀ k' a', Stores t' b' k' a' ↔
        Stores t₁ (Function.update b (t.home k) (t.brk :: b (t.home k))) k' a') →
        Represents t' (Function.update m k (some a)) := by
      intro t' b' hi' hst'
      refine ⟨b', hi', fun k' a' => ?_⟩
      rw [hst', hst₁, update_eq_some_iff, hm]
      refine or_congr_right ⟨fun h => h.2, fun h => ⟨?_, h⟩⟩
      rintro rfl
      rw [← hm, hmk] at h
      cases h
    by_cases hgrow : checkGrow t₁ = 0
    · refine ⟨t₁, r, by rw [hins, if_pos hgrow], hrep hi₁ fun _ _ => Iff.rfl, ?_⟩
      rw [hmk, Option.isSome_none]
      rcases hr with rfl | rfl <;> decide
    · obtain ⟨t₂, hres, hi₂, -, -, hst₂, -⟩ := resize_spec hi₁ (Nat.pos_of_ne_zero hgrow)
      refine ⟨t₂, r ||| HASH_TABLE_RESIZED, by rw [hins, if_neg hgrow, hres]; rfl, hrep hi₂ hst₂, ?_⟩
      rw [hmk, Option.isSome_none]
      rcases hr with rfl | rfl <;> decide

/-- **Deletion.** -/
theorem deleteEntry_spec (h : Represents t m) (k : Bytes) :
    ∃ t' r, deleteEntry t k = some (t', r) ∧ Represents t' (Function.update m k none) ∧
      (r &&& HASH_ENTRY_SUCCESS ≠ 0 ↔ (m k).isSome) := by
  obtain ⟨b, hi, hm⟩ := h
  rcases deleteEntry_cases hi k with ⟨hno, hdel⟩ | ⟨cs, p, ds, a, t', r, hb, he, hrem, hr, hdel⟩
  · have hmk : m k = none := unbound_of hi hm hno
    refine ⟨t, _, hdel, ?_, by simp [hmk, HASH_ENTRY_FAILED]⟩
    rw [← hmk, Function.update_eq_self]
    exact ⟨b, hi, hm⟩
  · have hi' := hi.unlink hb hrem
    have hst := hi.unlink_stores hb he hrem
    have hmk : m k = some a := (hm k a).mpr (hi.stores_iff.mpr ⟨p, by simp [hb], he⟩)
    refine ⟨t', r, hdel, ⟨_, hi', fun k' a' => ?_⟩, ?_⟩
    · rw [hst, ← hm]
      by_cases hk : k' = k
      · subst hk; simp
      · simp [hk]
    · rw [hmk, Option.isSome_some]
      rcases hr with rfl | rfl <;> decide

end Calls

/-! ## Sequences of calls -/

/-- The table after any sequence of calls represents the replayed map. -/
theorem runOps_represents {t : HashTable α} {m : Map α} (h : Represents t m) (ops : List (Op α)) :
    ∃ t', runOps t ops = some t' ∧ Represents t' (replay ops m) := by
  induction ops generalizing t m with
  | nil => exact ⟨t, rfl, h⟩
  | cons op ops ih =>
    cases op with
    | insert k a =>
      obtain ⟨t₁, r, hc, h₁, -, -⟩ := insertEntry_spec h k a
      obtain ⟨t', ht', h'⟩ := ih h₁
      exact ⟨t', by simp only [runOps, Op.call, hc, Option.bind_some, ht'], h'⟩
    | delete k =>
      obtain ⟨t₁, r, hc, h₁, -⟩ := deleteEntry_spec h k
      obtain ⟨t', ht', h'⟩ := ih h₁
      exact ⟨t', by simp only [runOps, Op.call, hc, Option.bind_some, ht'], h'⟩

/-- **The hash table is a finite map.** After any sequence of calls on a new table, both lookups agree with the
replayed map for every key; a further insertion reports an update exactly when its key is bound; a further deletion
reports success exactly when its key is bound, and leaves every lookup unchanged when it fails. -/
theorem hash_table_is_finite_map (ops : List (Op α)) :
    ∃ t, runOps createHashTable ops = some t ∧
      (∀ k, getPtrToValueByKey t k = some (replay ops (fun _ => none) k).join ∧
        checkKeyExists t k = some (replay ops (fun _ => none) k).isSome) ∧
      (∀ k a, ∃ t' r, insertEntry t k a = some (t', r) ∧
        (r &&& HASH_ENTRY_UPDATED ≠ 0 ↔ (replay ops (fun _ => none) k).isSome)) ∧
      ∀ k, ∃ t' r, deleteEntry t k = some (t', r) ∧
        (r &&& HASH_ENTRY_SUCCESS ≠ 0 ↔ (replay ops (fun _ => none) k).isSome) ∧
        (r &&& HASH_ENTRY_SUCCESS = 0 → ∀ k', getPtrToValueByKey t' k' = getPtrToValueByKey t k' ∧
          checkKeyExists t' k' = checkKeyExists t k') := by
  obtain ⟨t, ht, h⟩ := runOps_represents createHashTable_represents ops
  generalize replay ops (fun _ => none) = m at h ⊢
  refine ⟨t, ht, fun k => ⟨getPtrToValueByKey_eq h k, checkKeyExists_eq h k⟩, fun k a => ?_, fun k => ?_⟩
  · obtain ⟨t', r, hc, -, -, hu⟩ := insertEntry_spec h k a
    exact ⟨t', r, hc, hu⟩
  · obtain ⟨t', r, hc, h', hs⟩ := deleteEntry_spec h k
    refine ⟨t', r, hc, hs, fun hfail k' => ?_⟩
    have hk : m k = none := by
      rw [← Option.not_isSome_iff_eq_none, ← hs]
      exact fun hn => hn hfail
    rw [← hk, Function.update_eq_self] at h'
    exact ⟨by rw [getPtrToValueByKey_eq h', getPtrToValueByKey_eq h],
      by rw [checkKeyExists_eq h', checkKeyExists_eq h]⟩

end CftpServer.HashMap
