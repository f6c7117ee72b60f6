import CftpServer.HashMap.Table
import CftpServer.Lib.Chain
import Mathlib.Data.Finset.Card
import Mathlib.Data.List.Nodup

/-!
# The shape of a table

- what the writes to the heap do to its links, to its entries (`setNext_spec`, `setPrevOf_spec`, `setAddress_spec`)
  and to the back links (`setPrevOf_prevs`);
- the invariant `Inv t b`: bucket `i` is a chain through the cells `b i`, every cell is in the bucket of its key's
  hash, no key is stored twice, and the cells not yet allocated are free;
- a lookup under the invariant finds the cell of its key (`getPtrToElemByKey_spec`).
-/

namespace CftpServer.HashMap

open CLib Linked

variable {α : Type}

/-- The successors of the cells. -/
def Heap.links (h : Heap α) : Links Ptr := fun p => (h p).map (·.next)

/-- The predecessors of the cells. -/
def Heap.prevs (h : Heap α) : Links Ptr := fun p => (h p).map (·.prev)

/-- What the cells store. -/
def Heap.entry (h : Heap α) (p : Ptr) : Option (Bytes × Option α) := (h p).map fun e => (e.key, e.address)

theorem entry_of {h : Heap α} {p : Ptr} {e : HashTableElem α} (hp : h p = some e) :
    h.entry p = some (e.key, e.address) := by simp [Heap.entry, hp]

theorem of_entry {h : Heap α} {p : Ptr} {k : Bytes} {a : Option α} (hp : h.entry p = some (k, a)) :
    ∃ e, h p = some e ∧ e.key = k ∧ e.address = a := by
  simp only [Heap.entry, Option.map_eq_some_iff, Prod.mk.injEq] at hp
  exact hp

/-! ## Writes -/

section Writes

variable {h : Heap α} {p : Ptr}

theorem links_update (h : Heap α) (p : Ptr) (c : Option (HashTableElem α)) :
    Heap.links (Function.update h p c) = Function.update h.links p (c.map (·.next)) := by
  funext x
  by_cases hx : x = p
  · subst hx; simp [Heap.links]
  · simp [Heap.links, hx]

theorem prevs_update (h : Heap α) (p : Ptr) (c : Option (HashTableElem α)) :
    Heap.prevs (Function.update h p c) = Function.update h.prevs p (c.map (·.prev)) := by
  funext x
  by_cases hx : x = p
  · subst hx; simp [Heap.prevs]
  · simp [Heap.prevs, hx]

theorem entry_update (h : Heap α) (p : Ptr) (c : Option (HashTableElem α)) :
    Heap.entry (Function.update h p c) = Function.update h.entry p (c.map fun e => (e.key, e.address)) := by
  funext x
  by_cases hx : x = p
  · subst hx; simp [Heap.entry]
  · simp [Heap.entry, hx]

theorem entry_eq_none_iff {h : Heap α} {p : Ptr} : h.entry p = none ↔ h p = none := by simp [Heap.entry]

/-- A write of a link. -/
theorem setNext_spec {e : HashTableElem α} (hp : h p = some e) (q : Option Ptr) :
    ∃ h', h.setNext p q = some h' ∧ h'.links = Function.update h.links p (some q) ∧ h'.entry = h.entry := by
  refine ⟨Function.update h p (some { e with next := q }), by simp [Heap.setNext, hp], ?_, ?_⟩
  · rw [links_update]; rfl
  · rw [entry_update, Option.map_some, ← entry_of hp, Function.update_eq_self]

/-- A write of `prev` is seen by no walk. -/
theorem setPrev_spec {e : HashTableElem α} (hp : h p = some e) (q : Option Ptr) :
    ∃ h', h.setPrev p q = some h' ∧ h'.links = h.links ∧ h'.entry = h.entry := by
  have hl : h.links p = some e.next := by simp [Heap.links, hp]
  refine ⟨Function.update h p (some { e with prev := q }), by simp [Heap.setPrev, hp], ?_, ?_⟩
  · rw [links_update, Option.map_some, ← hl, Function.update_eq_self]
  · rw [entry_update, Option.map_some, ← entry_of hp, Function.update_eq_self]

/-- The guarded write of `prev`, to a cell of the heap or to nothing. -/
theorem setPrevOf_spec {r : Option Ptr} (hr : ∀ x, r = some x → h.entry x ≠ none) (q : Option Ptr) :
    ∃ h', h.setPrevOf r q = some h' ∧ h'.links = h.links ∧ h'.entry = h.entry := by
  cases r with
  | none => exact ⟨h, rfl, rfl, rfl⟩
  | some x =>
    cases he : h x with
    | none => exact absurd (entry_eq_none_iff.mpr he) (hr x rfl)
    | some e => exact setPrev_spec he q

/-- A write of an address. -/
theorem setAddress_spec {k : Bytes} {a : Option α} (hp : h.entry p = some (k, a)) (a' : Option α) :
    ∃ h', h.setAddress p a' = some h' ∧ h'.links = h.links ∧
      h'.entry = Function.update h.entry p (some (k, a')) := by
  obtain ⟨e, he, rfl, rfl⟩ := of_entry hp
  have hl : h.links p = some e.next := by simp [Heap.links, he]
  refine ⟨Function.update h p (some { e with address := a' }), by simp [Heap.setAddress, he], ?_, ?_⟩
  · rw [links_update, Option.map_some, ← hl, Function.update_eq_self]
  · rw [entry_update]; rfl

variable {h' : Heap α}

theorem setNext_prevs {q : Option Ptr} (hs : h.setNext p q = some h') : h'.prevs = h.prevs := by
  simp only [Heap.setNext, Option.map_eq_some_iff] at hs
  obtain ⟨e, he, rfl⟩ := hs
  have hp : h.prevs p = some e.prev := by simp [Heap.prevs, he]
  rw [prevs_update, Option.map_some, ← hp, Function.update_eq_self]

theorem setPrev_prevs {q : Option Ptr} (hs : h.setPrev p q = some h') :
    h'.prevs = Function.update h.prevs p (some q) := by
  simp only [Heap.setPrev, Option.map_eq_some_iff] at hs
  obtain ⟨e, -, rfl⟩ := hs
  rw [prevs_update]
  rfl

theorem setPrevOf_prevs {r q : Option Ptr} (hs : h.setPrevOf r q = some h') (x : Ptr) :
    h'.prevs x = if r = some x then some q else h.prevs x := by
  cases r with
  | none =>
    simp only [Heap.setPrevOf, Option.some.injEq] at hs
    rw [← hs, if_neg (Option.some_ne_none x).symm]
  | some y =>
    rw [setPrev_prevs hs, Function.update_apply]
    simp only [Option.some.injEq, eq_comm]

theorem setAddress_prevs {a : Option α} (hs : h.setAddress p a = some h') : h'.prevs = h.prevs := by
  simp only [Heap.setAddress, Option.map_eq_some_iff] at hs
  obtain ⟨e, he, rfl⟩ := hs
  have hp : h.prevs p = some e.prev := by simp [Heap.prevs, he]
  rw [prevs_update, Option.map_some, ← hp, Function.update_eq_self]

end Writes

/-! ## The invariant -/

/-- The bucket of a key. -/
def HashTable.home (t : HashTable α) (k : Bytes) : Nat := fnv1aStringHash k % t.length

/-- The shape of a table whose bucket `i` is the chain `b i`. -/
structure Inv (t : HashTable α) (b : Nat → List Ptr) : Prop where
  pos : 0 < t.length
  chain : ∀ i, i < t.length → Chain t.heap.links (t.table i) (b i)
  home : ∀ i, i < t.length → ∀ p ∈ b i, ∃ k a, t.heap.entry p = some (k, a) ∧ t.home k = i
  uniq : ∀ i, i < t.length → ∀ p ∈ b i, ∀ q ∈ b i, (t.heap.entry p).map Prod.fst = (t.heap.entry q).map Prod.fst →
    p = q
  fresh : ∀ p : Nat, t.brk ≤ p → t.heap p = none

/-- The elements of a bucket, from the first on. -/
def HashTable.cells (t : HashTable α) (i : Nat) : List Ptr := nodes t.heap.links (t.brk + 1) (t.table i)

/-- All elements. -/
def HashTable.elems (t : HashTable α) : List Ptr := (List.range t.length).flatMap t.cells

/-- The table binds `k` to `a`. -/
def Stores (t : HashTable α) (b : Nat → List Ptr) (k : Bytes) (a : Option α) : Prop :=
  ∃ i, i < t.length ∧ ∃ p ∈ b i, t.heap.entry p = some (k, a)

section Lookup

variable {t : HashTable α} {b : Nat → List Ptr}

theorem Inv.home_lt (hi : Inv t b) (k : Bytes) : t.home k < t.length := Nat.mod_lt _ hi.pos

/-- A stored key is stored in its own bucket. -/
theorem Inv.stores_iff (hi : Inv t b) {k : Bytes} {a : Option α} :
    Stores t b k a ↔ ∃ p ∈ b (t.home k), t.heap.entry p = some (k, a) := by
  constructor
  · rintro ⟨i, hlt, p, hp, he⟩
    obtain ⟨k', a', he', hk⟩ := hi.home i hlt p hp
    rw [he, Option.some.injEq, Prod.mk.injEq] at he'
    obtain ⟨rfl, rfl⟩ := he'
    exact ⟨p, hk ▸ hp, he⟩
  · rintro ⟨p, hp, he⟩
    exact ⟨_, hi.home_lt k, p, hp, he⟩

/-- A cell is in the bucket of one index only. -/
theorem Inv.same_bucket (hi : Inv t b) {i j : Nat} (hil : i < t.length) (hjl : j < t.length) {p : Ptr} (hp : p ∈ b i)
    (hq : p ∈ b j) : i = j := by
  obtain ⟨k, a, he, hk⟩ := hi.home i hil p hp
  obtain ⟨k', a', he', hk'⟩ := hi.home j hjl p hq
  rw [he, Option.some.injEq, Prod.mk.injEq] at he'
  rw [← hk, he'.1, hk']

/-- A cell of a bucket was allocated. -/
theorem Inv.lt_brk (hi : Inv t b) {i : Nat} (hlt : i < t.length) {p : Ptr} (hp : p ∈ b i) : p < t.brk := by
  by_contra hge
  obtain ⟨k, a, he, _⟩ := hi.home i hlt p hp
  rw [entry_eq_none_iff.mpr (hi.fresh p (Nat.le_of_not_lt hge))] at he
  cases he

/-- A chain is no longer than the number of cells allocated. -/
theorem Inv.length_le (hi : Inv t b) {i : Nat} (hlt : i < t.length) : (b i).length ≤ t.brk := by
  have hn := (hi.chain i hlt).nodup
  have hs : (b i).toFinset ⊆ Finset.range t.brk := by
    intro p hp
    exact Finset.mem_range.mpr (hi.lt_brk hlt (List.mem_toFinset.mp hp))
  calc (b i).length = (b i).toFinset.card := (List.toFinset_card_of_nodup hn).symm
    _ ≤ (Finset.range t.brk).card := Finset.card_le_card hs
    _ = t.brk := Finset.card_range _

theorem Inv.cells_eq (hi : Inv t b) {i : Nat} (hlt : i < t.length) : t.cells i = b i :=
  (hi.chain i hlt).nodes_eq _ (le_trans (hi.length_le hlt) (Nat.le_succ _))

theorem Inv.elems_eq (hi : Inv t b) : t.elems = (List.range t.length).flatMap b :=
  List.flatMap_congr fun _ hm => hi.cells_eq (List.mem_range.mp hm)

/-- The walk along a chain with enough fuel is a search in the list of its cells. -/
theorem findElem_eq {h : Heap α} {r : Option Ptr} {ps : List Ptr} (hc : Chain h.links r ps) (k : Bytes) :
    ∀ fuel, ps.length ≤ fuel →
      findElem h k fuel r = some (ps.find? fun p => (h.entry p).map Prod.fst == some k) := by
  induction hc with
  | nil => intro fuel _; cases fuel <;> rfl
  | @cons p r ps hp _ ih =>
    intro fuel hf
    cases fuel with
    | zero => simp at hf
    | succ fuel =>
      simp only [Heap.links, Option.map_eq_some_iff] at hp
      obtain ⟨e, he, rfl⟩ := hp
      rw [findElem, he, Option.bind_some, List.find?_cons, entry_of he]
      by_cases hk : e.key = k
      · simp [hk]
      · have hb : (e.key == k) = false := by simpa using hk
        rw [if_neg hk, ih fuel (by simpa using hf)]
        simp [hb]

/-- A lookup finds the cell of its key, or the key is not stored. -/
theorem getPtrToElemByKey_spec (hi : Inv t b) (k : Bytes) :
    (∃ p a, getPtrToElemByKey t k = some (some p) ∧ p ∈ b (t.home k) ∧ t.heap.entry p = some (k, a)) ∨
      (getPtrToElemByKey t k = some none ∧ ∀ p ∈ b (t.home k), (t.heap.entry p).map Prod.fst ≠ some k) := by
  have hlt := hi.home_lt k
  have hf := findElem_eq (hi.chain _ hlt) k (t.brk + 1) (le_trans (hi.length_le hlt) (Nat.le_succ _))
  have hg : getPtrToElemByKey t k =
      some ((b (t.home k)).find? fun p => (t.heap.entry p).map Prod.fst == some k) := hf
  cases hr : (b (t.home k)).find? fun p => (t.heap.entry p).map Prod.fst == some k with
  | none =>
    right
    refine ⟨by rw [hg, hr], fun p hp hk => ?_⟩
    have := List.find?_eq_none.mp hr p hp
    simp [hk] at this
  | some p =>
    left
    have hk : (t.heap.entry p).map Prod.fst = some k := by simpa using List.find?_some hr
    simp only [Option.map_eq_some_iff, Prod.exists] at hk
    obtain ⟨k', a, he, rfl⟩ := hk
    exact ⟨p, a, by rw [hg, hr], List.mem_of_find?_eq_some hr, he⟩

end Lookup

end CftpServer.HashMap
