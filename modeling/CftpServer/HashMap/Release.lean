import CftpServer.HashMap.Sizes

/-!
# `free_hash_table`

Every cell that is allocated is an element of the table (`Tight`), through every call: a deletion frees the cell that it
unlinks, and a reallocation loses none. So `free_hash_table` frees each cell once and leaves none
(`hash_table_released`). A key is part of its cell here; the bucket arrays and the table itself are no cells of the heap.
-/

namespace CftpServer.HashMap

open CLib Linked Runs

variable {α : Type} {t t' : HashTable α} {b : Nat → List Ptr} {h h' : Heap α}

/-- The walk of `free_hash_table` along one chain. -/
def freeChain : Nat → Option Ptr → Heap α → Option (Heap α)
  | _, none, h => some h
  | 0, some _, _ => none
  | fuel + 1, some ptr, h => (h ptr).bind fun e => freeChain fuel e.next (h.free ptr)

/-- `free_hash_table`: the cells that are left. -/
def freeHashTable (t : HashTable α) : Option (Heap α) :=
  (List.range t.length).foldlM (fun h i => freeChain (t.brk + 1) (t.table i) h) t.heap

/-! ## Freeing -/

/-- The heap without some of its cells. -/
def Heap.without (h : Heap α) (ps : List Ptr) : Heap α := fun p => if p ∈ ps then none else h p

theorem without_nil (h : Heap α) : h.without [] = h := by
  funext p
  exact if_neg List.not_mem_nil

theorem without_append (h : Heap α) (ps qs : List Ptr) : (h.without ps).without qs = h.without (ps ++ qs) := by
  funext p
  simp only [Heap.without, List.mem_append]
  by_cases hq : p ∈ qs
  · simp [hq]
  · simp [hq]

theorem free_eq (h : Heap α) (p : Ptr) : h.free p = h.without [p] := by
  funext q
  simp only [Heap.free, Function.update_apply, Heap.without, List.mem_singleton]

/-- A chain none of whose cells has been freed. -/
theorem without_links {ps : List Ptr} {p : Ptr} (hp : p ∉ ps) : (h.without ps).links p = h.links p := by
  simp only [Heap.links, Heap.without, if_neg hp]

/-- Freeing a chain: the successor of a cell is read before the cell is freed. -/
theorem freeChain_eq {r : Option Ptr} {ps : List Ptr} : ∀ (fuel : Nat) {h : Heap α}, Chain h.links r ps →
    ps.length ≤ fuel → freeChain fuel r h = some (h.without ps) := by
  induction ps generalizing r with
  | nil =>
    intro fuel h hc _
    cases hc
    rw [without_nil]
    cases fuel <;> rfl
  | cons p ps ih =>
    intro fuel h hc hf
    have hnd := List.nodup_cons.mp hc.nodup
    cases hc with
    | cons hp ht =>
      obtain ⟨fuel, rfl⟩ : ∃ m, fuel = m + 1 := ⟨fuel - 1, by simp only [List.length_cons] at hf; omega⟩
      simp only [Heap.links, Option.map_eq_some_iff] at hp
      obtain ⟨e, he, rfl⟩ := hp
      have ht' : Chain (h.free p).links e.next ps := by
        refine ht.congr fun x hx => ?_
        rw [free_eq]
        exact without_links fun hxp => hnd.1 (List.mem_singleton.mp hxp ▸ hx)
      rw [freeChain, he, Option.bind_some, ih fuel ht' (by simpa using hf), free_eq, without_append]
      rfl

/-- Freeing the chains of some buckets, one after the other. -/
theorem freeBuckets_eq (fuel : Nat) (table : Nat → Option Ptr) (b : Nat → List Ptr) : ∀ (is : List Nat) {h : Heap α},
    (∀ i ∈ is, Chain h.links (table i) (b i) ∧ (b i).length ≤ fuel) → (is.flatMap b).Nodup →
      is.foldlM (fun h i => freeChain fuel (table i) h) h = some (h.without (is.flatMap b)) := by
  intro is
  induction is with
  | nil =>
    intro h _ _
    rw [List.flatMap_nil, without_nil]
    rfl
  | cons i is ih =>
    intro h hc hnd
    rw [List.flatMap_cons] at hnd ⊢
    obtain ⟨-, hrest, hdisjoint⟩ := List.nodup_append.mp hnd
    obtain ⟨hchain, hlen⟩ := hc i List.mem_cons_self
    rw [List.foldlM_cons, freeChain_eq fuel hchain hlen, Option.bind_eq_bind, Option.bind_some,
      ih (fun j hj => ?_) hrest, without_append]
    obtain ⟨hj₁, hj₂⟩ := hc j (List.mem_cons_of_mem _ hj)
    refine ⟨hj₁.congr fun x hx => without_links fun hxi => ?_, hj₂⟩
    exact hdisjoint x hxi x (List.mem_flatMap.mpr ⟨j, hj, hx⟩) rfl

/-- Under the invariant the elements are freed, each once. -/
theorem Inv.freeHashTable_eq (hi : Inv t b) : freeHashTable t = some (t.heap.without t.elems) := by
  have hle : ∀ i ∈ List.range t.length, Chain t.heap.links (t.table i) (b i) ∧ (b i).length ≤ t.brk + 1 := by
    intro i hm
    have hlt := List.mem_range.mp hm
    exact ⟨hi.chain i hlt, le_trans (hi.length_le hlt) (Nat.le_succ _)⟩
  rw [freeHashTable, freeBuckets_eq (t.brk + 1) t.table b _ hle hi.flatMap_nodup, hi.elems_eq]

/-! ## Nothing leaks -/

/-- Every cell of the heap is an element of the table. -/
def Owned (t : HashTable α) (b : Nat → List Ptr) : Prop := ∀ p, t.heap.entry p ≠ none → ∃ i, i < t.length ∧ p ∈ b i

/-- The writes of a reallocation change no entry. -/
theorem moveElem_entry {n : Nat} {p : Ptr} {e : HashTableElem α} {st st' : Moving α}
    (hm : moveElem n p e st = some st') : st'.1.entry = st.1.entry := by
  simp only [moveElem, Option.bind_eq_some_iff, Option.map_eq_some_iff] at hm
  obtain ⟨h₁, hnext, h₂, hprev, rfl⟩ := hm
  have h₁entry : h₁.entry = st.1.entry := by
    obtain ⟨e₁, he₁, -⟩ := Option.map_eq_some_iff.mp hnext
    obtain ⟨h', hs, -, hentry⟩ := setNext_spec he₁ (st.2 (fnv1aStringHash e.key % n))
    rw [hnext, Option.some.injEq] at hs
    rw [hs, hentry]
  have h₂entry : h₂.entry = h₁.entry := by
    cases hr : st.2 (fnv1aStringHash e.key % n) with
    | none =>
      rw [hr] at hprev
      exact (congrArg Heap.entry (Option.some.inj hprev)).symm
    | some q =>
      rw [hr] at hprev
      obtain ⟨e₂, he₂, -⟩ := Option.map_eq_some_iff.mp hprev
      obtain ⟨h', hs, -, hentry⟩ := setPrev_spec he₂ (some p)
      have heq : some h₂ = some h' := hprev.symm.trans hs
      rw [Option.some.inj heq, hentry]
  exact h₂entry.trans h₁entry

theorem moveChain_entry {n : Nat} : ∀ (fuel : Nat) {r : Option Ptr} {st st' : Moving α},
    moveChain n fuel r st = some st' → st'.1.entry = st.1.entry := by
  intro fuel
  induction fuel with
  | zero =>
    intro r st st' hm
    cases r with
    | none => exact (congrArg (fun st => Heap.entry st.1) (Option.some.inj hm)).symm
    | some p => cases hm
  | succ fuel ih =>
    intro r st st' hm
    cases r with
    | none => exact (congrArg (fun st => Heap.entry st.1) (Option.some.inj hm)).symm
    | some p =>
      simp only [moveChain, Option.bind_eq_some_iff] at hm
      obtain ⟨e, -, st₁, hmove, hrest⟩ := hm
      exact (ih hrest).trans (moveElem_entry hmove)

theorem resize_entry {n : Nat} (hr : resize t n = some t') : t'.heap.entry = t.heap.entry := by
  have hall : ∀ (is : List Nat) (st st' : Moving α),
      is.foldlM (fun st i => moveChain n (t.brk + 1) (t.table i) st) st = some st' → st'.1.entry = st.1.entry := by
    intro is
    induction is with
    | nil =>
      intro st st' hm
      exact (congrArg (fun st => Heap.entry st.1) (Option.some.inj hm)).symm
    | cons i is ih =>
      intro st st' hm
      rw [List.foldlM_cons, Option.bind_eq_bind, Option.bind_eq_some_iff] at hm
      obtain ⟨st₁, hmove, hrest⟩ := hm
      exact (ih st₁ st' hrest).trans (moveChain_entry _ hmove)
  obtain ⟨st, hst, rfl⟩ := Option.map_eq_some_iff.mp hr
  exact hall _ _ _ hst

/-- A table whose cells are all elements. -/
def Tight (t : HashTable α) : Prop := ∃ b, Inv t b ∧ Owned t b

theorem createHashTable_tight : Tight (createHashTable : HashTable α) := by
  obtain ⟨b, hi⟩ := (createHashTable_wellFormed : WellFormed (createHashTable : HashTable α))
  exact ⟨b, hi, fun p hp => absurd rfl hp⟩

/-- **One call** leaves no cell behind. -/
theorem Tight.step (op : Op α) (h : Tight t) : Tight (after op t) := by
  obtain ⟨b, hi, howned⟩ := h
  cases op with
  | insert k a =>
    rcases insertEntry_cases hi k a with ⟨p, hp, a₀, t', he, ho, hins⟩ | ⟨hno, t₁, r, hadd, -, hins⟩
    · have hafter : after (.insert k a) t = t' := after_eq hins
      rw [hafter]
      refine ⟨b, hi.overwrite hp he ho, fun q hq => ?_⟩
      rw [ho.length]
      by_cases hqp : q = p
      · exact ⟨_, hi.home_lt k, hqp ▸ hp⟩
      · rw [ho.entry, Function.update_of_ne hqp] at hq
        exact howned q hq
    · have hi₁ := hi.link hno hadd
      have howned₁ : Owned t₁ (Function.update b (t.home k) (t.brk :: b (t.home k))) := by
        intro q hq
        rw [hadd.length]
        by_cases hqb : q = t.brk
        · exact ⟨_, hi.home_lt k, mem_update_cons.mpr (.inl ⟨rfl, hqb⟩)⟩
        · rw [hadd.entry, Function.update_of_ne hqb] at hq
          obtain ⟨i, hlt, hqi⟩ := howned q hq
          exact ⟨i, hlt, mem_update_cons.mpr (.inr hqi)⟩
      by_cases h0 : checkGrow t₁ = 0
      · have hafter : after (.insert k a) t = t₁ := after_eq (hins.trans (if_pos h0))
        rw [hafter]
        exact ⟨_, hi₁, howned₁⟩
      · obtain ⟨t₂, hres, hi₂, hlen, -⟩ := resize_spec hi₁ (Nat.pos_of_ne_zero h0)
        have hcall : (Op.insert k a).call t = some (t₂, r ||| HASH_TABLE_RESIZED) := by
          rw [Op.call, hins, if_neg h0, hres]
          rfl
        rw [after_eq hcall]
        refine ⟨_, hi₂, fun q hq => ?_⟩
        rw [resize_entry hres] at hq
        -- the cell goes to the bucket that its key has in the longer table
        obtain ⟨i, hlt, hqi⟩ := howned₁ q hq
        obtain ⟨k', a', he, -⟩ := hi₁.home i hlt q hqi
        refine ⟨fnv1aStringHash k' % checkGrow t₁, ?_, ?_⟩
        · rw [hlen]
          exact Nat.mod_lt _ (Nat.pos_of_ne_zero h0)
        · rw [rehashed, mem_movedTo, mem_flatMap_buckets]
          exact ⟨⟨i, hlt, hqi⟩, by simp [hashesTo, he]⟩
  | delete k =>
    rcases deleteEntry_cases hi k with ⟨-, hdel⟩ | ⟨cs, p, ds, a, t', r, hb, he, hrem, -, hdel⟩
    · have hafter : after (.delete k) t = t := after_eq hdel
      rw [hafter]
      exact ⟨b, hi, howned⟩
    · have hafter : after (.delete k) t = t' := after_eq hdel
      rw [hafter]
      refine ⟨_, hi.unlink hb hrem, fun q hq => ?_⟩
      rw [hrem.length]
      rw [hrem.heap.entry] at hq
      have hqp : q ≠ p := by
        rintro rfl
        exact hq (Function.update_self ..)
      rw [Function.update_of_ne hqp] at hq
      obtain ⟨i, hlt, hqi⟩ := howned q hq
      exact ⟨i, hlt, (hi.mem_update_append hb hlt).mpr ⟨hqp, hqi⟩⟩

/-- **The elements are released.** Whatever calls were made on a new table, `free_hash_table` frees the cell of every
element once, with its key, and reads none that was freed. -/
theorem hash_table_released (ops : List (Op α)) :
    ∃ t, runOps createHashTable ops = some t ∧ freeHashTable t = some fun _ => none := by
  refine ⟨_, runOps_create ops, ?_⟩
  obtain ⟨b, hi, howned⟩ := run_inv (P := Tight) (fun op _ h => h.step op) ops createHashTable_tight
  rw [hi.freeHashTable_eq, Option.some.injEq]
  funext p
  by_cases hp : (run after ops createHashTable).heap.entry p = none
  · simp [Heap.without, entry_eq_none_iff.mp hp]
  · have hmem := hi.mem_elems.mpr (howned p hp)
    exact if_pos hmem

end CftpServer.HashMap
