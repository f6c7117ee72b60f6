import CftpServer.HashMap.Chains

/-!
# The reallocation of `insert_entry`

Moving a chain reads the successor of a cell before it overwrites it, so the nested loops move the cells of all
buckets one after another (`moveChain_eq`, `moveBuckets_eq`). After a list of cells was moved, each new bucket is
the chain of those whose key hashes to it, the last moved first (`moveAll_spec`). Hence a reallocation keeps the
invariant and every binding (`resize_spec`).
-/

namespace CftpServer.HashMap

open CLib Linked

variable {α : Type}

/-- The cells of a list, moved one after another. -/
def moveAll (newLength : Nat) : List Ptr → Moving α → Option (Moving α)
  | [], st => some st
  | p :: ps, st => (st.1 p).bind fun e => (moveElem newLength p e st).bind fun st' => moveAll newLength ps st'

theorem moveAll_append (n : Nat) (ps qs : List Ptr) (st : Moving α) :
    moveAll n (ps ++ qs) st = (moveAll n ps st).bind fun st' => moveAll n qs st' := by
  induction ps generalizing st with
  | nil => rfl
  | cons p ps ih =>
    simp only [List.cons_append, moveAll, Option.bind_assoc]
    cases st.1 p with
    | none => rfl
    | some e =>
      simp only [Option.bind_some]
      cases moveElem n p e st with
      | none => rfl
      | some st' => simp only [Option.bind_some]; exact ih st'

/-- Moving a cell changes no successor but its own. -/
theorem moveElem_links {n : Nat} {p : Ptr} {e : HashTableElem α} {st st' : Moving α}
    (h : moveElem n p e st = some st') {x : Ptr} (hx : x ≠ p) : st'.1.links x = st.1.links x := by
  simp only [moveElem, Heap.setNext, Option.bind_eq_some_iff, Option.map_eq_some_iff] at h
  obtain ⟨h₁, ⟨e₁, -, rfl⟩, h₂, hp, rfl⟩ := h
  have h₁ : Heap.links (Function.update st.1 p (some { e₁ with next := st.2 (fnv1aStringHash e.key % n) })) x =
      st.1.links x := by rw [links_update, Function.update_of_ne hx]
  rw [← h₁]
  cases hr : st.2 (fnv1aStringHash e.key % n) with
  | none =>
    rw [hr] at hp
    simp only [Heap.setPrevOf, Option.some.injEq] at hp
    rw [← hp]
  | some q =>
    rw [hr] at hp
    simp only [Heap.setPrevOf, Heap.setPrev, Option.map_eq_some_iff] at hp
    obtain ⟨e₂, he₂, rfl⟩ := hp
    obtain ⟨h', hs, hl, -⟩ := setPrev_spec he₂ (some p)
    simp only [Heap.setPrev, he₂, Option.map_some, Option.some.injEq] at hs
    rw [hs, hl]

/-- The inner loop moves the cells of its chain. -/
theorem moveChain_eq (n : Nat) {r : Option Ptr} {ps : List Ptr} : ∀ (fuel : Nat) (st : Moving α),
    Chain st.1.links r ps → ps.length ≤ fuel → moveChain n fuel r st = moveAll n ps st := by
  induction ps generalizing r with
  | nil =>
    intro fuel st hc _
    cases hc
    cases fuel <;> rfl
  | cons p ps ih =>
    intro fuel st hc hf
    have hnd := List.nodup_cons.mp hc.nodup
    cases hc with
    | @cons _ q _ hp ht =>
      obtain ⟨fuel, rfl⟩ : ∃ m, fuel = m + 1 := ⟨fuel - 1, by simp only [List.length_cons] at hf; omega⟩
      simp only [Heap.links, Option.map_eq_some_iff] at hp
      obtain ⟨e, he, rfl⟩ := hp
      simp only [moveChain, moveAll, he, Option.bind_some]
      cases hm : moveElem n p e st with
      | none => rfl
      | some st' =>
        refine ih fuel st' (ht.congr fun x hx => ?_) (by simpa using hf)
        exact moveElem_links hm fun hxp => hnd.1 (hxp ▸ hx)

/-- Moving cells leaves the successors of all others. -/
theorem moveAll_links {n : Nat} : ∀ {ps : List Ptr} {st st' : Moving α}, moveAll n ps st = some st' →
    ∀ x, x ∉ ps → st'.1.links x = st.1.links x
  | [], st, st', h, x, _ => by
    simp only [moveAll, Option.some.injEq] at h
    rw [h]
  | p :: ps, st, st', h, x, hx => by
    simp only [moveAll, Option.bind_eq_some_iff] at h
    obtain ⟨e, -, st₁, hm, h⟩ := h
    rw [List.mem_cons, not_or] at hx
    rw [moveAll_links h x hx.2, moveElem_links hm hx.1]

/-- The outer loop moves the cells of the buckets, one bucket after the other. -/
theorem moveBuckets_eq (n fuel : Nat) (table : Nat → Option Ptr) (b : Nat → List Ptr) :
    ∀ (is : List Nat) (st : Moving α), (∀ i ∈ is, Chain st.1.links (table i) (b i) ∧ (b i).length ≤ fuel) →
      (is.flatMap b).Nodup →
      is.foldlM (fun st i => moveChain n fuel (table i) st) st = moveAll n (is.flatMap b) st
  | [], _, _, _ => rfl
  | i :: is, st, hc, hnd => by
    rw [List.flatMap_cons] at hnd ⊢
    rw [moveAll_append, List.foldlM_cons, moveChain_eq n fuel st (hc i List.mem_cons_self).1
      (hc i List.mem_cons_self).2]
    cases hm : moveAll n (b i) st with
    | none => rfl
    | some st' =>
      refine moveBuckets_eq n fuel table b is st' (fun j hj => ?_) (List.nodup_append.mp hnd).2.1
      obtain ⟨hj₁, hj₂⟩ := hc j (List.mem_cons_of_mem _ hj)
      refine ⟨hj₁.congr fun x hx => moveAll_links hm x fun hxi => ?_, hj₂⟩
      exact (List.nodup_append.mp hnd).2.2 x hxi x (List.mem_flatMap.mpr ⟨j, hj, hx⟩) rfl

/-- The key of a cell hashes to bucket `i` of `n`. -/
def hashesTo (h : Heap α) (n i : Nat) (p : Ptr) : Bool :=
  match h.entry p with
  | some (k, _) => fnv1aStringHash k % n == i
  | none => false

/-- The cells of `moved` in bucket `i` of `n`, the last one first. -/
def movedTo (h : Heap α) (n : Nat) (moved : List Ptr) (i : Nat) : List Ptr := (moved.filter (hashesTo h n i)).reverse

/-- The state after the cells `moved` were moved out of the heap `h₀`. The first cell of a bucket has the back link
that it had there. -/
structure Moved (h₀ : Heap α) (n : Nat) (moved : List Ptr) (st : Moving α) : Prop where
  entry : st.1.entry = h₀.entry
  chain : ∀ i, Chain st.1.links (st.2 i) (movedTo h₀ n moved i)
  back : ∀ i, ∃ l, Backed st.1.prevs l (movedTo h₀ n moved i) ∧ ∀ x ∈ (movedTo h₀ n moved i).head?, h₀.prevs x = some l
  rest : ∀ x, x ∉ moved → st.1.prevs x = h₀.prevs x

theorem mem_movedTo {h : Heap α} {n i : Nat} {moved : List Ptr} {p : Ptr} :
    p ∈ movedTo h n moved i ↔ p ∈ moved ∧ hashesTo h n i p = true := by
  rw [movedTo, List.mem_reverse, List.mem_filter]

theorem movedTo_concat {h : Heap α} {n i : Nat} {moved : List Ptr} {p : Ptr} (hp : hashesTo h n i p = true) :
    movedTo h n (moved ++ [p]) i = p :: movedTo h n moved i := by
  rw [movedTo, List.filter_append, List.filter_cons_of_pos hp, List.reverse_append]
  rfl

theorem movedTo_concat_ne {h : Heap α} {n i : Nat} {moved : List Ptr} {p : Ptr} (hp : ¬hashesTo h n i p = true) :
    movedTo h n (moved ++ [p]) i = movedTo h n moved i := by
  rw [movedTo, List.filter_append, List.filter_cons_of_neg hp, List.filter_nil, List.append_nil, movedTo]

theorem hashesTo_inj {h : Heap α} {n i j : Nat} {p : Ptr} (hi : hashesTo h n i p = true)
    (hj : hashesTo h n j p = true) : i = j := by
  cases hp : h.entry p with
  | none => simp [hashesTo, hp] at hi
  | some e =>
    simp only [hashesTo, hp, beq_iff_eq] at hi hj
    exact hi.symm.trans hj

section MoveElem

variable {h₀ : Heap α} {n j : Nat} {moved : List Ptr} {st : Moving α} {p : Ptr} (hm : Moved h₀ n moved st)
include hm

/-- The first cell of a new bucket was moved there. -/
theorem Moved.first {x : Ptr} (hx : st.2 j = some x) : x ∈ moved ∧ hashesTo h₀ n j x = true := by
  have hhead := (hm.chain j).head?_eq
  rw [hx] at hhead
  exact mem_movedTo.mp (List.mem_of_mem_head? hhead)

/-- The back links when `p` is put in front of bucket `j`: the cell that was first gets the one to `p`. -/
theorem Moved.back_concat (hp : p ∉ moved) (hb : hashesTo h₀ n j p = true) {prevs : Links Ptr} {l : Option Ptr}
    (hl : h₀.prevs p = some l)
    (hprevs : ∀ x, prevs x = if st.2 j = some x then some (some p) else st.1.prevs x) (i : Nat) :
    ∃ l, Backed prevs l (movedTo h₀ n (moved ++ [p]) i) ∧
      ∀ x ∈ (movedTo h₀ n (moved ++ [p]) i).head?, h₀.prevs x = some l := by
  obtain ⟨l', hback, hhead⟩ := hm.back i
  by_cases hi : j = i
  · subst hi
    have hchain := (hm.chain j).head?_eq
    have hnd := (hm.chain j).nodup
    rw [movedTo_concat hb]
    refine ⟨l, hback.prepend ?_ (fun x hx => ?_) (fun x hx => ?_), fun x hx => ?_⟩
    · rw [hprevs, if_neg fun h => hp (hm.first h).1, hm.rest p hp, hl]
    · rw [hprevs, if_pos (hchain.symm.trans hx)]
    · rw [hprevs, if_neg]
      rw [← hchain]
      intro hfirst
      cases hml : movedTo h₀ n moved j with
      | nil => simp [hml] at hx
      | cons y ys =>
        simp only [hml, List.tail_cons, List.head?_cons, Option.some.injEq, List.nodup_cons] at hx hfirst hnd
        exact hnd.1 (hfirst ▸ hx)
    · rw [List.head?_cons, Option.mem_some_iff] at hx
      rw [← hx, hl]
  · rw [movedTo_concat_ne fun h => hi (hashesTo_inj hb h)]
    refine ⟨l', hback.congr fun x hx => ?_, hhead⟩
    rw [hprevs, if_neg fun h => hi (hashesTo_inj (hm.first h).2 (mem_movedTo.mp hx).2)]

/-- Moving one more cell puts it first in the bucket of its hash. -/
theorem moveElem_spec (hp : p ∉ moved) {e : HashTableElem α} (he : st.1 p = some e) :
    ∃ st', moveElem n p e st = some st' ∧ Moved h₀ n (moved ++ [p]) st' := by
  have hpe : h₀.entry p = some (e.key, e.address) := by rw [← hm.entry]; exact entry_of he
  have hb : hashesTo h₀ n (fnv1aStringHash e.key % n) p = true := by simp [hashesTo, hpe]
  have hl : h₀.prevs p = some e.prev := by
    rw [← hm.rest p hp]
    simp [Heap.prevs, he]
  unfold moveElem
  generalize fnv1aStringHash e.key % n = j at hb ⊢
  obtain ⟨h₁, hs₁, hl₁, he₁⟩ := setNext_spec he (st.2 j)
  have hallocated : ∀ x, st.2 j = some x → h₁.entry x ≠ none := by
    intro x hx hn
    have hbx := (hm.first hx).2
    rw [he₁, hm.entry] at hn
    rw [hashesTo, hn] at hbx
    cases hbx
  obtain ⟨h₂, hs₂, hl₂, he₂⟩ := setPrevOf_spec hallocated (some p)
  have hprevs : ∀ x, h₂.prevs x = if st.2 j = some x then some (some p) else st.1.prevs x := by
    intro x
    rw [setPrevOf_prevs hs₂, setNext_prevs hs₁]
  refine ⟨(h₂, Function.update st.2 j (some p)), ?_, ?_, fun i => ?_, hm.back_concat hp hb hl hprevs, fun x hx => ?_⟩
  · simp only [hs₁, Option.bind_some, hs₂, Option.map_some]
  · rw [he₂, he₁, hm.entry]
  · -- only the successor of `p` changed, and `p` is on no chain of the new table yet
    have hold : Chain h₂.links (st.2 i) (movedTo h₀ n moved i) := by
      refine (hm.chain i).congr fun x hx => ?_
      have hxp : x ≠ p := by rintro rfl; exact hp (mem_movedTo.mp hx).1
      rw [hl₂, hl₁, Function.update_of_ne hxp]
    by_cases hi : j = i
    · subst hi
      simp only [movedTo_concat hb, Function.update_self]
      exact .cons (by rw [hl₂, hl₁, Function.update_self]) hold
    · simp only [movedTo_concat_ne fun h => hi (hashesTo_inj hb h), Function.update_of_ne (Ne.symm hi)]
      exact hold
  · rw [List.mem_append, List.mem_singleton, not_or] at hx
    rw [hprevs, if_neg fun h => hx.1 (hm.first h).1, hm.rest x hx.1]

end MoveElem

/-- Moving allocated cells, none of them twice, succeeds. -/
theorem moveAll_spec {h₀ : Heap α} {n : Nat} : ∀ {ps moved : List Ptr} {st : Moving α}, Moved h₀ n moved st →
    (moved ++ ps).Nodup → (∀ p ∈ ps, h₀.entry p ≠ none) →
    ∃ st', moveAll n ps st = some st' ∧ Moved h₀ n (moved ++ ps) st'
  | [], moved, st, hm, _, _ => ⟨st, rfl, by simpa using hm⟩
  | p :: ps, moved, st, hm, hnd, hal => by
    have hp : p ∉ moved := fun h => (List.nodup_append.mp hnd).2.2 p h p List.mem_cons_self rfl
    cases he : st.1 p with
    | none =>
      exact absurd (by rw [← hm.entry]; exact entry_eq_none_iff.mpr he) (hal p List.mem_cons_self)
    | some e =>
      obtain ⟨st₁, hs₁, hm₁⟩ := moveElem_spec hm hp he
      obtain ⟨st', hs', hm'⟩ := moveAll_spec hm₁ (by simpa using hnd) fun q hq => hal q (List.mem_cons_of_mem _ hq)
      refine ⟨st', ?_, by simpa using hm'⟩
      simp only [moveAll, he, Option.bind_some, hs₁, hs']

variable {t : HashTable α} {b : Nat → List Ptr}

/-- No cell is in two buckets, or twice in one. -/
theorem Inv.flatMap_nodup (hi : Inv t b) : ((List.range t.length).flatMap b).Nodup := by
  rw [List.nodup_flatMap]
  refine ⟨fun i hm => (hi.chain i (List.mem_range.mp hm)).nodup, ?_⟩
  apply List.nodup_range.imp_of_mem
  intro i j hmi hmj hij p hpi hpj
  obtain ⟨k, a, he, hk⟩ := hi.home i (List.mem_range.mp hmi) p hpi
  obtain ⟨k', a', he', hk'⟩ := hi.home j (List.mem_range.mp hmj) p hpj
  rw [he, Option.some.injEq, Prod.mk.injEq] at he'
  exact hij (by rw [← hk, ← hk', he'.1])

/-- A cell is in some bucket exactly when it is in the list of all cells. -/
theorem mem_flatMap_buckets {p : Ptr} :
    p ∈ (List.range t.length).flatMap b ↔ ∃ i, i < t.length ∧ p ∈ b i := by
  simp [List.mem_flatMap, List.mem_range]

/-- The cells of two buckets with the same key are the same. -/
theorem Inv.uniq_all (hi : Inv t b) {i j : Nat} (hil : i < t.length) (hjl : j < t.length) {p q : Ptr} (hp : p ∈ b i)
    (hq : q ∈ b j) (hk : (t.heap.entry p).map Prod.fst = (t.heap.entry q).map Prod.fst) : p = q := by
  obtain ⟨k, a, he, hk₁⟩ := hi.home i hil p hp
  obtain ⟨k', a', he', hk₂⟩ := hi.home j hjl q hq
  have hkk : k = k' := by simpa [he, he'] using hk
  have hij : i = j := by rw [← hk₁, ← hk₂, hkk]
  subst hij
  exact hi.uniq i hil p hp q hq hk

/-- The buckets of a table of length `n` with the same elements. -/
def rehashed (t : HashTable α) (b : Nat → List Ptr) (n : Nat) : Nat → List Ptr :=
  movedTo t.heap n ((List.range t.length).flatMap b)

/-- **Reallocation** keeps the invariant and every binding; the first element of a bucket keeps its back link. -/
theorem resize_spec (hi : Inv t b) {n : Nat} (hn : 0 < n) :
    ∃ t', resize t n = some t' ∧ Inv t' (rehashed t b n) ∧ t'.length = n ∧ t'.elemCount = t.elemCount ∧
      (∀ k a, Stores t' (rehashed t b n) k a ↔ Stores t b k a) ∧
      ∀ i, ∃ l, Backed t'.heap.prevs l (rehashed t b n i) ∧
        ∀ x ∈ (rehashed t b n i).head?, t.heap.prevs x = some l := by
  have hstart : Moved t.heap n [] (t.heap, fun _ => none) :=
    ⟨rfl, fun _ => .nil, fun _ => ⟨none, .nil, fun x hx => by cases hx⟩, fun _ _ => rfl⟩
  have hal : ∀ p ∈ (List.range t.length).flatMap b, t.heap.entry p ≠ none := by
    intro p hp
    obtain ⟨i, hlt, hpi⟩ := mem_flatMap_buckets.mp hp
    obtain ⟨k, a, he, -⟩ := hi.home i hlt p hpi
    rw [he]; simp
  obtain ⟨⟨h', nt⟩, hmv, hm⟩ := moveAll_spec hstart (by simpa using hi.flatMap_nodup) hal
  rw [List.nil_append] at hm
  have hloop := moveBuckets_eq n (t.brk + 1) t.table b (List.range t.length) (t.heap, fun _ => none)
    (fun i hir => ⟨hi.chain i (List.mem_range.mp hir), le_trans (hi.length_le (List.mem_range.mp hir)) (by omega)⟩)
    hi.flatMap_nodup
  have hmem : ∀ i p, p ∈ rehashed t b n i ↔ (∃ j, j < t.length ∧ p ∈ b j) ∧ hashesTo t.heap n i p = true := by
    intro i p
    rw [rehashed, mem_movedTo, mem_flatMap_buckets]
  refine ⟨{ t with heap := h', table := nt, length := n }, by rw [resize, hloop, hmv, Option.map_some], ?_, rfl, rfl,
    ?_, hm.back⟩
  · refine ⟨hn, fun i _ => hm.chain i, ?_, ?_, ?_⟩
    · intro i _ p hp
      obtain ⟨⟨j, hj, hpj⟩, hh⟩ := (hmem i p).mp hp
      obtain ⟨k, a, he, -⟩ := hi.home j hj p hpj
      simp only [hashesTo, he, beq_iff_eq] at hh
      exact ⟨k, a, by rw [hm.entry]; exact he, hh⟩
    · intro i _ p hp q hq hk
      obtain ⟨⟨j, hj, hpj⟩, -⟩ := (hmem i p).mp hp
      obtain ⟨⟨j', hj', hqj⟩, -⟩ := (hmem i q).mp hq
      rw [hm.entry] at hk
      exact hi.uniq_all hj hj' hpj hqj hk
    · intro p hp
      rw [← entry_eq_none_iff, hm.entry, entry_eq_none_iff]
      exact hi.fresh p hp
  · intro k a
    constructor
    · rintro ⟨i, _, p, hp, he⟩
      obtain ⟨⟨j, hj, hpj⟩, -⟩ := (hmem i p).mp hp
      exact ⟨j, hj, p, hpj, by rw [← hm.entry]; exact he⟩
    · rintro ⟨j, hj, p, hpj, he⟩
      refine ⟨fnv1aStringHash k % n, Nat.mod_lt _ hn, p, (hmem _ p).mpr ⟨⟨j, hj, hpj⟩, ?_⟩, by rw [hm.entry]; exact he⟩
      simp [hashesTo, he]

end CftpServer.HashMap
