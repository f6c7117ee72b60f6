import CftpServer.HashMap.Resize

/-!
# What one call does

- `insertEntry_cases`: an insertion overwrites the address of a stored key (`Overwritten`), or it puts a new element
  first in its bucket (`Added`) and then may reallocate;
- `deleteEntry_cases`: a deletion leaves the table as it is, or it unlinks the element of its key (`Removed`);
- what each of these does to the invariant and to the bindings (`Inv.overwrite`, `Inv.overwrite_stores` and so on).
-/

namespace CftpServer.HashMap

open CLib Linked

variable {α : Type} {t t' : HashTable α} {b : Nat → List Ptr} {p : Ptr} {k : Bytes} {a : Option α}

/-! ## Insertion -/

/-- `t'` is `t` with another address in the cell `p` of the key `k`. -/
structure Overwritten (t : HashTable α) (k : Bytes) (a : Option α) (p : Ptr) (t' : HashTable α) : Prop where
  length : t'.length = t.length
  table : t'.table = t.table
  elemCount : t'.elemCount = t.elemCount
  brk : t'.brk = t.brk
  links : t'.heap.links = t.heap.links
  prevs : t'.heap.prevs = t.heap.prevs
  entry : t'.heap.entry = Function.update t.heap.entry p (some (k, a))

/-- `t'` is `t` with a new element for the key `k`, the first one of its bucket. -/
structure Added (t : HashTable α) (k : Bytes) (a : Option α) (t' : HashTable α) : Prop where
  length : t'.length = t.length
  table : t'.table = Function.update t.table (t.home k) (some t.brk)
  elemCount : t'.elemCount = int32 (t.elemCount + 1)
  brk : t'.brk = t.brk + 1
  links : t'.heap.links = Function.update t.heap.links t.brk (some (t.table (t.home k)))
  prevs : ∀ x, t'.heap.prevs x =
    if t.table (t.home k) = some x then some (some t.brk) else if x = t.brk then some none else t.heap.prevs x
  entry : t'.heap.entry = Function.update t.heap.entry t.brk (some (k, a))

/-- The new element heads its bucket, with or without a collision. -/
theorem linkFirst_spec (hi : Inv t b) (k : Bytes) (a : Option α) :
    ∃ t' r, linkFirst (createHashTableElem t k a) (t.home k) t.brk = some (t', r) ∧
      Added t k a { t' with elemCount := int32 (t'.elemCount + 1) } ∧
      (r = HASH_ENTRY_SUCCESS ∨ r = HASH_ENTRY_SUCCESS ||| HASH_ENTRY_COLLISION) := by
  have hnew : (createHashTableElem t k a).heap t.brk = some ⟨none, none, k, a⟩ := by simp [createHashTableElem]
  have hlinks : (createHashTableElem t k a).heap.links = Function.update t.heap.links t.brk (some none) := by
    simp only [createHashTableElem, links_update, Option.map_some]
  have hprevs : (createHashTableElem t k a).heap.prevs = Function.update t.heap.prevs t.brk (some none) := by
    simp only [createHashTableElem, prevs_update, Option.map_some]
  have hentry : (createHashTableElem t k a).heap.entry = Function.update t.heap.entry t.brk (some (k, a)) := by
    simp only [createHashTableElem, entry_update, Option.map_some]
  cases hf : t.table (t.home k) with
  | none =>
    have hf' : (createHashTableElem t k a).table (t.home k) = none := hf
    refine ⟨{ createHashTableElem t k a with table := Function.update t.table (t.home k) (some t.brk) },
      HASH_ENTRY_SUCCESS, ?_, ⟨rfl, rfl, rfl, rfl, ?_, fun x => ?_, hentry⟩, .inl rfl⟩
    · simp only [linkFirst, hf']
      rfl
    · rw [hf]
      exact hlinks
    · rw [hf, if_neg (Option.some_ne_none x).symm]
      exact (congrFun hprevs x).trans (Function.update_apply ..)
  | some first =>
    have hf' : (createHashTableElem t k a).table (t.home k) = some first := hf
    obtain ⟨h₁, hs₁, hl₁, he₁⟩ := setNext_spec hnew (some first)
    have hfirst : ∃ e, h₁ first = some e := by
      have hmem : first ∈ b (t.home k) := by
        have hhead := (hi.chain _ (hi.home_lt k)).head?_eq
        exact List.mem_of_mem_head? (hhead.trans hf)
      obtain ⟨k', a', he, -⟩ := hi.home _ (hi.home_lt k) first hmem
      have hne : first ≠ t.brk := Nat.ne_of_lt (hi.lt_brk (hi.home_lt k) hmem)
      have he' : h₁.entry first = some (k', a') := by rw [he₁, hentry, Function.update_of_ne hne, he]
      obtain ⟨e, he, -⟩ := of_entry he'
      exact ⟨e, he⟩
    obtain ⟨e, he⟩ := hfirst
    obtain ⟨h₂, hs₂, hl₂, he₂⟩ := setPrev_spec he (some t.brk)
    refine ⟨{ createHashTableElem t k a with
        heap := h₂, table := Function.update t.table (t.home k) (some t.brk) },
      HASH_ENTRY_SUCCESS ||| HASH_ENTRY_COLLISION, ?_, ⟨rfl, rfl, rfl, rfl, ?_, fun x => ?_, ?_⟩, .inr rfl⟩
    · simp only [linkFirst, hf', hs₁, Option.bind_some, hs₂, Option.map_some]
      rfl
    · simp only [hl₂, hl₁, hlinks, Function.update_idem, hf]
    · rw [hf]
      change h₂.prevs x = _
      simp only [setPrev_prevs hs₂, setNext_prevs hs₁, hprevs, Function.update_apply, Option.some.injEq, eq_comm]
    · simp only [he₂, he₁, hentry]

/-- **What an insertion does.** -/
theorem insertEntry_cases (hi : Inv t b) (k : Bytes) (a : Option α) :
    (∃ p ∈ b (t.home k), ∃ a₀ t', t.heap.entry p = some (k, a₀) ∧ Overwritten t k a p t' ∧
      insertEntry t k a = some (t', HASH_ENTRY_SUCCESS ||| HASH_ENTRY_UPDATED)) ∨
    (∀ p ∈ b (t.home k), (t.heap.entry p).map Prod.fst ≠ some k) ∧ ∃ t₁ r, Added t k a t₁ ∧
      (r = HASH_ENTRY_SUCCESS ∨ r = HASH_ENTRY_SUCCESS ||| HASH_ENTRY_COLLISION) ∧
      insertEntry t k a = if checkGrow t₁ = 0 then some (t₁, r)
        else (resize t₁ (checkGrow t₁)).map fun t => (t, r ||| HASH_TABLE_RESIZED) := by
  rcases getPtrToElemByKey_spec hi k with ⟨p, a₀, hg, hp, he⟩ | ⟨hg, hno⟩
  · obtain ⟨h', hs, hl, he'⟩ := setAddress_spec he a
    refine .inl ⟨p, hp, a₀, { t with heap := h' }, he, ⟨rfl, rfl, rfl, rfl, hl, setAddress_prevs hs, he'⟩, ?_⟩
    simp only [insertEntry, hg, Option.bind_some, hs, Option.map_some]
  · obtain ⟨t₁, r, hlink, hadd, hr⟩ := linkFirst_spec hi k a
    have hlink' : linkFirst (createHashTableElem t k a) (fnv1aStringHash k % t.length) t.brk = some (t₁, r) := hlink
    refine .inr ⟨hno, _, r, hadd, hr, ?_⟩
    simp only [insertEntry, hg, Option.bind_some, hlink']

theorem Overwritten.home (ho : Overwritten t k a p t') (k' : Bytes) : t'.home k' = t.home k' := by
  rw [HashTable.home, ho.length]
  rfl

/-- A table with another address keeps the invariant. -/
theorem Inv.overwrite (hi : Inv t b) {a₀ : Option α} (hp : p ∈ b (t.home k)) (he : t.heap.entry p = some (k, a₀))
    (ho : Overwritten t k a p t') : Inv t' b := by
  have hkey : ∀ q, (t'.heap.entry q).map Prod.fst = (t.heap.entry q).map Prod.fst := by
    intro q
    by_cases hq : q = p
    · subst hq; simp [ho.entry, he]
    · simp [ho.entry, hq]
  refine ⟨by rw [ho.length]; exact hi.pos, fun i hlt => ?_, fun i hlt q hq => ?_, fun i hlt q hq q' hq' hk => ?_,
    fun q hq => ?_⟩
  · rw [ho.length] at hlt
    rw [ho.links, ho.table]
    exact hi.chain i hlt
  · rw [ho.length] at hlt
    obtain ⟨k', a', hqe, hk'⟩ := hi.home i hlt q hq
    by_cases hqp : q = p
    · subst hqp
      rw [he, Option.some.injEq, Prod.mk.injEq] at hqe
      obtain ⟨rfl, rfl⟩ := hqe
      exact ⟨k, a, by rw [ho.entry, Function.update_self], (ho.home k).trans hk'⟩
    · exact ⟨k', a', by rw [ho.entry, Function.update_of_ne hqp, hqe], (ho.home k').trans hk'⟩
  · rw [ho.length] at hlt
    rw [hkey, hkey] at hk
    exact hi.uniq i hlt q hq q' hq' hk
  · rw [ho.brk] at hq
    have hn := hkey q
    rw [entry_eq_none_iff.mpr (hi.fresh q hq), Option.map_none, Option.map_eq_none_iff] at hn
    exact entry_eq_none_iff.mp hn

/-- The key has the new address, the others keep theirs. -/
theorem Inv.overwrite_stores (hi : Inv t b) {a₀ : Option α} (hp : p ∈ b (t.home k))
    (he : t.heap.entry p = some (k, a₀)) (ho : Overwritten t k a p t') (k' : Bytes) (a' : Option α) :
    Stores t' b k' a' ↔ (k' = k ∧ a' = a) ∨ (k' ≠ k ∧ Stores t b k' a') := by
  constructor
  · rintro ⟨i, hlt, q, hq, hqe⟩
    rw [ho.length] at hlt
    by_cases hqp : q = p
    · subst hqp
      rw [ho.entry, Function.update_self, Option.some.injEq, Prod.mk.injEq] at hqe
      exact .inl ⟨hqe.1.symm, hqe.2.symm⟩
    · rw [ho.entry, Function.update_of_ne hqp] at hqe
      refine .inr ⟨?_, i, hlt, q, hq, hqe⟩
      rintro rfl
      exact hqp (hi.uniq_all hlt (hi.home_lt k') hq hp (by rw [hqe, he]; rfl))
  · rintro (⟨rfl, rfl⟩ | ⟨hne, i, hlt, q, hq, hqe⟩)
    · exact ⟨_, by rw [ho.length]; exact hi.home_lt k', p, hp, by rw [ho.entry, Function.update_self]⟩
    · refine ⟨i, by rw [ho.length]; exact hlt, q, hq, ?_⟩
      have hqp : q ≠ p := by rintro rfl; rw [he] at hqe; simp at hqe; exact hne hqe.1.symm
      rw [ho.entry, Function.update_of_ne hqp, hqe]

theorem Added.home (hadd : Added t k a t') (k' : Bytes) : t'.home k' = t.home k' := by
  rw [HashTable.home, hadd.length]
  rfl

theorem Added.entry_new (hadd : Added t k a t') : t'.heap.entry t.brk = some (k, a) := by
  rw [hadd.entry, Function.update_self]

/-- The elements there were keep their keys and addresses. -/
theorem Added.entry_old (hadd : Added t k a t') (hi : Inv t b) {i : Nat} (hlt : i < t.length) (hp : p ∈ b i) :
    t'.heap.entry p = t.heap.entry p := by
  rw [hadd.entry, Function.update_of_ne (Nat.ne_of_lt (hi.lt_brk hlt hp))]

/-- The cells of a bucket when `q` is put first in the bucket `j`. -/
theorem mem_update_cons {j i : Nat} {q : Ptr} : p ∈ Function.update b j (q :: b j) i ↔ (i = j ∧ p = q) ∨ p ∈ b i := by
  by_cases hij : i = j
  · subst hij; simp
  · simp [hij]

/-- A table with one more element at the head of a bucket keeps the invariant. -/
theorem Inv.link (hi : Inv t b) (hno : ∀ p ∈ b (t.home k), (t.heap.entry p).map Prod.fst ≠ some k)
    (hadd : Added t k a t') : Inv t' (Function.update b (t.home k) (t.brk :: b (t.home k))) := by
  refine ⟨by rw [hadd.length]; exact hi.pos, fun i hlt => ?_, fun i hlt p hp => ?_, fun i hlt p hp q hq hk => ?_,
    fun p hp => ?_⟩
  · rw [hadd.length] at hlt
    have hchain : Chain t'.heap.links (t.table i) (b i) := by
      refine (hi.chain i hlt).congr fun p hp => ?_
      rw [hadd.links, Function.update_of_ne (Nat.ne_of_lt (hi.lt_brk hlt hp))]
    by_cases hik : i = t.home k
    · subst hik
      rw [hadd.table, Function.update_self, Function.update_self]
      exact .cons (by rw [hadd.links, Function.update_self]) hchain
    · rw [hadd.table, Function.update_of_ne hik, Function.update_of_ne hik]
      exact hchain
  · rw [hadd.length] at hlt
    rcases mem_update_cons.mp hp with ⟨rfl, rfl⟩ | hp
    · exact ⟨k, a, hadd.entry_new, hadd.home k⟩
    · obtain ⟨k', a', he, hk'⟩ := hi.home i hlt p hp
      exact ⟨k', a', by rw [hadd.entry_old hi hlt hp, he], by rw [hadd.home, hk']⟩
  · rw [hadd.length] at hlt
    rcases mem_update_cons.mp hp with ⟨rfl, rfl⟩ | hp <;> rcases mem_update_cons.mp hq with ⟨hiq, rfl⟩ | hq
    · rfl
    · rw [hadd.entry_new, hadd.entry_old hi hlt hq] at hk
      exact absurd hk.symm (hno q hq)
    · subst hiq
      rw [hadd.entry_new, hadd.entry_old hi hlt hp] at hk
      exact absurd hk (hno p hp)
    · rw [hadd.entry_old hi hlt hp, hadd.entry_old hi hlt hq] at hk
      exact hi.uniq i hlt p hp q hq hk
  · rw [hadd.brk] at hp
    rw [← entry_eq_none_iff, hadd.entry, Function.update_of_ne (Nat.ne_of_gt hp), entry_eq_none_iff]
    exact hi.fresh p (Nat.le_of_lt hp)

/-- There is one binding more. -/
theorem Inv.link_stores (hi : Inv t b) (hadd : Added t k a t') (k' : Bytes) (a' : Option α) :
    Stores t' (Function.update b (t.home k) (t.brk :: b (t.home k))) k' a' ↔
      (k' = k ∧ a' = a) ∨ Stores t b k' a' := by
  constructor
  · rintro ⟨i, hlt, p, hp, he⟩
    rw [hadd.length] at hlt
    rcases mem_update_cons.mp hp with ⟨rfl, rfl⟩ | hp
    · rw [hadd.entry_new, Option.some.injEq, Prod.mk.injEq] at he
      exact .inl ⟨he.1.symm, he.2.symm⟩
    · exact .inr ⟨i, hlt, p, hp, by rw [← hadd.entry_old hi hlt hp]; exact he⟩
  · rintro (⟨rfl, rfl⟩ | ⟨i, hlt, p, hp, he⟩)
    · exact ⟨t.home k', by rw [hadd.length]; exact hi.home_lt k', t.brk, mem_update_cons.mpr (.inl ⟨rfl, rfl⟩),
        hadd.entry_new⟩
    · exact ⟨i, by rw [hadd.length]; exact hlt, p, mem_update_cons.mpr (.inr hp),
        by rw [hadd.entry_old hi hlt hp]; exact he⟩

/-! ## Deletion -/

/-- In `h'` the cell `p` between `cs` and `ds` is freed, and the one behind it has the back link of `p`. -/
structure Unlinked (h h' : Heap α) (cs : List Ptr) (p : Ptr) (ds : List Ptr) : Prop where
  links : ∀ x, x ∉ cs ++ p :: ds → h'.links x = h.links x
  entry : h'.entry = Function.update h.entry p none
  next : ∀ x ∈ ds.head?, h'.prevs x = some cs.getLast?
  prevs : ∀ x, x ≠ p → x ∉ ds.head? → h'.prevs x = h.prevs x

/-- `t'` is `t` without the element `p` of the key `k`, which is between `cs` and `ds` in its bucket. -/
structure Removed (t : HashTable α) (k : Bytes) (cs : List Ptr) (p : Ptr) (ds : List Ptr) (t' : HashTable α) :
    Prop where
  length : t'.length = t.length
  elemCount : t'.elemCount = t.elemCount
  brk : t'.brk = t.brk
  table : ∀ i, i ≠ t.home k → t'.table i = t.table i
  chain : Chain t'.heap.links (t'.table (t.home k)) (cs ++ ds)
  heap : Unlinked t.heap t'.heap cs p ds

/-- The successor of a freed cell is another cell of the heap. -/
theorem next_allocated {h : Heap α} {p : Ptr} {n : Option Ptr} {ps : List Ptr} (hc : Chain h.links n ps) (hp : p ∉ ps) :
    ∀ x, n = some x → (h.free p).entry x ≠ none := by
  rintro x rfl
  cases hc with
  | @cons _ r _ hl _ =>
    have hxp : x ≠ p := by rintro rfl; simp at hp
    intro hn
    rw [Heap.free, entry_update, Function.update_of_ne hxp, entry_eq_none_iff] at hn
    rw [Heap.links, hn] at hl
    cases hl

/-- The back links after a cell was freed and the cell `x` behind it, if any, was given the back link `q`. -/
theorem free_setPrevOf_prevs {h h' : Heap α} {p : Ptr} {r q : Option Ptr} {ds : List Ptr} (hr : ds.head? = r)
    (hs : (h.free p).setPrevOf r q = some h') :
    (∀ x ∈ ds.head?, h'.prevs x = some q) ∧ ∀ x, x ≠ p → x ∉ ds.head? → h'.prevs x = h.prevs x := by
  constructor
  · intro x hx
    rw [setPrevOf_prevs hs, if_pos (hr.symm.trans hx)]
  · intro x hxp hx
    rw [setPrevOf_prevs hs, if_neg (fun h => hx (hr.trans h)), Heap.free, prevs_update, Function.update_of_ne hxp]

/-- A cell behind the cell `q` of a chain is unlinked and freed. -/
theorem unlinkAfter_spec {h : Heap α} {r₀ : Option Ptr} {as ps : List Ptr} {q p : Ptr} {e : HashTableElem α}
    (hall : Chain h.links r₀ (as ++ q :: p :: ps)) (he : h p = some e) (ht : Chain h.links e.next ps) :
    ∃ h₁ h₂, (h.free p).setNext q e.next = some h₁ ∧ h₁.setPrevOf e.next (some q) = some h₂ ∧
      Chain h₂.links r₀ (as ++ q :: ps) ∧ Unlinked h h₂ (as ++ [q]) p ps := by
  have hnd := hall.nodup
  have hqps : q ∉ p :: ps := (List.nodup_cons.mp (List.nodup_append.mp hnd).2.1).1
  have hpps : p ∉ ps := (List.nodup_cons.mp (List.nodup_cons.mp (List.nodup_append.mp hnd).2.1).2).1
  have hqp : q ≠ p := fun h => hqps (by simp [h])
  have hpl : h.links p = some e.next := by rw [Heap.links, he]; rfl
  obtain ⟨eq, hq⟩ : ∃ eq, h.free p q = some eq := by
    have hqm : q ∈ as ++ q :: p :: ps := by simp
    obtain ⟨s, hs⟩ := hall.mem_links hqm
    simp only [Heap.links, Option.map_eq_some_iff] at hs
    obtain ⟨eq, hq, -⟩ := hs
    exact ⟨eq, by rw [Heap.free, Function.update_of_ne hqp, hq]⟩
  obtain ⟨h₁, hs₁, hl₁, he₁⟩ := setNext_spec hq e.next
  obtain ⟨h₂, hs₂, hl₂, he₂⟩ := setPrevOf_spec (h := h₁) (r := e.next)
    (fun x hx => by rw [he₁]; exact next_allocated ht hpps x hx) (some q)
  have hlinks : ∀ x, x ≠ q → x ≠ p → h₂.links x = h.links x := by
    intro x hxq hxp
    rw [hl₂, hl₁, Function.update_of_ne hxq, Heap.free, links_update, Function.update_of_ne hxp]
  have hprevs : ∀ x, h₂.prevs x = if e.next = some x then some (some q) else (h.free p).prevs x := by
    intro x
    rw [setPrevOf_prevs hs₂, setNext_prevs hs₁]
  refine ⟨h₁, h₂, hs₁, hs₂, ?_, ?_, ?_, fun x hx => ?_, fun x hxp hx => ?_⟩
  · exact hall.unlink hpl (by rw [hl₂, hl₁, Function.update_self]) hlinks
  · intro x hx
    simp only [List.mem_append, List.mem_cons, not_or] at hx
    exact hlinks x hx.1.2.1 hx.2.1
  · rw [he₂, he₁, Heap.free, entry_update]
    rfl
  · rw [hprevs, if_pos (ht.head?_eq.symm.trans hx), List.getLast?_concat]
  · rw [hprevs, if_neg fun h => hx (ht.head?_eq.trans h), Heap.free, prevs_update, Function.update_of_ne hxp]

/-- The walk of `delete_entry` behind the cell `q` of a chain: the key is in none of the cells that follow, or the
cell that has it is unlinked. -/
theorem deleteAfter_spec {h : Heap α} {k : Bytes} {r₀ : Option Ptr} : ∀ (fuel : Nat) {as ps : List Ptr} {q : Ptr}
    {r : Option Ptr}, Chain h.links r₀ (as ++ q :: ps) → Chain h.links r ps → ps.length ≤ fuel →
    ((∀ p ∈ ps, (h.entry p).map Prod.fst ≠ some k) ∧ deleteAfter h k fuel q r = some (h, false)) ∨
    ∃ cs p ds a h', as ++ q :: ps = cs ++ p :: ds ∧ h.entry p = some (k, a) ∧
      deleteAfter h k fuel q r = some (h', true) ∧ Chain h'.links r₀ (cs ++ ds) ∧ Unlinked h h' cs p ds := by
  intro fuel as ps
  induction ps generalizing fuel as with
  | nil =>
    intro q r _ hc _
    cases hc
    left
    constructor
    · intro p hp; cases hp
    · cases fuel <;> rfl
  | cons p ps ih =>
    intro q r hall hc hf
    obtain ⟨fuel, rfl⟩ : ∃ n, fuel = n + 1 := ⟨fuel - 1, by simp only [List.length_cons] at hf; omega⟩
    cases hc with
    | @cons _ n _ hp ht =>
      simp only [Heap.links, Option.map_eq_some_iff] at hp
      obtain ⟨e, he, rfl⟩ := hp
      by_cases hk : e.key = k
      · obtain ⟨h₁, h₂, hs₁, hs₂, hch, hun⟩ := unlinkAfter_spec hall he ht
        refine .inr ⟨as ++ [q], p, ps, e.address, h₂, by simp, by rw [entry_of he, hk], ?_, by simpa using hch, hun⟩
        simp only [deleteAfter, he, Option.bind_some, hk, if_true, hs₁, hs₂, Option.map_some]
      · have hall' : Chain h.links r₀ ((as ++ [q]) ++ p :: ps) := by simpa using hall
        have hstep : deleteAfter h k (fuel + 1) q (some p) = deleteAfter h k fuel p e.next := by
          simp only [deleteAfter, he, Option.bind_some, if_neg hk]
        rw [hstep]
        rcases ih fuel hall' ht (by simpa using hf) with ⟨hno, hd⟩ | ⟨cs, x, ds, a, h', hsplit, hfound⟩
        · refine .inl ⟨fun y hy => ?_, hd⟩
          rcases List.mem_cons.mp hy with rfl | hy
          · rw [entry_of he]; simpa using hk
          · exact hno y hy
        · exact .inr ⟨cs, x, ds, a, h', by simpa using hsplit, hfound⟩

/-- The first cell of the bucket has the key. -/
theorem deleteFirst_spec {first : Ptr} {rest : List Ptr} {e : HashTableElem α}
    (ht : Chain t.heap.links e.next rest) (hfr : first ∉ rest) :
    ∃ h', (t.heap.free first).setPrevOf e.next none = some h' ∧
      Removed t k [] first rest { t with heap := h', table := Function.update t.table (t.home k) e.next } := by
  obtain ⟨h', hs, hl', he'⟩ := setPrevOf_spec (h := t.heap.free first) (r := e.next) (next_allocated ht hfr) none
  have hlinks : ∀ x, x ≠ first → h'.links x = t.heap.links x := by
    intro x hx
    rw [hl', Heap.free, links_update, Function.update_of_ne hx]
  obtain ⟨hnext, hprevs⟩ := free_setPrevOf_prevs ht.head?_eq hs
  refine ⟨h', hs, rfl, rfl, rfl, fun i hik => Function.update_of_ne hik _ _, ?_, fun x hx => ?_, ?_, hnext, hprevs⟩
  · simp only [Function.update_self, List.nil_append]
    exact ht.congr fun x hx => hlinks x fun hxf => hfr (hxf ▸ hx)
  · exact hlinks x fun hxf => hx (by simp [hxf])
  · rw [he', Heap.free, entry_update]
    rfl

/-- **What a deletion does.** -/
theorem deleteEntry_cases (hi : Inv t b) (k : Bytes) :
    ((∀ p ∈ b (t.home k), (t.heap.entry p).map Prod.fst ≠ some k) ∧ deleteEntry t k = some (t, HASH_ENTRY_FAILED)) ∨
    ∃ cs p ds a t' r, b (t.home k) = cs ++ p :: ds ∧ t.heap.entry p = some (k, a) ∧ Removed t k cs p ds t' ∧
      (r = HASH_ENTRY_SUCCESS ∨ r = HASH_ENTRY_SUCCESS ||| HASH_ENTRY_COLLISION) ∧
      deleteEntry t k = some (t', r) := by
  have hc := hi.chain _ (hi.home_lt k)
  have hle := hi.length_le (hi.home_lt k)
  have htable : t.table (fnv1aStringHash k % t.length) = t.table (t.home k) := rfl
  generalize hb : b (t.home k) = ps at hc hle ⊢
  cases hf : t.table (t.home k) with
  | none =>
    rw [hf] at hc
    cases hc
    refine .inl ⟨fun p hp => ?_, by simp only [deleteEntry, htable, hf]⟩
    cases hp
  | some first =>
    have hc' := hc
    rw [hf] at hc'
    have hnd := hc.nodup
    cases hc' with
    | @cons _ n rest hl ht =>
      simp only [Heap.links, Option.map_eq_some_iff] at hl
      obtain ⟨e, he, rfl⟩ := hl
      by_cases hk : e.key = k
      · obtain ⟨h', hs, hrem⟩ := deleteFirst_spec (k := k) ht (List.nodup_cons.mp hnd).1
        refine .inr ⟨[], first, rest, e.address, _, _, rfl, by rw [entry_of he, hk], hrem, .inl rfl, ?_⟩
        simp only [deleteEntry, htable, hf, he, Option.bind_some, hk, if_true, hs, Option.map_some]
        rfl
      · have hdel : deleteEntry t k = (deleteAfter t.heap k (t.brk + 1) first e.next).map fun x =>
            ({ t with heap := x.1 },
              if x.2 then HASH_ENTRY_SUCCESS ||| HASH_ENTRY_COLLISION else HASH_ENTRY_FAILED) := by
          simp only [deleteEntry, htable, hf, he, Option.bind_some, if_neg hk]
        have hlen : rest.length ≤ t.brk + 1 := by
          rw [List.length_cons] at hle
          omega
        have hall : Chain t.heap.links (t.table (t.home k)) ([] ++ first :: rest) := hc
        rcases deleteAfter_spec (k := k) (t.brk + 1) hall ht hlen with ⟨hno, hd⟩ |
          ⟨cs, p, ds, a, h', hsplit, hpe, hd, hch, hun⟩
        · refine .inl ⟨fun p hp => ?_, by rw [hdel, hd]; rfl⟩
          rcases List.mem_cons.mp hp with rfl | hp
          · rw [entry_of he]; simpa using hk
          · exact hno p hp
        · refine .inr ⟨cs, p, ds, a, { t with heap := h' }, _, hsplit, hpe, ?_, .inr rfl, by rw [hdel, hd]; rfl⟩
          exact ⟨rfl, rfl, rfl, fun _ _ => rfl, hch, hun⟩

section Unlinking

variable {cs ds : List Ptr}

theorem Removed.home (hrem : Removed t k cs p ds t') (k' : Bytes) : t'.home k' = t.home k' := by
  rw [HashTable.home, hrem.length]
  rfl

theorem Removed.entry_other (hrem : Removed t k cs p ds t') {q : Ptr} (hq : q ≠ p) :
    t'.heap.entry q = t.heap.entry q := by
  rw [hrem.heap.entry, Function.update_of_ne hq]

/-- The cells of a bucket when `p` is taken out of its own. -/
theorem Inv.mem_update_append (hi : Inv t b) (hb : b (t.home k) = cs ++ p :: ds) {i : Nat} (hlt : i < t.length)
    {q : Ptr} : q ∈ Function.update b (t.home k) (cs ++ ds) i ↔ q ≠ p ∧ q ∈ b i := by
  have hp : p ∈ b (t.home k) := by simp [hb]
  by_cases hik : i = t.home k
  · subst hik
    have hnd := (hi.chain _ hlt).nodup
    rw [hb, List.nodup_middle, List.nodup_cons] at hnd
    rw [Function.update_self, hb]
    constructor
    · intro hq
      refine ⟨fun hqp => hnd.1 (hqp ▸ hq), ?_⟩
      simp only [List.mem_append, List.mem_cons] at hq ⊢
      exact hq.imp_right .inr
    · rintro ⟨hqp, hq⟩
      simpa [hqp] using hq
  · rw [Function.update_of_ne hik]
    refine ⟨fun hq => ⟨?_, hq⟩, fun hq => hq.2⟩
    rintro rfl
    exact hik (hi.same_bucket hlt (hi.home_lt k) hq hp)

/-- A table that lost one cell of a chain keeps the invariant. -/
theorem Inv.unlink (hi : Inv t b) (hb : b (t.home k) = cs ++ p :: ds) (hrem : Removed t k cs p ds t') :
    Inv t' (Function.update b (t.home k) (cs ++ ds)) := by
  have hp : p ∈ b (t.home k) := by simp [hb]
  refine ⟨by rw [hrem.length]; exact hi.pos, fun i hlt => ?_, fun i hlt q hq => ?_, fun i hlt q hq q' hq' hk => ?_,
    fun q hq => ?_⟩
  · rw [hrem.length] at hlt
    by_cases hik : i = t.home k
    · subst hik
      rw [Function.update_self]
      exact hrem.chain
    · rw [Function.update_of_ne hik, hrem.table i hik]
      refine (hi.chain i hlt).congr fun x hx => hrem.heap.links x fun hxk => hik ?_
      exact hi.same_bucket hlt (hi.home_lt k) hx (hb ▸ hxk)
  · rw [hrem.length] at hlt
    obtain ⟨hqp, hq⟩ := (hi.mem_update_append hb hlt).mp hq
    obtain ⟨k', a', he', hk'⟩ := hi.home i hlt q hq
    exact ⟨k', a', by rw [hrem.entry_other hqp, he'], by rw [hrem.home, hk']⟩
  · rw [hrem.length] at hlt
    obtain ⟨hqp, hq⟩ := (hi.mem_update_append hb hlt).mp hq
    obtain ⟨hqp', hq'⟩ := (hi.mem_update_append hb hlt).mp hq'
    rw [hrem.entry_other hqp, hrem.entry_other hqp'] at hk
    exact hi.uniq i hlt q hq q' hq' hk
  · rw [hrem.brk] at hq
    have hqp : q ≠ p := Nat.ne_of_gt (Nat.lt_of_lt_of_le (hi.lt_brk (hi.home_lt k) hp) hq)
    rw [← entry_eq_none_iff, hrem.entry_other hqp, entry_eq_none_iff]
    exact hi.fresh q hq

/-- The key is not bound any more, the others are as before. -/
theorem Inv.unlink_stores (hi : Inv t b) (hb : b (t.home k) = cs ++ p :: ds) (he : t.heap.entry p = some (k, a))
    (hrem : Removed t k cs p ds t') (k' : Bytes) (a' : Option α) :
    Stores t' (Function.update b (t.home k) (cs ++ ds)) k' a' ↔ k' ≠ k ∧ Stores t b k' a' := by
  have hp : p ∈ b (t.home k) := by simp [hb]
  constructor
  · rintro ⟨i, hlt, q, hq, hqe⟩
    rw [hrem.length] at hlt
    obtain ⟨hqp, hqb⟩ := (hi.mem_update_append hb hlt).mp hq
    rw [hrem.entry_other hqp] at hqe
    refine ⟨?_, i, hlt, q, hqb, hqe⟩
    rintro rfl
    exact hqp (hi.uniq_all hlt (hi.home_lt k') hqb hp (by rw [hqe, he]; rfl))
  · rintro ⟨hne, i, hlt, q, hq, hqe⟩
    have hqp : q ≠ p := by rintro rfl; rw [he] at hqe; simp at hqe; exact hne hqe.1.symm
    exact ⟨i, by rw [hrem.length]; exact hlt, q, (hi.mem_update_append hb hlt).mpr ⟨hqp, hq⟩,
      by rw [hrem.entry_other hqp]; exact hqe⟩

end Unlinking

end CftpServer.HashMap
