import CftpServer.HashMap.Sizes

/-!
# The back links

Insertions and deletions keep the chains doubly linked (`Inv.link_backed`, `Inv.unlink_backed`). A reallocation does not
write the `prev` of the element that it puts first in a bucket, so it keeps them doubly linked only if no two elements
shared a bucket (`rehashed_backed_iff`).
-/

namespace CftpServer.HashMap

open CLib Linked Runs

variable {α : Type} {t t' : HashTable α} {b : Nat → List Ptr} {k : Bytes} {a : Option α}

/-- The chains are doubly linked lists: the first element has no `prev`, the `prev` of an element's successor is the
element, and so a `prev` refers to an element of the same chain. -/
structure DoublyLinked (t : HashTable α) : Prop where
  first : ∀ i, i < t.length → ∀ p, t.table i = some p → t.heap.prevs p = some none
  next : ∀ i, i < t.length → ∀ p ∈ t.cells i, ∀ n, t.heap.links p = some (some n) → t.heap.prevs n = some (some p)
  within : ∀ i, i < t.length → ∀ p ∈ t.cells i, ∀ q, t.heap.prevs p = some (some q) → q ∈ t.cells i

/-- All chains are backed. -/
def AllBacked (t : HashTable α) (b : Nat → List Ptr) : Prop := ∀ i, i < t.length → Backed t.heap.prevs none (b i)

theorem Inv.doublyLinked_iff (hi : Inv t b) : DoublyLinked t ↔ AllBacked t b := by
  constructor
  · intro h i hlt
    refine (hi.chain i hlt).backed_iff.mpr ⟨h.first i hlt, fun p hp => ?_⟩
    rw [← hi.cells_eq hlt] at hp
    exact h.next i hlt p hp
  · refine fun h => ⟨fun i hlt => ?_, fun i hlt p hp => ?_, fun i hlt p hp q hq => ?_⟩
    · exact ((hi.chain i hlt).backed_iff.mp (h i hlt)).1
    · rw [hi.cells_eq hlt] at hp
      exact ((hi.chain i hlt).backed_iff.mp (h i hlt)).2 p hp
    · rw [hi.cells_eq hlt] at hp ⊢
      exact ((h i hlt).mem hp hq).resolve_left fun hnone => by cases hnone

theorem not_mem_tail_of_head {ν : Type} {l : List ν} {x y : ν} (hnd : l.Nodup) (hx : l.head? = some x)
    (hy : y ∈ l.tail) : x ≠ y := by
  cases l with
  | nil => cases hx
  | cons z zs =>
    obtain rfl : z = x := by simpa using hx
    exact fun h => (List.nodup_cons.mp hnd).1 (h ▸ hy)

/-- A new first element. -/
theorem Inv.link_backed (hi : Inv t b) (h : AllBacked t b) (hadd : Added t k a t') :
    AllBacked t' (Function.update b (t.home k) (t.brk :: b (t.home k))) := by
  intro i hlt
  rw [hadd.length] at hlt
  have hhome := hi.home_lt k
  have hhead := (hi.chain _ hhome).head?_eq
  have hfirst : ∀ {x}, t.table (t.home k) = some x → x ∈ b (t.home k) :=
    fun hx => List.mem_of_mem_head? (hhead.trans hx)
  by_cases hik : i = t.home k
  · subst hik
    rw [Function.update_self]
    refine (h _ hhome).prepend ?_ (fun x hx => ?_) (fun x hx => ?_)
    · rw [hadd.prevs, if_neg fun hx => Nat.lt_irrefl _ (hi.lt_brk hhome (hfirst hx)), if_pos rfl]
    · rw [hadd.prevs, if_pos (hhead.symm.trans hx)]
    · have hne := Nat.ne_of_lt (hi.lt_brk hhome (List.mem_of_mem_tail hx))
      have hnd := (hi.chain _ hhome).nodup
      rw [hadd.prevs, if_neg fun hx' => not_mem_tail_of_head hnd (hhead.trans hx') hx rfl, if_neg hne]
  · rw [Function.update_of_ne hik]
    refine (h i hlt).congr fun x hx => ?_
    rw [hadd.prevs, if_neg fun hx' => hik (hi.same_bucket hlt hhome hx (hfirst hx')),
      if_neg (Nat.ne_of_lt (hi.lt_brk hlt hx))]

/-- An element less. -/
theorem Inv.unlink_backed (hi : Inv t b) (h : AllBacked t b) {cs ds : List Ptr} {p : Ptr}
    (hb : b (t.home k) = cs ++ p :: ds) (hrem : Removed t k cs p ds t') :
    AllBacked t' (Function.update b (t.home k) (cs ++ ds)) := by
  intro i hlt
  rw [hrem.length] at hlt
  have hhome := hi.home_lt k
  by_cases hik : i = t.home k
  · subst hik
    rw [Function.update_self]
    have hback := h _ hhome
    have hnd := (hi.chain _ hhome).nodup
    rw [hb] at hback hnd
    obtain ⟨-, hpds, hdisjoint⟩ := List.nodup_append.mp hnd
    obtain ⟨hp, hds⟩ := List.nodup_cons.mp hpds
    refine hback.unlink (fun x hx => ?_) (fun x hx => ?_)
    · rw [Option.or_none]
      exact hrem.heap.next x hx
    · rcases List.mem_append.mp hx with hx | hx
      · refine hrem.heap.prevs x (hdisjoint x hx p List.mem_cons_self) fun hx' => ?_
        exact hdisjoint x hx x (List.mem_cons_of_mem _ (List.mem_of_mem_head? hx')) rfl
      · have hxds := List.mem_of_mem_tail hx
        refine hrem.heap.prevs x (fun hxp => hp (hxp ▸ hxds)) fun hx' => ?_
        exact not_mem_tail_of_head hds hx' hx rfl
  · rw [Function.update_of_ne hik]
    refine (h i hlt).congr fun x hx => ?_
    have hout : x ∉ cs ++ p :: ds := fun hm => hik (hi.same_bucket hlt hhome hx (hb ▸ hm))
    simp only [List.mem_append, List.mem_cons, not_or] at hout
    exact hrem.heap.prevs x hout.2.1 fun hx' => hout.2.2 (List.mem_of_mem_head? hx')

/-- The last cell of a bucket is the first one of its bucket in the table of twice the length. -/
theorem rehashed_last (hi : Inv t b) {i : Nat} (hlt : i < t.length) {cs : List Ptr} {x : Ptr} (hb : b i = cs ++ [x]) :
    ∃ j, j < 2 * t.length ∧ (rehashed t b (2 * t.length) j).head? = some x := by
  obtain ⟨k, a, he, hk⟩ := hi.home i hlt x (by rw [hb]; simp)
  have hx : hashesTo t.heap (2 * t.length) (fnv1aStringHash k % (2 * t.length)) x = true := by simp [hashesTo, he]
  refine ⟨fnv1aStringHash k % (2 * t.length), Nat.mod_lt _ (by have := hi.pos; omega), ?_⟩
  obtain ⟨l₁, l₂, hrange⟩ := List.append_of_mem (List.mem_range.mpr hlt)
  have hnd : (l₁ ++ i :: l₂).Nodup := hrange ▸ List.nodup_range
  have hlater : ∀ y ∈ l₂.flatMap b, ¬hashesTo t.heap (2 * t.length) (fnv1aStringHash k % (2 * t.length)) y = true := by
    intro y hy hhash
    obtain ⟨j, hj, hyj⟩ := List.mem_flatMap.mp hy
    have hjl : j < t.length := List.mem_range.mp (hrange ▸ List.mem_append_right _ (List.mem_cons_of_mem _ hj))
    obtain ⟨k', a', he', hk'⟩ := hi.home j hjl y hyj
    simp only [hashesTo, he', beq_iff_eq] at hhash
    have hmod : fnv1aStringHash k' % t.length = fnv1aStringHash k % t.length := by
      rw [← Nat.mod_mul_left_mod _ 2, hhash, Nat.mod_mul_left_mod]
    have hji : j = i := hk'.symm.trans (hmod.trans hk)
    rw [hji] at hj
    exact (List.nodup_cons.mp (List.nodup_append.mp hnd).2.1).1 hj
  rw [rehashed, movedTo, List.head?_reverse, hrange, List.flatMap_append, List.flatMap_cons, hb, List.filter_append,
    List.filter_append, List.filter_append, List.filter_eq_nil_iff.mpr hlater, List.append_nil,
    List.filter_cons_of_pos hx, List.filter_nil, ← List.append_assoc, List.getLast?_concat]

/-- **A reallocation** leaves the chains doubly linked exactly if each had one element at most. -/
theorem rehashed_backed_iff (hi : Inv t b) (h : AllBacked t b) (hlen : t'.length = 2 * t.length)
    (hback : ∀ i, ∃ l, Backed t'.heap.prevs l (rehashed t b (2 * t.length) i) ∧
      ∀ x ∈ (rehashed t b (2 * t.length) i).head?, t.heap.prevs x = some l) :
    AllBacked t' (rehashed t b (2 * t.length)) ↔ ∀ i, i < t.length → (b i).length ≤ 1 := by
  constructor
  · intro h' i hlt
    by_contra hlong
    obtain ⟨cs, x, hb⟩ : ∃ cs x, b i = cs ++ [x] :=
      (List.eq_nil_or_concat' (b i)).resolve_left fun hnil => hlong (by rw [hnil]; exact Nat.zero_le 1)
    have hcs : cs ≠ [] := by
      rintro rfl
      exact hlong (by rw [hb]; exact Nat.le_refl 1)
    -- the last cell of the bucket had a `prev`, and has it still
    have hold : t.heap.prevs x = some cs.getLast? := by
      have hbacked := h i hlt
      rw [hb] at hbacked
      cases (backed_append.mp hbacked).2 with
      | cons hx _ => rw [hx, Option.or_none]
    obtain ⟨j, hj, hhead⟩ := rehashed_last hi hlt hb
    obtain ⟨l, hbacked, hfirst⟩ := hback j
    have hnew := h' j (hlen ▸ hj)
    rw [hfirst x hhead, Option.some.injEq] at hold
    cases hr : rehashed t b (2 * t.length) j with
    | nil => rw [hr] at hhead; cases hhead
    | cons y ys =>
      rw [hr] at hnew hbacked
      cases hnew with
      | cons hy _ =>
        cases hbacked with
        | cons hy' _ =>
          rw [hy, Option.some.injEq, hold] at hy'
          exact hcs (List.getLast?_eq_none_iff.mp hy'.symm)
  · intro hone i _
    obtain ⟨l, hbacked, hfirst⟩ := hback i
    cases hr : rehashed t b (2 * t.length) i with
    | nil => exact .nil
    | cons x xs =>
      have hx : x ∈ rehashed t b (2 * t.length) i := by rw [hr]; exact List.mem_cons_self
      obtain ⟨j, hj, hxj⟩ := mem_flatMap_buckets.mp (mem_movedTo.mp hx).1
      have hbj : b j = [x] := by
        obtain ⟨y, hy⟩ := List.length_eq_one_iff.mp
          (Nat.le_antisymm (hone j hj) (List.length_pos_iff.mpr (List.ne_nil_of_mem hxj)))
        rw [hy, List.mem_singleton] at hxj
        rw [hy, hxj]
      have hprev : t.heap.prevs x = some none := by
        have hbacked := h j hj
        rw [hbj] at hbacked
        cases hbacked with
        | cons hx _ => exact hx
      have hl := hfirst x (by rw [hr]; rfl)
      rw [hprev, Option.some.injEq] at hl
      rw [← hr, hl]
      exact hbacked

/-! ## Runs -/

/-- Where an insertion makes the table grow, no two keys share a bucket, the new one included. -/
def GrowsApart : Op α → HashTable α → Prop
  | .insert k _, t => checkKeyExists t k = some false → checkGrow (counted t) ≠ 0 →
    t.table (t.home k) = none ∧ ∀ i, i < t.length → (t.cells i).length ≤ 1
  | .delete _, _ => True

/-- A table whose chains are doubly linked. -/
def Tidy (t : HashTable α) : Prop := ∃ b, Inv t b ∧ Scaled t.length ∧ AllBacked t b

theorem createHashTable_tidy : Tidy (createHashTable : HashTable α) := by
  obtain ⟨b, hi⟩ := (createHashTable_wellFormed : WellFormed (createHashTable : HashTable α))
  refine ⟨b, hi, createHashTable_scaled, fun i hlt => ?_⟩
  have hempty : (createHashTable : HashTable α).cells i = b i := hi.cells_eq hlt
  rw [← hempty]
  exact .nil

theorem Tidy.wellFormed (h : Tidy t) : WellFormed t := by
  obtain ⟨b, hi, -⟩ := h
  exact ⟨b, hi⟩

theorem Tidy.doublyLinked (h : Tidy t) : DoublyLinked t := by
  obtain ⟨b, hi, -, hback⟩ := h
  exact hi.doublyLinked_iff.mpr hback

/-- The buckets with the new element have one element at most exactly if no two keys share one. -/
theorem Inv.apart_iff (hi : Inv t b) :
    (∀ i, i < t.length → (Function.update b (t.home k) (t.brk :: b (t.home k)) i).length ≤ 1) ↔
      t.table (t.home k) = none ∧ ∀ i, i < t.length → (t.cells i).length ≤ 1 := by
  have hhome := hi.home_lt k
  have hhead := (hi.chain _ hhome).head?_eq
  rw [← hhead, List.head?_eq_none_iff]
  constructor
  · intro h
    have hnil : b (t.home k) = [] := by
      have hle := h _ hhome
      rw [Function.update_self, List.length_cons] at hle
      exact List.length_eq_zero_iff.mp (by omega)
    refine ⟨hnil, fun i hlt => ?_⟩
    rw [hi.cells_eq hlt]
    by_cases hik : i = t.home k
    · rw [hik, hnil]
      exact Nat.zero_le 1
    · have hle := h i hlt
      rwa [Function.update_of_ne hik] at hle
  · rintro ⟨hnil, h⟩ i hlt
    by_cases hik : i = t.home k
    · rw [hik, Function.update_self, hnil]
      exact Nat.le_refl 1
    · rw [Function.update_of_ne hik, ← hi.cells_eq hlt]
      exact h i hlt

/-- A call from a tidy table leaves the chains doubly linked exactly if the table does not grow over a collision. -/
theorem Tidy.step {op : Op α} (h : Tidy t) : (GrowsApart op t → Tidy (after op t)) ∧
    (DoublyLinked (after op t) → GrowsApart op t) := by
  obtain ⟨-, hsized⟩ := after_sized h.wellFormed op
  obtain ⟨b, hi, hscaled, hback⟩ := h
  have hscaled' := hsized.scaled hscaled
  cases op with
  | insert k a =>
    rcases insertEntry_cases hi k a with ⟨p, hp, a₀, t', he, ho, hins⟩ | ⟨hno, t₁, r, hadd, -, hins⟩
    · have hafter : after (.insert k a) t = t' := after_eq hins
      rw [hafter] at hscaled' ⊢
      have hthere := hi.checkKeyExists_of_mem hp he
      refine ⟨fun _ => ⟨b, hi.overwrite hp he ho, hscaled', fun i hlt => ?_⟩, fun _ hnew => ?_⟩
      · rw [ho.prevs]
        exact hback i (ho.length ▸ hlt)
      · rw [hthere] at hnew
        cases hnew
    · have hi₁ := hi.link hno hadd
      have hback₁ := hi.link_backed hback hadd
      have hgrow : checkGrow (counted t) = checkGrow t₁ := checkGrow_congr hadd.length.symm hadd.elemCount.symm
      by_cases h0 : checkGrow t₁ = 0
      · have hafter : after (.insert k a) t = t₁ := after_eq (hins.trans (if_pos h0))
        rw [hafter] at hscaled' ⊢
        exact ⟨fun _ => ⟨_, hi₁, hscaled', hback₁⟩, fun _ _ hne => absurd (hgrow.trans h0) hne⟩
      · obtain ⟨t₂, hres, hi₂, hlen, -, -, hlinks⟩ := resize_spec hi₁ (Nat.pos_of_ne_zero h0)
        have hafter : after (.insert k a) t = t₂ := by
          apply after_eq
          rw [Op.call, hins, if_neg h0, hres]
          rfl
        have htwice : checkGrow t₁ = 2 * t₁.length := by
          rw [checkGrow_scaled (hadd.length ▸ hscaled)] at h0 ⊢
          split at h0
          · rename_i hle
            exact if_pos hle
          · exact absurd rfl h0
        rw [htwice] at hi₂ hlen hlinks
        have hiff := rehashed_backed_iff hi₁ hback₁ hlen hlinks
        rw [hadd.length, hi.apart_iff] at hiff
        rw [hafter] at hscaled' ⊢
        refine ⟨fun hapart => ⟨_, hi₂, hscaled', ?_⟩, fun hdouble _ _ => ?_⟩
        · rw [hadd.length]
          exact hiff.mpr (hapart (hi.checkKeyExists_of_not hno) (hgrow ▸ h0))
        · rw [hi₂.doublyLinked_iff, hadd.length] at hdouble
          exact hiff.mp hdouble
  | delete k =>
    refine ⟨fun _ => ?_, fun _ => trivial⟩
    rcases deleteEntry_cases hi k with ⟨-, hdel⟩ | ⟨cs, p, ds, a, t', r, hb, he, hrem, -, hdel⟩
    · have hafter : after (.delete k) t = t := after_eq hdel
      rw [hafter]
      exact ⟨b, hi, hscaled, hback⟩
    · have hafter : after (.delete k) t = t' := after_eq hdel
      rw [hafter] at hscaled' ⊢
      exact ⟨_, hi.unlink hb hrem, hscaled', hi.unlink_backed hback hb hrem⟩

/-- **The chains are doubly linked lists** exactly as long as no reallocation finds a collision. For every sequence of
calls on a new table: in every state that it goes through the back links are right, if and only if at each insertion
that makes the table grow all keys, the new one included, are in different buckets. -/
theorem chains_doubly_linked_iff (ops : List (Op α)) :
    (∀ pre, pre <+: ops → ∃ t, runOps createHashTable pre = some t ∧ DoublyLinked t) ↔
      Guarded after GrowsApart ops (createHashTable : HashTable α) := by
  simp only [runOps_create, Option.some.injEq, exists_eq_left']
  exact forall_prefix_iff_guarded (fun _ h => h.doublyLinked) (fun _ _ h hq => h.step.2 hq)
    (fun _ _ h hg => h.step.1 hg) ops createHashTable_tidy

/-- The first commands that the server registers, up to the one that makes its table grow. -/
def firstCommands : List (Op Unit) :=
  ["SYST", "QUIT", "AUTH", "PBSZ", "PROT", "NOOP", "FEAT", "TYPE", "EPSV", "PASV", "NLST", "LIST", "SIZE", "RETR",
    "STOR"].map fun name => .insert (ascii name) none

/-- NLST and STOR shared a bucket; now each is alone in its own, and the `prev` of NLST is still STOR. -/
theorem firstCommands_stale : ∃ t, runOps createHashTable firstCommands = some t ∧ ¬ DoublyLinked t := by
  refine ⟨run after firstCommands createHashTable, runOps_create _, fun h => ?_⟩
  have hcells : (run after firstCommands createHashTable).cells 16 = [10] := by decide +kernel
  have hprev : (run after firstCommands createHashTable).heap.prevs 10 = some (some 14) := by decide +kernel
  have hmem := h.within 16 (by decide +kernel) 10 (hcells ▸ List.mem_singleton_self 10) 14 hprev
  rw [hcells] at hmem
  exact absurd hmem (by decide)

end CftpServer.HashMap
