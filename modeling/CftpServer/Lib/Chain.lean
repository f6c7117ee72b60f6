import Mathlib.Data.List.Nodup
import Mathlib.Logic.Function.Basic

/-!
# Linked chains

A heap of nodes is seen only through its successor map `Links`: `none` off the heap, `some none` at the last node
of a chain, `some (some q)` before `q`. `Chain L r ps` says that following `L` from the pointer `r` meets exactly
the nodes `ps`, in order, and then the null pointer; such a list is unique (`Chain.functional`), has no node twice
(`Chain.nodup`) and depends only on the successors of its own nodes (`Chain.congr`). Prepending a node is
`Chain.cons`; unlinking one from the middle is `Chain.unlink`. `nodes` walks a chain.

A doubly linked chain has a predecessor map as well: `Backed B l ps` says that the predecessor of the first node is
`l` and that of every other node the node before it. `Backed.relink` changes the one of the first node,
`Backed.prepend` puts a node in front and `Backed.unlink` takes one out.
-/

namespace Linked

variable {ν : Type*}

/-- The successor map of a heap. -/
abbrev Links (ν : Type*) := ν → Option (Option ν)

/-- The nodes met from a pointer up to the null pointer. -/
inductive Chain (L : Links ν) : Option ν → List ν → Prop
  | nil : Chain L none []
  | cons {p : ν} {r : Option ν} {ps : List ν} : L p = some r → Chain L r ps → Chain L (some p) (p :: ps)

/-- The walk along a chain, of so many nodes at most. -/
def nodes (L : Links ν) : Nat → Option ν → List ν
  | 0, _ => []
  | _ + 1, none => []
  | fuel + 1, some p => p :: (L p).elim [] (nodes L fuel)

/-- Each node of a list has the node before it for its predecessor, the first one `l`. -/
inductive Backed (B : Links ν) : Option ν → List ν → Prop
  | nil {l : Option ν} : Backed B l []
  | cons {l : Option ν} {p : ν} {ps : List ν} : B p = some l → Backed B (some p) ps → Backed B l (p :: ps)

variable {L L' : Links ν} {r : Option ν} {ps qs : List ν}

/-- A chain is determined by its start. -/
theorem Chain.functional (h : Chain L r ps) : ∀ {qs : List ν}, Chain L r qs → ps = qs := by
  induction h with
  | nil => intro qs hq; cases hq; rfl
  | cons hp _ ih =>
    intro qs hq
    cases hq with
    | cons hp' hq =>
      rw [hp, Option.some.injEq] at hp'
      subst hp'
      rw [ih hq]

/-- A node of a chain starts the rest of it. -/
theorem Chain.suffix {p : ν} {bs : List ν} : ∀ {as : List ν} {r : Option ν}, Chain L r (as ++ p :: bs) →
    Chain L (some p) (p :: bs)
  | [], _, h => by cases h with | cons hp ht => exact .cons hp ht
  | _ :: as, _, h => by cases h with | cons _ ht => exact Chain.suffix ht

/-- A chain that ends meets no node twice: the rest of the chain after a node is determined by the node. -/
theorem Chain.nodup (h : Chain L r ps) : ps.Nodup := by
  induction h with
  | nil => exact List.nodup_nil
  | @cons p r ps hp ht ih =>
    refine List.nodup_cons.mpr ⟨fun hm => ?_, ih⟩
    obtain ⟨as, bs, rfl⟩ := List.append_of_mem hm
    have he := (Chain.cons hp ht).functional ht.suffix
    have hl := congrArg List.length he
    simp only [List.length_cons, List.length_append] at hl
    omega

theorem Chain.head?_eq (h : Chain L r ps) : ps.head? = r := by
  cases h <;> rfl

/-- A chain depends only on the successors of its own nodes. -/
theorem Chain.congr (h : Chain L r ps) (hc : ∀ p ∈ ps, L' p = L p) : Chain L' r ps := by
  induction h with
  | nil => exact .nil
  | cons hp _ ih =>
    exact .cons ((hc _ List.mem_cons_self).trans hp) (ih fun p hm => hc p (List.mem_cons_of_mem _ hm))

/-- Every node of a chain is on the heap. -/
theorem Chain.mem_links (h : Chain L r ps) {p : ν} (hp : p ∈ ps) : ∃ q, L p = some q := by
  induction h with
  | nil => cases hp
  | cons hl _ ih =>
    rcases List.mem_cons.mp hp with rfl | hp
    · exact ⟨_, hl⟩
    · exact ih hp

/-- A walk that may be as long as the chain meets all of its nodes. -/
theorem Chain.nodes_eq (h : Chain L r ps) : ∀ fuel, ps.length ≤ fuel → nodes L fuel r = ps := by
  induction h with
  | nil => intro fuel _; cases fuel <;> rfl
  | @cons p r ps hp _ ih =>
    intro fuel hf
    cases fuel with
    | zero => simp at hf
    | succ fuel => rw [nodes, hp, Option.elim_some, ih fuel (by simpa using hf)]

/-- Unlinking the node after `q`: the chain loses exactly that node. -/
theorem Chain.unlink {q p : ν} {n : Option ν} {as bs : List ν} (h : Chain L r (as ++ q :: p :: bs))
    (hn : L p = some n) (hq : L' q = some n) (hc : ∀ x, x ≠ q → x ≠ p → L' x = L x) :
    Chain L' r (as ++ q :: bs) := by
  induction as generalizing r with
  | nil =>
    have hnd := h.nodup
    cases h with
    | cons _ ht =>
      cases ht with
      | cons hp ht =>
        rw [hn, Option.some.injEq] at hp
        subst hp
        refine .cons hq (ht.congr fun x hx => hc x ?_ ?_)
        · rintro rfl; simp [hx] at hnd
        · rintro rfl; simp [hx] at hnd
  | cons a as ih =>
    have hnd := h.nodup
    cases h with
    | cons ha ht =>
      refine .cons ((hc a ?_ ?_).trans ha) (ih ht)
      · rintro rfl; simp at hnd
      · rintro rfl; simp at hnd

/-! ## Predecessors -/

variable {B B' : Links ν} {l l' : Option ν}

theorem Backed.congr (h : Backed B l ps) (hc : ∀ p ∈ ps, B' p = B p) : Backed B' l ps := by
  induction h with
  | nil => exact .nil
  | cons hp _ ih =>
    exact .cons ((hc _ List.mem_cons_self).trans hp) (ih fun p hm => hc p (List.mem_cons_of_mem _ hm))

/-- Both halves of a list, and the seam. -/
theorem backed_append : Backed B l (ps ++ qs) ↔ Backed B l ps ∧ Backed B (ps.getLast?.or l) qs := by
  induction ps generalizing l with
  | nil => exact ⟨fun h => ⟨.nil, h⟩, fun h => h.2⟩
  | cons p ps ih =>
    have hlast : (p :: ps).getLast?.or l = ps.getLast?.or (some p) := by
      cases hps : ps.getLast? <;> simp [List.getLast?_cons, hps]
    rw [List.cons_append, hlast]
    constructor
    · intro h
      cases h with
      | cons hp ht => exact ⟨.cons hp (ih.mp ht).1, (ih.mp ht).2⟩
    · rintro ⟨h, hq⟩
      cases h with
      | cons hp ht => exact .cons hp (ih.mpr ⟨ht, hq⟩)

/-- Another predecessor for the first node. -/
theorem Backed.relink (h : Backed B l ps) (hfirst : ∀ p ∈ ps.head?, B' p = some l') (hc : ∀ p ∈ ps.tail, B' p = B p) :
    Backed B' l' ps := by
  cases h with
  | nil => exact .nil
  | cons _ ht => exact .cons (hfirst _ rfl) (ht.congr hc)

/-- A node put in front becomes the predecessor of the first one. -/
theorem Backed.prepend {n : ν} (h : Backed B l ps) (hn : B' n = some l')
    (hfirst : ∀ p ∈ ps.head?, B' p = some (some n)) (hc : ∀ p ∈ ps.tail, B' p = B p) : Backed B' l' (n :: ps) :=
  .cons hn (h.relink hfirst hc)

/-- Unlinking a node: the one after it gets its predecessor. -/
theorem Backed.unlink {p : ν} (h : Backed B l (ps ++ p :: qs)) (hnext : ∀ x ∈ qs.head?, B' x = some (ps.getLast?.or l))
    (hc : ∀ x ∈ ps ++ qs.tail, B' x = B x) : Backed B' l (ps ++ qs) := by
  obtain ⟨hps, hp⟩ := backed_append.mp h
  refine backed_append.mpr ⟨hps.congr fun x hx => hc x (List.mem_append_left _ hx), ?_⟩
  cases hp with
  | cons _ ht => exact ht.relink hnext fun x hx => hc x (List.mem_append_right _ hx)

/-- A predecessor is a node of the list, but for that of the first node. -/
theorem Backed.mem (h : Backed B l ps) {p q : ν} (hp : p ∈ ps) (hq : B p = some (some q)) : l = some q ∨ q ∈ ps := by
  induction h with
  | nil => cases hp
  | @cons l x ps hx _ ih =>
    rcases List.mem_cons.mp hp with rfl | hp
    · rw [hx, Option.some.injEq] at hq
      exact .inl hq
    · rcases ih hp with heq | hm
      · rw [Option.some.injEq] at heq
        exact .inr (heq ▸ List.mem_cons_self)
      · exact .inr (List.mem_cons_of_mem _ hm)

/-- The first node has no predecessor, and any two neighbours have each other, exactly if the chain is backed. -/
theorem Chain.backed_iff (h : Chain L r ps) :
    Backed B l ps ↔ (∀ p, r = some p → B p = some l) ∧ ∀ p ∈ ps, ∀ n, L p = some (some n) → B n = some (some p) := by
  induction h generalizing l with
  | nil =>
    refine ⟨fun _ => ⟨fun p hp => ?_, fun p hp => ?_⟩, fun _ => .nil⟩
    · cases hp
    · cases hp
  | @cons p r ps hp _ ih =>
    constructor
    · intro h
      cases h with
      | cons hb hbt =>
        obtain ⟨hfirst, hnext⟩ := ih.mp hbt
        refine ⟨fun q hq => ?_, fun q hq n hn => ?_⟩
        · rw [← Option.some.inj hq]
          exact hb
        · rcases List.mem_cons.mp hq with rfl | hq
          · rw [hp, Option.some.injEq] at hn
            exact hfirst n hn
          · exact hnext q hq n hn
    · rintro ⟨hfirst, hnext⟩
      refine .cons (hfirst p rfl) (ih.mpr ⟨fun q hq => ?_, fun q hq => hnext q (List.mem_cons_of_mem _ hq)⟩)
      exact hnext p List.mem_cons_self q (by rw [hp, hq])

end Linked
