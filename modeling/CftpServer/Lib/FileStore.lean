import CftpServer.Lib.FileTree
import Mathlib.Data.Set.Insert
import Mathlib.Logic.Function.Basic

/-!
# File trees that are added to, and files with contents

`Tree.insert` adds an entry to a directory. `walkNew` is where a path that leads to nothing would have its entry: the
directory is there, the entry is not (`Misses.vacant`), and once it is made the path leads to it (`Misses.leads`).

A place is below a root directory when the root is on the way to it. A walk that starts below its root ends below it,
whatever it meets (`Leads.inside`, `Misses.inside`), and it only looks at what is below: where two trees have the same
entries below the root (`Tree.below`), it ends alike (`walk_congr`, `walkNew_congr`).

A `FileStore` is a tree whose files have contents. A file has a number of its own, under which it outlives its entry.
-/

namespace FileTree

variable {α : Type*} [DecidableEq α]

/-! ## New entries -/

namespace Tree

variable {t t' : Tree α} {l l' root : List α} {k : Node α}

/-- There could be an entry at this place: its directory is there, and has none of the name. -/
def Vacant (t : Tree α) (l : List α) : Prop := l ≠ [] ∧ t.node l = none ∧ t.node l.dropLast = some .dir

instance (t : Tree α) (l : List α) : Decidable (t.Vacant l) :=
  decidable_of_iff (l ≠ [] ∧ (t.node l).isNone ∧ (t.node l.dropLast).any fun k => k matches .dir) <| by
    rw [Vacant, Option.isNone_iff_eq_none]
    refine and_congr_right fun _ => and_congr_right fun _ => ?_
    cases t.node l.dropLast with
    | none => simp
    | some k => cases k <;> simp

/-- The tree with one more entry, at a vacant place. -/
def insert (t : Tree α) (l : List α) (k : Node α) : Tree α :=
  if h : t.Vacant l then
    { entries := t.entries ++ [(l, k)]
      nodup := by
        rw [List.map_append, List.nodup_append]
        refine ⟨t.nodup, List.nodup_singleton _, fun a ha b hb => ?_⟩
        rintro rfl
        obtain ⟨e, he, rfl⟩ := List.mem_map.mp ha
        obtain rfl : e.1 = l := List.mem_singleton.mp hb
        exact (node_ne_none_iff h.1).mpr ⟨e.2, he⟩ h.2.1
      rooted := by
        intro e he
        rcases List.mem_append.mp he with he | he
        · obtain ⟨l', a, hl', hrest⟩ := t.rooted e he
          exact ⟨l', a, hl', hrest.imp_right fun hd => List.mem_append_left _ hd⟩
        · rw [List.mem_singleton.mp he]
          refine ⟨l.dropLast, l.getLast h.1, (List.dropLast_append_getLast h.1).symm, ?_⟩
          by_cases hnil : l.dropLast = []
          · exact .inl hnil
          · exact .inr (List.mem_append_left _ ((node_eq_some_iff hnil).mp h.2.2)) }
  else t

theorem insert_entries (h : t.Vacant l) : (t.insert l k).entries = t.entries ++ [(l, k)] := by rw [insert, dif_pos h]

theorem insert_of_not_vacant (h : ¬ t.Vacant l) : t.insert l k = t := dif_neg h

/-- The entry is there, -/
theorem node_insert_self (h : t.Vacant l) : (t.insert l k).node l = some k := by
  rw [node_eq_some_iff h.1, insert_entries h]
  exact List.mem_append_right _ (List.mem_singleton.mpr rfl)

/-- and only that is new. -/
theorem node_insert_of_ne (hne : l' ≠ l) : (t.insert l k).node l' = t.node l' := by
  by_cases h : t.Vacant l
  · by_cases hnil : l' = []
    · rw [hnil, node_nil, node_nil]
    · ext k'
      rw [node_eq_some_iff hnil, node_eq_some_iff hnil, insert_entries h, List.mem_append]
      simp [hne]
  · rw [insert_of_not_vacant h]

theorem node_insert_of_ne_none (hne : t.node l' ≠ none) : (t.insert l k).node l' = t.node l' := by
  by_cases heq : l' = l
  · subst heq
    rw [insert_of_not_vacant fun h => hne h.2.1]
  · exact node_insert_of_ne heq

/-! ## Below a root -/

/-- The entries below a root, itself among them. -/
def below (t : Tree α) (root : List α) : List (List α × Node α) := t.entries.filter fun e => root <+: e.1

/-- They say what is there, -/
theorem node_congr (h : t'.below root = t.below root) (hl : root <+: l) : t'.node l = t.node l := by
  by_cases hnil : l = []
  · rw [hnil, node_nil, node_nil]
  · have hmem : ∀ (t : Tree α) (k : Node α), (l, k) ∈ t.entries ↔ (l, k) ∈ t.below root := by simp [below, hl]
    ext k
    rw [node_eq_some_iff hnil, node_eq_some_iff hnil, hmem, hmem, h]

/-- and what is in the directories there. -/
theorem names_congr (h : t'.below root = t.below root) (hl : root <+: l) : t'.names l = t.names l := by
  have hnames : ∀ t : Tree α,
      t.names l = (t.below root).filterMap fun e => if e.1.dropLast = l then e.1.getLast? else none := by
    intro t
    rw [names, below, List.filterMap_filter]
    refine List.filterMap_congr fun e _ => ?_
    by_cases he : e.1.dropLast = l
    · have hroot : root <+: e.1 := (he ▸ hl).trans (List.dropLast_prefix _)
      simp [he, hroot]
    · simp [he]
  rw [hnames, hnames, h]

omit [DecidableEq α] in
theorem prefix_dropLast (h : root <+: l) (hne : l ≠ root) : root <+: l.dropLast := by
  obtain ⟨m, rfl⟩ := h
  have hm : m ≠ [] := fun hm => hne (by rw [hm, List.append_nil])
  rw [List.dropLast_append_of_ne_nil hm]
  exact List.prefix_append ..

theorem vacant_congr (h : t'.below root = t.below root) (hroot : t.node root = some .dir) (hl : root <+: l) :
    t'.Vacant l ↔ t.Vacant l := by
  by_cases hne : l = root
  · subst hne
    refine iff_of_false (fun hv => ?_) fun hv => ?_
    · cases (node_congr h hl).symm.trans hv.2.1 |>.symm.trans hroot
    · cases hv.2.1.symm.trans hroot
  · rw [Vacant, Vacant, node_congr h hl, node_congr h (prefix_dropLast hl hne)]

theorem below_insert (h : t'.below root = t.below root) (hroot : t.node root = some .dir) (hl : root <+: l) :
    (t'.insert l k).below root = (t.insert l k).below root := by
  by_cases hv : t.Vacant l
  · rw [below, below, insert_entries hv, insert_entries ((vacant_congr h hroot hl).mpr hv), List.filter_append,
      List.filter_append]
    exact congrArg (· ++ _) h
  · rw [insert_of_not_vacant hv, insert_of_not_vacant fun hv' => hv ((vacant_congr h hroot hl).mp hv'), h]

theorem below_remove (h : t'.below root = t.below root) (hl : root <+: l) :
    (t'.remove l).below root = (t.remove l).below root := by
  have hfilter : ∀ {t : Tree α}, t.names l = [] →
      (t.remove l).below root = (t.below root).filter fun e => e.1 ≠ l := by
    intro t hnames
    rw [remove, dif_pos hnames, below, below, List.filter_comm]
  by_cases hnames : t.names l = []
  · rw [hfilter hnames, hfilter ((names_congr h hl).trans hnames), h]
  · rw [remove, remove, dif_neg hnames, dif_neg fun h' => hnames ((names_congr h hl).symm.trans h'), h]

end Tree

/-! ## Where a path would have its entry -/

section Walk

variable {t t' : Tree α} {root cur l : List α} {follow : Bool} {links : Nat} {ss : List (Step α)} {k : Node α}

/-- The components of a path, one by one, as in `along`, up to a last one for which there is no entry. -/
def alongNew (t : Tree α) (root : List α) (follow : Bool) (jump : Path α → List (Step α) → List α → Option (List α)) :
    List (Step α) → List α → Option (List α)
  | [], _ => none
  | .stay :: ss, cur => alongNew t root follow jump ss cur
  | .up :: ss, cur => alongNew t root follow jump ss (if cur = root then cur else cur.dropLast)
  | .down a :: ss, cur =>
    match t.node (cur ++ [a]) with
    | none => if ss = [] then some (cur ++ [a]) else none
    | some .dir => alongNew t root follow jump ss (cur ++ [a])
    | some .file => none
    | some (.link target) => if ss = [] ∧ follow = false then none else jump target ss cur

/-- Where a path that leads to nothing would have its entry, over so many links at most. -/
def walkNew (t : Tree α) (root : List α) (follow : Bool) : Nat → List (Step α) → List α → Option (List α)
  | 0 => alongNew t root follow fun _ _ _ => none
  | links + 1 => alongNew t root follow fun target ss cur =>
      walkNew t root follow links (target.steps ++ ss) (if target.absolute then root else cur)

/-- A path misses an entry at the place `l`: the walk, step by step. -/
inductive Misses (t : Tree α) (root : List α) (follow : Bool) : Nat → List (Step α) → List α → List α → Prop where
  | here {links : Nat} {cur : List α} {a : α} (hn : t.node (cur ++ [a]) = none) :
      Misses t root follow links [.down a] cur (cur ++ [a])
  | stay {links : Nat} {ss : List (Step α)} {cur l : List α} (h : Misses t root follow links ss cur l) :
      Misses t root follow links (.stay :: ss) cur l
  | up {links : Nat} {ss : List (Step α)} {cur l : List α}
      (h : Misses t root follow links ss (if cur = root then cur else cur.dropLast) l) :
      Misses t root follow links (.up :: ss) cur l
  | dir {links : Nat} {ss : List (Step α)} {cur l : List α} {a : α} (hn : t.node (cur ++ [a]) = some .dir)
      (h : Misses t root follow links ss (cur ++ [a]) l) : Misses t root follow links (.down a :: ss) cur l
  | jump {links : Nat} {ss : List (Step α)} {cur l : List α} {a : α} {target : Path α}
      (hn : t.node (cur ++ [a]) = some (.link target)) (hf : ¬ (ss = [] ∧ follow = false))
      (h : Misses t root follow links (target.steps ++ ss) (if target.absolute then root else cur) l) :
      Misses t root follow (links + 1) (.down a :: ss) cur l

theorem alongNew_misses {jump : Path α → List (Step α) → List α → Option (List α)}
    (hjump : ∀ {a : α} {target : Path α} {ss : List (Step α)} {cur : List α},
      t.node (cur ++ [a]) = some (.link target) → ¬ (ss = [] ∧ follow = false) →
      (jump target ss cur = some l ↔ Misses t root follow links (.down a :: ss) cur l)) :
    ∀ (ss : List (Step α)) (cur : List α),
      alongNew t root follow jump ss cur = some l ↔ Misses t root follow links ss cur l := by
  intro ss
  induction ss with
  | nil => exact fun cur => ⟨fun h => (by cases h), fun h => (by cases h)⟩
  | cons s ss ih =>
    intro cur
    cases s with
    | stay =>
      rw [alongNew, ih]
      exact ⟨.stay, fun h => by cases h; assumption⟩
    | up =>
      rw [alongNew, ih]
      exact ⟨.up, fun h => by cases h; assumption⟩
    | down a =>
      rw [alongNew]
      split
      · rename_i hn
        constructor
        · intro h
          split at h
          · rename_i hss
            cases h
            exact hss ▸ .here hn
          · cases h
        · intro h
          cases h <;> simp_all
      · rename_i hn
        rw [ih]
        exact ⟨.dir hn, fun h => by cases h <;> simp_all⟩
      · exact ⟨fun h => (by cases h), fun h => by cases h <;> simp_all⟩
      · rename_i target hn
        split
        · rename_i hf
          exact ⟨fun h => (by cases h), fun h => by cases h <;> simp_all⟩
        · rename_i hf
          exact hjump hn hf

/-- The walk and its steps agree. -/
theorem walkNew_eq_some_iff : walkNew t root follow links ss cur = some l ↔ Misses t root follow links ss cur l := by
  induction links generalizing ss cur with
  | zero =>
    refine alongNew_misses (fun hn hf => ⟨fun h => (by cases h), fun h => ?_⟩) ss cur
    cases h <;> simp_all
  | succ links ih =>
    refine alongNew_misses (fun hn hf => ?_) ss cur
    rw [ih]
    exact ⟨.jump hn hf, fun h => by cases h <;> simp_all⟩

/-- From a directory, the place that is missed is vacant. -/
theorem Misses.vacant (h : Misses t root follow links ss cur l) (hroot : t.node root = some .dir)
    (hcur : t.node cur = some .dir) : t.Vacant l := by
  induction h with
  | here hn => exact ⟨by simp, hn, by rwa [List.dropLast_concat]⟩
  | stay _ ih => exact ih hcur
  | up _ ih => exact ih (Tree.node_up hcur)
  | dir hn _ ih => exact ih hn
  | jump _ _ _ ih =>
    apply ih
    split <;> assumption

/-- With the entry, the path leads to it. -/
theorem Misses.leads (h : Misses t root follow links ss cur l) (hv : t.Vacant l) (hk : k = .file ∨ k = .dir) :
    Leads (t.insert l k) root follow links ss cur l := by
  have hnode : ∀ {l' : List α} {k' : Node α}, t.node l' = some k' → (t.insert l k).node l' = some k' := by
    intro l' k' hl'
    rw [Tree.node_insert_of_ne_none (by rw [hl']; exact Option.some_ne_none _), hl']
  have hself : (t.insert l k).node l = some k := Tree.node_insert_self hv
  clear hv
  induction h with
  | here =>
    rcases hk with rfl | rfl
    · exact .file hself
    · exact .dir hself .here
  | stay _ ih => exact .stay (ih hnode hself)
  | up _ ih => exact .up (ih hnode hself)
  | dir hn _ ih => exact .dir (hnode hn) (ih hnode hself)
  | jump hn hf _ ih => exact .jump (hnode hn) hf (ih hnode hself)

/-! ## Walks below a root -/

theorem prefix_up (h : root <+: cur) : root <+: if cur = root then cur else cur.dropLast := by
  split
  · exact h
  · rename_i hne
    exact Tree.prefix_dropLast h hne

omit [DecidableEq α] in
theorem prefix_jump (h : root <+: cur) (absolute : Bool) : root <+: if absolute then root else cur := by
  split
  · exact List.prefix_refl _
  · exact h

/-- A walk that starts below its root ends there. -/
theorem Leads.inside (h : Leads t root follow links ss cur l) (hcur : root <+: cur) : root <+: l := by
  induction h with
  | here => exact hcur
  | stay _ ih => exact ih hcur
  | up _ ih => exact ih (prefix_up hcur)
  | dir _ _ ih => exact ih (hcur.trans (List.prefix_append ..))
  | file => exact hcur.trans (List.prefix_append ..)
  | leaf => exact hcur.trans (List.prefix_append ..)
  | jump _ _ _ ih => exact ih (prefix_jump hcur _)

theorem Misses.inside (h : Misses t root follow links ss cur l) (hcur : root <+: cur) : root <+: l := by
  induction h with
  | here => exact hcur.trans (List.prefix_append ..)
  | stay _ ih => exact ih hcur
  | up _ ih => exact ih (prefix_up hcur)
  | dir _ _ ih => exact ih (hcur.trans (List.prefix_append ..))
  | jump _ _ _ ih => exact ih (prefix_jump hcur _)

/-- It does not look at anything else. -/
theorem Leads.congr (ht : t'.below root = t.below root) (hcur : root <+: cur)
    (h : Leads t root follow links ss cur l) : Leads t' root follow links ss cur l := by
  have hnode : ∀ {cur : List α} {a : α}, root <+: cur → t'.node (cur ++ [a]) = t.node (cur ++ [a]) :=
    fun hcur => Tree.node_congr ht (hcur.trans (List.prefix_append ..))
  induction h with
  | here => exact .here
  | stay _ ih => exact .stay (ih hcur)
  | up _ ih => exact .up (ih (prefix_up hcur))
  | dir hn _ ih => exact .dir ((hnode hcur).trans hn) (ih (hcur.trans (List.prefix_append ..)))
  | file hn => exact .file ((hnode hcur).trans hn)
  | leaf hn hf => exact .leaf ((hnode hcur).trans hn) hf
  | jump hn hf _ ih => exact .jump ((hnode hcur).trans hn) hf (ih (prefix_jump hcur _))

theorem Misses.congr (ht : t'.below root = t.below root) (hcur : root <+: cur)
    (h : Misses t root follow links ss cur l) : Misses t' root follow links ss cur l := by
  have hnode : ∀ {cur : List α} {a : α}, root <+: cur → t'.node (cur ++ [a]) = t.node (cur ++ [a]) :=
    fun hcur => Tree.node_congr ht (hcur.trans (List.prefix_append ..))
  induction h with
  | here hn => exact .here ((hnode hcur).trans hn)
  | stay _ ih => exact .stay (ih hcur)
  | up _ ih => exact .up (ih (prefix_up hcur))
  | dir hn _ ih => exact .dir ((hnode hcur).trans hn) (ih (hcur.trans (List.prefix_append ..)))
  | jump hn hf _ ih => exact .jump ((hnode hcur).trans hn) hf (ih (prefix_jump hcur _))

theorem walk_congr (ht : t'.below root = t.below root) (hcur : root <+: cur) :
    walk t' root follow links ss cur = walk t root follow links ss cur := by
  ext l
  rw [walk_eq_some_iff, walk_eq_some_iff]
  exact ⟨Leads.congr ht.symm hcur, Leads.congr ht hcur⟩

theorem walkNew_congr (ht : t'.below root = t.below root) (hcur : root <+: cur) :
    walkNew t' root follow links ss cur = walkNew t root follow links ss cur := by
  ext l
  rw [walkNew_eq_some_iff, walkNew_eq_some_iff]
  exact ⟨Misses.congr ht.symm hcur, Misses.congr ht hcur⟩

end Walk

end FileTree

open FileTree

/-- A file tree whose files have contents. The file at a place has a number, below `next`. -/
structure FileStore (α β : Type*) [DecidableEq α] where
  tree : FileTree.Tree α
  number : List α → Nat
  contents : Nat → List β
  next : Nat
  fresh : ∀ l, tree.node l = some .file → number l < next

namespace FileStore

variable {α β : Type*} [DecidableEq α]

/-- What can be done to a file store. -/
inductive Change (α β : Type*) where
  | create (l : List α)
  | makeDir (l : List α)
  | remove (l : List α)
  | write (i : Nat) (c : List β)

/-- A new and empty file, at a vacant place. -/
def create (w : FileStore α β) (l : List α) : FileStore α β :=
  if h : w.tree.Vacant l then
    { tree := w.tree.insert l .file
      number := Function.update w.number l w.next
      contents := Function.update w.contents w.next []
      next := w.next + 1
      fresh := by
        intro l' hl'
        by_cases hne : l' = l
        · rw [hne, Function.update_self]
          omega
        · rw [Function.update_of_ne hne]
          rw [Tree.node_insert_of_ne hne] at hl'
          have := w.fresh l' hl'
          omega }
  else w

/-- A new directory is no file. -/
theorem file_of_insert_dir {t : FileTree.Tree α} {l l' : List α} (h : (t.insert l .dir).node l' = some .file) :
    t.node l' = some .file := by
  by_cases hv : t.Vacant l
  · by_cases hne : l' = l
    · rw [hne, Tree.node_insert_self hv] at h
      cases h
    · rwa [Tree.node_insert_of_ne hne] at h
  · rwa [Tree.insert_of_not_vacant hv] at h

/-- A new directory. -/
def makeDir (w : FileStore α β) (l : List α) : FileStore α β :=
  { w with
    tree := w.tree.insert l .dir
    fresh := fun l' hl' => w.fresh l' (file_of_insert_dir hl') }

/-- An entry is gone; the file may still be open. -/
def remove (w : FileStore α β) (l : List α) : FileStore α β :=
  { w with
    tree := w.tree.remove l
    fresh := fun l' hl' => w.fresh l' (Tree.node_of_le Tree.remove_le hl') }

/-- Other contents of a file. -/
def write (w : FileStore α β) (i : Nat) (c : List β) : FileStore α β :=
  { w with contents := Function.update w.contents i c }

@[simp] theorem write_tree (w : FileStore α β) (i : Nat) (c : List β) : (w.write i c).tree = w.tree := rfl
@[simp] theorem write_number (w : FileStore α β) (i : Nat) (c : List β) : (w.write i c).number = w.number := rfl
@[simp] theorem write_contents (w : FileStore α β) (i : Nat) (c : List β) :
    (w.write i c).contents = Function.update w.contents i c := rfl

def apply (w : FileStore α β) : Change α β → FileStore α β
  | .create l => w.create l
  | .makeDir l => w.makeDir l
  | .remove l => w.remove l
  | .write i c => w.write i c

/-- Where the entries are, and which files they are of. -/
def entries (w : FileStore α β) : FileTree.Tree α × (List α → Nat) × Nat := (w.tree, w.number, w.next)

/-- What is in the file at a place. -/
def text (w : FileStore α β) (l : List α) : Option (List β) :=
  if w.tree.node l = some .file then some (w.contents (w.number l)) else none

/-! ## Changes below a root

`K` are the files that are known: those below the root, and others that are open. -/

/-- The change is below the root, or of a known file. -/
def Change.Inside (root : List α) (K : Set Nat) : Change α β → Prop
  | .create l | .makeDir l | .remove l => root <+: l
  | .write i _ => i ∈ K

/-- The files that are known after the change. -/
def Change.knows (K : Set Nat) (w : FileStore α β) : Change α β → Set Nat
  | .create l => if w.tree.Vacant l then insert w.next K else K
  | _ => K

/-- The files below the root are known, and numbers are given out only once. -/
structure Within (root : List α) (K : Set Nat) (w : FileStore α β) : Prop where
  known : ∀ l, root <+: l → w.tree.node l = some .file → w.number l ∈ K
  bound : ∀ i ∈ K, i < w.next

/-- The stores are the same as far as the root goes and the known files. -/
structure SameBelow (root : List α) (K : Set Nat) (w w' : FileStore α β) : Prop where
  tree : w'.tree.below root = w.tree.below root
  number : ∀ l, root <+: l → w.tree.node l = some .file → w'.number l = w.number l
  contents : ∀ i ∈ K, w'.contents i = w.contents i
  next : w'.next = w.next

/-- There is the same file at a place in both stores, or there are two of the same contents that are not known. -/
structure SameAt (K : Set Nat) (w w' : FileStore α β) (l : List α) : Prop where
  file : w'.tree.node l = some .file ↔ w.tree.node l = some .file
  contents : w.tree.node l = some .file → w'.contents (w'.number l) = w.contents (w.number l)
  number : w.tree.node l = some .file → w'.number l = w.number l ∨ (w.number l ∉ K ∧ w'.number l ∉ K)

/-- The stores are the same outside the root, where no file is known. -/
structure SameOutside (root : List α) (K : Set Nat) (w w' : FileStore α β) : Prop where
  node : ∀ l, ¬ root <+: l → w'.tree.node l = w.tree.node l
  text : ∀ l, ¬ root <+: l → w'.text l = w.text l
  apart : ∀ l, ¬ root <+: l → w'.tree.node l = some .file → w'.number l ∉ K

section Inside

variable {root : List α} {K : Set Nat} {w w' : FileStore α β} {c : Change α β} {l l' : List α}

theorem create_of_vacant (h : w.tree.Vacant l) : (w.create l).tree = w.tree.insert l .file ∧
    (w.create l).number = Function.update w.number l w.next ∧
    (w.create l).contents = Function.update w.contents w.next [] ∧ (w.create l).next = w.next + 1 := by
  rw [create, dif_pos h]
  exact ⟨rfl, rfl, rfl, rfl⟩

theorem create_of_not_vacant (h : ¬ w.tree.Vacant l) : w.create l = w := dif_neg h

theorem Within.apply (h : Within root K w) (hc : c.Inside root K) : Within root (c.knows K w) (w.apply c) := by
  cases c with
  | create l =>
    simp only [FileStore.apply, Change.knows]
    by_cases hv : w.tree.Vacant l
    · rw [if_pos hv]
      obtain ⟨htree, hnumber, -, hnext⟩ := create_of_vacant hv
      refine ⟨fun l' hl' hfile => ?_, fun i hi => ?_⟩
      · rw [hnumber]
        by_cases hne : l' = l
        · rw [hne, Function.update_self]
          exact Set.mem_insert ..
        · rw [Function.update_of_ne hne]
          rw [htree, Tree.node_insert_of_ne hne] at hfile
          exact Set.mem_insert_of_mem _ (h.known l' hl' hfile)
      · rw [hnext]
        rcases Set.mem_insert_iff.mp hi with rfl | hi
        · omega
        · have := h.bound i hi
          omega
    · rw [if_neg hv, create_of_not_vacant hv]
      exact h
  | makeDir l => exact ⟨fun l' hl' hfile => h.known l' hl' (file_of_insert_dir hfile), h.bound⟩
  | remove l => exact ⟨fun l' hl' hfile => h.known l' hl' (Tree.node_of_le Tree.remove_le hfile), h.bound⟩
  | write i d => exact ⟨h.known, h.bound⟩

/-- The same change of both. -/
theorem SameBelow.apply (h : SameBelow root K w w') (hroot : w.tree.node root = some .dir) (hc : c.Inside root K) :
    SameBelow root (c.knows K w) (w.apply c) (w'.apply c) := by
  cases c with
  | create l =>
    simp only [FileStore.apply, Change.knows]
    have hiff := Tree.vacant_congr h.tree hroot hc
    by_cases hv : w.tree.Vacant l
    · rw [if_pos hv]
      obtain ⟨htree, hnumber, hcontents, hnext⟩ := create_of_vacant hv
      obtain ⟨htree', hnumber', hcontents', hnext'⟩ := create_of_vacant (hiff.mpr hv)
      refine ⟨?_, fun l' hl' hfile => ?_, fun i hi => ?_, ?_⟩
      · rw [htree, htree']
        exact Tree.below_insert h.tree hroot hc
      · rw [hnumber, hnumber', h.next]
        by_cases hne : l' = l
        · rw [hne, Function.update_self, Function.update_self]
        · rw [Function.update_of_ne hne, Function.update_of_ne hne]
          rw [htree, Tree.node_insert_of_ne hne] at hfile
          exact h.number l' hl' hfile
      · rw [hcontents, hcontents', h.next]
        by_cases hne : i = w.next
        · rw [hne, Function.update_self, Function.update_self]
        · rw [Function.update_of_ne hne, Function.update_of_ne hne]
          exact h.contents i ((Set.mem_insert_iff.mp hi).resolve_left hne)
      · rw [hnext, hnext', h.next]
    · rw [if_neg hv, create_of_not_vacant hv, create_of_not_vacant fun hv' => hv (hiff.mp hv')]
      exact h
  | makeDir l =>
    exact ⟨Tree.below_insert h.tree hroot hc, fun l' hl' hfile => h.number l' hl' (file_of_insert_dir hfile),
      h.contents, h.next⟩
  | remove l =>
    exact ⟨Tree.below_remove h.tree hc, fun l' hl' hfile => h.number l' hl' (Tree.node_of_le Tree.remove_le hfile),
      h.contents, h.next⟩
  | write i d =>
    refine ⟨h.tree, h.number, fun j hj => ?_, h.next⟩
    simp only [FileStore.apply, write, Function.update_apply]
    rw [h.contents j hj]

theorem SameAt.refl : SameAt K w w l := ⟨Iff.rfl, fun _ => rfl, fun _ => .inl rfl⟩

theorem SameAt.text (h : SameAt K w w' l) : w'.text l = w.text l := by
  unfold FileStore.text
  by_cases hfile : w.tree.node l = some .file
  · rw [if_pos hfile, if_pos (h.file.mpr hfile), h.contents hfile]
  · rw [if_neg hfile, if_neg fun hfile' => hfile (h.file.mp hfile')]

theorem SameAt.mono {K' : Set Nat} (h : SameAt K w w' l) (hK : K' ⊆ K) : SameAt K' w w' l :=
  ⟨h.file, h.contents, fun hfile => (h.number hfile).imp_right fun hn => ⟨fun hi => hn.1 (hK hi), fun hi => hn.2 (hK hi)⟩⟩

/-- What is known below the root has the same text there. -/
theorem SameBelow.text (h : SameBelow root K w w') (hw : Within root K w) (hl : root <+: l) : w'.text l = w.text l := by
  unfold FileStore.text
  rw [Tree.node_congr h.tree hl]
  split
  · rename_i hfile
    rw [h.number l hl hfile, h.contents _ (hw.known l hl hfile)]
  · rfl

/-- The file at a place is the same one after a change, with the same contents, and it is not known now if it was not. -/
structure Kept (K K' : Set Nat) (w v : FileStore α β) (l : List α) : Prop where
  node : v.tree.node l = w.tree.node l
  number : v.number l = w.number l
  contents : w.tree.node l = some .file → v.contents (w.number l) = w.contents (w.number l)
  unknown : w.tree.node l = some .file → w.number l ∉ K → w.number l ∉ K'

theorem SameAt.kept {K' : Set Nat} {v v' : FileStore α β} (h : SameAt K w w' l) (hv : Kept K K' w v l)
    (hv' : Kept K K' w' v' l) : SameAt K' v v' l := by
  refine ⟨by rw [hv.node, hv'.node]; exact h.file, fun hfile => ?_, fun hfile => ?_⟩
  · rw [hv.node] at hfile
    rw [hv.number, hv'.number, hv.contents hfile, hv'.contents (h.file.mpr hfile), h.contents hfile]
  · rw [hv.node] at hfile
    rw [hv.number, hv'.number]
    exact (h.number hfile).imp_right fun hn => ⟨hv.unknown hfile hn.1, hv'.unknown (h.file.mpr hfile) hn.2⟩

/-- Entries elsewhere come and go. -/
theorem kept_create (hv : w.tree.Vacant l') (hne : l ≠ l') : Kept K (insert w.next K) w (w.create l') l := by
  obtain ⟨htree, hnumber, hcontents, -⟩ := create_of_vacant hv
  refine ⟨by rw [htree, Tree.node_insert_of_ne hne], by rw [hnumber, Function.update_of_ne hne], fun hfile => ?_,
    fun hfile hn hi => ?_⟩
  · rw [hcontents, Function.update_of_ne (w.fresh l hfile).ne]
  · exact (Set.mem_insert_iff.mp hi).elim (w.fresh l hfile).ne hn

theorem kept_makeDir (hne : l ≠ l') : Kept K K w (w.makeDir l') l :=
  ⟨Tree.node_insert_of_ne hne, rfl, fun _ => rfl, fun _ h => h⟩

theorem kept_remove (hne : l ≠ l') : Kept K K w (w.remove l') l :=
  ⟨Tree.node_remove_of_ne hne, rfl, fun _ => rfl, fun _ h => h⟩

/-- A write to a known file. -/
theorem SameAt.write {i : Nat} (h : SameAt K w w' l) (hi : i ∈ K) (d : List β) :
    SameAt K (w.write i d) (w'.write i d) l := by
  refine ⟨h.file, fun hfile => ?_, h.number⟩
  have hcontents : w'.contents (w'.number l) = w.contents (w.number l) := h.contents hfile
  simp only [FileStore.write, Function.update_apply]
  rcases h.number hfile with hn | ⟨hn, hn'⟩
  · rw [hcontents, hn]
  · have hk : w.number l ≠ i := fun heq => hn (heq ▸ hi)
    have hk' : w'.number l ≠ i := fun heq => hn' (heq ▸ hi)
    rw [if_neg hk, if_neg hk', hcontents]

/-- **The same change inside of both leaves the same outside.** -/
theorem SameAt.apply (h : SameAt K w w' l) (hl : ¬ root <+: l) (hs : SameBelow root K w w')
    (hroot : w.tree.node root = some .dir) (hc : c.Inside root K) : SameAt (c.knows K w) (w.apply c) (w'.apply c) l := by
  have hne : ∀ {l' : List α}, root <+: l' → l ≠ l' := fun hl' heq => hl (heq ▸ hl')
  cases c with
  | create l' =>
    simp only [FileStore.apply, Change.knows]
    have hiff := Tree.vacant_congr hs.tree hroot hc
    by_cases hv : w.tree.Vacant l'
    · rw [if_pos hv]
      exact h.kept (kept_create hv (hne hc)) (hs.next ▸ kept_create (hiff.mpr hv) (hne hc))
    · rw [if_neg hv, create_of_not_vacant hv, create_of_not_vacant fun hv' => hv (hiff.mp hv')]
      exact h
  | makeDir l' => exact h.kept (kept_makeDir (hne hc)) (kept_makeDir (hne hc))
  | remove l' => exact h.kept (kept_remove (hne hc)) (kept_remove (hne hc))
  | write i d => exact h.write hc d

/-- A change inside is none outside. -/
theorem SameOutside.apply (h : SameOutside root K w w') (hc : c.Inside root K) :
    SameOutside root (c.knows K w') w (w'.apply c) := by
  have hne : ∀ {l l' : List α}, root <+: l → ¬ root <+: l' → l' ≠ l := fun hl hl' heq => hl' (heq ▸ hl)
  cases c with
  | create l =>
    simp only [FileStore.apply, Change.knows]
    by_cases hv : w'.tree.Vacant l
    · rw [if_pos hv]
      obtain ⟨htree, hnumber, hcontents, -⟩ := create_of_vacant hv
      have hnode : ∀ l', ¬ root <+: l' → (w'.create l).tree.node l' = w'.tree.node l' := by
        intro l' hl'
        rw [htree, Tree.node_insert_of_ne (hne hc hl')]
      refine ⟨fun l' hl' => (hnode l' hl').trans (h.node l' hl'), fun l' hl' => ?_, fun l' hl' hfile => ?_⟩
      · rw [← h.text l' hl', FileStore.text, FileStore.text, hnode l' hl', hnumber, hcontents,
          Function.update_of_ne (hne hc hl')]
        split
        · rename_i hfile
          rw [Function.update_of_ne (w'.fresh l' hfile).ne]
        · rfl
      · rw [hnode l' hl'] at hfile
        rw [hnumber, Function.update_of_ne (hne hc hl'), Set.mem_insert_iff, not_or]
        exact ⟨(w'.fresh l' hfile).ne, h.apart l' hl' hfile⟩
    · rw [if_neg hv, create_of_not_vacant hv]
      exact h
  | makeDir l =>
    have hnode : ∀ l', ¬ root <+: l' → (w'.makeDir l).tree.node l' = w'.tree.node l' :=
      fun l' hl' => Tree.node_insert_of_ne (hne hc hl')
    refine ⟨fun l' hl' => (hnode l' hl').trans (h.node l' hl'), fun l' hl' => ?_, fun l' hl' hfile => ?_⟩
    · rw [← h.text l' hl', FileStore.apply, FileStore.text, FileStore.text, hnode l' hl']
      rfl
    · exact h.apart l' hl' ((hnode l' hl').symm.trans hfile)
  | remove l =>
    have hnode : ∀ l', ¬ root <+: l' → (w'.remove l).tree.node l' = w'.tree.node l' :=
      fun l' hl' => Tree.node_remove_of_ne (hne hc hl')
    refine ⟨fun l' hl' => (hnode l' hl').trans (h.node l' hl'), fun l' hl' => ?_, fun l' hl' hfile => ?_⟩
    · rw [← h.text l' hl', FileStore.apply, FileStore.text, FileStore.text, hnode l' hl']
      rfl
    · exact h.apart l' hl' ((hnode l' hl').symm.trans hfile)
  | write i d =>
    refine ⟨h.node, fun l' hl' => ?_, h.apart⟩
    rw [← h.text l' hl', FileStore.apply, FileStore.text, FileStore.text, write_tree]
    split
    · rename_i hfile
      have hne : w'.number l' ≠ i := fun heq => h.apart l' hl' hfile (heq ▸ hc)
      rw [write_contents, write_number, Function.update_of_ne hne]
    · rfl

end Inside

end FileStore
