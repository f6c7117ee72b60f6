import Mathlib.Algebra.Order.Group.Nat
import Mathlib.Algebra.Order.BigOperators.Group.List
import Mathlib.Data.List.Induction
import Mathlib.Data.List.Nodup

/-!
# File trees with symbolic links

A tree is a finite list of entries, each at a place: the list of the names on the way to it from the top. Only
directories have entries below them, and a symbolic link is a leaf that holds a path. `walk` is the resolution of a
path from a place: it follows the links it meets, at most so many, and the last one only if it is told to.

Removing entries makes a tree smaller in the order `≤`, and what a path leads to in the smaller tree is what it leads
to in the larger one (`Leads.mono`). Where more follows after a directory, the walk goes on there (`Leads.append`), and
what more follows is a directory (`Leads.before`).
-/

namespace FileTree

variable {α : Type*}

/-- One component of a path. -/
inductive Step (α : Type*) where
  | stay
  | up
  | down (name : α)
deriving DecidableEq, Repr

/-- A path, from the top or from where one is. -/
structure Path (α : Type*) where
  absolute : Bool
  steps : List (Step α)
deriving DecidableEq, Repr

/-- What an entry is. -/
inductive Node (α : Type*) where
  | file
  | dir
  | link (target : Path α)
deriving DecidableEq, Repr

/-- A file tree: the entries below its top, which is a directory. -/
structure Tree (α : Type*) where
  entries : List (List α × Node α)
  nodup : (entries.map Prod.fst).Nodup
  rooted : ∀ e ∈ entries, ∃ l a, e.1 = l ++ [a] ∧ (l = [] ∨ (l, Node.dir) ∈ entries)

namespace Tree

variable [DecidableEq α]

/-- What is at a place. -/
def node (t : Tree α) (l : List α) : Option (Node α) :=
  if l = [] then some .dir else (t.entries.find? fun e => e.1 = l).map Prod.snd

/-- The names of the entries of a directory. -/
def names (t : Tree α) (l : List α) : List α :=
  t.entries.filterMap fun e => if e.1.dropLast = l then e.1.getLast? else none

/-- The tree without an entry, if nothing is below it. -/
def remove (t : Tree α) (l : List α) : Tree α :=
  if h : t.names l = [] then
    { entries := t.entries.filter fun e => e.1 ≠ l
      nodup := t.nodup.sublist (List.Sublist.map _ List.filter_sublist)
      rooted := by
        intro e he
        have hmem := (List.mem_filter.mp he).1
        obtain ⟨l', a, hl', hrest⟩ := t.rooted e hmem
        refine ⟨l', a, hl', hrest.imp_right fun hd => List.mem_filter.mpr ⟨hd, ?_⟩⟩
        -- the removed entry has nothing below it, so it is not the directory this entry is in
        have hne : l' ≠ l := by
          rintro rfl
          refine List.ne_nil_of_mem (a := a) (List.mem_filterMap.mpr ⟨e, hmem, ?_⟩) h
          rw [hl', List.dropLast_concat, if_pos rfl, List.getLast?_concat]
        simpa using hne }
  else t

variable {t t' : Tree α} {l : List α} {k : Node α}

@[simp] theorem node_nil : t.node [] = some .dir := if_pos rfl

/-- An entry is what is at its place. -/
theorem node_eq_some_iff (hl : l ≠ []) : t.node l = some k ↔ (l, k) ∈ t.entries := by
  rw [node, if_neg hl, Option.map_eq_some_iff]
  constructor
  · rintro ⟨e, he, rfl⟩
    have hplace : e.1 = l := by simpa using List.find?_some he
    exact hplace ▸ List.mem_of_find?_eq_some he
  · intro hmem
    obtain ⟨e, he⟩ : ∃ e, t.entries.find? (fun e => e.1 = l) = some e := by
      rw [← Option.isSome_iff_exists, List.find?_isSome]
      exact ⟨_, hmem, by simp⟩
    have hplace : e.1 = l := by simpa using List.find?_some he
    exact ⟨e, he, congrArg Prod.snd (List.inj_on_of_nodup_map t.nodup (List.mem_of_find?_eq_some he) hmem hplace)⟩

theorem node_ne_none_iff (hl : l ≠ []) : t.node l ≠ none ↔ ∃ k, (l, k) ∈ t.entries := by
  rw [Option.ne_none_iff_exists']
  exact exists_congr fun k => node_eq_some_iff hl

/-- The names of a directory are those of its entries. -/
theorem mem_names {a : α} : a ∈ t.names l ↔ t.node (l ++ [a]) ≠ none := by
  rw [node_ne_none_iff (by simp), names, List.mem_filterMap]
  constructor
  · rintro ⟨e, hmem, hlast⟩
    obtain ⟨l', b, hl', -⟩ := t.rooted e hmem
    rw [hl', List.dropLast_concat, List.getLast?_concat] at hlast
    split at hlast
    · rename_i heq
      cases hlast
      exact ⟨e.2, by rw [← heq, ← hl']; exact hmem⟩
    · cases hlast
  · rintro ⟨k, hmem⟩
    exact ⟨_, hmem, by rw [List.dropLast_concat, if_pos rfl, List.getLast?_concat]⟩

/-- An entry is in a directory. -/
theorem node_parent {a : α} (h : t.node (l ++ [a]) ≠ none) : t.node l = some .dir := by
  obtain ⟨k, hmem⟩ := (node_ne_none_iff (by simp)).mp h
  obtain ⟨l', b, heq, hl⟩ := t.rooted _ hmem
  obtain ⟨rfl, -⟩ := List.append_inj' heq rfl
  rcases hl with rfl | hd
  · exact node_nil
  · by_cases hl : l = []
    · rw [hl, node_nil]
    · exact (node_eq_some_iff hl).mpr hd

/-- What has something below it is a directory. -/
theorem node_above : ∀ {r : List α}, r ≠ [] → t.node (l ++ r) ≠ none → t.node l = some .dir := by
  intro r
  induction r using List.reverseRecOn with
  | nil => exact fun h _ => absurd rfl h
  | append_singleton r a ih =>
    intro _ h
    rw [← List.append_assoc] at h
    have hparent := node_parent h
    by_cases hr : r = []
    · rwa [hr, List.append_nil] at hparent
    · exact ih hr (by rw [hparent]; exact Option.some_ne_none _)

theorem node_of_below {r : List α} (h : t.node (l ++ r) ≠ none) : t.node l ≠ none := by
  by_cases hr : r = []
  · rwa [hr, List.append_nil] at h
  · rw [node_above hr h]
    exact Option.some_ne_none _

/-- Only a directory has anything below it. -/
theorem names_of_ne_dir (h : t.node l ≠ some .dir) : t.names l = [] :=
  List.eq_nil_iff_forall_not_mem.mpr fun _ ha => h (node_parent (mem_names.mp ha))

/-- The directory above a directory, but not above the root of the process. -/
theorem node_up {root : List α} (hl : t.node l = some .dir) :
    t.node (if l = root then l else l.dropLast) = some .dir := by
  split
  · exact hl
  · rcases List.eq_nil_or_concat l with rfl | ⟨l', a, rfl⟩
    · exact node_nil
    · rw [List.concat_eq_append, List.dropLast_concat]
      exact node_parent (a := a) (by rw [← List.concat_eq_append, hl]; exact Option.some_ne_none _)

/-- A tree ends somewhere. -/
theorem exists_height (t : Tree α) : ∃ h, ∀ l, t.node l ≠ none → l.length ≤ h := by
  refine ⟨(t.entries.map fun e => e.1.length).sum, fun l hl => ?_⟩
  by_cases hnil : l = []
  · simp [hnil]
  · obtain ⟨k, hmem⟩ := (node_ne_none_iff hnil).mp hl
    exact List.le_sum_of_mem (List.mem_map.mpr ⟨_, hmem, rfl⟩)

/-! ## Smaller trees -/

/-- `t' ≤ t`: what is in `t'` is in `t`. -/
instance : Preorder (Tree α) where
  le t' t := ∀ l k, t'.node l = some k → t.node l = some k
  le_refl _ _ _ h := h
  le_trans _ _ _ h h' l k hk := h' l k (h l k hk)

theorem node_of_le (h : t' ≤ t) (hk : t'.node l = some k) : t.node l = some k := h l k hk

theorem node_ne_none_of_le (h : t' ≤ t) (hl : t'.node l ≠ none) : t.node l ≠ none := by
  obtain ⟨k, hk⟩ := Option.ne_none_iff_exists'.mp hl
  rw [node_of_le h hk]
  exact Option.some_ne_none k

theorem node_eq_none_of_le (h : t' ≤ t) (hl : t.node l = none) : t'.node l = none :=
  by_contra fun hne => node_ne_none_of_le h hne hl

/-- Only the entry goes, -/
theorem node_remove_of_ne {l' : List α} (h : l' ≠ l) : (t.remove l).node l' = t.node l' := by
  by_cases hnil : l' = []
  · rw [hnil, node_nil, node_nil]
  · unfold remove
    split
    · ext k
      rw [node_eq_some_iff hnil, node_eq_some_iff hnil, List.mem_filter]
      simp [h]
    · rfl

/-- and it goes if nothing is below it. -/
theorem node_remove_self (hl : l ≠ []) (h : t.names l = []) : (t.remove l).node l = none := by
  by_contra hne
  obtain ⟨k, hk⟩ := (node_ne_none_iff hl).mp hne
  rw [remove, dif_pos h] at hk
  simp at hk

theorem remove_le : t.remove l ≤ t := by
  intro l' k hk
  by_cases heq : l' = l
  · subst heq
    by_cases hnil : l' = []
    · rw [hnil, node_nil] at hk ⊢
      exact hk
    · by_cases h : t.names l' = []
      · cases (node_remove_self hnil h).symm.trans hk
      · rwa [remove, dif_neg h] at hk
  · rwa [node_remove_of_ne heq] at hk

end Tree

/-! ## Walking -/

section Walk

variable [DecidableEq α]

/-- The components of a path, one by one, from the place `cur`; a link that is followed is left to `jump`, with the
components after it. -/
def along (t : Tree α) (root : List α) (follow : Bool) (jump : Path α → List (Step α) → List α → Option (List α)) :
    List (Step α) → List α → Option (List α)
  | [], cur => some cur
  | .stay :: ss, cur => along t root follow jump ss cur
  | .up :: ss, cur => along t root follow jump ss (if cur = root then cur else cur.dropLast)
  | .down a :: ss, cur =>
    match t.node (cur ++ [a]) with
    | none => none
    | some .dir => along t root follow jump ss (cur ++ [a])
    | some .file => if ss = [] then some (cur ++ [a]) else none
    | some (.link target) => if ss = [] ∧ follow = false then some (cur ++ [a]) else jump target ss cur

/-- Where a path leads from the place `cur`, over so many links at most. -/
def walk (t : Tree α) (root : List α) (follow : Bool) : Nat → List (Step α) → List α → Option (List α)
  | 0 => along t root follow fun _ _ _ => none
  | links + 1 => along t root follow fun target ss cur =>
      walk t root follow links (target.steps ++ ss) (if target.absolute then root else cur)

/-- A path leads from the place `cur` to the place `l`: the walk, step by step. -/
inductive Leads (t : Tree α) (root : List α) (follow : Bool) : Nat → List (Step α) → List α → List α → Prop where
  | here {links : Nat} {cur : List α} : Leads t root follow links [] cur cur
  | stay {links : Nat} {ss : List (Step α)} {cur l : List α} (h : Leads t root follow links ss cur l) :
      Leads t root follow links (.stay :: ss) cur l
  | up {links : Nat} {ss : List (Step α)} {cur l : List α}
      (h : Leads t root follow links ss (if cur = root then cur else cur.dropLast) l) :
      Leads t root follow links (.up :: ss) cur l
  | dir {links : Nat} {ss : List (Step α)} {cur l : List α} {a : α} (hn : t.node (cur ++ [a]) = some .dir)
      (h : Leads t root follow links ss (cur ++ [a]) l) : Leads t root follow links (.down a :: ss) cur l
  | file {links : Nat} {cur : List α} {a : α} (hn : t.node (cur ++ [a]) = some .file) :
      Leads t root follow links [.down a] cur (cur ++ [a])
  | leaf {links : Nat} {cur : List α} {a : α} {target : Path α} (hn : t.node (cur ++ [a]) = some (.link target))
      (hf : follow = false) : Leads t root follow links [.down a] cur (cur ++ [a])
  | jump {links : Nat} {ss : List (Step α)} {cur l : List α} {a : α} {target : Path α}
      (hn : t.node (cur ++ [a]) = some (.link target)) (hf : ¬ (ss = [] ∧ follow = false))
      (h : Leads t root follow links (target.steps ++ ss) (if target.absolute then root else cur) l) :
      Leads t root follow (links + 1) (.down a :: ss) cur l

variable {t t' : Tree α} {root cur l d : List α} {follow : Bool} {links : Nat} {ss : List (Step α)}

theorem along_leads {jump : Path α → List (Step α) → List α → Option (List α)}
    (hjump : ∀ {a : α} {target : Path α} {ss : List (Step α)} {cur : List α},
      t.node (cur ++ [a]) = some (.link target) → ¬ (ss = [] ∧ follow = false) →
      (jump target ss cur = some l ↔ Leads t root follow links (.down a :: ss) cur l)) :
    ∀ (ss : List (Step α)) (cur : List α),
      along t root follow jump ss cur = some l ↔ Leads t root follow links ss cur l := by
  intro ss
  induction ss with
  | nil =>
    intro cur
    rw [along, Option.some.injEq]
    constructor
    · rintro rfl
      exact .here
    · rintro ⟨⟩
      rfl
  | cons s ss ih =>
    intro cur
    cases s with
    | stay =>
      rw [along, ih]
      exact ⟨.stay, fun h => by cases h; assumption⟩
    | up =>
      rw [along, ih]
      exact ⟨.up, fun h => by cases h; assumption⟩
    | down a =>
      rw [along]
      split
      · rename_i hn
        exact ⟨fun h => (by cases h), fun h => by cases h <;> simp_all⟩
      · rename_i hn
        rw [ih]
        exact ⟨.dir hn, fun h => by cases h <;> simp_all⟩
      · rename_i hn
        constructor
        · intro h
          split at h
          · rename_i hss
            cases h
            exact hss ▸ .file hn
          · cases h
        · intro h
          cases h <;> simp_all
      · rename_i target hn
        split
        · rename_i hf
          obtain ⟨rfl, hf⟩ := hf
          constructor
          · rintro ⟨⟩
            exact .leaf hn hf
          · intro h
            cases h <;> simp_all
        · rename_i hf
          exact hjump hn hf

/-- The walk and its steps agree. -/
theorem walk_eq_some_iff : walk t root follow links ss cur = some l ↔ Leads t root follow links ss cur l := by
  induction links generalizing ss cur with
  | zero =>
    refine along_leads (fun hn hf => ⟨fun h => (by cases h), fun h => ?_⟩) ss cur
    cases h <;> simp_all
  | succ links ih =>
    refine along_leads (fun hn hf => ?_) ss cur
    rw [ih]
    exact ⟨.jump hn hf, fun h => by cases h <;> simp_all⟩

@[simp] theorem leads_stay : Leads t root follow links (.stay :: ss) cur l ↔ Leads t root follow links ss cur l :=
  ⟨fun h => (by cases h; assumption), .stay⟩

@[simp] theorem leads_up : Leads t root follow links (.up :: ss) cur l ↔
    Leads t root follow links ss (if cur = root then cur else cur.dropLast) l :=
  ⟨fun h => (by cases h; assumption), .up⟩

@[simp] theorem leads_nil : Leads t root follow links [] cur l ↔ l = cur :=
  ⟨fun h => (by cases h; rfl), fun h => h ▸ .here⟩

theorem leads_dir {a : α} (hn : t.node (cur ++ [a]) = some .dir) :
    Leads t root follow links (.down a :: ss) cur l ↔ Leads t root follow links ss (cur ++ [a]) l := by
  constructor
  · intro h
    cases h <;> simp_all
  · exact .dir hn

theorem leads_jump {a : α} {target : Path α} (hn : t.node (cur ++ [a]) = some (.link target))
    (hf : ¬ (ss = [] ∧ follow = false)) : Leads t root follow (links + 1) (.down a :: ss) cur l ↔
      Leads t root follow links (target.steps ++ ss) (if target.absolute then root else cur) l := by
  constructor
  · intro h
    cases h <;> simp_all
  · exact .jump hn hf

/-- Down from a directory to what is below it. -/
theorem leads_downs : ∀ {l cur : List α}, t.node (cur ++ l) = some .dir →
    Leads t root follow links (l.map .down) cur (cur ++ l) := by
  intro l
  induction l with
  | nil =>
    intro cur _
    rw [List.append_nil]
    exact .here
  | cons n l ih =>
    intro cur h
    rw [← List.singleton_append, ← List.append_assoc] at h ⊢
    have hn : t.node (cur ++ [n]) = some .dir := by
      by_cases hl : l = []
      · rwa [hl, List.append_nil] at h
      · exact Tree.node_above hl (by rw [h]; exact Option.some_ne_none _)
    exact .dir hn (ih h)

/-- What a path leads to in a smaller tree it leads to in the larger one. -/
theorem Leads.mono (hle : t' ≤ t) (h : Leads t' root follow links ss cur l) : Leads t root follow links ss cur l := by
  induction h with
  | here => exact .here
  | stay _ ih => exact .stay ih
  | up _ ih => exact .up ih
  | dir hn _ ih => exact .dir (Tree.node_of_le hle hn) ih
  | file hn => exact .file (Tree.node_of_le hle hn)
  | leaf hn hf => exact .leaf (Tree.node_of_le hle hn) hf
  | jump hn hf _ ih => exact .jump (Tree.node_of_le hle hn) hf ih

/-- A path that does not end at a link leads to the same place when the last link is followed. -/
theorem Leads.followed (h : Leads t root false links ss cur l) (hl : ∀ target, t.node l ≠ some (.link target)) :
    Leads t root true links ss cur l := by
  induction h with
  | here => exact .here
  | stay _ ih => exact .stay (ih hl)
  | up _ ih => exact .up (ih hl)
  | dir hn _ ih => exact .dir hn (ih hl)
  | file hn => exact .file hn
  | leaf hn => exact absurd hn (hl _)
  | jump hn _ _ ih => exact .jump hn (fun h => by cases h.2) (ih hl)

/-- A path that is followed leads to its place as such, or ends at a link. -/
theorem Leads.unfollowed (h : Leads t root true links ss cur l) :
    Leads t root false links ss cur l ∨
      ∃ l' target, Leads t root false links ss cur l' ∧ t.node l' = some (.link target) := by
  induction h with
  | here => exact .inl .here
  | stay _ ih => exact ih.imp .stay fun ⟨l', target, h, hn⟩ => ⟨l', target, .stay h, hn⟩
  | up _ ih => exact ih.imp .up fun ⟨l', target, h, hn⟩ => ⟨l', target, .up h, hn⟩
  | dir hn _ ih => exact ih.imp (.dir hn) fun ⟨l', target, h, hn'⟩ => ⟨l', target, .dir hn h, hn'⟩
  | file hn => exact .inl (.file hn)
  | leaf _ hf => cases hf
  | @jump links ss cur l a target hn _ _ ih =>
    by_cases hss : ss = []
    · subst hss
      exact .inr ⟨_, target, .leaf hn rfl, hn⟩
    · have hf : ¬ (ss = [] ∧ false = false) := fun h => hss h.1
      exact ih.imp (.jump hn hf) fun ⟨l', target', h, hn'⟩ => ⟨l', target', .jump hn hf h, hn'⟩

/-- From a directory, walking does not leave the tree. -/
theorem Leads.node_ne_none (h : Leads t root follow links ss cur l) (hroot : t.node root = some .dir)
    (hcur : t.node cur = some .dir) : t.node l ≠ none := by
  induction h with
  | here => exact hcur ▸ Option.some_ne_none _
  | stay _ ih => exact ih hcur
  | up _ ih => exact ih (Tree.node_up hcur)
  | dir hn _ ih => exact ih hn
  | file hn => exact hn ▸ Option.some_ne_none _
  | leaf hn => exact hn ▸ Option.some_ne_none _
  | @jump _ _ _ _ _ target _ _ _ ih =>
    apply ih
    split <;> assumption

/-- What more of a path follows is a directory. -/
theorem Leads.before (h : Leads t root follow links ss cur l) (hroot : t.node root = some .dir) :
    ∀ {ms : List (Step α)} {m : Step α} {rest : List (Step α)}, ss = ms ++ m :: rest → t.node cur = some .dir →
      ∃ d, Leads t root true links ms cur d ∧ t.node d = some .dir := by
  induction h with
  | here => exact fun heq => absurd heq (by simp)
  | @stay _ _ cur _ _ ih =>
    intro ms m rest heq hcur
    cases ms with
    | nil => exact ⟨cur, .here, hcur⟩
    | cons m' ms =>
      cases heq
      obtain ⟨d, hd, hdir⟩ := ih rfl hcur
      exact ⟨d, .stay hd, hdir⟩
  | @up _ _ cur _ _ ih =>
    intro ms m rest heq hcur
    cases ms with
    | nil => exact ⟨cur, .here, hcur⟩
    | cons m' ms =>
      cases heq
      obtain ⟨d, hd, hdir⟩ := ih rfl (Tree.node_up hcur)
      exact ⟨d, .up hd, hdir⟩
  | @dir _ _ cur _ _ hn _ ih =>
    intro ms m rest heq hcur
    cases ms with
    | nil => exact ⟨cur, .here, hcur⟩
    | cons m' ms =>
      cases heq
      obtain ⟨d, hd, hdir⟩ := ih rfl hn
      exact ⟨d, .dir hn hd, hdir⟩
  | @file _ cur _ _ =>
    intro ms m rest heq hcur
    cases ms with
    | nil => exact ⟨cur, .here, hcur⟩
    | cons m' ms => simp at heq
  | @leaf _ cur _ _ _ _ =>
    intro ms m rest heq hcur
    cases ms with
    | nil => exact ⟨cur, .here, hcur⟩
    | cons m' ms => simp at heq
  | @jump _ _ cur _ _ target hn _ _ ih =>
    intro ms m rest heq hcur
    cases ms with
    | nil => exact ⟨cur, .here, hcur⟩
    | cons m' ms =>
      cases heq
      have hstart : t.node (if target.absolute then root else cur) = some .dir := by split <;> assumption
      obtain ⟨d, hd, hdir⟩ := ih (List.append_assoc ..).symm hstart
      exact ⟨d, .jump hn (fun h => by cases h.2) hd, hdir⟩

/-- Where more follows after a directory, the walk goes on there, with the links that are left. -/
theorem Leads.append (h : Leads t root true links ss cur d) (hd : t.node d = some .dir) :
    ∃ left, ∀ (follow : Bool) (ms : List (Step α)) (l : List α), ms ≠ [] →
      (Leads t root follow links (ss ++ ms) cur l ↔ Leads t root follow left ms d l) := by
  induction h with
  | @here links _ => exact ⟨links, fun _ _ _ _ => Iff.rfl⟩
  | stay _ ih =>
    obtain ⟨left, hleft⟩ := ih hd
    exact ⟨left, fun follow ms l hms => leads_stay.trans (hleft follow ms l hms)⟩
  | up _ ih =>
    obtain ⟨left, hleft⟩ := ih hd
    exact ⟨left, fun follow ms l hms => leads_up.trans (hleft follow ms l hms)⟩
  | dir hn _ ih =>
    obtain ⟨left, hleft⟩ := ih hd
    exact ⟨left, fun follow ms l hms => (leads_dir hn).trans (hleft follow ms l hms)⟩
  | file hn => cases hn.symm.trans hd
  | leaf hn => cases hn.symm.trans hd
  | jump hn _ _ ih =>
    obtain ⟨left, hleft⟩ := ih hd
    refine ⟨left, fun follow ms l hms => Iff.trans ?_ (hleft follow ms l hms)⟩
    rw [List.append_assoc]
    exact leads_jump hn fun h => hms (List.append_eq_nil_iff.mp h.1).2

/-- What stands before an empty component is a directory. -/
theorem Leads.before_stay {ms : List (Step α)} (h : Leads t root follow links (ms ++ [.stay]) cur l)
    (hroot : t.node root = some .dir) (hcur : t.node cur = some .dir) :
    Leads t root true links ms cur l ∧ t.node l = some .dir := by
  obtain ⟨d, hd, hdir⟩ := h.before hroot rfl hcur
  obtain ⟨left, hleft⟩ := hd.append hdir
  obtain rfl : l = d := leads_nil.mp (leads_stay.mp ((hleft follow _ l (by simp)).mp h))
  exact ⟨hd, hdir⟩

theorem Leads.before_stays {ms : List (Step α)} (hroot : t.node root = some .dir) (hcur : t.node cur = some .dir)
    (k : Nat) : ∀ {follow : Bool}, Leads t root follow links (ms ++ List.replicate (k + 1) .stay) cur l →
      Leads t root true links ms cur l ∧ t.node l = some .dir := by
  induction k with
  | zero => exact fun h => h.before_stay hroot hcur
  | succ k ih =>
    intro follow h
    rw [List.replicate_succ', ← List.append_assoc] at h
    exact ih (h.before_stay hroot hcur).1

/-- Empty components lead nowhere else. -/
theorem leads_stays {k : Nat} : Leads t root follow links (List.replicate k .stay) cur l ↔ l = cur := by
  induction k with
  | zero => exact leads_nil
  | succ k ih => exact leads_stay.trans ih

/-! ### One more component -/

theorem leads_down {a : α} : Leads t root false links [.down a] d l ↔ l = d ++ [a] ∧ t.node (d ++ [a]) ≠ none := by
  constructor
  · intro h
    cases h with
    | dir hn h =>
      cases h
      exact ⟨rfl, by rw [hn]; exact Option.some_ne_none _⟩
    | file hn => exact ⟨rfl, by rw [hn]; exact Option.some_ne_none _⟩
    | leaf hn => exact ⟨rfl, by rw [hn]; exact Option.some_ne_none _⟩
    | jump _ hf => exact absurd ⟨rfl, rfl⟩ hf
  · rintro ⟨rfl, hn⟩
    obtain ⟨k, hk⟩ := Option.ne_none_iff_exists'.mp hn
    cases k with
    | file => exact .file hk
    | dir => exact .dir hk .here
    | link target => exact .leaf hk rfl

/-- A path whose last component is a name leads to an entry of that name. -/
theorem Leads.concat {ms : List (Step α)} {a : α} (h : Leads t root false links (ms ++ [.down a]) cur l)
    (hroot : t.node root = some .dir) (hcur : t.node cur = some .dir) : ∃ d, l = d ++ [a] := by
  obtain ⟨d, hd, hdir⟩ := h.before hroot rfl hcur
  obtain ⟨left, hleft⟩ := hd.append hdir
  exact ⟨d, (leads_down.mp ((hleft false _ l (by simp)).mp h)).1⟩

end Walk

end FileTree
