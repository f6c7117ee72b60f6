import CftpServer.Session.DeleTarget

/-!
# A recursive delete is complete

The loop of `delete_directory_recursively` removes entries of the directory whose names it goes through. The names are
those from when the directory was opened, and removing an entry takes away what is below it, and nothing of the others.

* `deleteEntries_cleared`: the loop takes away what is below the names it is given
* `deletes_tree`: a call takes away a directory and what is below it
* `recursive_delete_complete`: where nothing is refused, all of the tree goes; and it is all gone if the result is 0
-/

namespace CftpServer.Session

open CLib FileTree

variable {env : Env Disk} {permits : Disk → Proc → Call → Bool} {t t' : Disk} {p : Proc} {path : Bytes}
  {e r : List Name} {A B : List Name → Prop} {s : Session Disk} {res : Bool × Session Disk}

/-- Every call on the tree of the entry `e` is permitted: whatever of it is gone, a call by the path of an entry that is
still there is not refused. -/
structure Permitted (system : Env Disk) (t : Disk) (p : Proc) (path : Bytes) (e : List Name) : Prop where
  opendir : ∀ t' r, Shrunk (e <+: ·) t t' → t'.node (e ++ r) = some .dir → system.opendir t' p (pathTo path r) ≠ none
  lstat : ∀ t' r, r ≠ [] → Shrunk (e <+: ·) t t' → t'.node (e ++ r) ≠ none → system.lstat t' p (pathTo path r) ≠ none
  unlink : ∀ t' r, Shrunk (e <+: ·) t t' → t'.node (e ++ r) ≠ none → t'.node (e ++ r) ≠ some .dir →
    system.unlink t' p (pathTo path r) = true
  rmdir : ∀ t' r, Shrunk (e <+: ·) t t' → t'.node (e ++ r) = some .dir → t'.names (e ++ r) = [] →
    system.rmdir t' p (pathTo path r) = true

/-- The entry `e` that a path names is a directory, of whose tree every path fits, and every call is permitted. -/
structure Deletable (system : Env Disk) (t : Disk) (p : Proc) (path : Bytes) (e : List Name) : Prop where
  entry : entryOf t p path = some e
  dir : t.node e = some .dir
  fits : ∀ r, t.node (e ++ r) ≠ none → (pathTo path r).length < PATH_MAX
  permitted : Permitted system t p path e

/-- It is enough that nothing is refused, and that the path names the entry as long as this is there. -/
theorem Permitted.of_steady (hpermits : ∀ t' c, permits t' p c = true) (hname : EndsInName path)
    (hdir : t.node e = some .dir) (hfits : ∀ r, t.node (e ++ r) ≠ none → (pathTo path r).length < PATH_MAX)
    (hsteady : ∀ t', Shrunk (e <+: ·) t t' → t'.node e = some .dir → entryOf t' p path = some e) :
    Permitted (onDisk env permits) t p path e := by
  have hroot : ∀ {t' : Disk} {r : List Name}, Shrunk (e <+: ·) t t' → t'.node (e ++ r) ≠ none →
      entryOf t' p path = some e ∧ resolve t' p true path = some e ∧ (pathTo path r).length < PATH_MAX := by
    intro t' r hk hr
    have hdir' : t'.node e = some .dir := by
      obtain ⟨k, hk'⟩ := Option.ne_none_iff_exists'.mp (Tree.node_of_below hr)
      rw [hk', ← Tree.node_of_le hk.le hk', hdir]
    have hentry := hsteady t' hk hdir'
    exact ⟨hentry, resolve_of_entryOf hentry hdir', hfits r (Tree.node_ne_none_of_le hk.le hr)⟩
  have hentry : ∀ {t' : Disk} {r : List Name} {n : Name}, Shrunk (e <+: ·) t t' → t'.node (e ++ (r ++ [n])) ≠ none →
      resolve t' p false (pathTo path (r ++ [n])) = some (e ++ (r ++ [n])) := by
    intro t' r n hk hn
    obtain ⟨-, hres, hlen⟩ := hroot hk hn
    rw [(entry_on_way hres rfl hn hlen).2.2.1, List.append_assoc]
  refine ⟨fun t' r hk hr => ?_, fun t' r hne hk hr => ?_, fun t' r hk hr hnodir => ?_, fun t' r hk hr hnames => ?_⟩
  · obtain ⟨-, hres, hlen⟩ := hroot hk (by rw [hr]; exact Option.some_ne_none _)
    have hlisted : listed t' p (pathTo path r) = some (t'.names (e ++ r)) :=
      listed_eq_some_iff.mpr ⟨_, resolve_pathTo hres hr hlen, hr, rfl⟩
    simp [onDisk, hpermits, hlisted]
  · rcases List.eq_nil_or_concat r with rfl | ⟨r, n, rfl⟩
    · exact absurd rfl hne
    · rw [List.concat_eq_append] at hr ⊢
      obtain ⟨k, hk'⟩ := Option.ne_none_iff_exists'.mp hr
      simp [lstat_onDisk, hpermits, found_eq_some_iff.mpr ⟨_, hentry hk hr, hk'⟩]
  · rcases List.eq_nil_or_concat r with rfl | ⟨r, n, rfl⟩
    · rw [List.append_nil] at hr hnodir
      obtain ⟨k, hk'⟩ := Option.ne_none_iff_exists'.mp hr
      exact absurd (by rw [hk', ← Tree.node_of_le hk.le hk', hdir]) hnodir
    · rw [List.concat_eq_append] at hr hnodir ⊢
      simp [onDisk, hpermits, unlinks_eq_some_iff.mpr ⟨hentry hk hr, hr, hnodir⟩]
  · have hthere : t'.node (e ++ r) ≠ none := by
      rw [hr]
      exact Option.some_ne_none _
    have hrmdirs : rmdirs t' p (pathTo path r) = some (e ++ r) := by
      rcases List.eq_nil_or_concat r with rfl | ⟨r, n, rfl⟩
      · rw [List.append_nil] at hr hnames ⊢
        rw [pathTo_nil]
        exact rmdirs_eq_some_iff.mpr ⟨hname, hsteady t' hk hr, hr, hnames⟩
      · rw [List.concat_eq_append] at hr hnames hthere ⊢
        refine rmdirs_eq_some_iff.mpr ⟨?_, ?_, hr, hnames⟩
        · rw [pathTo_concat]
          exact endsInName_child _ n
        · rw [pathTo_concat, entryOf_child, ← pathTo_concat]
          exact hentry hk hthere
    simp [onDisk, hpermits, hrmdirs]

/-! ## What goes -/

/-- A part of a deletion from `s` on: it succeeds, the places in `A` are empty after it, and the others as they were. -/
structure Cleared (A : List Name → Prop) (s : Session Disk) (res : Bool × Session Disk) : Prop where
  ok : res.1 = true
  ended : res.2.ended = s.ended
  proc : res.2.proc = s.proc
  gone : ∀ l, A l → res.2.os.node l = none
  kept : ∀ l, ¬ A l → res.2.os.node l = s.os.node l

theorem Cleared.le (h : Cleared A s res) : res.2.os ≤ s.os := by
  intro l k hk
  by_cases hl : A l
  · cases (h.gone l hl).symm.trans hk
  · exact (h.kept l hl).symm.trans hk

/-- One part after the other. -/
theorem Cleared.then {res' : Bool × Session Disk} (h : Cleared A s res) (h' : Cleared B res.2 res') :
    Cleared (fun l => A l ∨ B l) s res' where
  ok := h'.ok
  ended := h'.ended.trans h.ended
  proc := h'.proc.trans h.proc
  gone l hl := by
    by_cases hB : B l
    · exact h'.gone l hB
    · rw [h'.kept l hB]
      exact h.gone l (hl.resolve_right hB)
  kept l hl := by
    rw [h'.kept l fun hB => hl (.inr hB), h.kept l fun hA => hl (.inl hA)]

/-- An entry that is removed, with nothing below it. -/
theorem Cleared.remove {l : List Name} (hok : res.1 = true) (hended : res.2.ended = s.ended)
    (hproc : res.2.proc = s.proc) (hl : l ≠ []) (hnames : s.os.names l = []) (hos : res.2.os = s.os.remove l) :
    Cleared (l <+: ·) s res where
  ok := hok
  ended := hended
  proc := hproc
  gone l' hl' := by
    obtain ⟨r, rfl⟩ := hl'
    by_contra hne
    rw [hos] at hne
    exact Tree.node_of_below hne (Tree.node_remove_self hl hnames)
  kept l' hl' := by
    rw [hos]
    refine Tree.node_remove_of_ne fun heq => hl' ?_
    rw [heq]

/-- The process is on what is left of the tree, and runs. -/
structure Clearing (t : Disk) (p : Proc) (e : List Name) (s : Session Disk) : Prop
    extends Keeps (e <+: ·) t p s where
  ended : s.ended = none

theorem Clearing.cleared (h : Clearing t p e s) (hc : Cleared A s res) (hA : ∀ l, A l → e <+: l) :
    Clearing t p e res.2 := by
  refine ⟨⟨⟨hc.le.trans h.shrunk.le, fun l hl => ?_⟩, hc.proc.trans h.proc⟩, hc.ended.trans h.ended⟩
  by_cases hAl : A l
  · exact hA l hAl
  · rw [hc.kept l hAl] at hl
    exact h.shrunk.changed l hl

/-! ## The calls -/

section Calls

variable (h : Deletable (onDisk env permits) t p path e)
include h

/-- The paths of the tree, as its entries name them. -/
theorem Deletable.resolve_dir (hle : t' ≤ t) (hr : t.node (e ++ r) = some .dir) {l : List Name}
    (hl : resolve t' p true (pathTo path r) = some l) : l = e ++ r := by
  have hd := resolve_pathTo (resolve_of_entryOf h.entry h.dir) hr
    (h.fits r (by rw [hr]; exact Option.some_ne_none _))
  exact Option.some.inj ((resolve_mono hle hl).symm.trans hd)

theorem Deletable.resolve_entry (hle : t' ≤ t) {n : Name} (hn : t.node (e ++ (r ++ [n])) ≠ none) {l : List Name}
    (hl : resolve t' p false (pathTo path (r ++ [n])) = some l) : l = e ++ (r ++ [n]) := by
  obtain ⟨-, -, hentry, -⟩ := entry_on_way (resolve_of_entryOf h.entry h.dir) rfl hn (h.fits _ hn)
  rw [← List.append_assoc]
  exact Option.some.inj ((resolve_mono hle hl).symm.trans hentry)

theorem Deletable.childPath {n : Name} (hn : t.node (e ++ (r ++ [n])) ≠ none) :
    childPath (pathTo path r) n.val = pathTo path (r ++ [n]) :=
  (entry_on_way (resolve_of_entryOf h.entry h.dir) rfl hn (h.fits _ hn)).1

/-- `opendir` of a directory that is there gives the names of its entries. -/
theorem Deletable.opendir (hk : Shrunk (e <+: ·) t t') (hr : t'.node (e ++ r) = some .dir) :
    (onDisk env permits).opendir t' p (pathTo path r) =
      some (ascii "." :: ascii ".." :: (t'.names (e ++ r)).map Subtype.val) := by
  obtain ⟨names, hnames⟩ := Option.ne_none_iff_exists'.mp (h.permitted.opendir t' r hk hr)
  rw [hnames]
  simp only [onDisk] at hnames
  split at hnames
  · obtain ⟨listing, hlisted, rfl⟩ := Option.map_eq_some_iff.mp hnames
    obtain ⟨l, hl, -, rfl⟩ := listed_eq_some_iff.mp hlisted
    rw [h.resolve_dir hk.le (Tree.node_of_le hk.le hr) hl]
  · cases hnames

/-- `lstat` sees what is there. -/
theorem Deletable.lstat (hk : Shrunk (e <+: ·) t t') {n : Name} (hn : t.node (e ++ (r ++ [n])) ≠ none) :
    (onDisk env permits).lstat t' p (pathTo path (r ++ [n])) = (t'.node (e ++ (r ++ [n]))).map statOf := by
  have hfound : ∀ st, (onDisk env permits).lstat t' p (pathTo path (r ++ [n])) = some st →
      (t'.node (e ++ (r ++ [n]))).map statOf = some st := by
    intro st hst
    rw [lstat_onDisk] at hst
    split at hst
    · obtain ⟨k, hk', rfl⟩ := Option.map_eq_some_iff.mp hst
      obtain ⟨l, hl, hnode⟩ := found_eq_some_iff.mp hk'
      rw [← h.resolve_entry hk.le hn hl, hnode, Option.map_some]
    · cases hst
  cases hst : (onDisk env permits).lstat t' p (pathTo path (r ++ [n])) with
  | some st => exact (hfound st hst).symm
  | none =>
    by_contra hne
    refine h.permitted.lstat t' (r ++ [n]) (by simp) hk (fun hnone => hne ?_) hst
    rw [hnone, Option.map_none]

/-- `unlink` removes what is there, and no directory. -/
theorem Deletable.unlink (hs : Clearing t p e s) {n : Name} {k : Node Name} (hk : s.os.node (e ++ (r ++ [n])) = some k)
    (hdir : k ≠ .dir) :
    Cleared (e ++ (r ++ [n]) <+: ·) s (sysUnlink (onDisk env permits) (pathTo path (r ++ [n])) s) := by
  have hthere : s.os.node (e ++ (r ++ [n])) ≠ none := by
    rw [hk]
    exact Option.some_ne_none k
  have hnodir : s.os.node (e ++ (r ++ [n])) ≠ some .dir := by
    rw [hk]
    exact fun heq => hdir (Option.some.inj heq)
  have hok := h.permitted.unlink s.os (r ++ [n]) hs.shrunk hthere hnodir
  have hfst : (sysUnlink (onDisk env permits) (pathTo path (r ++ [n])) s).1 = true := by
    rw [← hs.proc] at hok
    exact hok
  simp only [onDisk, Bool.and_eq_true] at hok
  obtain ⟨hpermits, hunlinks⟩ := hok
  obtain ⟨l, hl⟩ := Option.isSome_iff_exists.mp hunlinks
  obtain rfl : l = e ++ (r ++ [n]) :=
    h.resolve_entry hs.shrunk.le (Tree.node_ne_none_of_le hs.shrunk.le hthere) (unlinks_eq_some_iff.mp hl).1
  exact .remove hfst rfl rfl (by simp) (Tree.names_of_ne_dir hnodir) (unlink_removes rfl hs.proc hl hpermits)

/-- `rmdir` removes a directory that is empty. -/
theorem Deletable.rmdir (hs : Clearing t p e s) (hr : s.os.node (e ++ r) = some .dir)
    (hnames : s.os.names (e ++ r) = []) :
    Cleared (e ++ r <+: ·) s (sysRmdir (onDisk env permits) (pathTo path r) s) := by
  have hok := h.permitted.rmdir s.os r hs.shrunk hr hnames
  have hfst : (sysRmdir (onDisk env permits) (pathTo path r) s).1 = true := by
    rw [← hs.proc] at hok
    exact hok
  simp only [onDisk, Bool.and_eq_true] at hok
  obtain ⟨hpermits, hrmdirs⟩ := hok
  obtain ⟨l, hl⟩ := Option.isSome_iff_exists.mp hrmdirs
  obtain ⟨-, hentry, hdir, -⟩ := rmdirs_eq_some_iff.mp hl
  obtain rfl : l = e ++ r :=
    h.resolve_dir hs.shrunk.le (Tree.node_of_le hs.shrunk.le hr) (resolve_of_entryOf hentry hdir)
  exact .remove hfst rfl rfl (rmdirs_ne_nil hl) hnames (rmdir_removes rfl hs.proc hl hpermits)

/-- A directory whose entries are taken away is empty, and goes. -/
theorem Deletable.rmdir_emptied (hs : Clearing t p e s) (hr : s.os.node (e ++ r) = some .dir)
    (hc : Cleared (fun l => ∃ n ∈ s.os.names (e ++ r), e ++ (r ++ [n]) <+: l) s res) :
    Cleared (e ++ r <+: ·) s (sysRmdir (onDisk env permits) (pathTo path r) res.2) := by
  have hbelow : ∀ l, (∃ n ∈ s.os.names (e ++ r), e ++ (r ++ [n]) <+: l) → e ++ r <+: l := by
    rintro l ⟨n, -, hl⟩
    rw [← List.append_assoc] at hl
    exact (List.prefix_append ..).trans hl
  have hs' : Clearing t p e res.2 := hs.cleared hc fun l hl => (List.prefix_append ..).trans (hbelow l hl)
  have hdir : res.2.os.node (e ++ r) = some .dir := by
    rw [hc.kept, hr]
    rintro ⟨n, -, hl⟩
    have := hl.length_le
    simp at this
  have hempty : res.2.os.names (e ++ r) = [] := by
    refine List.eq_nil_iff_forall_not_mem.mpr fun n hn => Tree.mem_names.mp hn ?_
    refine hc.gone _ ⟨n, Tree.mem_names.mpr ?_, by rw [List.append_assoc]⟩
    exact Tree.node_ne_none_of_le hc.le (Tree.mem_names.mp hn)
  obtain ⟨hok, hended, hproc, hgone, hkept⟩ := hc.then (h.rmdir hs' hdir hempty)
  refine ⟨hok, hended, hproc, fun l hl => hgone l (.inr hl), fun l hl => hkept l fun hor => hl ?_⟩
  exact hor.elim (hbelow l) id

end Calls

/-! ## The loop and the recursion -/

section Deletion

variable (h : Deletable (onDisk env permits) t p path e)
include h

/-- **The loop** takes away the entries whose names it is given, with all that is below them. -/
theorem deleteEntries_cleared {sub : Bytes → Session Disk → Bool × Session Disk}
    (hsub : ∀ (n : Name) (s : Session Disk), Clearing t p e s → s.os.node (e ++ (r ++ [n])) = some .dir →
      Cleared (e ++ (r ++ [n]) <+: ·) s (sub (pathTo path (r ++ [n])) s)) (names : List Name) :
    (∀ n ∈ names, t.node (e ++ (r ++ [n])) ≠ none) → ∀ {s : Session Disk}, Clearing t p e s →
      Cleared (fun l => ∃ n ∈ names, e ++ (r ++ [n]) <+: l) s
        (deleteEntries (onDisk env permits) sub (pathTo path r) (names.map Subtype.val) s) := by
  induction names with
  | nil =>
    intro _ s _
    exact ⟨rfl, rfl, rfl, fun _ ⟨_, hn, _⟩ => (List.not_mem_nil hn).elim, fun _ _ => rfl⟩
  | cons n names ih =>
    intro hthere s hs
    have ih := fun {s : Session Disk} => @ih (fun m hm => hthere m (List.mem_cons_of_mem _ hm)) s
    have hn := hthere n List.mem_cons_self
    have hdots : n.val ≠ ascii "." ∧ n.val ≠ ascii ".." := n.property.2.2
    have hchild := h.childPath hn
    have hlstat := h.lstat hs.shrunk hn
    rw [← hchild, ← hs.proc] at hlstat
    rw [List.map_cons]
    cases hk : s.os.node (e ++ (r ++ [n])) with
    | none =>
      -- it is gone already, and so is what was below it
      rw [hk, Option.map_none] at hlstat
      rw [deleteEntries_unseen hdots hlstat]
      obtain ⟨hok, hended, hproc, hgone, hkept⟩ :=
        ih (s := call (onDisk env permits) (.lstat _) s) ⟨⟨hs.shrunk, hs.proc⟩, hs.ended⟩
      refine ⟨hok, hended, hproc, fun l hl => ?_, fun l hl => hkept l fun ⟨m, hm, hml⟩ =>
        hl ⟨m, List.mem_cons_of_mem _ hm, hml⟩⟩
      by_cases hrest : ∃ m ∈ names, e ++ (r ++ [m]) <+: l
      · exact hgone l hrest
      · obtain ⟨m, hm, w, rfl⟩ := hl
        rw [hkept _ hrest]
        obtain rfl : m = n := (List.mem_cons.mp hm).resolve_right fun hm => hrest ⟨m, hm, List.prefix_append ..⟩
        by_contra hne
        exact Tree.node_of_below hne hk
    | some k =>
      rw [hk, Option.map_some] at hlstat
      rw [deleteEntries_seen hdots hlstat, hchild]
      have hs₁ : Clearing t p e (call (onDisk env permits) (.lstat (pathTo path (r ++ [n]))) s) :=
        ⟨⟨hs.shrunk, hs.proc⟩, hs.ended⟩
      -- the entry, then the rest of the names
      have hrest : ∀ {res : Bool × Session Disk},
          Cleared (e ++ (r ++ [n]) <+: ·) (call (onDisk env permits) (.lstat (pathTo path (r ++ [n]))) s) res →
          Cleared (fun l => ∃ m ∈ n :: names, e ++ (r ++ [m]) <+: l) s
            (deleteEntries (onDisk env permits) sub (pathTo path r) (names.map Subtype.val) res.2) := by
        intro res hres
        have hboth := hres.then (ih (hs₁.cleared hres fun l hl => (List.prefix_append ..).trans hl))
        refine ⟨hboth.ok, hboth.ended, hboth.proc, fun l hl => hboth.gone l ?_, fun l hl => hboth.kept l ?_⟩
        · obtain ⟨m, hm, hml⟩ := hl
          rcases List.mem_cons.mp hm with rfl | hm
          · exact .inl hml
          · exact .inr ⟨m, hm, hml⟩
        · rintro (hnl | ⟨m, hm, hml⟩)
          · exact hl ⟨n, List.mem_cons_self, hnl⟩
          · exact hl ⟨m, List.mem_cons_of_mem _ hm, hml⟩
      unfold deleteEntry
      split
      · rename_i hdir
        rw [statOf_isDir] at hdir
        have hcleared := hsub n _ hs₁ (hdir ▸ hk)
        rw [if_pos hcleared.ok]
        exact hrest hcleared
      · rename_i hdir
        rw [statOf_isDir] at hdir
        exact hrest (h.unlink hs₁ hk hdir)

/-- **A call** takes away a directory of the tree with all that is below it, by induction on the height that is left. -/
theorem deletes_tree (depth : Nat) : ∀ {r : List Name} {s : Session Disk}, Clearing t p e s →
    s.os.node (e ++ r) = some .dir → (∀ l, t.node l ≠ none → l.length < (e ++ r).length + depth) →
      Cleared (e ++ r <+: ·) s (deleteDirectoryRecursively (onDisk env permits) depth (pathTo path r) s) := by
  induction depth with
  | zero =>
    intro r s hs hr hheight
    refine absurd (hheight (e ++ r) ?_) (by omega)
    rw [Tree.node_of_le hs.shrunk.le hr]
    exact Option.some_ne_none _
  | succ depth ih =>
    intro r s hs hr hheight
    have hopendir := h.opendir hs.shrunk hr
    rw [← hs.proc] at hopendir
    have hs₁ : Clearing t p e (opened (onDisk env permits) (pathTo path r) s) := ⟨⟨hs.shrunk, hs.proc⟩, hs.ended⟩
    have hthere : ∀ n ∈ s.os.names (e ++ r), t.node (e ++ (r ++ [n])) ≠ none := by
      intro n hn
      rw [← List.append_assoc]
      exact Tree.node_ne_none_of_le hs.shrunk.le (Tree.mem_names.mp hn)
    have hentries : Cleared (fun l => ∃ n ∈ s.os.names (e ++ r), e ++ (r ++ [n]) <+: l)
        (opened (onDisk env permits) (pathTo path r) s)
        (deleteEntries (onDisk env permits) (deleteDirectoryRecursively (onDisk env permits) depth) (pathTo path r)
          (ascii "." :: ascii ".." :: (s.os.names (e ++ r)).map Subtype.val)
          (opened (onDisk env permits) (pathTo path r) s)) := by
      rw [deleteEntries_dots (.inl rfl), deleteEntries_dots (.inr rfl)]
      refine deleteEntries_cleared h (fun n s hs hn => ih hs hn fun l hl => ?_) _ hthere hs₁
      have := hheight l hl
      simp only [List.length_append, List.length_cons, List.length_nil] at this ⊢
      omega
    rw [deleteDirectoryRecursively_succ hopendir rfl]
    generalize deleteEntries (onDisk env permits) (deleteDirectoryRecursively (onDisk env permits) depth)
      (pathTo path r) (ascii "." :: ascii ".." :: (s.os.names (e ++ r)).map Subtype.val)
      (opened (onDisk env permits) (pathTo path r) s) = res at hentries ⊢
    have hended : res.2.ended = none := hentries.ended.trans hs.ended
    rw [if_neg (by simp [hended]), if_pos hentries.ok]
    have hclosed : Cleared (fun l => ∃ n ∈ s.os.names (e ++ r), e ++ (r ++ [n]) <+: l) s
        (true, closeFd (onDisk env permits) s.nextId res.2) := by
      refine ⟨rfl, (closeFd_ended _ _ _).trans hentries.ended, closeFd_proc.trans hentries.proc, fun l hl => ?_,
        fun l hl => ?_⟩
      · rw [closeFd_os]
        exact hentries.gone l hl
      · rw [closeFd_os]
        exact hentries.kept l hl
    exact h.rmdir_emptied hs hr hclosed

end Deletion

/-- What a deletion that succeeds leaves nothing of. -/
theorem nothing_left (hos : s.os = t) (hproc : s.proc = p) {depth : Nat}
    (hok : (deleteDirectoryRecursively (onDisk env permits) depth path s).1 = true) :
    ∃ e, entryOf t p path = some e ∧ t.node e = some .dir ∧
      ∀ l, e <+: l → (deleteDirectoryRecursively (onDisk env permits) depth path s).2.os.node l = none := by
  cases depth with
  | zero => cases hok
  | succ depth =>
    cases hdir : (onDisk env permits).opendir s.os s.proc path with
    | none =>
      rw [deleteDirectoryRecursively] at hok
      simp [sysOpendir, hdir] at hok
    | some names =>
      have hopened : Within t p (opened (onDisk env permits) path s) := ⟨le_of_eq hos, hproc⟩
      have hwithin : Within t p (deleteEntries (onDisk env permits)
          (deleteDirectoryRecursively (onDisk env permits) depth) path names (opened (onDisk env permits) path s)).2 :=
        hopened.deleteEntries fun _ _ h => h.deleteDirectoryRecursively
      rw [deleteDirectoryRecursively_succ hdir rfl] at hok ⊢
      generalize deleteEntries (onDisk env permits) (deleteDirectoryRecursively (onDisk env permits) depth) path names
        (opened (onDisk env permits) path s) = res at hok hwithin ⊢
      split at hok
      · cases hok
      · rename_i hended
        split at hok
        · rename_i hentries
          rw [if_neg hended, if_pos hentries]
          have hclosed : Within t p (closeFd (onDisk env permits) s.nextId res.2) := hwithin.closeFd
          generalize closeFd (onDisk env permits) s.nextId res.2 = s' at hok hclosed ⊢
          change (onDisk env permits).rmdir s'.os s'.proc path = true at hok
          simp only [onDisk, Bool.and_eq_true] at hok
          obtain ⟨hpermits, hrmdirs⟩ := hok
          obtain ⟨e, he⟩ := Option.isSome_iff_exists.mp hrmdirs
          obtain ⟨-, hentry, hdir, hnames⟩ := rmdirs_eq_some_iff.mp he
          rw [hclosed.proc] at hentry
          refine ⟨e, entryOf_mono hclosed.os hentry, Tree.node_of_le hclosed.os hdir, fun l hl => ?_⟩
          rw [rmdir_removes rfl rfl he hpermits]
          obtain ⟨w, rfl⟩ := hl
          by_contra hne
          exact Tree.node_of_below hne (Tree.node_remove_self (rmdirs_ne_nil he) hnames)
        · cases hok

/-- **A recursive delete is complete and exact.** If the entry of the path is a directory, every path of its tree is
shorter than `PATH_MAX` and every call on it is permitted, then with enough nested calls the result is 0, the entry and
everything below it are gone, and everything else is as it was. And for every tree, whatever is refused, a result of 0
means that nothing of the tree is left. -/
theorem recursive_delete_complete (env : Env Disk) (permits : Disk → Proc → Call → Bool) (t : Disk) (p : Proc)
    (path : Bytes) (s : Session Disk) (hos : s.os = t) (hproc : s.proc = p) (hs : s.ended = none) :
    (∀ e, Deletable (onDisk env permits) t p path e → ∃ limit, ∀ depth, limit ≤ depth →
      (deleteDirectoryRecursively (onDisk env permits) depth path s).1 = true ∧
        (deleteDirectoryRecursively (onDisk env permits) depth path s).2.ended = none ∧
        ∀ l, (deleteDirectoryRecursively (onDisk env permits) depth path s).2.os.node l =
          if e <+: l then none else t.node l) ∧
      ∀ depth, (deleteDirectoryRecursively (onDisk env permits) depth path s).1 = true →
        ∃ e, entryOf t p path = some e ∧ t.node e = some .dir ∧
          ∀ l, e <+: l → (deleteDirectoryRecursively (onDisk env permits) depth path s).2.os.node l = none := by
  refine ⟨fun e h => ?_, fun depth hok => nothing_left hos hproc hok⟩
  obtain ⟨height, hheight⟩ := t.exists_height
  refine ⟨height + 1, fun depth hdepth => ?_⟩
  have hclearing : Clearing t p e s := ⟨⟨⟨le_of_eq hos, fun l hl => absurd (by rw [hos]) hl⟩, hproc⟩, hs⟩
  have hcleared := deletes_tree h depth (r := []) hclearing (by rw [hos, List.append_nil]; exact h.dir) fun l hl => by
    have := hheight l hl
    omega
  rw [pathTo_nil, List.append_nil] at hcleared
  refine ⟨hcleared.ok, hcleared.ended.trans hs, fun l => ?_⟩
  split
  · rename_i hl
    exact hcleared.gone l hl
  · rename_i hl
    rw [hcleared.kept l hl, hos]

/-- The names `attic`, `.trunk`, `letter`, `ladder` and `lamp`. -/
def attic : Name := ⟨ascii "attic", by decide⟩
def trunk : Name := ⟨ascii ".trunk", by decide⟩
def letter : Name := ⟨ascii "letter", by decide⟩
def ladder : Name := ⟨ascii "ladder", by decide⟩
def lamp : Name := ⟨ascii "lamp", by decide⟩

/-- A directory with a hidden directory in it, which has a file, and with a link to a file elsewhere. -/
def cluttered : Disk where
  entries := [([attic], .dir), ([attic, trunk], .dir), ([attic, trunk, letter], .file),
    ([attic, ladder], .link (linkPath (ascii "/lamp"))), ([lamp], .file)]
  nodup := by decide
  rooted := by
    intro e he
    simp only [List.mem_cons, List.not_mem_nil, or_false] at he
    rcases he with rfl | rfl | rfl | rfl | rfl
    · exact ⟨[], _, rfl, .inl rfl⟩
    · exact ⟨[attic], _, rfl, .inr (.head _)⟩
    · exact ⟨[attic, trunk], _, rfl, .inr (.tail _ (.head _))⟩
    · exact ⟨[attic], _, rfl, .inr (.head _)⟩
    · exact ⟨[], _, rfl, .inl rfl⟩

/-- All of the directory goes; the file that the link leads to is left. -/
theorem recursive_delete_complete_nested : ∃ limit, ∀ depth, limit ≤ depth →
    (deleteDirectoryRecursively (onDisk Env.permissive.still fun _ _ _ => true) depth (ascii "attic")
        (sessionOn cluttered ⟨ascii "/", ascii "/", 0, 0, []⟩)).1 = true ∧
      (deleteDirectoryRecursively (onDisk Env.permissive.still fun _ _ _ => true) depth (ascii "attic")
        (sessionOn cluttered ⟨ascii "/", ascii "/", 0, 0, []⟩)).2.ended = none ∧
      ∀ l, (deleteDirectoryRecursively (onDisk Env.permissive.still fun _ _ _ => true) depth (ascii "attic")
          (sessionOn cluttered ⟨ascii "/", ascii "/", 0, 0, []⟩)).2.os.node l =
        if [attic] <+: l then none else cluttered.node l := by
  have hentries : ∀ e ∈ cluttered.entries, (pathTo (ascii "attic") (e.1.drop 1)).length < PATH_MAX := by decide
  have hfits : ∀ r, cluttered.node ([attic] ++ r) ≠ none → (pathTo (ascii "attic") r).length < PATH_MAX := by
    intro r hr
    obtain ⟨k, hmem⟩ := (Tree.node_ne_none_iff (by simp)).mp hr
    exact hentries _ hmem
  refine (recursive_delete_complete Env.permissive.still (fun _ _ _ => true) cluttered
    ⟨ascii "/", ascii "/", 0, 0, []⟩ (ascii "attic") (sessionOn cluttered ⟨ascii "/", ascii "/", 0, 0, []⟩)
    rfl rfl rfl).1 [attic]
    ⟨by decide, by decide, hfits, .of_steady (fun _ _ => rfl) ⟨attic, by decide⟩ (by decide) hfits
      fun t' _ hdir => ?_⟩
  refine entryOf_eq_some_iff.mpr ⟨⟨by decide, by decide, Tree.node_nil, Tree.node_nil⟩, ?_⟩
  rw [show namedSteps (ascii "attic") = [.down attic] by decide]
  exact .dir hdir .here

end CftpServer.Session
