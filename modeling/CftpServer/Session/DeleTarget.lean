import CftpServer.Session.Aside
import CftpServer.Session.RecursiveDelete

/-!
# What DELE removes

A target that ends at a symbolic link names the link. But `handle_dele_command` asks `stat`, and `opendir` opens what
the link leads to; only further down does `delete_directory_recursively` ask `lstat`.

* `deletes_kept`: whatever is removed below the directory where a deletion starts is an entry of the tree below it
* `keeps_to_target_iff`: so DELE keeps to its target but where this is a link to a directory with something to remove
-/

namespace CftpServer.Session

open CLib Command Security FileTree

variable {env : Env Disk} {permits : Disk → Proc → Call → Bool} {t t' : Disk} {p : Proc} {target : Bytes}
  {A : List Name → Prop} {e d r l : List Name} {s : Session Disk}

/-! ## What changes -/

/-- Some entries of `t` are gone in `t'`, all of them in `A`. -/
structure Shrunk (A : List Name → Prop) (t t' : Disk) : Prop where
  le : t' ≤ t
  changed : ∀ l, t'.node l ≠ t.node l → A l

theorem Shrunk.remove (h : Shrunk A t t') (hl : A l) : Shrunk A t (t'.remove l) := by
  refine ⟨Tree.remove_le.trans h.le, fun l' hl' => ?_⟩
  by_cases heq : l' = l
  · exact heq ▸ hl
  · rw [Tree.node_remove_of_ne heq] at hl'
    exact h.changed l' hl'

theorem Shrunk.elim {o : Option (List Name)} (h : Shrunk A t t') (ho : ∀ l, o = some l → A l) :
    Shrunk A t (o.elim t' t'.remove) := by
  cases o with
  | none => exact h
  | some l => exact h.remove (ho l rfl)

/-- The process is on such a tree. -/
structure Keeps (A : List Name → Prop) (t : Disk) (p : Proc) (s : Session Disk) : Prop where
  shrunk : Shrunk A t s.os
  proc : s.proc = p

namespace Keeps

variable {f : Bytes}

theorem within (h : Keeps A t p s) : Within t p s := ⟨h.shrunk.le, h.proc⟩

theorem sysUnlink (h : Keeps A t p s) (hA : ∀ l, unlinks s.os p f = some l → A l) :
    Keeps A t p (sysUnlink (onDisk env permits) f s).2 := by
  refine ⟨?_, h.proc⟩
  rw [os_sysUnlink]
  split
  · exact h.shrunk.elim (h.proc ▸ hA)
  · exact h.shrunk

theorem sysRmdir (h : Keeps A t p s) (hA : ∀ l, rmdirs s.os p f = some l → A l) :
    Keeps A t p (sysRmdir (onDisk env permits) f s).2 := by
  refine ⟨?_, h.proc⟩
  rw [os_sysRmdir]
  split
  · exact h.shrunk.elim (h.proc ▸ hA)
  · exact h.shrunk

theorem sysStat (h : Keeps A t p s) : Keeps A t p (sysStat (onDisk env permits) f s).2 := ⟨h.shrunk, h.proc⟩

theorem sysLstat (h : Keeps A t p s) : Keeps A t p (sysLstat (onDisk env permits) f s).2 := ⟨h.shrunk, h.proc⟩

theorem sysOpendir (h : Keeps A t p s) : Keeps A t p (sysOpendir (onDisk env permits) f s).2 := by
  unfold Session.sysOpendir
  split
  · exact ⟨h.shrunk, h.proc⟩
  · exact ⟨h.shrunk, h.proc⟩

theorem closeFd (h : Keeps A t p s) {fd : Int} : Keeps A t p (closeFd (onDisk env permits) fd s) := by
  unfold Session.closeFd
  split
  · exact h
  · exact ⟨h.shrunk, h.proc⟩

theorem reply (h : Keeps A t p s) {statusCode : Nat} {text : Bytes} :
    Keeps A t p (sendControlMessage (onDisk env permits) statusCode text s) := ⟨h.shrunk, h.proc⟩

theorem replyDeleted (h : Keeps A t p s) {deleted force : Bool} :
    Keeps A t p (replyDeleted (onDisk env permits) deleted force s) := by
  unfold Session.replyDeleted
  split
  · split
    · exact h.reply
    · exact h.reply
  · exact h.reply

end Keeps

/-! ## The paths of a deletion

It starts with the path `target`, which names the entry `e` and leads to the directory `d`. -/

/-- A path of the place `r` below the start: its own, or with a slash behind. -/
structure Names (t : Disk) (p : Proc) (target : Bytes) (e d : List Name) (path : Bytes) (r : List Name) : Prop where
  shape : path = pathTo target r ∨ path = pathTo target r ++ slash :: []
  entry : ∀ l, entryOf t p (pathTo target r) = some l → l = if r = [] then e else d ++ r
  fits : (pathTo target r).length < PATH_MAX

/-- The place is a directory. -/
structure Enters (t : Disk) (p : Proc) (target : Bytes) (e d : List Name) (path : Bytes) (r : List Name) : Prop
    extends Names t p target e d path r where
  leads : resolve t p true path = some (d ++ r)
  dir : t.node (d ++ r) = some .dir
  full : path ≠ pathTo target r → path.length = PATH_MAX - 1

/-- A path that fills the buffer, and is not removed. -/
structure Stuck (p : Proc) (path : Bytes) : Prop where
  full : path.length = PATH_MAX - 1
  unlinks : ∀ t', unlinks t' p path = none
  rmdirs : ∀ t', rmdirs t' p path = none

/-- What can be removed by the paths of a deletion is in `A`. -/
def Covers (A : List Name → Prop) (t : Disk) (p : Proc) (target : Bytes) (e d : List Name) : Prop :=
  ∀ t' r l, Shrunk A t t' → (pathTo target r).length < PATH_MAX → entryOf t' p (pathTo target r) = some l →
    (l = if r = [] then e else d ++ r) → t'.node l ≠ none → t'.names l = [] → A l

section Paths

variable {path : Bytes}

theorem Names.removed (h : Names t p target e d path r) (hne : target ≠ []) (hA : Covers A t p target e d)
    (hk : Shrunk A t t') (hl : entryOf t' p path = some l) (hn : t'.node l ≠ none) (hnames : t'.names l = []) :
    A l := by
  have hentry : entryOf t' p (pathTo target r) = some l := by
    rcases h.shape with rfl | rfl
    · exact hl
    · exact entryOf_slash (by simp [pathTo, hne]) hl
  exact hA t' r l hk h.fits hentry (h.entry l (entryOf_mono hk.le hentry)) hn hnames

theorem Names.unlinked (h : Names t p target e d path r) (hne : target ≠ []) (hA : Covers A t p target e d)
    (hk : Shrunk A t t') (hl : unlinks t' p path = some l) : A l := by
  obtain ⟨-, hn, hdir⟩ := unlinks_eq_some_iff.mp hl
  exact h.removed hne hA hk (entryOf_of_unlinks hl) hn (Tree.names_of_ne_dir hdir)

theorem Names.rmdired (h : Names t p target e d path r) (hne : target ≠ []) (hA : Covers A t p target e d)
    (hk : Shrunk A t t') (hl : rmdirs t' p path = some l) : A l := by
  obtain ⟨-, hentry, hdir, hnames⟩ := rmdirs_eq_some_iff.mp hl
  exact h.removed hne hA hk hentry (by rw [hdir]; exact Option.some_ne_none _) hnames

theorem stuck_dots (hne : path ≠ []) {w : Bytes} (hw : w = ascii "." ∨ w = ascii "..")
    (hlen : (path ++ slash :: w).length = PATH_MAX - 1) : Stuck p (path ++ slash :: w) :=
  ⟨hlen, fun _ => unlinks_dots hne hw, fun _ => rmdirs_dots hw⟩

/-- **The path of an entry** names an entry of the directory, or the directory again; or it is of no use. -/
theorem Enters.child (h : Enters t p target e d path r) (n : Name) : Stuck p (childPath path n.val) ∨
    ∃ r', Names t p target e d (childPath path n.val) r' ∧ ∀ l, resolve t p false (childPath path n.val) = some l →
      t.node l = some .dir → Enters t p target e d (childPath path n.val) r' := by
  have htakes := (resolve_eq_some_iff.mp h.leads).1
  by_cases hfull : path.length = PATH_MAX - 1
  · rw [cut_full hfull]
    exact .inr ⟨r, h.toNames, fun _ _ _ => h⟩
  · have hshort : path.length < PATH_MAX - 1 := by have := htakes.2.1; omega
    obtain rfl : path = pathTo target r := by_contra fun hne => hfull (h.full hne)
    have hlen := length_childPath (pathTo target r) n.val
    rw [cut_child hshort] at hlen ⊢
    by_cases hname : IsName (shown (pathTo target r) n.val)
    · obtain ⟨m, hm⟩ : ∃ m : Name, m.val = shown (pathTo target r) n.val := ⟨⟨_, hname⟩, rfl⟩
      have hpath : pathTo target r ++ slash :: m.val = pathTo target (r ++ [m]) := (pathTo_concat ..).symm
      rw [← hm] at hlen ⊢
      have hchild : ∀ l, resolve t p false (pathTo target (r ++ [m])) = some l → l = d ++ (r ++ [m]) := by
        intro l hl
        rw [← hpath, resolve_child h.leads h.dir m hlen, List.append_assoc] at hl
        exact hl.1
      rw [hpath] at hlen ⊢
      have hnames : Names t p target e d (pathTo target (r ++ [m])) (r ++ [m]) := by
        refine ⟨.inl rfl, fun l hl => ?_, hlen⟩
        rw [← hpath, entryOf_child, hpath] at hl
        rw [if_neg (by simp)]
        exact hchild l hl
      refine .inr ⟨r ++ [m], hnames, fun l hl hdir => ⟨hnames, ?_, hchild l hl ▸ hdir, fun hne => absurd rfl hne⟩⟩
      exact resolve_followed (hchild l hl ▸ hl) (hchild l hl ▸ hdir)
    · obtain ⟨hlen', hwhich⟩ := shown_dots hshort hname
      rcases or_assoc.mp hwhich with hnil | hdots
      · rw [hnil] at hlen hlen' ⊢
        have hnames : Names t p target e d (pathTo target r ++ slash :: []) r := ⟨.inr rfl, h.entry, h.fits⟩
        exact .inr ⟨r, hnames, fun _ _ _ =>
          ⟨hnames, (resolve_stay h.leads h.dir (.inl rfl) hlen).mpr rfl, h.dir, fun _ => hlen'⟩⟩
      · exact .inl (stuck_dots htakes.1 hdots hlen')

end Paths

/-! ## A whole deletion -/

section Deletion

theorem Stuck.keeps {path : Bytes} (h : Stuck p path) (depth : Nat) : ∀ {s : Session Disk}, Keeps A t p s →
    Keeps A t p (deleteDirectoryRecursively (onDisk env permits) depth path s).2 := by
  induction depth with
  | zero => exact fun hs => ⟨hs.shrunk, hs.proc⟩
  | succ depth ih =>
    intro s hs
    refine deleteDirectoryRecursively_rule (P := Keeps A t p) hs.sysOpendir (fun names _ => ?_)
      (fun _ _ hs => hs.closeFd) fun s hs => hs.sysRmdir fun l hl => ?_
    · refine deleteEntries_rule (P := Keeps A t p) (fun _ _ hs => hs.sysLstat) (fun name _ _ _ s _ hs _ => ?_) _
        hs.sysOpendir
      -- behind such a path every entry has the path itself
      have hchild : cut PATH_MAX (path ++ ascii "/" ++ name) = path := cut_full h.full name
      rw [hchild]
      split
      · exact ih hs.sysLstat
      · exact hs.sysLstat.sysUnlink fun l hl => by cases (h.unlinks _).symm.trans hl
    · cases (h.rmdirs _).symm.trans hl

/-- **A deletion** removes what its paths can remove, and nothing else. -/
theorem deletes_kept (hne : target ≠ []) (hA : Covers A t p target e d) (depth : Nat) :
    ∀ {path : Bytes} {r : List Name} {s : Session Disk}, Enters t p target e d path r → Keeps A t p s →
      Keeps A t p (deleteDirectoryRecursively (onDisk env permits) depth path s).2 := by
  induction depth with
  | zero => exact fun _ hs => ⟨hs.shrunk, hs.proc⟩
  | succ depth ih =>
    intro path r s h hs
    refine deleteDirectoryRecursively_rule (P := Keeps A t p) hs.sysOpendir (fun names hnames => ?_)
      (fun _ _ hs => hs.closeFd) fun s hs => hs.sysRmdir fun l hl => h.toNames.rmdired hne hA hs.shrunk hl
    obtain ⟨_, -, -, hname⟩ := opendir_names hs.within hnames
    refine deleteEntries_rule (P := Keeps A t p) (fun _ _ hs => hs.sysLstat)
      (fun name hmem hdot hdotdot s st hs hst => ?_) _ hs.sysOpendir
    obtain ⟨n, rfl, -⟩ := hname name hmem hdot hdotdot
    change (onDisk env permits).lstat s.os s.proc (childPath path n.val) = some st at hst
    change Keeps A t p (if st.isDir then deleteDirectoryRecursively (onDisk env permits) depth (childPath path n.val)
        (sysLstat (onDisk env permits) (childPath path n.val) s).2
      else sysUnlink (onDisk env permits) (childPath path n.val)
        (sysLstat (onDisk env permits) (childPath path n.val) s).2).2
    rcases h.child n with hstuck | ⟨r', hnames, henters⟩
    · split
      · exact hstuck.keeps depth hs.sysLstat
      · exact hs.sysLstat.sysUnlink fun l hl => by cases (hstuck.unlinks _).symm.trans hl
    · split
      · rename_i hdir
        obtain ⟨l, hl, hnode⟩ := found_dir hs.within hst hdir
        exact ih (henters l hl hnode) hs.sysLstat
      · exact hs.sysLstat.sysUnlink fun l hl => hnames.unlinked hne hA hs.shrunk hl

end Deletion

/-! ## The target -/

/-- What DELE may remove: the entry its target names and, with `-r`, what is below it. A link has nothing below it. -/
def InTarget (t : Disk) (p : Proc) (target : Bytes) (recursive : Bool) (l : List Name) : Prop :=
  ∃ e, entryOf t p target = some e ∧ (l = e ∨ recursive = true ∧ e <+: l)

/-- The target is a link to a directory, below which is an entry, other than the link, that has nothing below it and a
path that is not cut. -/
def LeadsOut (t : Disk) (p : Proc) (target : Bytes) : Prop :=
  ∃ e link d r, entryOf t p target = some e ∧ t.node e = some (.link link) ∧ resolve t p true target = some d ∧
    r ≠ [] ∧ d ++ r ≠ e ∧ t.node (d ++ r) ≠ none ∧ t.names (d ++ r) = [] ∧ (pathTo target r).length < PATH_MAX

theorem eq_of_inTarget {recursive : Bool} {link : FileTree.Path Name} (h : InTarget t p target recursive l)
    (he : entryOf t p target = some e) (hlink : t.node e = some (.link link)) (hl : t.node l ≠ none) : l = e := by
  obtain ⟨e', he', hl'⟩ := h
  obtain rfl : e = e' := Option.some.inj (he.symm.trans he')
  rcases hl' with rfl | ⟨-, r, rfl⟩
  · rfl
  · by_contra hne
    cases hlink.symm.trans (Tree.node_above (r := r) (by rintro rfl; simp at hne) hl)

/-- While a path behind the target leads anywhere, the entry of the target is there. -/
theorem node_entry_ne_none (hne : target ≠ []) (hle : t' ≤ t) (he : entryOf t p target = some e) (hr : r ≠ [])
    (hl : entryOf t' p (pathTo target r) = some l) : t'.node e ≠ none := by
  obtain ⟨w, hw⟩ : ∃ w, pathTo target r = target ++ slash :: w := by
    obtain ⟨m, r, rfl⟩ := List.exists_cons_of_ne_nil hr
    exact ⟨_, rfl⟩
  have hres : resolve t' p false (pathTo target r) = some l := by
    rcases List.eq_nil_or_concat r with rfl | ⟨r, m, rfl⟩
    · exact absurd rfl hr
    · rw [List.concat_eq_append, pathTo_concat] at hl ⊢
      rwa [entryOf_child] at hl
  rw [hw] at hres
  obtain ⟨d, hd, -⟩ := resolve_before hne hres
  obtain ⟨e', he', hthere, -⟩ := entryOf_of_resolve hd
  obtain rfl : e' = e := Option.some.inj ((entryOf_mono hle he').symm.trans he)
  exact hthere

/-- From the target, a deletion removes what it may, unless it leads out. -/
theorem covers_inTarget (hd : resolve t p true target = some d) (he : entryOf t p target = some e)
    (hwhich : e = d ∨ ∃ link, t.node e = some (.link link)) (hout : ¬ LeadsOut t p target) :
    Covers (InTarget t p target true) t p target e d := by
  intro t' r l hk hfits hentry hplace hn hnames
  by_cases hr : r = []
  · rw [if_pos hr] at hplace
    exact ⟨e, he, .inl hplace⟩
  rw [if_neg hr] at hplace
  rcases hwhich with rfl | ⟨link, hlink⟩
  · exact ⟨e, he, .inr ⟨rfl, r, hplace.symm⟩⟩
  by_contra hnot
  have hl : l ≠ e := fun h => hnot ⟨e, he, .inl h⟩
  have hnode := Tree.node_ne_none_of_le hk.le hn
  refine hout ⟨e, link, d, r, he, hlink, hd, hr, hplace ▸ hl, hplace ▸ hnode, hplace ▸ ?_, hfits⟩
  -- had it lost something, that were the link, and with it the way here
  refine List.eq_nil_iff_forall_not_mem.mpr fun a ha => ?_
  have hgone : t'.node (l ++ [a]) = none := by
    by_contra hthere
    simpa [hnames] using Tree.mem_names.mpr hthere
  have hwas := Tree.mem_names.mp ha
  have hin : InTarget t p target true (l ++ [a]) := hk.changed _ fun heq => hwas (heq.symm.trans hgone)
  rw [eq_of_inTarget hin he hlink hwas] at hgone
  exact node_entry_ne_none (resolve_eq_some_iff.mp hd).1.1 hk.le he hr hentry hgone

theorem deleteTarget_keeps {recursive force : Bool} (hout : recursive = true → ¬ LeadsOut t p target)
    (h : Keeps (InTarget t p target recursive) t p s) :
    Keeps (InTarget t p target recursive) t p (deleteTarget (onDisk env permits) target recursive force s) := by
  have hst : Keeps (InTarget t p target recursive) t p (sysStat (onDisk env permits) target s).2 := h.sysStat
  unfold deleteTarget
  dsimp only
  split
  · split
    · exact hst.reply
    · exact hst.reply
  · rename_i st hstat
    split
    · rename_i hdir
      cases recursive with
      | false => exact hst.reply
      | true =>
        obtain ⟨d, hd, hnode⟩ := found_dir h.within hstat hdir
        obtain ⟨e, he, -, hwhich⟩ := entryOf_of_resolve hd
        have henters : Enters t p target e d target [] :=
          ⟨⟨.inl (pathTo_nil target).symm, fun l hl => ?_, ?_⟩, ?_, ?_, fun hne => absurd (pathTo_nil target).symm hne⟩
        · have hne := (resolve_eq_some_iff.mp hd).1.1
          have hcovers := covers_inTarget hd he hwhich (hout rfl)
          exact andThen_of (deletes_kept hne hcovers _ henters hst) fun _ hs => hs.replyDeleted
        · rw [pathTo_nil] at hl
          exact Option.some.inj (hl.symm.trans he)
        · rw [pathTo_nil]
          exact (resolve_eq_some_iff.mp hd).1.2.1
        · rwa [List.append_nil]
        · rwa [List.append_nil]
    · have hunlinked : ∀ l, unlinks (sysStat (onDisk env permits) target s).2.os p target = some l →
          InTarget t p target recursive l :=
        fun l hl => ⟨l, entryOf_mono hst.shrunk.le (entryOf_of_unlinks hl), .inl rfl⟩
      exact (hst.sysUnlink hunlinked).replyDeleted

/-! ## Where a target leads out -/

section Leading

variable {path : Bytes}

theorem unlink_removes (hos : s.os = t) (hproc : s.proc = p) (hl : unlinks t p path = some l)
    (hpermits : permits t p (.unlink path) = true) : (sysUnlink (onDisk env permits) path s).2.os = t.remove l := by
  rw [os_sysUnlink, hos, hproc, if_pos hpermits, hl, Option.elim_some]

theorem rmdir_removes (hos : s.os = t) (hproc : s.proc = p) (hl : rmdirs t p path = some l)
    (hpermits : permits t p (.rmdir path) = true) : (sysRmdir (onDisk env permits) path s).2.os = t.remove l := by
  rw [os_sysRmdir, hos, hproc, if_pos hpermits, hl, Option.elim_some]

theorem closeFd_os {fd : Int} : (closeFd (onDisk env permits) fd s).os = s.os := by
  unfold closeFd
  split <;> rfl

theorem closeFd_proc {fd : Int} : (closeFd (onDisk env permits) fd s).proc = s.proc := by
  unfold closeFd
  split <;> rfl

theorem replyDeleted_os {deleted force : Bool} : (replyDeleted (onDisk env permits) deleted force s).os = s.os := by
  unfold replyDeleted
  split
  · split <;> rfl
  · rfl

/-- What is gone once the entries of a directory are dealt with is gone in the end. -/
theorem gone_of_entries {depth : Nat} {names : List Bytes} {result : Bool × Session Disk}
    (hopendir : (onDisk env permits).opendir s.os s.proc path = some names)
    (hentries : deleteEntries (onDisk env permits) (deleteDirectoryRecursively (onDisk env permits) depth) path names
      (opened (onDisk env permits) path s) = result) (hgone : result.2.os.node l = none) :
    (deleteDirectoryRecursively (onDisk env permits) (depth + 1) path s).2.os.node l = none := by
  rw [deleteDirectoryRecursively_succ hopendir hentries]
  split
  · exact hgone
  · split
    · refine Tree.node_eq_none_of_le (after_le env permits _ _ (.call (.rmdir path))) ?_
      rwa [closeFd_os]
    · rwa [closeFd_os]

/-- A directory with nothing in it goes. -/
theorem empty_gone (hopen : permits t p (.opendir path) = true) (hrmdir : permits t p (.rmdir path) = true)
    (hd : resolve t p true path = some l) (hl : rmdirs t p path = some l) (hne : l ≠ []) (depth : Nat)
    (hos : s.os = t) (hproc : s.proc = p) (hs : s.ended = none) :
    (deleteDirectoryRecursively (onDisk env permits) (depth + 1) path s).2.os.node l = none := by
  obtain ⟨-, -, hdir, hnames⟩ := rmdirs_eq_some_iff.mp hl
  have hlisted : listed t p path = some [] := listed_eq_some_iff.mpr ⟨l, hd, hdir, hnames.symm⟩
  have hopendir : (onDisk env permits).opendir s.os s.proc path = some [ascii ".", ascii ".."] := by
    rw [hos, hproc]
    simp [onDisk, hopen, hlisted]
  have hentries : deleteEntries (onDisk env permits) (deleteDirectoryRecursively (onDisk env permits) depth) path
      [ascii ".", ascii ".."] (opened (onDisk env permits) path s) = (true, opened (onDisk env permits) path s) := by
    rw [deleteEntries_dots (.inl rfl), deleteEntries_dots (.inr rfl), deleteEntries]
  have hos' : (closeFd (onDisk env permits) s.nextId (opened (onDisk env permits) path s)).os = t :=
    closeFd_os.trans hos
  have hproc' : (closeFd (onDisk env permits) s.nextId (opened (onDisk env permits) path s)).proc = p :=
    closeFd_proc.trans hproc
  have hended : (opened (onDisk env permits) path s).ended.isSome = false := by
    change s.ended.isSome = false
    rw [hs, Option.isSome_none]
  rw [deleteDirectoryRecursively_succ hopendir hentries, hended, if_neg Bool.false_ne_true, if_pos rfl,
    rmdir_removes hos' hproc' hl hrmdir]
  exact Tree.node_remove_self hne hnames

/-- **What can be removed is removed**, when nothing but the way to it is looked at. -/
theorem gone_of_way (hd : resolve t p true path = some d) (hr : r ≠ []) (hn : t.node (d ++ r) ≠ none)
    (hnames : t.names (d ++ r) = []) (hlen : (pathTo path r).length < PATH_MAX)
    (hopen : ∀ f, permits t p (.opendir f) = true) (hunlink : ∀ f, permits t p (.unlink f) = true)
    (hrmdir : ∀ f, permits t p (.rmdir f) = true)
    (hshows : ∀ r₁ m r₂, r₁ ++ m :: r₂ = r → Shows permits t p (d ++ r₁) (pathTo path r₁) m) (r₂ : List Name) :
    ∀ {r₁ : List Name}, r₁ ++ r₂ = r → (r₂ = [] → t.node (d ++ r) = some .dir) → ∀ {depth : Nat}, r₂.length < depth →
      ∀ {s : Session Disk}, s.os = t → s.proc = p → s.ended = none →
        (deleteDirectoryRecursively (onDisk env permits) depth (pathTo path r₁) s).2.os.node (d ++ r) = none := by
  have hne : d ++ r ≠ [] := by simp [hr]
  induction r₂ with
  | nil =>
    intro r₁ hr₁ hdir depth hdepth s hos hproc hs
    rw [List.append_nil] at hr₁
    subst hr₁
    obtain ⟨depth, rfl⟩ := Nat.exists_eq_add_of_le' hdepth
    refine empty_gone (hopen _) (hrmdir _) (resolve_pathTo hd (hdir rfl) hlen) ?_ hne depth hos hproc hs
    rcases List.eq_nil_or_concat r₁ with rfl | ⟨r₀, m, rfl⟩
    · exact absurd rfl hr
    · rw [List.concat_eq_append] at hdir hn hnames hlen ⊢
      obtain ⟨-, -, hentry, -⟩ := entry_on_way hd rfl hn hlen
      rw [pathTo_concat] at hentry ⊢
      rw [← List.append_assoc] at hdir hnames ⊢
      exact rmdirs_eq_some_iff.mpr ⟨endsInName_child _ m, (entryOf_child m).trans hentry, hdir rfl, hnames⟩
  | cons m r₂ ih =>
    intro r₁ hr₁ _ depth hdepth s hos hproc hs
    obtain ⟨depth, rfl⟩ := Nat.exists_eq_add_of_le' (Nat.one_le_of_lt hdepth)
    obtain ⟨hchild, hres, hentry, hthere⟩ := entry_on_way hd hr₁ hn hlen
    obtain ⟨k, hk⟩ := Option.ne_none_iff_exists'.mp hthere
    have hfound : found t p false (childPath (pathTo path r₁) m.val) = some k :=
      found_eq_some_iff.mpr ⟨_, hchild ▸ hentry, hk⟩
    obtain ⟨names, hopendir, names', s', hos', hproc', hs', hentries⟩ :=
      opendir_comes_to (hopen _) hres hthere hfound (hshows _ _ _ hr₁) s hos hproc
    apply gone_of_entries hopendir hentries
    rw [hchild, deleteEntry]
    have hr₁' : (r₁ ++ [m]) ++ r₂ = r := by rw [List.append_assoc]; exact hr₁
    split
    · rename_i hdir
      rw [statOf_isDir] at hdir
      subst hdir
      have hrec : (deleteDirectoryRecursively (onDisk env permits) depth (pathTo path (r₁ ++ [m])) s').2.os.node
          (d ++ r) = none := by
        refine ih hr₁' (fun hnil => ?_) (Nat.lt_of_succ_lt_succ hdepth) hos' hproc' (hs'.trans hs)
        rw [hnil, List.append_nil] at hr₁'
        rw [← hr₁', ← List.append_assoc, hk]
      split
      · exact Tree.node_eq_none_of_le
          (Within.deleteEntries ⟨le_rfl, rfl⟩ fun _ _ h => h.deleteDirectoryRecursively).os hrec
      · exact hrec
    · rename_i hdir
      rw [statOf_isDir] at hdir
      -- only a directory has more below it, so this is the entry
      obtain rfl : r₂ = [] := by
        by_contra hne
        refine hdir (Option.some.inj (hk.symm.trans (Tree.node_above hne ?_)))
        rwa [List.append_assoc d, List.append_assoc d, hr₁']
      rw [List.append_nil] at hr₁'
      have hplace : d ++ r₁ ++ [m] = d ++ r := by rw [List.append_assoc, hr₁']
      have hl : unlinks t p (pathTo path (r₁ ++ [m])) = some (d ++ r) := by
        rw [← hplace]
        exact unlinks_eq_some_iff.mpr ⟨hentry, hthere, fun hnode => hdir (Option.some.inj (hk.symm.trans hnode))⟩
      refine Tree.node_eq_none_of_le
        (Within.deleteEntries ⟨le_rfl, rfl⟩ fun _ _ h => h.deleteDirectoryRecursively).os ?_
      rw [unlink_removes hos' hproc' hl (hunlink _)]
      exact Tree.node_remove_self hne hnames

end Leading

/-- What a target leads out to is removed. -/
theorem gone_of_target (force : Bool) (hd : resolve t p true target = some d) (hr : r ≠ [])
    (hn : t.node (d ++ r) ≠ none) (hnames : t.names (d ++ r) = []) (hlen : (pathTo target r).length < PATH_MAX) :
    ∃ env permits, (deleteTarget (onDisk env permits) target true force (sessionOn t p)).os.node (d ++ r) = none := by
  rcases List.eq_nil_or_concat r with rfl | ⟨r', n, rfl⟩
  · exact absurd rfl hr
  rw [List.concat_eq_append] at hr hn hnames hlen ⊢
  have hlen' : (pathTo target r').length < PATH_MAX := by
    rw [pathTo_concat, List.length_append] at hlen
    omega
  let env : Env Disk := { Env.permissive.still with stack := (r' ++ [n]).length + 1 }
  let permits := only (childPath (pathTo target r') n.val :: r'.inits.map (pathTo target))
  refine ⟨env, permits, ?_⟩
  have hdir : t.node d = some .dir := Tree.node_above hr hn
  have hstat : (sysStat (onDisk env permits) target (sessionOn t p)).1 = some (statOf .dir) := by
    change (found t p true target).map statOf = _
    rw [found_eq_some_iff.mpr ⟨d, hd, hdir⟩, Option.map_some]
  have hgone : (deleteDirectoryRecursively (onDisk env permits) env.stack (pathTo target [])
      (sysStat (onDisk env permits) target (sessionOn t p)).2).2.os.node (d ++ (r' ++ [n])) = none :=
    gone_of_way hd hr hn hnames hlen (fun _ => rfl) (fun _ => rfl) (fun _ => rfl)
      (fun _ _ _ hr => only_shows hlen' hr) (r' ++ [n]) (List.nil_append _) (fun hnil => absurd hnil hr)
      (Nat.lt_succ_self _) rfl rfl rfl
  rw [pathTo_nil] at hgone
  unfold deleteTarget
  simp only [hstat, statOf_isDir.mpr rfl, Bool.not_true, if_true, Bool.false_eq_true, if_false]
  exact andThen_of (P := fun s : Session Disk => s.os.node (d ++ (r' ++ [n])) = none) hgone fun _ h => by
    rwa [replyDeleted_os]

/-! ## DELE -/

/-- `handle_dele_command` removes nothing but what its target stands for, whatever is refused. -/
def KeepsToTarget (t : Disk) (p : Proc) (command : CftpCommand) : Prop :=
  ∀ target recursive force, parseDeleParams command.args = some (target, recursive, force) → isPathSafe target = true →
    ∀ (env : Env Disk) (permits : Disk → Proc → Call → Bool) (s : Session Disk), s.os = t → s.proc = p →
      s.ended = none → ∀ l, (handleDeleCommand (onDisk env permits) command s).os.node l ≠ t.node l →
        InTarget t p target recursive l

/-- **DELE keeps to its target** exactly when this does not lead out, or is not deleted with `-r`. -/
theorem keeps_to_target_iff (t : Disk) (p : Proc) (command : CftpCommand) : KeepsToTarget t p command ↔
    ∀ target force, parseDeleParams command.args = some (target, true, force) → isPathSafe target = true →
      ¬ LeadsOut t p target := by
  constructor
  · rintro h target force hparse hsafe ⟨e, link, d, r, he, hlink, hd, hr, hne, hn, hnames, hlen⟩
    obtain ⟨env, permits, hgone⟩ := gone_of_target force hd hr hn hnames hlen
    refine hne (eq_of_inTarget (h target true force hparse hsafe env permits (sessionOn t p) rfl rfl rfl _ ?_) he hlink
      hn)
    rw [handleDeleCommand, hparse]
    simp only [hsafe, Bool.not_true, Bool.false_eq_true, if_false]
    rw [hgone]
    exact Ne.symm hn
  · intro h target recursive force hparse hsafe env permits s hos hproc _ l hl
    have hs : Keeps (InTarget t p target recursive) t p s :=
      ⟨⟨le_of_eq hos, fun l hl => absurd (by rw [hos]) hl⟩, hproc⟩
    rw [handleDeleCommand, hparse] at hl
    simp only [hsafe, Bool.not_true, Bool.false_eq_true, if_false] at hl
    refine (deleteTarget_keeps (fun hrec => ?_) hs).shrunk.changed l hl
    subst hrec
    exact h target force hparse hsafe

/-! ## A link to a directory -/

/-- The directory `d` with the file `f`, and the link `l` to it. -/
def linked : Disk where
  entries := [([⟨ascii "d", by decide⟩], .dir), ([⟨ascii "d", by decide⟩, ⟨ascii "f", by decide⟩], .file),
    ([⟨ascii "l", by decide⟩], .link (linkPath (ascii "d")))]
  nodup := by decide
  rooted := by
    intro e he
    simp only [List.mem_cons, List.not_mem_nil, or_false] at he
    rcases he with rfl | rfl | rfl
    · exact ⟨[], _, rfl, .inl rfl⟩
    · exact ⟨[⟨ascii "d", by decide⟩], _, rfl, .inr (by simp)⟩
    · exact ⟨[], _, rfl, .inl rfl⟩

/-- With `DELE -r l` the file is gone. Nothing is refused. -/
theorem linked_directory_emptied : ¬ ∀ (env : Env Disk) (t : Disk) (p : Proc) (command : CftpCommand) (target : Bytes)
    (recursive force : Bool) (s : Session Disk), parseDeleParams command.args = some (target, recursive, force) →
      isPathSafe target = true → s.os = t → s.proc = p → s.ended = none → ∀ l,
        (handleDeleCommand (onDisk env fun _ _ _ => true) command s).os.node l ≠ t.node l →
          InTarget t p target recursive l := by
  intro h
  let p : Proc := ⟨ascii "/", ascii "/", 0, 0, []⟩
  let file : List Name := [⟨ascii "d", by decide⟩, ⟨ascii "f", by decide⟩]
  have hgone : (handleDeleCommand (onDisk Env.permissive.still fun _ _ _ => true)
      ⟨ascii "DELE", [ascii "-r", ascii "l"]⟩ (sessionOn linked p)).os.node file = none := by decide
  have hin := h Env.permissive.still linked p ⟨ascii "DELE", [ascii "-r", ascii "l"]⟩ (ascii "l") true false
    (sessionOn linked p) (by decide) (by decide) rfl rfl rfl file (by rw [hgone]; decide)
  have hentry : entryOf linked p (ascii "l") = some [⟨ascii "l", by decide⟩] := by decide
  have hlink : linked.node [⟨ascii "l", by decide⟩] = some (.link (linkPath (ascii "d"))) := by decide
  exact absurd (eq_of_inTarget hin hentry hlink (by decide)) (by decide)

end CftpServer.Session
