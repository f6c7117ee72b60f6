import CftpServer.Session.FileSystem

/-!
# The recursion of `delete_directory_recursively`

The function descends on paths that `snprintf` has cut to `PATH_MAX` bytes. What is left of the name of an entry can be
nothing, `.` or `..`, and then the path leads to the directory it came from, or to the one above.

* `deletes_of_descends`: where this does not happen, each call is one directory deeper in the tree
* `crashes_of_chain`: where it does, the function calls itself for ever
-/

namespace CftpServer.Session

open CLib FileTree

variable {env : Env Disk} {permits : Disk → Proc → Call → Bool} {t : Disk} {p : Proc} {path : Bytes} {d : List Name}

/-! ## One entry -/

section Entry

variable {σ : Type} {env : Env σ} {sub : Bytes → Session σ → Bool × Session σ} {name : Bytes} {names : List Bytes}
  {s : Session σ}

theorem deleteEntries_dots (h : name = ascii "." ∨ name = ascii "..") :
    deleteEntries env sub path (name :: names) s = deleteEntries env sub path names s := by
  rw [deleteEntries, if_pos h]

theorem deleteEntries_unseen (h : name ≠ ascii "." ∧ name ≠ ascii "..")
    (hst : env.lstat s.os s.proc (childPath path name) = none) : deleteEntries env sub path (name :: names) s =
      deleteEntries env sub path names (call env (.lstat (childPath path name)) s) := by
  rw [childPath] at hst ⊢
  rw [deleteEntries, if_neg (not_or.mpr h)]
  simp only [sysLstat, hst]

/-- The loop from a path `f` on that `lstat` has found. -/
def deleteEntry (env : Env σ) (sub : Bytes → Session σ → Bool × Session σ) (path f : Bytes) (isDir : Bool)
    (names : List Bytes) (s : Session σ) : Bool × Session σ :=
  if isDir then
    if (sub f s).1 then deleteEntries env sub path names (sub f s).2 else (false, (sub f s).2)
  else deleteEntries env sub path names (sysUnlink env f s).2

theorem deleteEntries_seen (h : name ≠ ascii "." ∧ name ≠ ascii "..") {st : Stat}
    (hst : env.lstat s.os s.proc (childPath path name) = some st) :
    deleteEntries env sub path (name :: names) s =
      deleteEntry env sub path (childPath path name) st.isDir names (call env (.lstat (childPath path name)) s) := by
  rw [childPath] at hst ⊢
  rw [deleteEntries, if_neg (not_or.mpr h)]
  simp only [sysLstat, hst, deleteEntry]

/-- The session with the directory open. -/
def opened (env : Env σ) (path : Bytes) (s : Session σ) : Session σ := (newFd env (call env (.opendir path) s)).2

/-- A directory that can be opened: its entries, then the directory itself. -/
theorem deleteDirectoryRecursively_succ {depth : Nat} (h : env.opendir s.os s.proc path = some names)
    {r : Bool × Session σ}
    (hr : deleteEntries env (deleteDirectoryRecursively env depth) path names (opened env path s) = r) :
    deleteDirectoryRecursively env (depth + 1) path s =
      if r.2.ended.isSome then (false, r.2)
      else if r.1 then sysRmdir env path (closeFd env s.nextId r.2) else (false, closeFd env s.nextId r.2) := by
  have hdir : sysOpendir env path s = (some ((s.nextId : Int), names), opened env path s) := by
    simp only [sysOpendir, h]
    rfl
  rw [deleteDirectoryRecursively]
  simp only [hdir, hr]

end Entry

/-! ## The tree in the course of a deletion -/

theorem os_sysUnlink {s : Session Disk} : (sysUnlink (onDisk env permits) path s).2.os =
    if permits s.os s.proc (.unlink path) then (unlinks s.os s.proc path).elim s.os s.os.remove else s.os := rfl

theorem os_sysRmdir {s : Session Disk} : (sysRmdir (onDisk env permits) path s).2.os =
    if permits s.os s.proc (.rmdir path) then (rmdirs s.os s.proc path).elim s.os s.os.remove else s.os := rfl

/-- Nothing is added to the tree. -/
theorem after_le (env : Env Disk) (permits : Disk → Proc → Call → Bool) (t : Disk) (p : Proc) (e : Effect) :
    (onDisk env permits).after t p e ≤ t := by
  have hremove : ∀ l : Option (List Name), l.elim t t.remove ≤ t := by
    rintro (_ | l)
    · exact le_refl t
    · exact Tree.remove_le
  simp only [onDisk]
  split
  · split
    · exact hremove _
    · exact le_refl t
  · split
    · exact hremove _
    · exact le_refl t
  · exact le_refl t

/-- The process is on what is left of the tree. -/
structure Within (t : Disk) (p : Proc) (s : Session Disk) : Prop where
  os : s.os ≤ t
  proc : s.proc = p

theorem Within.emit {s : Session Disk} (h : Within t p s) (env : Env Disk) (permits : Disk → Proc → Call → Bool)
    (e : Effect) : Within t p (emit (onDisk env permits) e s) :=
  ⟨(after_le env permits s.os s.proc e).trans h.os, h.proc⟩

theorem Within.closeFd {s : Session Disk} (h : Within t p s) {fd : Int} :
    Within t p (closeFd (onDisk env permits) fd s) := by
  unfold Session.closeFd
  split
  · exact h
  · exact h.emit env permits _

theorem Within.sysOpendir {s : Session Disk} (h : Within t p s) {path : Bytes} :
    Within t p (sysOpendir (onDisk env permits) path s).2 := by
  have hcall : Within t p (call (onDisk env permits) (.opendir path) s) := h.emit env permits _
  unfold Session.sysOpendir
  split
  · have hopened : Within t p (Session.emit (onDisk env permits) (.opened s.nextId)
        (call (onDisk env permits) (.opendir path) s)) := hcall.emit env permits _
    exact ⟨hopened.os, hopened.proc⟩
  · exact hcall

theorem Within.deleteEntries {sub : Bytes → Session Disk → Bool × Session Disk} {s : Session Disk} (h : Within t p s)
    (hsub : ∀ f s, Within t p s → Within t p (sub f s).2) {names : List Bytes} :
    Within t p (deleteEntries (onDisk env permits) sub path names s).2 :=
  deleteEntries_inv (fun f _ h => h.emit env permits (.call (.lstat f)))
    (fun f _ h => h.emit env permits (.call (.unlink f))) hsub path names s h

theorem Within.deleteDirectoryRecursively {s : Session Disk} (h : Within t p s) {depth : Nat} :
    Within t p (deleteDirectoryRecursively (onDisk env permits) depth path s).2 :=
  deleteDirectoryRecursively_inv (fun f _ h => h.emit env permits (.call (.lstat f)))
    (fun f _ h => h.emit env permits (.call (.unlink f))) (fun _ _ h => h.sysOpendir)
    (fun f _ h => h.emit env permits (.call (.rmdir f))) (fun _ _ h => h.closeFd) (fun _ h => ⟨h.os, h.proc⟩) depth
    path s h

/-- And it runs: no call on the disk ends it. -/
structure Running (t : Disk) (p : Proc) (s : Session Disk) : Prop extends Within t p s where
  ended : s.ended = none

theorem Running.call {s : Session Disk} (h : Running t p s) (c : Call) :
    Running t p (call (onDisk env permits) c s) := ⟨h.toWithin.emit env permits (.call c), h.ended⟩

theorem Running.sysOpendir {s : Session Disk} (h : Running t p s) :
    Running t p (sysOpendir (onDisk env permits) path s).2 := by
  refine ⟨h.toWithin.sysOpendir, ?_⟩
  unfold Session.sysOpendir
  split
  · exact h.ended
  · exact h.ended

theorem Running.closeFd {s : Session Disk} (h : Running t p s) {fd : Int} :
    Running t p (closeFd (onDisk env permits) fd s) := by
  refine ⟨h.toWithin.closeFd, ?_⟩
  unfold Session.closeFd
  split
  · exact h.ended
  · exact h.ended

/-- What `opendir` gives, in the words of the larger tree. -/
theorem opendir_names {s : Session Disk} {names : List Bytes} (h : Within t p s)
    (hdir : (onDisk env permits).opendir s.os s.proc path = some names) :
    ∃ d, resolve t p true path = some d ∧ t.node d = some .dir ∧
      ∀ name ∈ names, name ≠ ascii "." → name ≠ ascii ".." → ∃ n : Name, n.val = name ∧ t.node (d ++ [n]) ≠ none := by
  simp only [onDisk] at hdir
  split at hdir
  · obtain ⟨listing, hlisted, rfl⟩ := Option.map_eq_some_iff.mp hdir
    obtain ⟨d, hd, hnode, rfl⟩ := listed_eq_some_iff.mp hlisted
    refine ⟨d, h.proc ▸ resolve_mono h.os hd, Tree.node_of_le h.os hnode, fun name hname hdot hdotdot => ?_⟩
    rcases List.mem_cons.mp hname with rfl | hname
    · exact absurd rfl hdot
    · rcases List.mem_cons.mp hname with rfl | hname
      · exact absurd rfl hdotdot
      · obtain ⟨n, hn, rfl⟩ := List.mem_map.mp hname
        exact ⟨n, rfl, Tree.node_ne_none_of_le h.os (Tree.mem_names.mp hn)⟩
  · cases hdir

/-- A directory that `stat` or `lstat` sees, if the call is not refused. -/
theorem found_dir {s : Session Disk} {permitted follow : Bool} {st : Stat} (h : Within t p s)
    (hst : (if permitted then (found s.os s.proc follow path).map statOf else none) = some st)
    (hdir : st.isDir = true) : ∃ l, resolve t p follow path = some l ∧ t.node l = some .dir := by
  split at hst
  · obtain ⟨k, hk, rfl⟩ := Option.map_eq_some_iff.mp hst
    obtain ⟨l, hl, hnode⟩ := found_eq_some_iff.mp hk
    rw [statOf_isDir] at hdir
    exact ⟨l, h.proc ▸ resolve_mono h.os hl, Tree.node_of_le h.os (hdir ▸ hnode)⟩
  · cases hst

/-! ## Where every path is that of its entry -/

/-- The paths of the entries below `d` name them: of every name something is left that is a name. -/
def Descends (t : Disk) (d : List Name) (path : Bytes) : Prop :=
  ∀ r n, t.node (d ++ r ++ [n]) ≠ none → (pathTo path r).length < PATH_MAX → IsName (shown (pathTo path r) n.val)

theorem Descends.child (h : Descends t d path) (n : Name) : Descends t (d ++ [n]) (pathTo path [n]) := by
  intro r m hm hlen
  rw [← pathTo_append] at hlen ⊢
  exact h ([n] ++ r) m (by simpa using hm) hlen

/-- The cut path of an entry is that of an entry of the same directory. -/
theorem Descends.childPath (h : Descends t d path) (hlen : path.length < PATH_MAX) {n : Name}
    (hn : t.node (d ++ [n]) ≠ none) : ∃ m : Name, childPath path n.val = pathTo path [m] := by
  have hshown : IsName (shown path n.val) := by simpa using h [] n (by simpa using hn) (by simpa using hlen)
  have hlt : path.length < PATH_MAX - 2 := by
    by_contra hge
    exact hshown.1 (by rw [shown, show PATH_MAX - 2 - path.length = 0 by omega, List.take_zero])
  refine ⟨⟨shown path n.val, hshown⟩, ?_⟩
  rw [cut_child (by omega)]
  simp [pathTo]

/-- The path of an entry that is a directory leads to it. -/
theorem resolve_entry {l : List Name} {m : Name} (hd : resolve t p true path = some d) (hnode : t.node d = some .dir)
    (hl : resolve t p false (pathTo path [m]) = some l) (hdir : t.node l = some .dir) :
    resolve t p true (pathTo path [m]) = some (d ++ [m]) := by
  have hlen := (resolve_eq_some_iff.mp hl).1.2.1
  have hpath : pathTo path [m] = path ++ slash :: m.val := by simp [pathTo]
  rw [hpath] at hl hlen ⊢
  obtain ⟨rfl, -⟩ := (resolve_child hd hnode m hlen).mp hl
  exact resolve_followed hl hdir

/-- **Each call is one directory deeper**, and so the calls come to an end with the tree. -/
theorem deletes_of_descends (depth : Nat) : ∀ {d : List Name} {path : Bytes} {s : Session Disk}, Running t p s →
    resolve t p true path = some d → Descends t d path → (∀ l, t.node l ≠ none → l.length < d.length + depth) →
    Running t p (deleteDirectoryRecursively (onDisk env permits) depth path s).2 := by
  induction depth with
  | zero =>
    intro d path s _ hd _ hheight
    obtain ⟨⟨-, -, hroot, hstart⟩, hleads⟩ := resolve_eq_some_iff.mp hd
    exact absurd (hheight d (hleads.node_ne_none hroot hstart)) (by omega)
  | succ depth ih =>
    intro d path s h hd hdesc hheight
    refine deleteDirectoryRecursively_rule (P := Running t p) h.sysOpendir (fun names hnames => ?_)
      (fun _ _ h => h.closeFd) fun _ h => h.call (.rmdir path)
    obtain ⟨d', hd', hnode, hname⟩ := opendir_names h.toWithin hnames
    obtain rfl : d' = d := Option.some.inj (hd'.symm.trans hd)
    refine deleteEntries_rule (P := Running t p) (fun f _ h => h.call (.lstat f))
      (fun name hmem hdot hdotdot s st hs hst => ?_) _ h.sysOpendir
    split
    · rename_i hdir
      obtain ⟨n, rfl, hn⟩ := hname name hmem hdot hdotdot
      obtain ⟨m, hm⟩ := hdesc.childPath (resolve_eq_some_iff.mp hd).1.2.1 hn
      change (onDisk env permits).lstat s.os s.proc (childPath path n.val) = some st at hst
      rw [hm] at hst
      obtain ⟨l, hl, hlnode⟩ := found_dir hs.toWithin hst hdir
      have hheight' : ∀ l, t.node l ≠ none → l.length < (d' ++ [m]).length + depth := by
        intro l hl
        have := hheight l hl
        rw [List.length_append, List.length_singleton]
        omega
      have hcall : Running t p (call (onDisk env permits) (.lstat (pathTo path [m])) s) := hs.call _
      have hrec := ih hcall (resolve_entry hd hnode hl hlnode) (hdesc.child m) hheight'
      rwa [← hm] at hrec
    · exact (hs.call (.lstat _)).call (.unlink _)

/-! ## Where a path leads back -/

/-- The start path fills the buffer and names a link: the path of every entry is the start path, which is unlinked. -/
def StartsAtLink (t : Disk) (p : Proc) (path : Bytes) : Prop :=
  path.length = PATH_MAX - 1 ∧ ∃ target, found t p false path = some (.link target)

/-- Of the name of every entry below the start directory, as far as its directory can be opened, something is left
behind the path of the directory that is a name. -/
def Fits (t : Disk) (p : Proc) (path : Bytes) : Prop :=
  ∀ d, resolve t p true path = some d → ∀ r n, t.node (d ++ r ++ [n]) ≠ none → (pathTo path r).length < PATH_MAX →
    IsName (shown (pathTo path r) n.val) ∨ (r = [] ∧ StartsAtLink t p path)

/-- The calls come to an end, whatever is refused: some number of nested calls is enough. -/
def Terminates (env : Env Disk) (t : Disk) (p : Proc) (path : Bytes) : Prop :=
  ∀ (permits : Disk → Proc → Call → Bool) (s : Session Disk), s.os = t → s.proc = p → s.ended = none →
    ∃ limit, ∀ depth, limit ≤ depth → (deleteDirectoryRecursively (onDisk env permits) depth path s).2.ended = none

/-- From a link, only the link itself is deleted. -/
theorem deletes_of_startsAtLink {s : Session Disk} (h : StartsAtLink t p path) (hs : Running t p s) (depth : Nat) :
    Running t p (deleteDirectoryRecursively (onDisk env permits) (depth + 1) path s).2 := by
  obtain ⟨hlen, target, hlink⟩ := h
  refine deleteDirectoryRecursively_rule (P := Running t p) hs.sysOpendir (fun names _ => ?_) (fun _ _ h => h.closeFd)
    fun _ h => h.call (.rmdir path)
  refine deleteEntries_rule (P := Running t p) (fun f _ h => h.call (.lstat f)) (fun name _ _ _ s st hs hst => ?_) _
    hs.sysOpendir
  change (onDisk env permits).lstat s.os s.proc (childPath path name) = some st at hst
  rw [cut_full hlen] at hst
  split
  · rename_i hdir
    obtain ⟨l, hl, hnode⟩ := found_dir hs.toWithin hst hdir
    obtain ⟨l', hl', hnode'⟩ := found_eq_some_iff.mp hlink
    obtain rfl : l = l' := Option.some.inj (hl.symm.trans hl')
    cases hnode.symm.trans hnode'
  · exact (hs.call (.lstat _)).call (.unlink _)

theorem terminates_of_fits (h : Fits t p path) : Terminates env t p path := by
  intro permits s hos hproc hended
  have hs : Running t p s := ⟨⟨le_of_eq hos, hproc⟩, hended⟩
  by_cases hlink : StartsAtLink t p path
  · refine ⟨1, fun depth hdepth => ?_⟩
    obtain ⟨depth, rfl⟩ := Nat.exists_eq_add_of_le' hdepth
    exact (deletes_of_startsAtLink hlink hs depth).ended
  · obtain ⟨height, hheight⟩ := t.exists_height
    refine ⟨height + 1, fun depth hdepth => ?_⟩
    cases hd : resolve t p true path with
    | none =>
      obtain ⟨depth, rfl⟩ := Nat.exists_eq_add_of_le' (show 1 ≤ depth by omega)
      refine (deleteDirectoryRecursively_rule (P := Running t p) hs.sysOpendir (fun names hnames => ?_)
        (fun _ _ h => h.closeFd) fun _ h => h.call (.rmdir path)).ended
      obtain ⟨d, hd', -⟩ := opendir_names hs.toWithin hnames
      cases hd'.symm.trans hd
    | some d =>
      have hdesc : Descends t d path := fun r n hn hlen => (h d hd r n hn hlen).resolve_right fun hr => hlink hr.2
      have hdepth' : ∀ l, t.node l ≠ none → l.length < d.length + depth := by
        intro l hl
        have := hheight l hl
        omega
      exact (deletes_of_descends depth hs hd hdesc hdepth').ended

/-! ## Recursion without end -/

/-- Nested calls fill the stack. -/
def Crashes (r : Bool × Session Disk) : Prop := r.1 = false ∧ r.2.ended ≠ none

/-- Of the entries of the directory `d` only `n` is looked at, and what has the same path. -/
structure Shows (permits : Disk → Proc → Call → Bool) (t : Disk) (p : Proc) (d : List Name) (path : Bytes) (n : Name) :
    Prop where
  seen : permits t p (.lstat (childPath path n.val)) = true
  only : ∀ m : Name, t.node (d ++ [m]) ≠ none → permits t p (.lstat (childPath path m.val)) = true →
    childPath path m.val = childPath path n.val

section Endless

variable {f : Bytes}

theorem lstat_onDisk (env : Env Disk) (permits : Disk → Proc → Call → Bool) (t : Disk) (p : Proc) (f : Bytes) :
    (onDisk env permits).lstat t p f = if permits t p (.lstat f) then (found t p false f).map statOf else none := rfl

/-- Of the names only those with the path `f` are looked at: the loop comes to one of them with nothing changed. -/
theorem deleteEntries_comes_to {sub : Bytes → Session Disk → Bool × Session Disk} {k : Node Name}
    (hf : found t p false f = some k) : ∀ {names : List Bytes},
    (∀ name ∈ names, name ≠ ascii "." → name ≠ ascii ".." → permits t p (.lstat (childPath path name)) = true →
      childPath path name = f) →
    (∃ name ∈ names, name ≠ ascii "." ∧ name ≠ ascii ".." ∧ childPath path name = f ∧
      permits t p (.lstat f) = true) →
    ∀ s, s.os = t → s.proc = p → ∃ names' s', s'.os = t ∧ s'.proc = p ∧ s'.ended = s.ended ∧
      deleteEntries (onDisk env permits) sub path names s =
        deleteEntry (onDisk env permits) sub path f (statOf k).isDir names' s' := by
  intro names
  induction names with
  | nil => exact fun _ ⟨_, hmem, _⟩ => by cases hmem
  | cons name names ih =>
    intro honly hex s hos hproc
    have ih := ih fun name hname => honly name (List.mem_cons_of_mem _ hname)
    obtain ⟨name', hmem, hdot, hdotdot, hpath, hseen⟩ := hex
    have htail : name ≠ name' → name' ∈ names := fun hne => (List.mem_cons.mp hmem).resolve_left (Ne.symm hne)
    by_cases hdots : name = ascii "." ∨ name = ascii ".."
    · rw [deleteEntries_dots hdots]
      refine ih ⟨name', htail ?_, hdot, hdotdot, hpath, hseen⟩ s hos hproc
      rintro rfl
      exact hdots.elim hdot hdotdot
    · rw [not_or] at hdots
      have hlstat := lstat_onDisk env permits s.os s.proc (childPath path name)
      by_cases hin : permits t p (.lstat (childPath path name)) = true
      · obtain rfl : childPath path name = f := honly name List.mem_cons_self hdots.1 hdots.2 hin
        rw [hos, hproc, if_pos hin, hf, Option.map_some, ← hos, ← hproc] at hlstat
        exact ⟨names, call (onDisk env permits) (.lstat (childPath path name)) s, hos, hproc, rfl,
          deleteEntries_seen hdots hlstat⟩
      · rw [hos, hproc, if_neg hin, ← hos, ← hproc] at hlstat
        rw [deleteEntries_unseen hdots hlstat]
        refine ih ⟨name', htail ?_, hdot, hdotdot, hpath, hseen⟩
          (call (onDisk env permits) (.lstat (childPath path name)) s) hos hproc
        rintro rfl
        exact hin (hpath ▸ hseen)

/-- A directory with an entry whose path is the only one of its paths that is looked at. -/
theorem opendir_comes_to {sub : Bytes → Session Disk → Bool × Session Disk} {n : Name} {k : Node Name}
    (hopen : permits t p (.opendir path) = true) (hd : resolve t p true path = some d)
    (hn : t.node (d ++ [n]) ≠ none) (hf : found t p false (childPath path n.val) = some k)
    (hshows : Shows permits t p d path n) (s : Session Disk) (hos : s.os = t) (hproc : s.proc = p) :
    ∃ names, (onDisk env permits).opendir s.os s.proc path = some names ∧
      ∃ names' s', s'.os = t ∧ s'.proc = p ∧ s'.ended = s.ended ∧
        deleteEntries (onDisk env permits) sub path names (opened (onDisk env permits) path s) =
          deleteEntry (onDisk env permits) sub path (childPath path n.val) (statOf k).isDir names' s' := by
  have hlisted : listed t p path = some (t.names d) := listed_eq_some_iff.mpr ⟨d, hd, Tree.node_parent hn, rfl⟩
  refine ⟨ascii "." :: ascii ".." :: (t.names d).map Subtype.val, ?_, ?_⟩
  · rw [hos, hproc]
    simp [onDisk, hopen, hlisted]
  · refine deleteEntries_comes_to hf (fun name hname hdot hdotdot hin => ?_) ?_ (opened _ path s) hos hproc
    · have hname := ((List.mem_cons.mp hname).resolve_left hdot)
      obtain ⟨m, hm, rfl⟩ := List.mem_map.mp ((List.mem_cons.mp hname).resolve_left hdotdot)
      exact hshows.only m (Tree.mem_names.mp hm) hin
    · have hentry : n.val ∈ ascii "." :: ascii ".." :: (t.names d).map Subtype.val :=
        List.mem_cons_of_mem _ (List.mem_cons_of_mem _ (List.mem_map.mpr ⟨n, Tree.mem_names.mpr hn, rfl⟩))
      exact ⟨n.val, hentry, n.property.2.2.1, n.property.2.2.2, rfl, hshows.seen⟩

/-- A directory with an entry on whose path the function crashes, the only one of its paths that is looked at. -/
theorem crashes_of_entry {n : Name} (hopen : permits t p (.opendir path) = true) (hd : resolve t p true path = some d)
    (hn : t.node (d ++ [n]) ≠ none) (hf : found t p false (childPath path n.val) = some .dir)
    (hshows : Shows permits t p d path n) {depth : Nat} (hsub : ∀ s, s.os = t → s.proc = p →
      Crashes (deleteDirectoryRecursively (onDisk env permits) depth (childPath path n.val) s)) :
    ∀ s, s.os = t → s.proc = p → Crashes (deleteDirectoryRecursively (onDisk env permits) (depth + 1) path s) := by
  intro s hos hproc
  obtain ⟨names, hdir, names', s', hos', hproc', -, hentries⟩ := opendir_comes_to hopen hd hn hf hshows s hos hproc
  obtain ⟨hfalse, hended⟩ := hsub s' hos' hproc'
  rw [deleteEntry, if_pos (statOf_isDir.mpr rfl), hfalse, if_neg (by simp)] at hentries
  rw [deleteDirectoryRecursively_succ hdir hentries, if_pos (Option.isSome_iff_ne_none.mpr hended)]
  exact ⟨rfl, hended⟩

/-- A path that fills the buffer and leads to a directory with an entry: the path of the entry is the same. -/
theorem crashes_of_full {n : Name} (hlen : path.length = PATH_MAX - 1) (hf : found t p false path = some .dir)
    (hopen : permits t p (.opendir path) = true) (hseen : permits t p (.lstat path) = true)
    (hd : resolve t p true path = some d) (hn : t.node (d ++ [n]) ≠ none) (depth : Nat) :
    ∀ s, s.os = t → s.proc = p → Crashes (deleteDirectoryRecursively (onDisk env permits) depth path s) := by
  induction depth with
  | zero => exact fun s _ _ => ⟨rfl, Option.some_ne_none _⟩
  | succ depth ih =>
    have hchild : ∀ name, childPath path name = path := cut_full hlen
    refine crashes_of_entry (n := n) hopen hd hn ?_ ⟨?_, fun m _ _ => ?_⟩ ?_
    · rwa [hchild]
    · rwa [hchild]
    · rw [hchild, hchild]
    · rwa [hchild]

/-- An entry whose name leaves no name: its path fills the buffer, and leads to a directory with an entry. -/
theorem leads_back {n : Name} (hd : resolve t p true path = some d) (hn : t.node (d ++ [n]) ≠ none)
    (hbad : ¬ IsName (shown path n.val)) (hdir : path.length = PATH_MAX - 1 → found t p false path = some .dir) :
    (childPath path n.val).length = PATH_MAX - 1 ∧ found t p false (childPath path n.val) = some .dir ∧
      ∃ d' m, resolve t p true (childPath path n.val) = some d' ∧ t.node (d' ++ [m]) ≠ none := by
  have htakes := (resolve_eq_some_iff.mp hd).1.2.1
  have hnode := Tree.node_parent hn
  by_cases hfull : path.length = PATH_MAX - 1
  · rw [cut_full hfull]
    exact ⟨hfull, hdir hfull, d, n, hd, hn⟩
  · obtain ⟨hlen, hwhich⟩ := shown_dots (by omega) hbad
    have hshort : (path ++ slash :: shown path n.val).length < PATH_MAX := by
      rw [hlen]
      decide
    rw [cut_child (by omega)]
    refine ⟨hlen, ?_⟩
    rcases hwhich with hstay | hup
    · have hres : ∀ follow, resolve t p follow (path ++ slash :: shown path n.val) = some d :=
        fun follow => (resolve_stay hd hnode hstay hshort).mpr rfl
      exact ⟨found_eq_some_iff.mpr ⟨d, hres false, hnode⟩, d, n, hres true, hn⟩
    · rw [hup] at hshort ⊢
      have hres : ∀ follow, resolve t p follow (path ++ slash :: ascii "..") =
          some (if d = placeOf p.root then d else d.dropLast) := fun follow => (resolve_up hd hnode hshort).mpr rfl
      refine ⟨found_eq_some_iff.mpr ⟨_, hres false, Tree.node_up hnode⟩, ?_⟩
      by_cases hroot : d = placeOf p.root
      · exact ⟨d, n, by rw [hres, if_pos hroot], hn⟩
      · rcases List.eq_nil_or_concat d with rfl | ⟨l, a, rfl⟩
        · exact ⟨[], n, by rw [hres, if_neg hroot]; rfl, hn⟩
        · rw [List.concat_eq_append] at hroot hnode hres
          refine ⟨l, a, by rw [hres, if_neg hroot, List.dropLast_concat], ?_⟩
          rw [hnode]
          exact Option.some_ne_none _

/-! ### The way to such an entry -/

theorem pathTo_eq_child {r : List Name} {w : Bytes} (h : pathTo path r = path ++ slash :: w) (hw : slash ∉ w) :
    ∃ m, r = [m] ∧ w = m.val := by
  rw [pathTo, List.append_cancel_left_eq] at h
  rcases r with _ | ⟨m, _ | ⟨m', r⟩⟩
  · cases h
  · exact ⟨m, rfl, by simpa using h.symm⟩
  · rw [List.flatMap_cons, List.cons_append, List.cons.injEq] at h
    refine absurd ?_ hw
    rw [← h.2]
    simp

theorem length_pathTo (path : Bytes) (r : List Name) : path.length + r.length ≤ (pathTo path r).length := by
  induction r using List.reverseRecOn with
  | nil => simp
  | append_singleton r n ih =>
    simp only [pathTo_concat, List.length_append, List.length_cons, List.length_nil]
    omega

/-- The path of a directory leads to it. -/
theorem resolve_pathTo (hd : resolve t p true path = some d) : ∀ {r : List Name}, t.node (d ++ r) = some .dir →
    (pathTo path r).length < PATH_MAX → resolve t p true (pathTo path r) = some (d ++ r) := by
  intro r
  induction r using List.reverseRecOn with
  | nil =>
    intro _ _
    simpa using hd
  | append_singleton r m ih =>
    intro hnode hlen
    rw [← List.append_assoc] at hnode ⊢
    have hparent := Tree.node_parent (by rw [hnode]; exact Option.some_ne_none _)
    rw [pathTo_concat] at hlen ⊢
    have hres := ih hparent (by rw [List.length_append] at hlen; omega)
    refine resolve_followed ((resolve_child hres hparent m hlen).mpr ⟨rfl, ?_⟩) hnode
    rw [hnode]
    exact Option.some_ne_none _

/-- An entry on the way, from its directory. -/
theorem entry_on_way (hd : resolve t p true path = some d) {r r₁ r₂ : List Name} {m : Name} (hr : r₁ ++ m :: r₂ = r)
    (hn : t.node (d ++ r) ≠ none) (hlen : (pathTo path r).length < PATH_MAX) :
    childPath (pathTo path r₁) m.val = pathTo path (r₁ ++ [m]) ∧ resolve t p true (pathTo path r₁) = some (d ++ r₁) ∧
      resolve t p false (pathTo path (r₁ ++ [m])) = some (d ++ r₁ ++ [m]) ∧ t.node (d ++ r₁ ++ [m]) ≠ none := by
  obtain rfl : (r₁ ++ [m]) ++ r₂ = r := by rw [List.append_assoc]; exact hr
  have hthere : t.node (d ++ r₁ ++ [m]) ≠ none := by
    refine Tree.node_of_below (r := r₂) ?_
    rwa [List.append_assoc d, List.append_assoc d]
  have hfits : (pathTo path (r₁ ++ [m])).length < PATH_MAX := by
    have := length_pathTo (pathTo path (r₁ ++ [m])) r₂
    rw [← pathTo_append] at this
    omega
  rw [pathTo_concat] at hfits ⊢
  have hres : resolve t p true (pathTo path r₁) = some (d ++ r₁) :=
    resolve_pathTo hd (Tree.node_parent hthere) (by rw [List.length_append] at hfits; omega)
  have hentry := (resolve_child hres (Tree.node_parent hthere) m hfits).mpr ⟨rfl, hthere⟩
  exact ⟨childPath_of_fits hfits, hres, hentry, hthere⟩

/-- `lstat` finds the directory there as well, but for a start path that is a link. -/
theorem found_pathTo (hd : resolve t p true path = some d) {r : List Name} (hnode : t.node (d ++ r) = some .dir)
    (hlen : (pathTo path r).length = PATH_MAX - 1) (hlink : ¬ (r = [] ∧ StartsAtLink t p path)) :
    found t p false (pathTo path r) = some .dir := by
  rw [found_eq_some_iff]
  rcases List.eq_nil_or_concat r with rfl | ⟨r, m, rfl⟩
  · rw [pathTo_nil] at hlen ⊢
    rw [List.append_nil] at hnode
    obtain ⟨htakes, hleads⟩ := resolve_eq_some_iff.mp hd
    rcases hleads.unfollowed with h | ⟨l, target, h, hl⟩
    · exact ⟨d, resolve_eq_some_iff.mpr ⟨htakes, h⟩, hnode⟩
    · exact absurd ⟨rfl, hlen, target, found_eq_some_iff.mpr ⟨l, resolve_eq_some_iff.mpr ⟨htakes, h⟩, hl⟩⟩ hlink
  · rw [List.concat_eq_append] at hnode hlen ⊢
    rw [← List.append_assoc] at hnode
    have hne : t.node (d ++ r ++ [m]) ≠ none := by rw [hnode]; exact Option.some_ne_none _
    have hlen' := hlen
    rw [pathTo_concat] at hlen' ⊢
    have hshort : (pathTo path r ++ slash :: m.val).length < PATH_MAX := by rw [hlen']; decide
    have hparent : (pathTo path r).length < PATH_MAX := by rw [List.length_append] at hshort; omega
    exact ⟨_, (resolve_child (resolve_pathTo hd (Tree.node_parent hne) hparent) (Tree.node_parent hne) m hshort).mpr
      ⟨rfl, hne⟩, hnode⟩

/-- **Recursion without end**, when what is left of the name of an entry below the start is not a name, and nothing but
the way to it is looked at. -/
theorem crashes_of_chain {r : List Name} {n : Name} (hd : resolve t p true path = some d)
    (hn : t.node (d ++ r ++ [n]) ≠ none) (hlen : (pathTo path r).length < PATH_MAX)
    (hbad : ¬ IsName (shown (pathTo path r) n.val)) (hlink : ¬ (r = [] ∧ StartsAtLink t p path))
    (hopen : ∀ q, permits t p (.opendir q) = true)
    (hshows : ∀ r₁ m r₂, r₁ ++ m :: r₂ = r ++ [n] → Shows permits t p (d ++ r₁) (pathTo path r₁) m) (r₂ : List Name) :
    ∀ {r₁ : List Name}, r₁ ++ r₂ = r → ∀ (depth : Nat) (s : Session Disk), s.os = t → s.proc = p →
      Crashes (deleteDirectoryRecursively (onDisk env permits) depth (pathTo path r₁) s) := by
  have hnode := Tree.node_parent hn
  induction r₂ with
  | nil =>
    intro r₁ hr depth
    rw [List.append_nil] at hr
    subst hr
    cases depth with
    | zero => exact fun s _ _ => ⟨rfl, Option.some_ne_none _⟩
    | succ depth =>
      have hres := resolve_pathTo hd hnode hlen
      have hlast := hshows r₁ n [] rfl
      obtain ⟨hfull, hfound, d', m, hd', hm⟩ :=
        leads_back hres hn hbad fun hfull => found_pathTo hd hnode hfull hlink
      exact crashes_of_entry (hopen _) hres hn hfound hlast
        (crashes_of_full hfull hfound (hopen _) hlast.seen hd' hm depth)
  | cons m r₂ ih =>
    intro r₁ hr depth
    cases depth with
    | zero => exact fun s _ _ => ⟨rfl, Option.some_ne_none _⟩
    | succ depth =>
      have hr' : (r₁ ++ [m]) ++ r₂ = r := by rw [List.append_assoc]; exact hr
      -- the next directory on the way, and its path, which fits
      obtain ⟨hchild, hres, hentry, hthere⟩ := entry_on_way hd hr (by rw [hnode]; exact Option.some_ne_none _) hlen
      have hdir : t.node (d ++ r₁ ++ [m]) = some .dir := by
        refine Tree.node_above (r := r₂ ++ [n]) (by simp) ?_
        rw [← hr'] at hn
        simpa using hn
      have hfound : found t p false (pathTo path (r₁ ++ [m])) = some .dir := found_eq_some_iff.mpr ⟨_, hentry, hdir⟩
      have hnext : Shows permits t p (d ++ r₁) (pathTo path r₁) m := hshows r₁ m (r₂ ++ [n]) (by
        rw [← hr]
        simp)
      exact crashes_of_entry (hopen _) hres hthere (hchild ▸ hfound) hnext (by rw [hchild]; exact ih hr' depth)

/-! ### Nothing else is looked at -/

/-- `lstat` is refused on all paths but these. -/
def only (seen : List Bytes) (_ : Disk) (_ : Proc) : Call → Bool
  | .lstat f => decide (f ∈ seen)
  | _ => true

/-- On the way to an entry, through the directories `r`, only the paths of these and that of the entry are looked at. -/
theorem seen_child {r r₁ r₂ : List Name} {n m : Name} (hr : r₁ ++ r₂ = r) (hlen : (pathTo path r).length < PATH_MAX)
    (hin : childPath (pathTo path r₁) m.val ∈ childPath (pathTo path r) n.val :: r.inits.map (pathTo path)) :
    (r₂ = [] ∧ childPath (pathTo path r₁) m.val = childPath (pathTo path r) n.val) ∨
      ∃ m' r₃, r₂ = m' :: r₃ ∧ childPath (pathTo path r₁) m.val = pathTo path (r₁ ++ [m']) := by
  subst hr
  have hlen₁ : (pathTo path r₁).length + r₂.length ≤ (pathTo path (r₁ ++ r₂)).length := by
    rw [pathTo_append]
    exact length_pathTo _ _
  by_cases hfull : (pathTo path r₁).length = PATH_MAX - 1
  · obtain rfl : r₂ = [] := List.eq_nil_of_length_eq_zero (by omega)
    rw [List.append_nil, cut_full hfull, cut_full hfull]
    exact .inl ⟨rfl, rfl⟩
  · have hslash : slash ∉ shown (pathTo path r₁) m.val := fun h => m.property.2.1 (List.mem_of_mem_take h)
    have hpath : childPath (pathTo path r₁) m.val = pathTo path r₁ ++ slash :: shown (pathTo path r₁) m.val :=
      cut_child (by omega) m.val
    -- a path of a directory on the way is that of the next one
    have hdir : ∀ r₅ : List Name, r₅ <+: r₁ ++ r₂ → childPath (pathTo path r₁) m.val = pathTo path r₅ →
        ∃ m' r₃, r₂ = m' :: r₃ ∧ childPath (pathTo path r₁) m.val = pathTo path (r₁ ++ [m']) := by
      intro r₅ hpre heq
      rcases List.prefix_or_prefix_of_prefix hpre (List.prefix_append r₁ r₂) with ⟨r₆, rfl⟩ | ⟨r₆, rfl⟩
      · have hle := length_pathTo (pathTo path r₅) r₆
        rw [← pathTo_append, ← heq, hpath, List.length_append, List.length_cons] at hle
        omega
      · obtain ⟨m', rfl, -⟩ := pathTo_eq_child (by rw [← pathTo_append, ← heq, hpath]) hslash
        obtain ⟨r₃, hr₃⟩ := (List.prefix_append_right_inj r₁).mp hpre
        exact ⟨m', r₃, hr₃.symm, heq⟩
    rcases List.mem_cons.mp hin with heq | hmem
    · cases r₂ with
      | nil => exact .inl ⟨rfl, heq⟩
      | cons m' r₃ =>
        by_cases hfull' : (pathTo path (r₁ ++ m' :: r₃)).length = PATH_MAX - 1
        · exact .inr (hdir _ List.prefix_rfl (by rw [heq, cut_full hfull']))
        · refine absurd ?_ hslash
          obtain ⟨x, hx⟩ : ∃ x, pathTo (pathTo path r₁) (m' :: r₃) = pathTo path r₁ ++ slash :: x := ⟨_, rfl⟩
          rw [hpath, cut_child (by omega), pathTo_append, hx, List.append_assoc, List.append_cancel_left_eq,
            List.cons_append, List.cons.injEq] at heq
          rw [heq.2]
          simp
    · obtain ⟨r₅, hr₅, heq⟩ := List.mem_map.mp hmem
      exact .inr (hdir r₅ ((List.mem_inits ..).mp hr₅) heq.symm)

/-- So such refusals leave nothing to look at but the way. -/
theorem only_shows {r r₁ r₂ : List Name} {n m : Name} (hlen : (pathTo path r).length < PATH_MAX)
    (hr : r₁ ++ m :: r₂ = r ++ [n]) :
    Shows (only (childPath (pathTo path r) n.val :: r.inits.map (pathTo path))) t p d (pathTo path r₁) m := by
  rcases List.eq_nil_or_concat r₂ with rfl | ⟨r₂, m', rfl⟩
  · obtain ⟨rfl, hm⟩ := List.append_inj' hr rfl
    cases hm
    refine ⟨by simp [only], fun m' _ hin => ?_⟩
    rcases seen_child (List.append_nil r₁) hlen (of_decide_eq_true hin) with ⟨-, heq⟩ | ⟨_, _, hcons, -⟩
    · exact heq
    · cases hcons
  · rw [List.concat_eq_append, ← List.cons_append, ← List.append_assoc] at hr
    obtain ⟨hr, -⟩ := List.append_inj' hr rfl
    have hr' : (r₁ ++ [m]) ++ r₂ = r := by rw [List.append_assoc]; exact hr
    have hchild : childPath (pathTo path r₁) m.val = pathTo path (r₁ ++ [m]) := by
      have hle := length_pathTo (pathTo path (r₁ ++ [m])) r₂
      rw [← pathTo_append, hr'] at hle
      rw [pathTo_concat] at hle ⊢
      exact childPath_of_fits (by omega)
    refine ⟨decide_eq_true ?_, fun m' _ hin => ?_⟩
    · rw [hchild]
      exact List.mem_cons_of_mem _ (List.mem_map.mpr ⟨r₁ ++ [m], (List.mem_inits ..).mpr ⟨r₂, hr'⟩, rfl⟩)
    · rcases seen_child hr hlen (of_decide_eq_true hin) with ⟨hnil, -⟩ | ⟨m'', r₃, hcons, heq⟩
      · cases hnil
      · cases hcons
        rw [heq, hchild]

/-- A session on a disk. -/
def sessionOn (t : Disk) (p : Proc) : Session Disk :=
  ⟨newConnection (.inet 127 0 0 1), [], [], fun _ => none, fun _ => false, fun _ => none, 0, p, t, [], none⟩

theorem fits_of_terminates (h : Terminates env t p path) : Fits t p path := by
  intro d hd r n hn hlen
  by_contra hnot
  rw [not_or] at hnot
  obtain ⟨limit, hlimit⟩ := h (only (childPath (pathTo path r) n.val :: r.inits.map (pathTo path))) (sessionOn t p)
    rfl rfl rfl
  have hcrash : Crashes (deleteDirectoryRecursively (onDisk env _) limit (pathTo path []) (sessionOn t p)) :=
    crashes_of_chain hd hn hlen hnot.1 hnot.2 (fun _ => rfl) (fun _ _ _ hr => only_shows hlen hr) r
      (List.nil_append r) limit (sessionOn t p) rfl rfl
  rw [pathTo_nil] at hcrash
  exact hcrash.2 (hlimit limit le_rfl)

end Endless

/-- **The recursion comes to an end**, whatever is refused, exactly when no path leads back. -/
theorem deletion_terminates_iff (env : Env Disk) (t : Disk) (p : Proc) (path : Bytes) :
    Terminates env t p path ↔ Fits t p path := ⟨fits_of_terminates, terminates_of_fits⟩

/-! ## A tree that is too deep -/

/-- Directories of one name, each in the one before. -/
def nested (a : Name) (n : Nat) : Disk where
  entries := (List.range n).map fun i => (List.replicate (i + 1) a, .dir)
  nodup := by
    rw [List.map_map]
    refine List.nodup_range.map fun i j h => ?_
    have hlen := congrArg List.length h
    simpa using hlen
  rooted := by
    intro e he
    obtain ⟨i, hi, rfl⟩ := List.mem_map.mp he
    refine ⟨List.replicate i a, a, List.replicate_succ', ?_⟩
    cases i with
    | zero => exact .inl rfl
    | succ i => exact .inr (List.mem_map.mpr ⟨i, List.mem_range.mpr (Nat.lt_of_succ_lt (List.mem_range.mp hi)), rfl⟩)

theorem nested_node (a : Name) {n k : Nat} (h : k ≤ n) : (nested a n).node (List.replicate k a) = some .dir := by
  cases k with
  | zero => exact Tree.node_nil
  | succ k => exact (Tree.node_eq_some_iff (by simp)).mpr (List.mem_map.mpr ⟨k, List.mem_range.mpr h, rfl⟩)

theorem length_pathTo_replicate (path : Bytes) (a : Name) (k : Nat) :
    (pathTo path (List.replicate k a)).length = path.length + k * (a.val.length + 1) := by
  induction k with
  | zero => simp
  | succ k ih =>
    rw [List.replicate_succ', pathTo_concat, List.length_append, ih, List.length_cons, Nat.succ_mul]
    omega

theorem eq_of_nested_node {a : Name} {n : Nat} {l : List Name} (h : (nested a n).node l ≠ none) :
    ∃ k, l = List.replicate k a := by
  by_cases hl : l = []
  · exact ⟨0, hl⟩
  · obtain ⟨_, hmem⟩ := (Tree.node_ne_none_iff hl).mp h
    obtain ⟨i, -, heq⟩ := List.mem_map.mp hmem
    exact ⟨i + 1, (congrArg Prod.fst heq).symm⟩

/-- Of 2049 directories `a` within each other the last but one has a path of 4095 bytes, and that is also the path
`snprintf` makes for the last. Nothing is refused. -/
theorem deep_tree_recurses : ¬ ∀ (env : Env Disk) (t : Disk) (p : Proc) (path : Bytes) (s : Session Disk),
    s.os = t → s.proc = p → s.ended = none → listed t p path ≠ none → ∃ limit, ∀ depth, limit ≤ depth →
      (deleteDirectoryRecursively (onDisk env fun _ _ _ => true) depth path s).2.ended = none := by
  intro h
  let a : Name := ⟨ascii "a", by decide⟩
  let p : Proc := ⟨ascii "/", ascii "/", 0, 0, []⟩
  have hres : resolve (nested a 2049) p true a.val = some [a] := by
    refine resolve_eq_some_iff.mpr ⟨⟨by decide, by decide, Tree.node_nil, Tree.node_nil⟩, ?_⟩
    rw [steps_name]
    exact .dir (nested_node a (k := 1) (by omega)) .here
  have hlisted : listed (nested a 2049) p a.val ≠ none := by
    rw [listed_eq_some_iff.mpr ⟨[a], hres, nested_node a (k := 1) (by omega), rfl⟩]
    exact Option.some_ne_none _
  have hlen : (pathTo a.val (List.replicate 2047 a)).length = 4095 := by
    rw [length_pathTo_replicate, show a.val.length = 1 from rfl]
  have hdeep : (nested a 2049).node ([a] ++ List.replicate 2047 a ++ [a]) ≠ none := by
    rw [List.append_assoc, ← List.replicate_succ', List.singleton_append, ← List.replicate_succ,
      nested_node a le_rfl]
    exact Option.some_ne_none _
  have hbad : ¬ IsName (shown (pathTo a.val (List.replicate 2047 a)) a.val) := by
    intro hname
    refine hname.1 ?_
    rw [shown, hlen]
    rfl
  -- every directory has the one entry
  have hshows : ∀ r₁ m r₂, r₁ ++ m :: r₂ = List.replicate 2047 a ++ [a] →
      Shows (fun _ _ _ => true) (nested a 2049) p ([a] ++ r₁) (pathTo a.val r₁) m := by
    intro r₁ m r₂ hr
    refine ⟨rfl, fun m' hm' _ => ?_⟩
    obtain ⟨k, hk⟩ := eq_of_nested_node hm'
    have hm : m = a := List.eq_of_mem_replicate (n := 2048) (by rw [List.replicate_succ', ← hr]; simp)
    have hm' : m' = a := List.eq_of_mem_replicate (n := k) (by rw [← hk]; simp)
    rw [hm, hm']
  obtain ⟨limit, hlimit⟩ := h Env.permissive.still (nested a 2049) p a.val (sessionOn (nested a 2049) p) rfl rfl rfl
    hlisted
  have hcrash : Crashes (deleteDirectoryRecursively (onDisk Env.permissive.still _) limit (pathTo a.val [])
      (sessionOn (nested a 2049) p)) :=
    crashes_of_chain hres hdeep (by rw [hlen]; decide) hbad (fun hr => by cases hr.1) (fun _ => rfl) hshows _
      (List.nil_append _) limit (sessionOn (nested a 2049) p) rfl rfl
  rw [pathTo_nil] at hcrash
  exact hcrash.2 (hlimit limit le_rfl)

end CftpServer.Session
