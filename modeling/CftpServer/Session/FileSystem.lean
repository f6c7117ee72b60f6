import CftpServer.Session.Moves
import CftpServer.Lib.FileTree
import Mathlib.Data.List.DropRight

/-!
# DELE on a file system

The file system that DELE works on is a file tree; any call on it may also be refused. `resolve` is the resolution of
a path of bytes: at most 40 links, and no path that does not fit in `PATH_MAX` bytes with its NUL. `onDisk` is a system
with these calls.

* `resolve_below`: a path that goes on behind that of a directory
* `cut_child`: the path `delete_directory_recursively` makes for an entry
-/

namespace CftpServer

open CLib FileTree

/-! ## Paths of bytes -/

def slash : UInt8 := 47

/-- What an entry of a directory can be called. -/
def IsName (n : Bytes) : Prop := n ≠ [] ∧ slash ∉ n ∧ n ≠ ascii "." ∧ n ≠ ascii ".."

instance (n : Bytes) : Decidable (IsName n) := inferInstanceAs (Decidable (_ ∧ _))

abbrev Name := { n : Bytes // IsName n }

abbrev Disk := FileTree.Tree Name

/-- A component of a path; two slashes in a row have an empty one between them. -/
def component (c : Bytes) : FileTree.Step Name :=
  if h : IsName c then .down ⟨c, h⟩ else if c = ascii ".." then .up else .stay

/-- The components of a path. -/
def steps (path : Bytes) : List (FileTree.Step Name) := (path.splitOn slash).map component

/-- The components without the slashes at the end. -/
def namedSteps (path : Bytes) : List (FileTree.Step Name) :=
  ((path.splitOn slash).rdropWhile fun c => c = []).map component

/-- The path a symbolic link holds. -/
def linkPath (text : Bytes) : FileTree.Path Name := ⟨text.head? = some slash, steps text⟩

/-- The place of a directory of the process. -/
def placeOf (directory : Bytes) : List Name :=
  (directory.splitOn slash).filterMap fun c => if h : IsName c then some ⟨c, h⟩ else none

/-! ## What the calls do -/

section Calls

variable (t : Disk) (p : Proc)

def MAXSYMLINKS : Nat := 40

/-- Where a path begins. -/
def startOf (path : Bytes) : List Name := if path.head? = some slash then placeOf p.root else placeOf p.cwd

/-- A path the kernel takes: neither empty nor too long, from a directory that is there. -/
def Takes (path : Bytes) : Prop :=
  path ≠ [] ∧ path.length < Session.PATH_MAX ∧ t.node (placeOf p.root) = some .dir ∧ t.node (startOf p path) = some .dir

instance (path : Bytes) : Decidable (Takes t p path) := inferInstanceAs (Decidable (_ ∧ _))

/-- Where a path leads. -/
def resolve (follow : Bool) (path : Bytes) : Option (List Name) :=
  if Takes t p path then walk t (placeOf p.root) follow MAXSYMLINKS (steps path) (startOf p path) else none

/-- The entry a path names: slashes at its end do not matter, and a link stands for itself. -/
def entryOf (path : Bytes) : Option (List Name) :=
  if Takes t p path then walk t (placeOf p.root) false MAXSYMLINKS (namedSteps path) (startOf p path) else none

/-- What `stat` finds, and with `follow = false` what `lstat` finds. -/
def found (follow : Bool) (path : Bytes) : Option (Node Name) := (resolve t p follow path).bind t.node

/-- The names in the directory `opendir` opens. -/
def listed (path : Bytes) : Option (List Name) :=
  (resolve t p true path).bind fun d => if t.node d = some .dir then some (t.names d) else none

/-- The entry `unlink` removes. -/
def unlinks (path : Bytes) : Option (List Name) :=
  (resolve t p false path).filter fun l => t.node l ≠ none ∧ t.node l ≠ some .dir

/-- The last component is a name. -/
def EndsInName (path : Bytes) : Prop := ∃ a, (namedSteps path).getLast? = some (.down a)

/-- The entry `rmdir` removes. -/
def rmdirs (path : Bytes) : Option (List Name) :=
  match (namedSteps path).getLast? with
  | some (.down _) => (entryOf t p path).filter fun l => t.node l = some .dir ∧ t.names l = []
  | _ => none

end Calls

/-- The attributes of an entry; DELE looks at the type. -/
def statOf : Node Name → Stat
  | .file => ⟨.reg, 0o644, 1, 0, 0, 0, 0⟩
  | .dir => ⟨.dir, 0o755, 2, 0, 0, 4096, 0⟩
  | .link _ => ⟨.lnk, 0o777, 1, 0, 0, 0, 0⟩

/-- A system whose files are a file tree, as far as the calls of DELE go; `permits` tells which are not refused. -/
def onDisk (env : Env Disk) (permits : Disk → Proc → Call → Bool) : Env Disk :=
  { env with
    after := fun t p e =>
      match e with
      | .call (.unlink path) => if permits t p (.unlink path) then (unlinks t p path).elim t t.remove else t
      | .call (.rmdir path) => if permits t p (.rmdir path) then (rmdirs t p path).elim t t.remove else t
      | _ => t
    stat := fun t p path => if permits t p (.stat path) then (found t p true path).map statOf else none
    lstat := fun t p path => if permits t p (.lstat path) then (found t p false path).map statOf else none
    opendir := fun t p path =>
      if permits t p (.opendir path) then
        (listed t p path).map fun names => ascii "." :: ascii ".." :: names.map Subtype.val
      else none
    unlink := fun t p path => permits t p (.unlink path) && (unlinks t p path).isSome
    rmdir := fun t p path => permits t p (.rmdir path) && (rmdirs t p path).isSome }

/-- The calls of a system of one state, whatever is on the disk. -/
def Env.still (env : Env Unit) : Env Disk where
  pasvRange := env.pasvRange
  after := fun t _ _ => t
  getpwnam := fun _ => env.getpwnam ()
  getspnam := fun _ => env.getspnam ()
  crypt := env.crypt
  resolve := fun _ => env.resolve ()
  chroot := fun _ => env.chroot ()
  chdir := fun _ => env.chdir ()
  setgid := fun _ => env.setgid ()
  setuid := fun _ => env.setuid ()
  getcwd := fun _ => env.getcwd ()
  stat := fun _ => env.stat ()
  lstat := fun _ => env.lstat ()
  openRead := fun _ => env.openRead ()
  openWrite := fun _ => env.openWrite ()
  opendir := fun _ => env.opendir ()
  unlink := fun _ => env.unlink ()
  mkdir := fun _ => env.mkdir ()
  rmdir := fun _ => env.rmdir ()
  fstat := fun _ => env.fstat ()
  read := fun _ => env.read ()
  fileSegment := fun _ => env.fileSegment ()
  evbufferWrite := fun _ => env.evbufferWrite ()
  getsockname := fun _ => env.getsockname ()
  newBind := fun _ => env.newBind ()
  bufferevent := fun _ => env.bufferevent ()
  askRootForUsername := fun _ => env.askRootForUsername ()
  askRootForGroupname := fun _ => env.askRootForGroupname ()
  strftimeGmt := env.strftimeGmt
  strftimeLocal := env.strftimeLocal
  spin := env.spin
  stack := env.stack

theorem statOf_isDir {k : Node Name} : (statOf k).isDir = true ↔ k = .dir := by
  cases k <;> simp [statOf, Stat.isDir]

/-! ## Resolution -/

section Resolution

variable {t t' : Disk} {p : Proc} {follow : Bool} {path : Bytes} {l d : List Name}

theorem resolve_eq_some_iff : resolve t p follow path = some l ↔
    Takes t p path ∧ Leads t (placeOf p.root) follow MAXSYMLINKS (steps path) (startOf p path) l := by
  rw [resolve]
  split
  · rename_i h
    rw [walk_eq_some_iff]
    exact ⟨fun hl => ⟨h, hl⟩, fun hl => hl.2⟩
  · rename_i h
    exact ⟨fun hl => (by cases hl), fun hl => absurd hl.1 h⟩

theorem entryOf_eq_some_iff : entryOf t p path = some l ↔
    Takes t p path ∧ Leads t (placeOf p.root) false MAXSYMLINKS (namedSteps path) (startOf p path) l := by
  rw [entryOf]
  split
  · rename_i h
    rw [walk_eq_some_iff]
    exact ⟨fun hl => ⟨h, hl⟩, fun hl => hl.2⟩
  · rename_i h
    exact ⟨fun hl => (by cases hl), fun hl => absurd hl.1 h⟩

theorem Takes.mono (hle : t' ≤ t) (h : Takes t' p path) : Takes t p path :=
  ⟨h.1, h.2.1, Tree.node_of_le hle h.2.2.1, Tree.node_of_le hle h.2.2.2⟩

theorem resolve_mono (hle : t' ≤ t) (h : resolve t' p follow path = some l) : resolve t p follow path = some l := by
  rw [resolve_eq_some_iff] at h ⊢
  exact ⟨h.1.mono hle, h.2.mono hle⟩

theorem entryOf_mono (hle : t' ≤ t) (h : entryOf t' p path = some l) : entryOf t p path = some l := by
  rw [entryOf_eq_some_iff] at h ⊢
  exact ⟨h.1.mono hle, h.2.mono hle⟩

/-- A path that leads to a directory as such leads there also when links are followed. -/
theorem resolve_followed (h : resolve t p false path = some d) (hd : t.node d = some .dir) :
    resolve t p true path = some d := by
  rw [resolve_eq_some_iff] at h ⊢
  exact ⟨h.1, h.2.followed fun target hl => by cases hl.symm.trans hd⟩

theorem found_eq_some_iff {k : Node Name} :
    found t p follow path = some k ↔ ∃ l, resolve t p follow path = some l ∧ t.node l = some k := by
  rw [found, Option.bind_eq_some_iff]

theorem listed_eq_some_iff {names : List Name} : listed t p path = some names ↔
    ∃ d, resolve t p true path = some d ∧ t.node d = some .dir ∧ names = t.names d := by
  rw [listed, Option.bind_eq_some_iff]
  refine exists_congr fun d => and_congr_right fun _ => ?_
  split
  · rename_i hd
    rw [Option.some.injEq]
    exact ⟨fun h => ⟨hd, h.symm⟩, fun h => h.2.symm⟩
  · rename_i hd
    exact ⟨fun h => (by cases h), fun h => absurd h.1 hd⟩

theorem unlinks_eq_some_iff : unlinks t p path = some l ↔
    resolve t p false path = some l ∧ t.node l ≠ none ∧ t.node l ≠ some .dir := by
  rw [unlinks, Option.filter_eq_some_iff]
  simp

theorem rmdirs_eq_some_iff : rmdirs t p path = some l ↔
    EndsInName path ∧ entryOf t p path = some l ∧ t.node l = some .dir ∧ t.names l = [] := by
  unfold rmdirs EndsInName
  split
  · rename_i a hlast
    rw [Option.filter_eq_some_iff]
    simp [hlast]
  · rename_i hlast
    exact ⟨fun h => (by cases h), fun ⟨⟨a, ha⟩, _⟩ => absurd ha (hlast a)⟩

/-! ### Slashes at the end -/

/-- They are empty components. -/
theorem steps_eq (path : Bytes) : ∃ k, steps path = namedSteps path ++ List.replicate k .stay := by
  refine ⟨((path.splitOn slash).rtakeWhile fun c => c = []).length, ?_⟩
  have hstay : ((path.splitOn slash).rtakeWhile fun c => c = []).map component =
      List.replicate ((path.splitOn slash).rtakeWhile fun c => c = []).length .stay := by
    refine List.eq_replicate_iff.mpr ⟨by simp, fun s hs => ?_⟩
    obtain ⟨c, hc, rfl⟩ := List.mem_map.mp hs
    have hnil : c = [] := by simpa using List.mem_rtakeWhile_imp hc
    subst hnil
    rfl
  rw [← hstay, namedSteps, ← List.map_append, List.rdropWhile_append_rtakeWhile]
  rfl

/-- Without them a path leads where it leads with them. -/
theorem leads_named (h : resolve t p true path = some l) :
    Leads t (placeOf p.root) true MAXSYMLINKS (namedSteps path) (startOf p path) l := by
  obtain ⟨⟨-, -, hroot, hstart⟩, h⟩ := resolve_eq_some_iff.mp h
  obtain ⟨k, hk⟩ := steps_eq path
  rw [hk] at h
  cases k with
  | zero => simpa using h
  | succ k => exact (Leads.before_stays hroot hstart k h).1

/-- `unlink` removes the entry its path names. -/
theorem entryOf_of_unlinks (h : unlinks t p path = some l) : entryOf t p path = some l := by
  obtain ⟨hl, -, hdir⟩ := unlinks_eq_some_iff.mp h
  obtain ⟨htakes, hl⟩ := resolve_eq_some_iff.mp hl
  obtain ⟨k, hk⟩ := steps_eq path
  rw [hk] at hl
  cases k with
  | zero => exact entryOf_eq_some_iff.mpr ⟨htakes, by simpa using hl⟩
  | succ k => exact absurd (Leads.before_stays htakes.2.2.1 htakes.2.2.2 k hl).2 hdir

/-- What is found by a path has an entry: the place itself, or a link to it. -/
theorem entryOf_of_resolve (h : resolve t p true path = some d) :
    ∃ e, entryOf t p path = some e ∧ t.node e ≠ none ∧ (e = d ∨ ∃ target, t.node e = some (.link target)) := by
  obtain ⟨htakes, -⟩ := resolve_eq_some_iff.mp h
  rcases (leads_named h).unfollowed with hd | ⟨e, target, he, hlink⟩
  · exact ⟨d, entryOf_eq_some_iff.mpr ⟨htakes, hd⟩, hd.node_ne_none htakes.2.2.1 htakes.2.2.2, .inl rfl⟩
  · exact ⟨e, entryOf_eq_some_iff.mpr ⟨htakes, he⟩, by rw [hlink]; exact Option.some_ne_none _, .inr ⟨target, hlink⟩⟩

/-- The entry a path names is where the path leads, if it is a directory. -/
theorem resolve_of_entryOf (h : entryOf t p path = some d) (hd : t.node d = some .dir) :
    resolve t p true path = some d := by
  obtain ⟨htakes, h⟩ := entryOf_eq_some_iff.mp h
  have hfollowed := h.followed fun target hl => by cases hl.symm.trans hd
  obtain ⟨k, hk⟩ := steps_eq path
  refine resolve_eq_some_iff.mpr ⟨htakes, ?_⟩
  rw [hk]
  cases k with
  | zero => simpa using hfollowed
  | succ k =>
    obtain ⟨left, hleft⟩ := hfollowed.append hd
    exact (hleft true _ d (by simp)).mpr (leads_stays.mpr rfl)

/-- `rmdir` does not remove the top. -/
theorem rmdirs_ne_nil (h : rmdirs t p path = some l) : l ≠ [] := by
  obtain ⟨⟨a, ha⟩, hl, -, -⟩ := rmdirs_eq_some_iff.mp h
  obtain ⟨⟨-, -, hroot, hstart⟩, hl⟩ := entryOf_eq_some_iff.mp hl
  obtain ⟨ms, hms⟩ := List.getLast?_eq_some_iff.mp ha
  rw [hms] at hl
  obtain ⟨d', rfl⟩ := hl.concat hroot hstart
  simp

/-! ### Behind a directory -/

theorem steps_append (path w : Bytes) : steps (path ++ slash :: w) = steps path ++ steps w := by
  rw [steps, List.splitOn_append_cons_self, List.map_append]
  rfl

theorem steps_ne_nil (path : Bytes) : steps path ≠ [] := by
  simp [steps]

theorem component_name (n : Name) : component n.val = .down n := dif_pos n.property

theorem steps_name (n : Name) : steps n.val = [.down n] := by
  rw [steps, List.splitOn_eq_singleton n.property.2.1, List.map_singleton, component_name]

theorem startOf_append (h : path ≠ []) (w : Bytes) : startOf p (path ++ w) = startOf p path := by
  rw [startOf, startOf, List.head?_append_of_ne_nil _ h]

/-- A path that goes on behind that of a directory. -/
theorem resolve_below (h : resolve t p true path = some d) (hd : t.node d = some .dir) {w : Bytes}
    (hlen : (path ++ slash :: w).length < Session.PATH_MAX) :
    ∃ left, ∀ follow l, resolve t p follow (path ++ slash :: w) = some l ↔
      Leads t (placeOf p.root) follow left (steps w) d l := by
  obtain ⟨⟨hne, -, hroot, hstart⟩, hleads⟩ := resolve_eq_some_iff.mp h
  obtain ⟨left, hleft⟩ := hleads.append hd
  refine ⟨left, fun follow l => ?_⟩
  have htakes : Takes t p (path ++ slash :: w) :=
    ⟨by simp, hlen, hroot, by rw [startOf_append hne]; exact hstart⟩
  rw [resolve_eq_some_iff, and_iff_right htakes, steps_append, startOf_append hne]
  exact hleft follow _ l (steps_ne_nil w)

/-- What a path goes on behind is a directory. -/
theorem resolve_before (hne : path ≠ []) {w : Bytes} (h : resolve t p follow (path ++ slash :: w) = some l) :
    ∃ d, resolve t p true path = some d ∧ t.node d = some .dir := by
  obtain ⟨⟨-, hlen, hroot, hstart⟩, hleads⟩ := resolve_eq_some_iff.mp h
  rw [startOf_append hne] at hstart hleads
  rw [steps_append] at hleads
  obtain ⟨m, rest, hsteps⟩ := List.exists_cons_of_ne_nil (steps_ne_nil w)
  obtain ⟨d, hd, hdir⟩ := hleads.before hroot (congrArg (steps path ++ ·) hsteps) hstart
  rw [List.length_append] at hlen
  exact ⟨d, resolve_eq_some_iff.mpr ⟨⟨hne, by omega, hroot, hstart⟩, hd⟩, hdir⟩

/-- An entry of the directory. -/
theorem resolve_child (h : resolve t p true path = some d) (hd : t.node d = some .dir) (n : Name)
    (hlen : (path ++ slash :: n.val).length < Session.PATH_MAX) :
    resolve t p false (path ++ slash :: n.val) = some l ↔ l = d ++ [n] ∧ t.node (d ++ [n]) ≠ none := by
  obtain ⟨left, hleft⟩ := resolve_below h hd hlen
  rw [hleft, steps_name]
  exact leads_down

/-- The directory again: behind a slash, and `.`. -/
theorem resolve_stay (h : resolve t p true path = some d) (hd : t.node d = some .dir) {follow : Bool} {w : Bytes}
    (hw : w = [] ∨ w = ascii ".") (hlen : (path ++ slash :: w).length < Session.PATH_MAX) :
    resolve t p follow (path ++ slash :: w) = some l ↔ l = d := by
  obtain ⟨left, hleft⟩ := resolve_below h hd hlen
  have hsteps : steps w = [.stay] := by rcases hw with rfl | rfl <;> decide
  rw [hleft, hsteps]
  exact leads_stay.trans leads_nil

/-- The directory above: `..`. -/
theorem resolve_up (h : resolve t p true path = some d) (hd : t.node d = some .dir) {follow : Bool}
    (hlen : (path ++ slash :: ascii "..").length < Session.PATH_MAX) :
    resolve t p follow (path ++ slash :: ascii "..") = some l ↔ l = if d = placeOf p.root then d else d.dropLast := by
  obtain ⟨left, hleft⟩ := resolve_below h hd hlen
  rw [hleft, show steps (ascii "..") = [.up] by decide]
  exact leads_up.trans leads_nil

/-! ### The entries these paths name -/

theorem namedSteps_append (path : Bytes) {w : Bytes} (hne : w ≠ []) (hw : slash ∉ w) :
    namedSteps (path ++ slash :: w) = steps path ++ [component w] := by
  rw [namedSteps, List.splitOn_append_cons_self, List.splitOn_eq_singleton hw,
    List.rdropWhile_concat_neg _ _ _ (by simpa), List.map_append]
  rfl

theorem namedSteps_slash (path : Bytes) : namedSteps (path ++ slash :: []) = namedSteps path := by
  rw [namedSteps, List.splitOn_append_cons_self, show List.splitOn slash ([] : Bytes) = [[]] from rfl,
    List.rdropWhile_concat_pos _ _ _ (by simp)]
  rfl

theorem endsInName_child (path : Bytes) (n : Name) : EndsInName (path ++ slash :: n.val) := by
  refine ⟨n, ?_⟩
  rw [namedSteps_append path n.property.1 n.property.2.1, component_name, List.getLast?_concat]

theorem entryOf_child (n : Name) :
    entryOf t p (path ++ slash :: n.val) = resolve t p false (path ++ slash :: n.val) := by
  rw [entryOf, resolve, namedSteps_append path n.property.1 n.property.2.1, steps_append, steps_name, component_name]

/-- A slash at the end. -/
theorem entryOf_slash (hne : path ≠ []) (h : entryOf t p (path ++ slash :: []) = some l) :
    entryOf t p path = some l := by
  rw [entryOf_eq_some_iff, namedSteps_slash, startOf_append hne] at h
  obtain ⟨⟨-, hlen, hroot, hstart⟩, h⟩ := h
  rw [startOf_append hne] at hstart
  rw [List.length_append] at hlen
  exact entryOf_eq_some_iff.mpr ⟨⟨hne, by omega, hroot, hstart⟩, h⟩

/-- `rmdir` refuses `.` and `..`. -/
theorem rmdirs_dots {w : Bytes} (hw : w = ascii "." ∨ w = ascii "..") : rmdirs t p (path ++ slash :: w) = none := by
  rw [Option.eq_none_iff_forall_ne_some]
  intro l hl
  obtain ⟨⟨a, ha⟩, -⟩ := rmdirs_eq_some_iff.mp hl
  rcases hw with rfl | rfl
  · rw [namedSteps_append path (by decide) (by decide), List.getLast?_concat] at ha
    exact absurd ha (by rw [show component (ascii ".") = .stay by decide]; simp)
  · rw [namedSteps_append path (by decide) (by decide), List.getLast?_concat] at ha
    exact absurd ha (by rw [show component (ascii "..") = .up by decide]; simp)

/-- Nor are they what `unlink` removes. -/
theorem unlinks_dots (hne : path ≠ []) {w : Bytes} (hw : w = ascii "." ∨ w = ascii "..") :
    unlinks t p (path ++ slash :: w) = none := by
  rw [Option.eq_none_iff_forall_ne_some]
  intro l hl
  obtain ⟨hl, -, hdir⟩ := unlinks_eq_some_iff.mp hl
  have hlen := (resolve_eq_some_iff.mp hl).1.2.1
  obtain ⟨d, hd, hnode⟩ := resolve_before hne hl
  rcases hw with rfl | rfl
  · obtain rfl : l = d := (resolve_stay hd hnode (.inr rfl) hlen).mp hl
    exact hdir hnode
  · obtain rfl := (resolve_up hd hnode hlen).mp hl
    exact hdir (Tree.node_up hnode)

end Resolution

/-! ## The paths of the entries -/

/-- The path `delete_directory_recursively` makes for an entry. -/
def childPath (path name : Bytes) : Bytes := cut Session.PATH_MAX (path ++ ascii "/" ++ name)

/-- How much of the name of an entry fits behind the path of its directory. -/
def shown (path name : Bytes) : Bytes := name.take (Session.PATH_MAX - 2 - path.length)

theorem cut_child {path : Bytes} (h : path.length < Session.PATH_MAX - 1) (name : Bytes) :
    childPath path name = path ++ slash :: shown path name := by
  have hlen : Session.PATH_MAX - 1 = path.length + 1 + (Session.PATH_MAX - 2 - path.length) := by omega
  rw [childPath, cut, List.append_assoc, hlen, Nat.add_assoc, List.take_append, Nat.add_comm 1,
    List.take_of_length_le (by omega)]
  simp [shown, slash, ascii]

/-- Where what is left of a name is not a name, the path fills the buffer, and leads back. -/
theorem shown_dots {path : Bytes} {n : Name} (h : path.length < Session.PATH_MAX - 1)
    (hbad : ¬ IsName (shown path n.val)) : (path ++ slash :: shown path n.val).length = Session.PATH_MAX - 1 ∧
      ((shown path n.val = [] ∨ shown path n.val = ascii ".") ∨ shown path n.val = ascii "..") := by
  have hcut : Session.PATH_MAX - 2 - path.length < n.val.length := by
    by_contra hle
    rw [shown, List.take_of_length_le (by omega)] at hbad
    exact hbad n.property
  have hslash : slash ∉ shown path n.val := fun h => n.property.2.1 (List.mem_of_mem_take h)
  constructor
  · rw [List.length_append, List.length_cons, shown, List.length_take, min_eq_left hcut.le]
    omega
  · by_contra hnot
    rw [not_or, not_or] at hnot
    exact hbad ⟨hnot.1.1, hslash, hnot.1.2, hnot.2⟩

theorem length_childPath (path name : Bytes) : (childPath path name).length < Session.PATH_MAX := by
  rw [childPath, cut, List.length_take]
  exact lt_of_le_of_lt (min_le_left _ _) (by decide)

/-- A path that fits is not cut. -/
theorem childPath_of_fits {path name : Bytes} (h : (path ++ slash :: name).length < Session.PATH_MAX) :
    childPath path name = path ++ slash :: name := by
  rw [childPath, cut, List.take_of_length_le]
  · simp [slash, ascii]
  · rw [List.append_assoc]
    change (path ++ slash :: name).length ≤ _
    omega

/-- Behind a path that fills the buffer, nothing. -/
theorem cut_full {path : Bytes} (h : path.length = Session.PATH_MAX - 1) (name : Bytes) :
    childPath path name = path := by
  rw [childPath, cut, List.append_assoc, ← h, List.take_left]

/-- The path of what is below a directory. -/
def pathTo (path : Bytes) (r : List Name) : Bytes := path ++ r.flatMap fun n => slash :: n.val

@[simp] theorem pathTo_nil (path : Bytes) : pathTo path [] = path := by simp [pathTo]

theorem pathTo_append (path : Bytes) (r r' : List Name) : pathTo path (r ++ r') = pathTo (pathTo path r) r' := by
  simp [pathTo]

theorem pathTo_concat (path : Bytes) (r : List Name) (n : Name) :
    pathTo path (r ++ [n]) = pathTo path r ++ slash :: n.val := by
  simp [pathTo]

end CftpServer
