import CftpServer.Session.Coupling
import CftpServer.Session.FileSystem
import CftpServer.Lib.FileStore

/-!
# A session on a file system with contents

`FileSystem` has the calls of DELE on a tree without contents. Here is a system with all calls on paths and descriptors:
`onStore` is one whose files are a `FileStore`, with a table of open descriptors. What else can happen (a call is
refused, a write is short, what `stat` says of owners and times, who the users are) is left to another system, whose
state is a `Moment`: it counts what the process has done, so it may happen in any way, and it has what is in a file that
an answer is looked up in.

A process can remove the directory it works in, and those above it. It stays there, and the way out is `climb`.

`placeOf_pathOf`: the name of a place leads to it.
-/

namespace CftpServer

open CLib FileTree

/-- An open descriptor: of a directory, or of a file with a number, for writing at a position. -/
inductive Handle where
  | directory
  | reading (file : Nat)
  | writing (file pos : Nat)
deriving DecidableEq

/-- A file system and the descriptors of a process. `opening` is what its last call has opened, before the descriptor has
its number. The process has removed `stranded` directories from its working directory upwards. -/
structure System where
  files : FileStore Name UInt8
  handles : Int → Option Handle
  opening : Option Handle
  stranded : Nat
  ticks : Nat

/-- The names `etc`, `passwd`, `group` and `shadow`. -/
def etc : Name := ⟨ascii "etc", by decide⟩
def passwd : Name := ⟨ascii "passwd", by decide⟩
def group : Name := ⟨ascii "group", by decide⟩
def shadow : Name := ⟨ascii "shadow", by decide⟩

/-- The files in which the parent process looks up the names of users and groups. -/
def nameFiles : List (List Name) := [[etc, passwd], [etc, group]]

/-- What the rest of the world goes by: how much has been done, and the text of the file that is looked at. -/
structure Moment where
  ticks : Nat
  text : Option Bytes

/-- The name of a place. -/
def pathOf (l : List Name) : Bytes := if l = [] then [slash] else pathTo [] l

/-- The bytes of a file after a write at a position. -/
def overwrite (c : Bytes) (pos : Nat) (bytes : Bytes) : Bytes :=
  c.take pos ++ List.replicate (pos - c.length) 0 ++ bytes ++ c.drop (pos + bytes.length)

/-! ## Removed directories -/

/-- How a path goes: from a directory that is there, with the rest of it; or it ends in a directory that has been removed,
with so many removed from there upwards; or it is one that leads nowhere. -/
inductive Way where
  | goesOn (p : Proc) (path : Bytes)
  | ends (gone : Nat) (place : List Name)
  | lost

/-- The components of a path from a removed directory. Nothing is left in it, but it has its parent. -/
def climb (p : Proc) : Nat → List Name → List Bytes → Way
  | 0, cur, cs => .goesOn { p with cwd := pathOf cur } (ascii "./" ++ [slash].intercalate cs)
  | gone + 1, cur, [] => .ends (gone + 1) cur
  | gone + 1, cur, c :: cs =>
    match component c with
    | .stay => climb p (gone + 1) cur cs
    | .up => if cur = placeOf p.root then climb p (gone + 1) cur cs else climb p gone cur.dropLast cs
    | .down _ => .lost

namespace System

variable (w : System) (p : Proc)

def moment : Moment := ⟨w.ticks, none⟩

/-- The moment at which something is looked up in a file. -/
def lookup (file : List Name) : Moment := ⟨w.ticks, w.files.text file⟩

def way (path : Bytes) : Way :=
  if w.stranded = 0 ∨ path.head? = some slash then .goesOn p path
  else if path = [] ∨ Session.PATH_MAX ≤ path.length then .lost
  else climb p w.stranded (placeOf p.cwd) (path.splitOn slash)

/-- What is found at the end of a way over directories that are there. -/
def onWay {β : Type} (path : Bytes) (f : Proc → Bytes → Option β) : Option β :=
  match w.way p path with
  | .goesOn p path => f p path
  | _ => none

/-- The removed directory in which a path ends. -/
def removedAt (path : Bytes) : Option (Nat × List Name) :=
  match w.way p path with
  | .ends gone place => some (gone, place)
  | _ => none

/-! ## Where paths lead -/

/-- Where a path leads. -/
def leadsTo (follow : Bool) (path : Bytes) : Option (List Name) :=
  w.onWay p path fun p path => resolve w.files.tree p follow path

/-- Where `open` with `O_CREAT` makes a file: a link to nothing is followed. -/
def creates (path : Bytes) : Option (List Name) :=
  w.onWay p path fun p path =>
    if Takes w.files.tree p path then
      walkNew w.files.tree (placeOf p.root) true MAXSYMLINKS (steps path) (startOf p path)
    else none

/-- Where `mkdir` makes a directory. -/
def makes (path : Bytes) : Option (List Name) :=
  w.onWay p path fun p path =>
    if Takes w.files.tree p path then
      walkNew w.files.tree (placeOf p.root) false MAXSYMLINKS (namedSteps path) (startOf p path)
    else none

def unlinks (path : Bytes) : Option (List Name) := w.onWay p path (CftpServer.unlinks w.files.tree)

def rmdirs (path : Bytes) : Option (List Name) := w.onWay p path (CftpServer.rmdirs w.files.tree)

/-- The directory a path leads to. -/
def directoryAt (path : Bytes) : Option (List Name) :=
  (w.leadsTo p true path).filter fun l => w.files.tree.node l = some .dir

/-- The file a path leads to. -/
def fileAt (path : Bytes) : Option (List Name) :=
  (w.leadsTo p true path).filter fun l => w.files.tree.node l = some .file

/-- The directory a path leads to, also a removed one, and how many have been removed from there upwards. -/
def goesTo (path : Bytes) : Option (Nat × List Name) :=
  ((w.directoryAt p path).map fun l => (0, l)).or (w.removedAt p path)

/-- What `stat` says of a place; the type and the size are those of the store. -/
def describe (l : List Name) (st : Stat) : Option Stat :=
  (w.files.tree.node l).map fun
    | .file => { st with type := .reg, size := (w.files.contents (w.files.number l)).length }
    | .dir => { st with type := .dir }
    | .link _ => { st with type := .lnk }

/-- What `stat` says of what a path leads to. -/
def shows (follow : Bool) (path : Bytes) (st : Stat) : Option Stat :=
  if (w.removedAt p path).isSome then some { st with type := .dir }
  else (w.leadsTo p follow path).bind fun l => w.describe l st

/-- What `open` for reading opens. -/
def reads (path : Bytes) : Option Handle :=
  ((w.fileAt p path).map fun l => Handle.reading (w.files.number l)).or
    ((w.goesTo p path).map fun _ => Handle.directory)

/-- What `readdir` gives; in a removed directory, nothing. -/
def lists (path : Bytes) : Option (List Bytes) :=
  ((w.directoryAt p path).map fun l => ascii "." :: ascii ".." :: (w.files.tree.names l).map Subtype.val).or
    ((w.removedAt p path).map fun _ => [])

/-! ## What calls come to -/

/-- What a call comes to: a change of the files, something that is open, and how many directories are gone then. -/
structure Upshot where
  change : Option (FileStore.Change Name UInt8)
  opening : Option Handle
  stranded : Nat

/-- A call that is not refused. A file that is opened for writing is emptied, or made if it is not there. -/
def upshot : Call → Upshot
  | .stat _ | .lstat _ => ⟨none, none, w.stranded⟩
  | .openRead path => ⟨none, w.reads p path, w.stranded⟩
  | .openWrite path =>
    match w.fileAt p path with
    | some l => ⟨some (.write (w.files.number l) []), some (.writing (w.files.number l) 0), w.stranded⟩
    | none =>
      ⟨(w.creates p path).map .create, (w.creates p path).map fun _ => .writing w.files.next 0, w.stranded⟩
  | .opendir path => ⟨none, (w.goesTo p path).map fun _ => .directory, w.stranded⟩
  | .unlink path => ⟨(w.unlinks p path).map .remove, none, w.stranded⟩
  | .mkdir path => ⟨(w.makes p path).map .makeDir, none, w.stranded⟩
  | .rmdir path =>
    ⟨(w.rmdirs p path).map .remove, none,
      if w.rmdirs p path = some ((placeOf p.cwd).rdrop w.stranded) then w.stranded + 1 else w.stranded⟩
  | .chdir path => ⟨none, none, ((w.goesTo p path).map Prod.fst).getD w.stranded⟩

/-- The files after a change, if there is one. -/
def changed (change : Option (FileStore.Change Name UInt8)) : FileStore Name UInt8 :=
  change.elim w.files w.files.apply

def call (c : Call) : System :=
  { w with
    files := w.changed (w.upshot p c).change
    opening := (w.upshot p c).opening
    stranded := (w.upshot p c).stranded }

/-- A write at the position of a descriptor. -/
def store (fd : Int) (bytes : Bytes) : System :=
  match w.handles fd with
  | some (.writing i pos) =>
    { w with
      files := w.changed (some (.write i (overwrite (w.files.contents i) pos bytes)))
      handles := Function.update w.handles fd (some (.writing i (pos + bytes.length))) }
  | _ => w

/-- What a process does, apart from calls on paths. -/
def act : Effect → System
  | .opened fd => { w with handles := Function.update w.handles fd w.opening, opening := none }
  | .closed fd => { w with handles := Function.update w.handles fd none }
  | .store _ _ fd bytes => w.store fd bytes
  | _ => w

end System

/-- The calls that the other system does not refuse. -/
def permits (env : Env Moment) (m : Moment) (p : Proc) : Call → Bool
  | .stat path => (env.stat m p path).isSome
  | .lstat path => (env.lstat m p path).isSome
  | .openRead path => env.openRead m p path
  | .openWrite path => env.openWrite m p path
  | .opendir path => (env.opendir m p path).isSome
  | .unlink path => env.unlink m p path
  | .mkdir path => env.mkdir m p path
  | .rmdir path => env.rmdir m p path
  | .chdir path => env.chdir m p path

/-- One more thing is done. -/
def System.after (env : Env Moment) (w : System) (p : Proc) (e : Effect) : System :=
  { match e with
    | .call c => if permits env w.moment p c then w.call p c else { w with opening := none }
    | e => w.act e with
    ticks := w.ticks + 1 }

/-- A system whose files and descriptors are a `System`, and which is like `env` otherwise. -/
def onStore (env : Env Moment) : Env System where
  pasvRange := env.pasvRange
  after := System.after env
  getpwnam := fun w => env.getpwnam (w.lookup [etc, passwd])
  getspnam := fun w => env.getspnam (w.lookup [etc, shadow])
  crypt := env.crypt
  resolve := fun w p path => ((w.goesTo p path).map fun d => pathOf d.2).getD []
  chroot := fun w p path => env.chroot w.moment p path && (w.directoryAt p path).isSome
  chdir := fun w p path => env.chdir w.moment p path && (w.goesTo p path).isSome
  setgid := fun w => env.setgid w.moment
  setuid := fun w => env.setuid w.moment
  getcwd := fun w p =>
    if w.stranded ≠ 0 ∨ ¬ placeOf p.root <+: placeOf p.cwd then none
    else (env.getcwd w.moment p).map fun _ => pathOf ((placeOf p.cwd).drop (placeOf p.root).length)
  stat := fun w p path => (env.stat w.moment p path).bind (w.shows p true path)
  lstat := fun w p path => (env.lstat w.moment p path).bind (w.shows p false path)
  openRead := fun w p path => env.openRead w.moment p path && (w.reads p path).isSome
  openWrite := fun w p path =>
    env.openWrite w.moment p path && ((w.fileAt p path).isSome || (w.creates p path).isSome)
  opendir := fun w p path => if (env.opendir w.moment p path).isSome then w.lists p path else none
  unlink := fun w p path => env.unlink w.moment p path && (w.unlinks p path).isSome
  mkdir := fun w p path => env.mkdir w.moment p path && (w.makes p path).isSome
  rmdir := fun w p path => env.rmdir w.moment p path && (w.rmdirs p path).isSome
  fstat := fun w fd =>
    match w.handles fd with
    | some .directory => (env.fstat w.moment fd).map fun st => { st with type := .dir }
    | some (.reading i) | some (.writing i _) =>
      (env.fstat w.moment fd).map fun st => { st with type := .reg, size := (w.files.contents i).length }
    | none => none
  read := fun w fd pos n =>
    match w.handles fd with
    | some (.reading i) => (env.read w.moment fd pos n).map fun _ => ((w.files.contents i).drop pos).take n
    | _ => none
  fileSegment := fun w fd n =>
    match w.handles fd with
    | some (.reading i) => (w.files.contents i).take n
    | _ => []
  evbufferWrite := fun w fd bytes =>
    match w.handles fd with
    | some (.writing _ _) => (env.evbufferWrite w.moment fd bytes).map (min bytes.length)
    | _ => none
  getsockname := fun w => env.getsockname w.moment
  newBind := fun w => env.newBind w.moment
  bufferevent := fun w => env.bufferevent w.moment
  askRootForUsername := fun w => env.askRootForUsername (w.lookup [etc, passwd])
  askRootForGroupname := fun w => env.askRootForGroupname (w.lookup [etc, group])
  strftimeGmt := env.strftimeGmt
  strftimeLocal := env.strftimeLocal
  spin := env.spin
  stack := env.stack

/-- The calls of a system of one state, however often they are made. -/
def Env.always (env : Env Unit) : Env Moment where
  pasvRange := env.pasvRange
  after := fun t _ _ => t
  getpwnam := fun _ => env.getpwnam ()
  getspnam := fun _ => env.getspnam ()
  crypt := env.crypt
  resolve := fun _ => env.resolve ()
  chroot := fun _ => env.chroot ()
  chdir := fun _ => env.chdir ()
  setgid := fun _ => env.setgid ()
  setuid := fun _ => env.setuid ()
  getcwd := fun _ => env.getcwd ()
  stat := fun _ => env.stat ()
  lstat := fun _ => env.lstat ()
  openRead := fun _ => env.openRead ()
  openWrite := fun _ => env.openWrite ()
  opendir := fun _ => env.opendir ()
  unlink := fun _ => env.unlink ()
  mkdir := fun _ => env.mkdir ()
  rmdir := fun _ => env.rmdir ()
  fstat := fun _ => env.fstat ()
  read := fun _ => env.read ()
  fileSegment := fun _ => env.fileSegment ()
  evbufferWrite := fun _ => env.evbufferWrite ()
  getsockname := fun _ => env.getsockname ()
  newBind := fun _ => env.newBind ()
  bufferevent := fun _ => env.bufferevent ()
  askRootForUsername := fun _ => env.askRootForUsername ()
  askRootForGroupname := fun _ => env.askRootForGroupname ()
  strftimeGmt := env.strftimeGmt
  strftimeLocal := env.strftimeLocal
  spin := env.spin
  stack := env.stack

/-! ## Names of places -/

theorem placeOf_pathTo (l : List Name) : placeOf (pathTo [] l) = l := by
  have hsplit : ∀ (path : Bytes), placeOf (pathTo path l) = placeOf path ++ l := by
    induction l using List.reverseRecOn with
    | nil => simp
    | append_singleton l n ih =>
      intro path
      rw [pathTo_concat, placeOf, List.splitOn_append_cons_self, List.filterMap_append,
        List.splitOn_eq_singleton n.property.2.1]
      have hn : IsName n.val := n.property
      simp only [List.filterMap_cons, List.filterMap_nil, hn, dif_pos]
      rw [← List.append_assoc, ← ih path]
      rfl
  rw [hsplit []]
  rfl

/-- The name of a place leads to it. -/
theorem placeOf_pathOf (l : List Name) : placeOf (pathOf l) = l := by
  unfold pathOf
  split
  · rename_i hl
    rw [hl]
    decide
  · exact placeOf_pathTo l

end CftpServer
