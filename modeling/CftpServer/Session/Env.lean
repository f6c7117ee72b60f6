import CftpServer.Lib.CString
import Mathlib.Algebra.Group.Int.Defs
import Mathlib.Algebra.Group.Nat.Defs

/-!
# What a session runs in

A session is one process, forked for one control connection. This module has what its code meets on the outside: the
attributes of the process (`Proc`), what the process does that can be seen (`Effect`), and the outcomes of the calls
it makes (`Env`). The outcomes are functions of a state of the system of arbitrary type `σ`; every effect of the
session moves that state on, and so a call made twice may end in two ways.
-/

namespace CftpServer

open CLib

/-- The attributes of a process that the login changes. A directory stands for itself, whatever names lead to it. -/
structure Proc where
  root : Bytes
  cwd : Bytes
  uid : Nat
  gid : Nat
  groups : List Nat
deriving DecidableEq, Repr

/-- The fields of `struct passwd` that are read. -/
structure Passwd where
  pwUid : Nat
  pwGid : Nat
  pwDir : Bytes
deriving DecidableEq, Repr

/-- The field of `struct spwd` that is read. -/
structure Spwd where
  spPwdp : Bytes
deriving DecidableEq, Repr

inductive FileType where
  | dir | lnk | reg | other
deriving DecidableEq, Repr

/-- `struct stat`, with the type and the permission bits of `st_mode` apart. -/
structure Stat where
  type : FileType
  perm : Nat
  nlink : Nat
  uid : Nat
  gid : Nat
  size : Nat
  mtime : Int
deriving DecidableEq, Repr

/-- `S_ISDIR`. -/
def Stat.isDir (st : Stat) : Bool := st.type == .dir

/-- The peer of a socket. -/
inductive SockAddr where
  | inet (a b c d : UInt8)
  | inet6 (g₀ g₁ g₂ g₃ g₄ g₅ g₆ g₇ : UInt16)
deriving DecidableEq, Repr

/-- A call on a path. -/
inductive Call where
  | stat (path : Bytes)
  | lstat (path : Bytes)
  | openRead (path : Bytes)
  | openWrite (path : Bytes)
  | opendir (path : Bytes)
  | unlink (path : Bytes)
  | mkdir (path : Bytes)
  | rmdir (path : Bytes)
  | chdir (path : Bytes)
deriving DecidableEq, Repr

def Call.path : Call → Bytes
  | stat p | lstat p | openRead p | openWrite p | opendir p | unlink p | mkdir p | rmdir p | chdir p => p

/-- What a session does, in the order it does it. Objects of libevent and descriptors are named by the number they were
created with. -/
inductive Effect where
  | call (c : Call)
  | authenticate (username password : Bytes) (ok : Bool)
  | reply (statusCode : Nat) (text : Bytes)
  | text (text : Bytes)
  | opened (fd : Int)
  | closed (fd : Int)
  | bevNew (bev : Nat) (tls : Bool)
  | bevWrite (bev : Nat) (tls : Bool) (bytes : Bytes)
  | bevFree (bev : Nat) (dropped : Bytes)
  | store (bev : Nat) (tls : Bool) (fd : Int) (bytes : Bytes)
  | bind (port : Nat)
  | listenerNew (listener : Nat) (port : Nat)
  | listenerFree (listener : Nat)
  | timerNew (timer : Nat)
  | timerFree (timer : Nat)
  | rejected (fd : Int)
deriving DecidableEq, Repr

/-- `pasv_port_range_t`. -/
structure PasvPortRange where
  start : Nat
  «end» : Nat
  n : Int
deriving DecidableEq, Repr

/-- `connections_init_pasv_range`: the bounds are stored in 16 bits. -/
def connectionsInitPasvRange (start «end» : Int) : PasvPortRange :=
  let (start, «end») := if «end» < start then («end», start) else (start, «end»)
  let start := if start < 1 then 1 else start
  let «end» := if «end» > 65535 then 65535 else «end»
  ⟨(start % 2 ^ 16).toNat, («end» % 2 ^ 16).toNat, «end» - start + 1⟩

/-- The surroundings of a session. -/
structure Env (σ : Type) where
  /-- the configured range of passive ports -/
  pasvRange : PasvPortRange
  /-- the state of the system after an effect of the process -/
  after : σ → Proc → Effect → σ
  /-- `getpwnam` and `getspnam` read the files below the root directory of the process -/
  getpwnam : σ → Bytes → Bytes → Option Passwd
  getspnam : σ → Bytes → Bytes → Option Spwd
  crypt : Bytes → Bytes → Bytes
  /-- the directory a path leads to -/
  resolve : σ → Proc → Bytes → Bytes
  chroot : σ → Proc → Bytes → Bool
  chdir : σ → Proc → Bytes → Bool
  setgid : σ → Proc → Nat → Bool
  setuid : σ → Proc → Nat → Bool
  getcwd : σ → Proc → Option Bytes
  stat : σ → Proc → Bytes → Option Stat
  lstat : σ → Proc → Bytes → Option Stat
  openRead : σ → Proc → Bytes → Bool
  openWrite : σ → Proc → Bytes → Bool
  /-- the names `readdir` will return -/
  opendir : σ → Proc → Bytes → Option (List Bytes)
  unlink : σ → Proc → Bytes → Bool
  mkdir : σ → Proc → Bytes → Bool
  rmdir : σ → Proc → Bytes → Bool
  fstat : σ → Int → Option Stat
  /-- `read` of at most so many bytes at a position of the file -/
  read : σ → Int → Nat → Nat → Option Bytes
  /-- the bytes `evbuffer_add_file` maps: a descriptor, from its start, so many -/
  fileSegment : σ → Int → Nat → Bytes
  /-- how many bytes of a buffer `evbuffer_write` moves to a descriptor -/
  evbufferWrite : σ → Int → Bytes → Option Nat
  /-- the local address of the control connection -/
  getsockname : σ → Option (UInt8 × UInt8 × UInt8 × UInt8)
  /-- `evconnlistener_new_bind` on a port, 0 standing for a port of the kernel's choice -/
  newBind : σ → Nat → Bool
  /-- `bufferevent_socket_new`, `bufferevent_openssl_socket_new`, `bufferevent_openssl_filter_new` -/
  bufferevent : σ → Bool
  askRootForUsername : σ → Nat → Bytes
  askRootForGroupname : σ → Nat → Bytes
  /-- `strftime` of `gmtime`, `%Y%m%d%H%M%S`, and of `localtime`, `%b %d %H:%M` -/
  strftimeGmt : Int → Bytes
  strftimeLocal : Int → Bytes
  /-- rounds after which a loop is taken to run for ever -/
  spin : Nat
  /-- nested calls the stack has room for -/
  stack : Nat

/-- The directory a path leads to; `/` leads to the root directory. -/
def Env.directory {σ : Type} (env : Env σ) (s : σ) (p : Proc) (path : Bytes) : Bytes :=
  if path = ascii "/" then p.root else env.resolve s p path

/-- A system of one state in which every call succeeds, on empty files and directories, and anybody may log in. -/
def Env.permissive : Env Unit where
  pasvRange := connectionsInitPasvRange 40000 41000
  after := fun _ _ _ => ()
  getpwnam := fun _ _ _ => some ⟨1000, 1000, ascii "/"⟩
  getspnam := fun _ _ _ => some ⟨[]⟩
  crypt := fun _ salt => salt
  resolve := fun _ _ path => path
  chroot := fun _ _ _ => true
  chdir := fun _ _ _ => true
  setgid := fun _ _ _ => true
  setuid := fun _ _ _ => true
  getcwd := fun _ p => some p.cwd
  stat := fun _ _ _ => some ⟨.reg, 0o644, 1, 1000, 1000, 0, 0⟩
  lstat := fun _ _ _ => some ⟨.reg, 0o644, 1, 1000, 1000, 0, 0⟩
  openRead := fun _ _ _ => true
  openWrite := fun _ _ _ => true
  opendir := fun _ _ _ => some []
  unlink := fun _ _ _ => true
  mkdir := fun _ _ _ => true
  rmdir := fun _ _ _ => true
  fstat := fun _ _ => some ⟨.reg, 0o644, 1, 1000, 1000, 0, 0⟩
  read := fun _ _ _ _ => some []
  fileSegment := fun _ _ _ => []
  evbufferWrite := fun _ _ bytes => some bytes.length
  getsockname := fun _ => some (127, 0, 0, 1)
  newBind := fun _ _ => true
  bufferevent := fun _ => true
  askRootForUsername := fun _ _ => ascii "alice"
  askRootForGroupname := fun _ _ => ascii "alice"
  strftimeGmt := fun _ => ascii "19700101000000"
  strftimeLocal := fun _ => ascii "Jan 01 00:00"
  spin := 8
  stack := 8

/-- The same, where every file holds two bytes. -/
def Env.twoByteFiles : Env Unit :=
  { Env.permissive with
    fstat := fun _ _ => some ⟨.reg, 0o644, 1, 1000, 1000, 2, 0⟩
    read := fun _ _ pos n => some (((ascii "ab").drop pos).take n)
    fileSegment := fun _ _ n => (ascii "ab").take n }

end CftpServer
