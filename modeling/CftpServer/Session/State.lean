import CftpServer.Session.Env
import CftpServer.Command.Reader
import Mathlib.Logic.Function.Basic

/-!
# The state of a session (`core/connection.h`) and what its code does to it

`Session` holds the `connection_t` of the process and the objects of libevent it refers to. A pointer to such an object
is the number it was created with; a freed object is gone from its table. The functions below are the calls the
handlers are made of: system calls, bufferevents, listeners and timers, and `send_control_message`. Each takes the
session and gives it back, with what it did at the end of `log`.
-/

namespace CftpServer

open CLib

/-- What `control_write_cb` is set to. -/
inductive ControlWriteCb where
  | closeDataConnectionOnWritecb
  | disableConnectionCb
deriving DecidableEq, Repr

/-- What `data_read_cb` is set to. -/
inductive DataReadCb where
  | onStorRead
deriving DecidableEq, Repr

/-- What `data_write_cb` is set to. -/
inductive DataWriteCb where
  | closeOnListcb
  | sendNextChunk
  | closeOnRetrcb
  | downloadCompletionOnPlainConnectionCb
deriving DecidableEq, Repr

/-- What `data_tls_event_connected_cb` is set to: the functions of that name in `list.c` and `stor.c`, or the one that
closes. -/
inductive DataConnectedCb where
  | listTlsOnBevEventConnected
  | storTlsOnBevEventConnected
  | closeDataConnectionOnWritecb
deriving DecidableEq, Repr

/-- What `data_eof_event_cb` is set to. -/
inductive DataEofCb where
  | onEofEventCb
deriving DecidableEq, Repr

/-- The callback of a timer. -/
inductive TimerCallback where
  | terminateProcessOnTimeout
  | killListenerOnTimeout
deriving DecidableEq, Repr

inductive TransferMode where
  | ascii | binary
deriving DecidableEq, Repr

/-- `file_stream_t`; its offset is also the position of the descriptor. -/
structure FileStream where
  fd : Int
  offset : Nat
  filesize : Nat
deriving DecidableEq, Repr

/-- `connection_t`. -/
structure Connection where
  username : Bytes
  transferMode : TransferMode
  controlWriteCb : Option ControlWriteCb
  sourceIp : Bytes
  authenticated : Bool
  errorBuf : Bytes
  dataActive : Nat
  upgradedToTls : Bool
  dataTlsRequired : Bool
  dataReadCb : Option DataReadCb
  dataWriteCb : Option DataWriteCb
  dataTlsEventConnectedCb : Option DataConnectedCb
  dataEofEventCb : Option DataEofCb
  dataStream : Option FileStream
  path : Bytes
  description : Bool
  hidden : Bool
  human : Bool
  pasvListener : Option Nat
  dataBev : Option Nat
  uploadFd : Int
  timeoutEvent : Option Nat
deriving DecidableEq, Repr

/-- A bufferevent of a data connection. `files` are the descriptors its output owns, `sent` what has left it. -/
structure Bev where
  tls : Bool
  input : Bytes
  output : Bytes
  writeLow : Nat
  files : List Int
  sent : Bytes
deriving DecidableEq, Repr

structure Timer where
  callback : TimerCallback
  pending : Bool
deriving DecidableEq, Repr

/-- How a session process comes to an end. -/
inductive Ending where
  | exited | crashed | hung
deriving DecidableEq, Repr

/-- A session process: `ctlIn` and `ctlOut` are the buffers of the control connection. -/
structure Session (σ : Type) where
  conn : Connection
  ctlIn : Bytes
  ctlOut : Bytes
  bevs : Nat → Option Bev
  listeners : Nat → Bool
  timers : Nat → Option Timer
  nextId : Nat
  proc : Proc
  os : σ
  log : List Effect
  ended : Option Ending

namespace Session

variable {σ : Type} (env : Env σ)

/-- The process does something. -/
def emit (e : Effect) (s : Session σ) : Session σ :=
  { s with log := s.log ++ [e], os := env.after s.os s.proc e }

/-- Undefined behaviour: a NULL or dangling pointer is used. -/
def crash (s : Session σ) : Session σ := { s with ended := some .crashed }

/-- A loop without end. -/
def hang (s : Session σ) : Session σ := { s with ended := some .hung }

/-- The rest of a function, unless the process is gone. -/
def andThen (s : Session σ) (f : Session σ → Session σ) : Session σ := if s.ended.isSome then s else f s

/-- A new object. -/
def fresh (s : Session σ) : Session σ := { s with nextId := s.nextId + 1 }

/-! ## Replies (`engine/control_handler.c`) -/

def MAX_RESPONSE_BUFFER_LENGTH : Nat := 0x100

/-- The bytes `send_control_message` queues. -/
def controlMessage (statusCode : Nat) (text : Bytes) : Bytes :=
  cut MAX_RESPONSE_BUFFER_LENGTH
    (if statusCode ≠ 0 then dec statusCode ++ ascii " " ++ text ++ ascii "\r\n" else text ++ ascii "\r\n")

/-- `send_control_message`. -/
def sendControlMessage (statusCode : Nat) (text : Bytes) (s : Session σ) : Session σ :=
  { emit env (.reply statusCode text) s with ctlOut := s.ctlOut ++ controlMessage statusCode text }

/-- `write_text_response` on the control connection. -/
def writeTextResponse (text : Bytes) (s : Session σ) : Session σ :=
  { emit env (.text text) s with ctlOut := s.ctlOut ++ text }

/-- `connection->control_write_cb = cb`. -/
def setControlWriteCb (cb : ControlWriteCb) (s : Session σ) : Session σ :=
  { s with conn := { s.conn with controlWriteCb := some cb } }

/-! ## System calls -/

/-- A call on a path is made. -/
def call (c : Call) (s : Session σ) : Session σ := emit env (.call c) s

/-- A descriptor for something just opened. -/
def newFd (s : Session σ) : Int × Session σ := (s.nextId, fresh (emit env (.opened s.nextId) s))

/-- `close`. -/
def closeFd (fd : Int) (s : Session σ) : Session σ := if fd < 0 then s else emit env (.closed fd) s

def sysStat (path : Bytes) (s : Session σ) : Option Stat × Session σ :=
  (env.stat s.os s.proc path, call env (.stat path) s)

def sysLstat (path : Bytes) (s : Session σ) : Option Stat × Session σ :=
  (env.lstat s.os s.proc path, call env (.lstat path) s)

def sysUnlink (path : Bytes) (s : Session σ) : Bool × Session σ :=
  (env.unlink s.os s.proc path, call env (.unlink path) s)

def sysMkdir (path : Bytes) (s : Session σ) : Bool × Session σ :=
  (env.mkdir s.os s.proc path, call env (.mkdir path) s)

def sysRmdir (path : Bytes) (s : Session σ) : Bool × Session σ :=
  (env.rmdir s.os s.proc path, call env (.rmdir path) s)

/-- `chdir`: on success the process is in the directory the path leads to. -/
def sysChdir (path : Bytes) (s : Session σ) : Bool × Session σ :=
  if env.chdir s.os s.proc path then
    (true, { call env (.chdir path) s with proc := { s.proc with cwd := env.directory s.os s.proc path } })
  else (false, call env (.chdir path) s)

/-- `open(path, O_RDONLY)`; `none` is a negative descriptor. -/
def sysOpenRead (path : Bytes) (s : Session σ) : Option Int × Session σ :=
  let s' := call env (.openRead path) s
  if env.openRead s.os s.proc path then
    let (fd, s') := newFd env s'
    (some fd, s')
  else (none, s')

/-- `open(path, O_WRONLY | O_CREAT | O_TRUNC, 0644)`. -/
def sysOpenWrite (path : Bytes) (s : Session σ) : Option Int × Session σ :=
  let s' := call env (.openWrite path) s
  if env.openWrite s.os s.proc path then
    let (fd, s') := newFd env s'
    (some fd, s')
  else (none, s')

/-- `opendir`: the descriptor of the stream and the names it will give. -/
def sysOpendir (path : Bytes) (s : Session σ) : Option (Int × List Bytes) × Session σ :=
  let s' := call env (.opendir path) s
  match env.opendir s.os s.proc path with
  | some names =>
    let (fd, s') := newFd env s'
    (some (fd, names), s')
  | none => (none, s')

/-! ## Bufferevents of data connections -/

/-- Bytes for the peer: `bufferevent_write`, `bufferevent_write_buffer`, `evbuffer_add_file`. -/
def bevWrite (b : Nat) (bytes : Bytes) (files : List Int) (s : Session σ) : Session σ :=
  match s.bevs b with
  | none => crash s
  | some v =>
    emit env (.bevWrite b v.tls bytes)
      { s with bevs := Function.update s.bevs b
                (some { v with output := v.output ++ bytes, files := v.files ++ files }) }

/-- The descriptors a buffer owns are closed with it. -/
def closeAll (fds : List Int) (s : Session σ) : Session σ := fds.foldl (fun s fd => closeFd env fd s) s

/-- `bufferevent_free`: what is still in the output is lost. -/
def bevFree (b : Nat) (s : Session σ) : Session σ :=
  match s.bevs b with
  | none => crash s
  | some v =>
    closeAll env v.files (emit env (.bevFree b v.output) { s with bevs := Function.update s.bevs b none })

/-- `bufferevent_setwatermark(bev, EV_WRITE, low, 0)`. -/
def setWriteLow (b low : Nat) (s : Session σ) : Session σ :=
  { s with bevs := Function.update s.bevs b ((s.bevs b).map fun v => { v with writeLow := low }) }

/-! ## Listeners and timers -/

/-- `evconnlistener_free`, also of a listener that is gone. -/
def listenerFree (l : Nat) (s : Session σ) : Session σ :=
  if s.listeners l then emit env (.listenerFree l) { s with listeners := Function.update s.listeners l false }
  else crash (emit env (.listenerFree l) s)

/-- `evtimer_new` and `evtimer_add`. -/
def timerNew (cb : TimerCallback) (s : Session σ) : Session σ :=
  fresh (emit env (.timerNew s.nextId)
    { s with
      timers := Function.update s.timers s.nextId (some ⟨cb, true⟩)
      conn := { s.conn with timeoutEvent := some s.nextId } })

/-- `evtimer_del` and `event_free` of `connection->timeout_event`. -/
def timeoutEventFree (s : Session σ) : Session σ :=
  match s.conn.timeoutEvent with
  | none => crash s
  | some t =>
    if (s.timers t).isSome then emit env (.timerFree t) { s with timers := Function.update s.timers t none }
    else crash (emit env (.timerFree t) s)

end Session

end CftpServer
