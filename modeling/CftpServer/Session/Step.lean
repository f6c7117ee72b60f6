import CftpServer.Session.Actions
import CftpServer.Lib.Run

/-!
# The events of a session

The session waits for events of its control connection, its data connections, its listener and its timers. `step` is
the callback of each.
-/

namespace CftpServer

open CLib

/-- What the event loop reports. `dataEvent` has the flags of `data_connection_event_cb`. -/
inductive Event where
  | controlRead (chunk : Bytes)
  | controlWrite (n : Nat)
  | controlEof
  | parentDead
  | timer (t : Nat)
  | accept (listener : Nat) (fd : Int) (addr : SockAddr)
  | dataRead (bev : Nat) (bytes : Bytes)
  | dataWrite (bev : Nat) (n : Nat)
  | dataEvent (bev : Nat) (connected timeout error eof : Bool)
deriving DecidableEq, Repr

namespace Session

variable {σ : Type} (env : Env σ)

/-- `exit`, or the end of the event loop. -/
def exit (s : Session σ) : Session σ := { s with ended := some .exited }

/-- `on_read`. -/
def onRead (s : Session σ) : Session σ :=
  executeFtpCommand env (Command.readInput s.ctlIn) { s with ctlIn := Command.readRest s.ctlIn }

/-- `control_write_cb(bev, ctx)`. -/
def runControlWriteCb : ControlWriteCb → Session σ → Session σ
  | .closeDataConnectionOnWritecb, s => closeDataConnection env s
  | .disableConnectionCb, s => exit s

/-- `on_write`. -/
def onWrite (s : Session σ) : Session σ :=
  match s.conn.controlWriteCb with
  | some cb =>
    let s := runControlWriteCb env cb s
    { s with conn := { s.conn with controlWriteCb := none } }
  | none => s

/-- `terminate_process_on_timeout`. -/
def terminateProcessOnTimeout (s : Session σ) : Session σ :=
  sendControlMessage env 421 (ascii "Control connection timed out !") (setControlWriteCb .disableConnectionCb s)

def runTimerCallback : TimerCallback → Session σ → Session σ
  | .terminateProcessOnTimeout => terminateProcessOnTimeout env
  | .killListenerOnTimeout => killListenerOnTimeout env

/-- `data_connection_read_cb`. -/
def dataConnectionReadCb (b : Nat) (s : Session σ) : Session σ :=
  match s.conn.dataReadCb with
  | some .onStorRead => onStorRead env b s
  | none => s

/-- `data_connection_write_cb`. -/
def dataConnectionWriteCb (b : Nat) (s : Session σ) : Session σ :=
  match s.conn.dataWriteCb with
  | some .closeOnListcb => closeOnListcb env s
  | some .sendNextChunk => sendNextChunk env b s
  | some .closeOnRetrcb => closeOnRetrcb env s
  | some .downloadCompletionOnPlainConnectionCb => downloadCompletionOnPlainConnectionCb env b s
  | none => s

/-- `data_tls_event_connected_cb(bev, ctx)`. -/
def runConnectedCb : DataConnectedCb → Session σ → Session σ
  | .listTlsOnBevEventConnected => listTlsOnBevEventConnected env
  | .storTlsOnBevEventConnected => storTlsOnBevEventConnected
  | .closeDataConnectionOnWritecb => closeDataConnection env

/-- The `BEV_EVENT_CONNECTED` part of `data_connection_event_cb`: the handshake is done. -/
def dataConnected (s : Session σ) : Session σ :=
  let s := { s with conn := { s.conn with dataActive := s.conn.dataActive + 1 } }
  if s.conn.dataTlsRequired then
    match s.conn.dataTlsEventConnectedCb with
    | some cb => runConnectedCb env cb s
    | none => s
  else s

/-- The `BEV_EVENT_EOF` part. -/
def dataEof (s : Session σ) : Session σ :=
  match s.conn.dataEofEventCb with
  | some .onEofEventCb => onEofEventCb env s
  | none => s

/-- `data_connection_event_cb`. -/
def dataConnectionEventCb (connected timeout error eof : Bool) (s : Session σ) : Session σ :=
  let s := if connected then dataConnected env s else s
  s.andThen fun s =>
    let s := if eof then dataEof env s else s
    s.andThen fun s => if eof || error || timeout then closeDataConnection env s else s

/-- New input of a data connection. -/
def dataArrives (b : Nat) (v : Bev) (bytes : Bytes) (s : Session σ) : Session σ :=
  { s with bevs := Function.update s.bevs b (some { v with input := v.input ++ bytes }) }

/-- Output of a data connection leaves it. -/
def dataLeaves (b : Nat) (v : Bev) (n : Nat) (s : Session σ) : Session σ :=
  { s with bevs := Function.update s.bevs b
            (some { v with output := v.output.drop n, sent := v.sent ++ v.output.take n }) }

/-- The timer has run out. -/
def timerFires (t : Nat) (timer : Timer) (s : Session σ) : Session σ :=
  { s with timers := Function.update s.timers t (some { timer with pending := false }) }

/-- The callback of an event, in a session that runs. An event of an object that is gone, and an empty one, do not
happen. -/
def handle : Event → Session σ → Session σ
  | .controlRead chunk, s => if chunk = [] then s else onRead env { s with ctlIn := s.ctlIn ++ chunk }
  | .controlWrite n, s =>
    if n = 0 ∨ s.ctlOut = [] then s
    else
      let s := { s with ctlOut := s.ctlOut.drop n }
      if s.ctlOut = [] then onWrite env s else s
  | .controlEof, s => exit s
  | .parentDead, s => exit s
  | .timer t, s =>
    match s.timers t with
    | some timer => if timer.pending then runTimerCallback env timer.callback (timerFires t timer s) else s
    | none => s
  | .accept listener fd addr, s => if s.listeners listener then dataConnectionAcceptCb env listener fd addr s else s
  | .dataRead b bytes, s =>
    match s.bevs b with
    | some v => if bytes = [] then s else dataConnectionReadCb env b (dataArrives b v bytes s)
    | none => s
  | .dataWrite b n, s =>
    match s.bevs b with
    | some v =>
      if n = 0 ∨ v.output = [] then s
      else if (v.output.drop n).length ≤ v.writeLow then dataConnectionWriteCb env b (dataLeaves b v n s)
      else dataLeaves b v n s
    | none => s
  | .dataEvent b connected timeout error eof, s =>
    match s.bevs b with
    | some v => dataConnectionEventCb env (connected && v.tls) timeout error eof s
    | none => s

/-- One event. -/
def step (e : Event) (s : Session σ) : Session σ := s.andThen (handle env e)

/-- A zeroed `connection_t` with the peer of the control connection. -/
def newConnection (addr : SockAddr) : Connection where
  username := []
  transferMode := .ascii
  controlWriteCb := none
  sourceIp := fillSourceIp addr
  authenticated := false
  errorBuf := []
  dataActive := 0
  upgradedToTls := false
  dataTlsRequired := false
  dataReadCb := none
  dataWriteCb := none
  dataTlsEventConnectedCb := none
  dataEofEventCb := none
  dataStream := none
  path := []
  description := false
  hidden := false
  human := false
  pasvListener := none
  dataBev := none
  uploadFd := 0
  timeoutEvent := none

/-- `start_control_connection_loop`: a new session, its login timer and the greeting. -/
def start (addr : SockAddr) (proc : Proc) (os : σ) : Session σ :=
  sendControlMessage env 220 (ascii "Welcome to CFTP Server")
    (timerNew env .terminateProcessOnTimeout
      ⟨newConnection addr, [], [], fun _ => none, fun _ => false, fun _ => none, 0, proc, os, [], none⟩)

/-- The session after these events. -/
def reached (addr : SockAddr) (proc : Proc) (os : σ) (es : List Event) : Session σ :=
  Runs.run (step env) es (start env addr proc os)

/-- A session of alice from the local machine, logged in on a permissive system (or one much like it), that then gets
these events. -/
def aliceSession (env : Env Unit) (es : List Event) : Session Unit :=
  reached env (.inet 127 0 0 1) ⟨ascii "/", ascii "/", 0, 0, []⟩ ()
    (.controlRead (ascii "USER alice\r\n") :: .controlRead (ascii "PASS x\r\n") :: es)

example : (aliceSession Env.permissive []).conn.authenticated = true := by decide

end Session

end CftpServer
