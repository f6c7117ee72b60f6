import CftpServer.Session.State

/-!
# Data connections (`engine/data_handler.c`, `core/connection.c`)

The passive listener with its timer, the check of the peer, and the end of a data connection.
-/

namespace CftpServer

open CLib

/-! ## Printed addresses -/

/-- `inet_ntop(AF_INET, …)`. -/
def inetNtop4 (a b c d : UInt8) : Bytes :=
  dec a.toNat ++ ascii "." ++ dec b.toNat ++ ascii "." ++ dec c.toNat ++ ascii "." ++ dec d.toNat

/-- The longest run of zero groups, the first of them if there are several: its start and its length, as
`inet_ntop` looks for it (`i` is the index, `cur` and `best` are the runs so far). -/
def bestRun : List UInt16 → Nat → Option (Nat × Nat) → Option (Nat × Nat) → Option (Nat × Nat)
  | [], _, cur, best => longer cur best
  | w :: ws, i, cur, best =>
    if w = 0 then
      match cur with
      | none => bestRun ws (i + 1) (some (i, 1)) best
      | some (base, len) => bestRun ws (i + 1) (some (base, len + 1)) best
    else bestRun ws (i + 1) none (longer cur best)
where
  /-- the current run, if it is longer than the best one -/
  longer : Option (Nat × Nat) → Option (Nat × Nat) → Option (Nat × Nat)
    | none, best => best
    | some cur, none => some cur
    | some cur, some best => if cur.2 > best.2 then some cur else some best

/-- The groups from index `i` on, the run of zeros left out. -/
def printGroups (run : Option (Nat × Nat)) (tail4 : Bytes) (v4 : Bool) : List UInt16 → Nat → Bytes
  | [], _ => []
  | w :: ws, i =>
    match run with
    | some (base, len) =>
      if base ≤ i ∧ i < base + len then
        (if i = base then ascii ":" else []) ++ printGroups run tail4 v4 ws (i + 1)
      else if i = 6 ∧ v4 then ascii ":" ++ tail4
      else (if i ≠ 0 then ascii ":" else []) ++ hex w.toNat ++ printGroups run tail4 v4 ws (i + 1)
    | none => (if i ≠ 0 then ascii ":" else []) ++ hex w.toNat ++ printGroups run tail4 v4 ws (i + 1)

/-- `inet_ntop(AF_INET6, …)`: zeros are shortened when there are two groups of them or more, and an IPv4 address inside
an IPv6 one is printed with dots. -/
def inetNtop6 (words : List UInt16) : Bytes :=
  let run := (bestRun words 0 none none).filter fun r => 2 ≤ r.2
  let v4 := run = some (0, 6) ∨ (run = some (0, 5) ∧ words.getD 5 0 = 0xffff)
  let tail4 := inetNtop4 ((words.getD 6 0) >>> 8).toUInt8 (words.getD 6 0).toUInt8
    ((words.getD 7 0) >>> 8).toUInt8 (words.getD 7 0).toUInt8
  let trailing := run.elim false fun r => r.1 + r.2 == 8
  printGroups run tail4 v4 words 0 ++ (if trailing then ascii ":" else [])

/-- `fill_source_ip`. -/
def fillSourceIp : SockAddr → Bytes
  | .inet a b c d => inetNtop4 a b c d
  | .inet6 g₀ g₁ g₂ g₃ g₄ g₅ g₆ g₇ => inetNtop6 [g₀, g₁, g₂, g₃, g₄, g₅, g₆, g₇]

example : fillSourceIp (.inet6 0x2001 0xdb8 0 0 1 0 0 1) = ascii "2001:db8::1:0:0:1" := by decide
example : fillSourceIp (.inet6 0 0 0 0 0 0xffff 0xc0a8 0x101) = ascii "::ffff:192.168.1.1" := by decide

namespace Session

variable {σ : Type} (env : Env σ)

/-- The fields `close_data_connection` resets in both of its branches. -/
def resetData (c : Connection) : Connection :=
  { c with
    dataBev := none
    dataTlsEventConnectedCb := none
    dataEofEventCb := none
    dataReadCb := none
    dataWriteCb := none
    dataActive := 0
    uploadFd := -1 }

/-- `close_data_connection`. -/
def closeDataConnection (s : Session σ) : Session σ :=
  match s.conn.dataBev with
  | none => { s with conn := resetData s.conn }
  | some b =>
    let s := bevFree env b s
    { s with conn := { resetData s.conn with dataStream := none } }

/-! ## The passive listener -/

/-- One round of the port loop: `evconnlistener_new_bind` on a port. -/
def tryPort (port : Nat) (s : Session σ) : Session σ :=
  let s' := emit env (.bind port) s
  if env.newBind s.os port then
    fresh (emit env (.listenerNew s.nextId port)
      { s' with
        listeners := Function.update s.listeners s.nextId true
        conn := { s.conn with pasvListener := some s.nextId } })
  else { s' with conn := { s.conn with pasvListener := none } }

/-- The loop over the ports, whose counter has 16 bits: the port it stops at. -/
def portLoop : Nat → Nat → Session σ → Nat × Session σ
  | 0, port, s => (port, hang s)
  | fuel + 1, port, s =>
    if port ≤ env.pasvRange.end then
      let s := tryPort env port s
      if s.conn.pasvListener.isSome then (port, s) else portLoop fuel ((port + 1) % 2 ^ 16) s
    else (port, s)

/-- The text of the 229 reply. -/
def extendedPassiveText (port : Nat) : Bytes :=
  cut 256 (ascii "Entering Extended Passive Mode (|||" ++ dec port ++ ascii "|)")

/-- The text of the 227 reply. -/
def passiveText (ip : UInt8 × UInt8 × UInt8 × UInt8) (port : Nat) : Bytes :=
  cut 256 (ascii "Entering Passive Mode. " ++ dec ip.1.toNat ++ ascii "," ++ dec ip.2.1.toNat ++ ascii "," ++
    dec ip.2.2.1.toNat ++ ascii "," ++ dec ip.2.2.2.toNat ++ ascii "," ++ dec (port / 256) ++ ascii "," ++
    dec (port % 256))

/-- What follows the port loop. -/
def announcePort (extended : Bool) (ip : UInt8 × UInt8 × UInt8 × UInt8) (port : Nat) (s : Session σ) : Session σ :=
  if s.conn.pasvListener.isNone then sendControlMessage env 425 (ascii "Can't open passive connection") s
  else
    let s := timerNew env .killListenerOnTimeout s
    if extended then sendControlMessage env 229 (extendedPassiveText port) s
    else sendControlMessage env 227 (passiveText ip port) s

/-- The listener of an earlier PASV or EPSV is closed. -/
def dropListener (s : Session σ) : Session σ :=
  match s.conn.pasvListener with
  | some l =>
    let s := listenerFree env l s
    { s with conn := { s.conn with pasvListener := none } }
  | none => s

/-- `data_connection_listener_config`. -/
def dataConnectionListenerConfig (extended : Bool) (s : Session σ) : Session σ :=
  (dropListener env s).andThen fun s =>
    match env.getsockname s.os with
    | some ip =>
      let (port, s) := portLoop env env.spin env.pasvRange.start s
      s.andThen (announcePort env extended ip port)
    | none => sendControlMessage env 425 (ascii "Can't open passive connection") s

/-- `kill_listener_on_timeout`. -/
def killListenerOnTimeout (s : Session σ) : Session σ := dropListener env s

/-! ## A client connects -/

/-- `sizeof(INET6_ADDRSTRLEN)`: the size of an `int`. -/
def SIZEOF_INET6_ADDRSTRLEN : Nat := 4

/-- The check of `data_connection_accept_cb`: the printed address of the peer against that of the control connection. -/
def samePeer (sourceIp : Bytes) (addr : SockAddr) : Bool :=
  strncmpEq SIZEOF_INET6_ADDRSTRLEN sourceIp (fillSourceIp addr)

/-- `bufferevent_socket_new` or `bufferevent_openssl_socket_new`, as the connection asks for. -/
def newDataBev (s : Session σ) : Session σ :=
  if env.bufferevent s.os then
    fresh (emit env (.bevNew s.nextId s.conn.dataTlsRequired)
      { s with
        bevs := Function.update s.bevs s.nextId (some ⟨s.conn.dataTlsRequired, [], [], 0, [], []⟩)
        conn := { s.conn with dataBev := some s.nextId } })
  else { s with conn := { s.conn with dataBev := none } }

/-- `data_connection_accept_cb`. -/
def dataConnectionAcceptCb (listener : Nat) (fd : Int) (addr : SockAddr) (s : Session σ) : Session σ :=
  if !samePeer s.conn.sourceIp addr then emit env (.rejected fd) s
  else
    (listenerFree env listener s).andThen fun s =>
      let s := newDataBev env { s with conn := { s.conn with dataActive := 0, pasvListener := none } }
      if s.conn.dataBev.isNone then s
      else
        let active := if s.conn.dataTlsRequired then s.conn.dataActive else s.conn.dataActive + 1
        timeoutEventFree env { s with conn := { s.conn with dataActive := active } }

end Session

end CftpServer
