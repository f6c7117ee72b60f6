import CftpServer.Session.Handlers

/-!
# Systems a session cannot tell apart

A session learns of its system through the outcomes of its calls (`Outcomes`), and changes it through what it does. In a
`Coupling` two systems have related states: the outcomes are the same in both, and what the session does keeps them
related. A session then does the same on either system (`Coupling.step_paired`), be it that of a client who is logged
in, or of one who is not and only as far as USER and PASS are left out.

With one system on both sides a coupling is an invariant of its states.
-/

namespace CftpServer

open CLib

/-- What a session is told by a system in a state. -/
structure Outcomes where
  pasvRange : PasvPortRange
  getcwd : Option Bytes
  directory : Bytes → Bytes
  chdir : Bytes → Bool
  stat : Bytes → Option Stat
  lstat : Bytes → Option Stat
  openRead : Bytes → Bool
  openWrite : Bytes → Bool
  opendir : Bytes → Option (List Bytes)
  unlink : Bytes → Bool
  mkdir : Bytes → Bool
  rmdir : Bytes → Bool
  fstat : Int → Option Stat
  read : Int → Nat → Nat → Option Bytes
  fileSegment : Int → Nat → Bytes
  evbufferWrite : Int → Bytes → Option Nat
  getsockname : Option (UInt8 × UInt8 × UInt8 × UInt8)
  newBind : Nat → Bool
  bufferevent : Bool
  askRootForUsername : Nat → Bytes
  askRootForGroupname : Nat → Bytes
  strftimeGmt : Int → Bytes
  strftimeLocal : Int → Bytes
  spin : Nat
  stack : Nat

/-- The outcomes of the calls, apart from those of the login. -/
def Env.outcomes {σ : Type} (env : Env σ) (w : σ) (p : Proc) : Outcomes where
  pasvRange := env.pasvRange
  getcwd := env.getcwd w p
  directory := env.directory w p
  chdir := env.chdir w p
  stat := env.stat w p
  lstat := env.lstat w p
  openRead := env.openRead w p
  openWrite := env.openWrite w p
  opendir := env.opendir w p
  unlink := env.unlink w p
  mkdir := env.mkdir w p
  rmdir := env.rmdir w p
  fstat := env.fstat w
  read := env.read w
  fileSegment := env.fileSegment w
  evbufferWrite := env.evbufferWrite w
  getsockname := env.getsockname w
  newBind := env.newBind w
  bufferevent := env.bufferevent w
  askRootForUsername := env.askRootForUsername w
  askRootForGroupname := env.askRootForGroupname w
  strftimeGmt := env.strftimeGmt
  strftimeLocal := env.strftimeLocal
  spin := env.spin
  stack := env.stack

/-- Calls that only look, or open something to be read. -/
def Call.looks : Call → Bool
  | .stat _ | .lstat _ | .openRead _ | .opendir _ => true
  | _ => false

/-- The calls that are made for a command. -/
def Command.Action.makes (a : Command.Action) : Call → Bool
  | .openWrite _ => a = .stor
  | .mkdir _ => a = .mkd
  | .unlink _ => a = .dele
  | .rmdir _ => a = .rmd ∨ a = .dele
  | .chdir _ => a = .cwd
  | _ => !a.pathless

theorem Command.Action.makes_of_looks {a : Command.Action} (ha : a.pathless = false) {c : Call} (hc : c.looks = true) :
    a.makes c = true := by
  have hmakes : (!a.pathless) = true := by rw [ha]; rfl
  cases c with
  | stat | lstat | openRead | opendir => exact hmakes
  | _ => cases hc

/-- What a session with this next number does: the calls on paths are among these, and a descriptor gets the number. -/
def Effect.Allowed (calls : Call → Prop) (nextId : Nat) : Effect → Prop
  | .call c => calls c
  | .opened fd => fd = nextId
  | _ => True

/-- Two systems with related states: they answer alike, and stay related. The relation may speak of the process, of the
next number and of what has been done so far; of the calls on paths only those in `calls` are made. -/
structure Coupling (σ τ : Type) where
  left : Env σ
  right : Env τ
  calls : Call → Prop
  related : Proc → Nat → List Effect → σ → τ → Prop
  outcomes : ∀ {p n l v w}, related p n l v w → right.outcomes w p = left.outcomes v p
  fresh : ∀ {p n l v w}, related p n l v w → related p (n + 1) l v w
  after : ∀ {p n l v w e}, related p n l v w → e.Allowed calls n →
    related p n (l ++ [e]) (left.after v p e) (right.after w p e)
  chdir : ∀ {p n l v w path}, related p n l v w → calls (.chdir path) → left.chdir v p path = true →
    related { p with cwd := left.directory v p path } n (l ++ [.call (.chdir path)])
      (left.after v p (.call (.chdir path))) (right.after w p (.call (.chdir path)))

namespace Session

variable {σ τ : Type}

/-- The same session on another system. -/
def on (s : Session σ) (w : τ) : Session τ :=
  ⟨s.conn, s.ctlIn, s.ctlOut, s.bevs, s.listeners, s.timers, s.nextId, s.proc, w, s.log, s.ended⟩

end Session

open Session Command Security

namespace Coupling

variable {σ τ : Type} {K : Coupling σ τ}

/-- The same session on both systems. -/
def Paired (K : Coupling σ τ) (s : Session σ) (t : Session τ) : Prop :=
  t = s.on t.os ∧ K.related s.proc s.nextId s.log s.os t.os

/-- The same value, and the same session on both systems. -/
def Returns {α : Type} (K : Coupling σ τ) (x : α × Session σ) (y : α × Session τ) : Prop :=
  y.1 = x.1 ∧ K.Paired x.2 y.2

namespace Paired

variable {s : Session σ} {t : Session τ}

/-- The second session is the first, on another system. -/
@[elab_as_elim]
theorem elim {P : Session τ → Prop} (h : K.Paired s t) (hP : ∀ w, K.Paired s (s.on w) → P (s.on w)) : P t := by
  obtain ⟨heq, hrel⟩ := h
  rw [heq]
  exact hP t.os ⟨rfl, hrel⟩

section Fields

variable (h : K.Paired s t)
include h

theorem conn : t.conn = s.conn := by rw [h.1]; rfl
theorem ctlIn : t.ctlIn = s.ctlIn := by rw [h.1]; rfl
theorem ctlOut : t.ctlOut = s.ctlOut := by rw [h.1]; rfl
theorem bevs : t.bevs = s.bevs := by rw [h.1]; rfl
theorem listeners : t.listeners = s.listeners := by rw [h.1]; rfl
theorem timers : t.timers = s.timers := by rw [h.1]; rfl
theorem nextId : t.nextId = s.nextId := by rw [h.1]; rfl
theorem proc : t.proc = s.proc := by rw [h.1]; rfl
theorem ended : t.ended = s.ended := by rw [h.1]; rfl

/-- The systems answer alike. -/
theorem outcome {α : Type} (f : Outcomes → α) :
    f (K.right.outcomes t.os t.proc) = f (K.left.outcomes s.os s.proc) := by
  rw [h.proc, K.outcomes h.2]

/-! ## Changes of the state -/

/-- A change that has nothing to do with the system. -/
theorem map (f : Session σ → Session σ) (g : Session τ → Session τ) (hf : ∀ w, g (s.on w) = (f s).on w)
    (hos : (f s).os = s.os) (hproc : (f s).proc = s.proc) (hid : (f s).nextId = s.nextId) (hlog : (f s).log = s.log) :
    K.Paired (f s) (g t) := by
  obtain ⟨heq, hrel⟩ := h
  have hg : g t = (f s).on t.os := by rw [heq]; exact hf _
  refine ⟨by rw [hg]; rfl, ?_⟩
  rw [hos, hproc, hid, hlog, hg]
  exact hrel

theorem setConn (c : Connection) : K.Paired { s with conn := c } { t with conn := c } :=
  h.map (fun s => { s with conn := c }) (fun t => { t with conn := c }) (fun _ => rfl) rfl rfl rfl rfl

theorem setCtlIn (bytes : Bytes) : K.Paired { s with ctlIn := bytes } { t with ctlIn := bytes } :=
  h.map (fun s => { s with ctlIn := bytes }) (fun t => { t with ctlIn := bytes }) (fun _ => rfl) rfl rfl rfl rfl

theorem setCtlOut (bytes : Bytes) : K.Paired { s with ctlOut := bytes } { t with ctlOut := bytes } :=
  h.map (fun s => { s with ctlOut := bytes }) (fun t => { t with ctlOut := bytes }) (fun _ => rfl) rfl rfl rfl rfl

theorem setBevs (bevs : Nat → Option Bev) : K.Paired { s with bevs := bevs } { t with bevs := bevs } :=
  h.map (fun s => { s with bevs := bevs }) (fun t => { t with bevs := bevs }) (fun _ => rfl) rfl rfl rfl rfl

theorem setTimers (timers : Nat → Option Timer) : K.Paired { s with timers := timers } { t with timers := timers } :=
  h.map (fun s => { s with timers := timers }) (fun t => { t with timers := timers }) (fun _ => rfl) rfl rfl rfl rfl

theorem setListeners (listeners : Nat → Bool) :
    K.Paired { s with listeners := listeners } { t with listeners := listeners } :=
  h.map (fun s => { s with listeners := listeners }) (fun t => { t with listeners := listeners }) (fun _ => rfl)
    rfl rfl rfl rfl

theorem setEnded (ending : Ending) : K.Paired { s with ended := some ending } { t with ended := some ending } :=
  h.map (fun s => { s with ended := some ending }) (fun t => { t with ended := some ending }) (fun _ => rfl)
    rfl rfl rfl rfl

theorem fresh : K.Paired s.fresh t.fresh := by
  obtain ⟨heq, hrel⟩ := h
  rw [heq]
  exact ⟨rfl, K.fresh hrel⟩

/-- The session does something. -/
theorem emit (e : Effect) (he : e.Allowed K.calls s.nextId) : K.Paired (s.emit K.left e) (t.emit K.right e) := by
  obtain ⟨heq, hrel⟩ := h
  rw [heq]
  exact ⟨rfl, K.after hrel he⟩

theorem andThen {f : Session σ → Session σ} {g : Session τ → Session τ} (hf : K.Paired (f s) (g t)) :
    K.Paired (s.andThen f) (t.andThen g) := by
  unfold Session.andThen
  rw [h.ended]
  split
  · exact h
  · exact hf

end Fields

/-! ## Calls -/

section Calls

variable (h : K.Paired s t)
include h

theorem sendControlMessage (n : Nat) (text : Bytes) :
    K.Paired (s.sendControlMessage K.left n text) (t.sendControlMessage K.right n text) := by
  unfold Session.sendControlMessage
  rw [h.ctlOut]
  exact (h.emit (.reply n text) trivial).setCtlOut _

theorem writeTextResponse (text : Bytes) :
    K.Paired (s.writeTextResponse K.left text) (t.writeTextResponse K.right text) := by
  unfold Session.writeTextResponse
  rw [h.ctlOut]
  exact (h.emit (.text text) trivial).setCtlOut _

theorem setControlWriteCb (cb : ControlWriteCb) : K.Paired (s.setControlWriteCb cb) (t.setControlWriteCb cb) := by
  unfold Session.setControlWriteCb
  rw [h.conn]
  exact h.setConn _

theorem newFd : K.Returns (s.newFd K.left) (t.newFd K.right) := by
  unfold Session.newFd
  rw [h.nextId]
  exact ⟨rfl, (h.emit (.opened s.nextId) rfl).fresh⟩

theorem closeFd (fd : Int) : K.Paired (s.closeFd K.left fd) (t.closeFd K.right fd) := by
  unfold Session.closeFd
  split
  · exact h
  · exact h.emit (.closed fd) trivial

theorem bevWrite (b : Nat) (bytes : Bytes) (files : List Int) :
    K.Paired (s.bevWrite K.left b bytes files) (t.bevWrite K.right b bytes files) := by
  unfold Session.bevWrite
  rw [h.bevs]
  split
  · exact h.setEnded _
  · exact (h.setBevs _).emit (.bevWrite b _ bytes) trivial

theorem closeAll (fds : List Int) : K.Paired (s.closeAll K.left fds) (t.closeAll K.right fds) := by
  induction fds generalizing s t with
  | nil => exact h
  | cons fd fds ih => exact ih (h.closeFd fd)

theorem bevFree (b : Nat) : K.Paired (s.bevFree K.left b) (t.bevFree K.right b) := by
  unfold Session.bevFree
  rw [h.bevs]
  split
  · exact h.setEnded _
  · exact ((h.setBevs _).emit (.bevFree b _) trivial).closeAll _

theorem setWriteLow (b low : Nat) : K.Paired (s.setWriteLow b low) (t.setWriteLow b low) := by
  unfold Session.setWriteLow
  rw [h.bevs]
  exact h.setBevs _

theorem listenerFree (l : Nat) : K.Paired (s.listenerFree K.left l) (t.listenerFree K.right l) := by
  unfold Session.listenerFree
  rw [h.listeners]
  split
  · exact (h.setListeners _).emit (.listenerFree l) trivial
  · exact (h.emit (.listenerFree l) trivial).setEnded _

theorem timerNew (cb : TimerCallback) : K.Paired (s.timerNew K.left cb) (t.timerNew K.right cb) := by
  refine h.elim fun w h => ?_
  have hset := (h.setTimers (Function.update s.timers s.nextId (some ⟨cb, true⟩))).setConn
    { s.conn with timeoutEvent := some s.nextId }
  exact (hset.emit (.timerNew s.nextId) trivial).fresh

theorem timeoutEventFree : K.Paired (s.timeoutEventFree K.left) (t.timeoutEventFree K.right) := by
  have hset : ∀ timer, K.Paired { s with timers := Function.update s.timers timer none }
      { t with timers := Function.update t.timers timer none } := by
    intro timer
    rw [h.timers]
    exact h.setTimers _
  unfold Session.timeoutEventFree
  rw [show t.conn.timeoutEvent = s.conn.timeoutEvent by rw [h.conn]]
  split
  · exact h.setEnded _
  · rename_i timer _
    rw [show (t.timers timer).isSome = (s.timers timer).isSome by rw [h.timers]]
    split
    · exact (hset timer).emit (.timerFree timer) trivial
    · exact (h.emit (.timerFree timer) trivial).setEnded _

/-! ### Calls on paths -/

/-- A call with its outcome. -/
theorem call {α : Type} (f : Outcomes → α) {c : Call} (hc : K.calls c) :
    K.Returns (f (K.left.outcomes s.os s.proc), s.call K.left c) (f (K.right.outcomes t.os t.proc), t.call K.right c) :=
  ⟨h.outcome f, h.emit (.call c) hc⟩

theorem sysStat {path : Bytes} (hc : K.calls (.stat path)) :
    K.Returns (s.sysStat K.left path) (t.sysStat K.right path) :=
  h.call (fun o => o.stat path) hc

theorem sysLstat {path : Bytes} (hc : K.calls (.lstat path)) :
    K.Returns (s.sysLstat K.left path) (t.sysLstat K.right path) :=
  h.call (fun o => o.lstat path) hc

theorem sysUnlink {path : Bytes} (hc : K.calls (.unlink path)) :
    K.Returns (s.sysUnlink K.left path) (t.sysUnlink K.right path) :=
  h.call (fun o => o.unlink path) hc

theorem sysMkdir {path : Bytes} (hc : K.calls (.mkdir path)) :
    K.Returns (s.sysMkdir K.left path) (t.sysMkdir K.right path) :=
  h.call (fun o => o.mkdir path) hc

theorem sysRmdir {path : Bytes} (hc : K.calls (.rmdir path)) :
    K.Returns (s.sysRmdir K.left path) (t.sysRmdir K.right path) :=
  h.call (fun o => o.rmdir path) hc

/-- Both processes change to the same directory. -/
theorem sysChdir {path : Bytes} (hc : K.calls (.chdir path)) :
    K.Returns (s.sysChdir K.left path) (t.sysChdir K.right path) := by
  refine h.elim fun w h => ?_
  have hok : K.right.chdir (s.on w).os (s.on w).proc path = K.left.chdir s.os s.proc path :=
    h.outcome fun o => o.chdir path
  have hdir : K.right.directory (s.on w).os (s.on w).proc path = K.left.directory s.os s.proc path :=
    h.outcome fun o => o.directory path
  have hcall := (h.call (fun o => o.chdir path) hc).2
  unfold Session.sysChdir
  rw [hok, hdir]
  split
  · rename_i hleft
    exact ⟨rfl, rfl, K.chdir h.2 hc hleft⟩
  · exact ⟨rfl, hcall⟩

theorem sysOpenRead {path : Bytes} (hc : K.calls (.openRead path)) :
    K.Returns (s.sysOpenRead K.left path) (t.sysOpenRead K.right path) := by
  obtain ⟨hok, hcall⟩ := h.call (fun o => o.openRead path) hc
  unfold Session.sysOpenRead
  rw [show K.right.openRead t.os t.proc path = K.left.openRead s.os s.proc path from hok]
  split
  · exact ⟨congrArg some hcall.newFd.1, hcall.newFd.2⟩
  · exact ⟨rfl, hcall⟩

theorem sysOpenWrite {path : Bytes} (hc : K.calls (.openWrite path)) :
    K.Returns (s.sysOpenWrite K.left path) (t.sysOpenWrite K.right path) := by
  obtain ⟨hok, hcall⟩ := h.call (fun o => o.openWrite path) hc
  unfold Session.sysOpenWrite
  rw [show K.right.openWrite t.os t.proc path = K.left.openWrite s.os s.proc path from hok]
  split
  · exact ⟨congrArg some hcall.newFd.1, hcall.newFd.2⟩
  · exact ⟨rfl, hcall⟩

theorem sysOpendir {path : Bytes} (hc : K.calls (.opendir path)) :
    K.Returns (s.sysOpendir K.left path) (t.sysOpendir K.right path) := by
  obtain ⟨hnames, hcall⟩ := h.call (fun o => o.opendir path) hc
  unfold Session.sysOpendir
  rw [show K.right.opendir t.os t.proc path = K.left.opendir s.os s.proc path from hnames]
  dsimp only
  split
  · exact ⟨congrArg (fun fd => some (fd, _)) hcall.newFd.1, hcall.newFd.2⟩
  · exact ⟨rfl, hcall⟩

end Calls

/-! ## The data connection and its listener -/

section Data

variable (h : K.Paired s t)
include h

theorem closeDataConnection : K.Paired (s.closeDataConnection K.left) (t.closeDataConnection K.right) := by
  unfold Session.closeDataConnection
  rw [h.conn]
  split
  · exact h.setConn _
  · rename_i b _
    dsimp only
    rw [(h.bevFree b).conn]
    exact (h.bevFree b).setConn _

theorem tryPort (port : Nat) : K.Paired (s.tryPort K.left port) (t.tryPort K.right port) := by
  refine h.elim fun w h => ?_
  have hbind := h.emit (.bind port) trivial
  have hport : K.right.newBind (s.on w).os port = K.left.newBind s.os port := h.outcome fun o => o.newBind port
  unfold Session.tryPort
  rw [hport]
  dsimp only
  split
  · have hset := (hbind.setListeners (Function.update s.listeners s.nextId true)).setConn
      { s.conn with pasvListener := some s.nextId }
    exact (hset.emit (.listenerNew s.nextId port) trivial).fresh
  · exact hbind.setConn { s.conn with pasvListener := none }

theorem portLoop (fuel port : Nat) : K.Returns (s.portLoop K.left fuel port) (t.portLoop K.right fuel port) := by
  induction fuel generalizing port s t with
  | zero => exact ⟨rfl, h.setEnded _⟩
  | succ fuel ih =>
    have htry := h.tryPort port
    unfold Session.portLoop
    dsimp only
    rw [show K.right.pasvRange = K.left.pasvRange from h.outcome fun o => o.pasvRange, htry.conn]
    split
    · split
      · exact ⟨rfl, htry⟩
      · exact ih htry _
    · exact ⟨rfl, h⟩

theorem announcePort (extended : Bool) (ip : UInt8 × UInt8 × UInt8 × UInt8) (port : Nat) :
    K.Paired (s.announcePort K.left extended ip port) (t.announcePort K.right extended ip port) := by
  unfold Session.announcePort
  rw [h.conn]
  split
  · exact h.sendControlMessage _ _
  · dsimp only
    split <;> exact (h.timerNew _).sendControlMessage _ _

theorem dropListener : K.Paired (s.dropListener K.left) (t.dropListener K.right) := by
  unfold Session.dropListener
  rw [h.conn]
  split
  · rename_i l _
    dsimp only
    rw [(h.listenerFree l).conn]
    exact (h.listenerFree l).setConn _
  · exact h

theorem dataConnectionListenerConfig (extended : Bool) : K.Paired (s.dataConnectionListenerConfig K.left extended)
    (t.dataConnectionListenerConfig K.right extended) := by
  have hdrop := h.dropListener
  have hspin : K.right.spin = K.left.spin := h.outcome fun o => o.spin
  have hrange : K.right.pasvRange = K.left.pasvRange := h.outcome fun o => o.pasvRange
  unfold Session.dataConnectionListenerConfig
  apply hdrop.andThen
  dsimp only
  rw [show K.right.getsockname _ = K.left.getsockname _ from hdrop.outcome fun o => o.getsockname, hspin, hrange]
  split
  · obtain ⟨hport, hloop⟩ := hdrop.portLoop K.left.spin K.left.pasvRange.start
    rw [hport]
    exact hloop.andThen (hloop.announcePort _ _ _)
  · exact hdrop.sendControlMessage _ _

theorem newDataBev : K.Paired (s.newDataBev K.left) (t.newDataBev K.right) := by
  refine h.elim fun w h => ?_
  have hbev : K.right.bufferevent (s.on w).os = K.left.bufferevent s.os := h.outcome fun o => o.bufferevent
  unfold Session.newDataBev
  rw [hbev]
  split
  · have hset := (h.setBevs (Function.update s.bevs s.nextId (some ⟨s.conn.dataTlsRequired, [], [], 0, [], []⟩))).setConn
      { s.conn with dataBev := some s.nextId }
    exact (hset.emit (.bevNew s.nextId s.conn.dataTlsRequired) trivial).fresh
  · exact h.setConn { s.conn with dataBev := none }

theorem dataConnectionAcceptCb (listener : Nat) (fd : Int) (addr : SockAddr) :
    K.Paired (s.dataConnectionAcceptCb K.left listener fd addr) (t.dataConnectionAcceptCb K.right listener fd addr) := by
  unfold Session.dataConnectionAcceptCb
  rw [h.conn]
  split
  · exact h.emit (.rejected fd) trivial
  · have hfree := h.listenerFree listener
    apply hfree.andThen
    dsimp only
    rw [hfree.conn]
    have hnew := (hfree.setConn
      { (s.listenerFree K.left listener).conn with dataActive := 0, pasvListener := none }).newDataBev
    rw [hnew.conn]
    split
    · exact hnew
    · exact (hnew.setConn _).timeoutEventFree

end Data

/-! ## LIST, RETR and STOR -/

section Transfers

variable (h : K.Paired s t)
include h

theorem formatUnixListEntry (name : Bytes) (st : Stat) (human : Bool) :
    t.formatUnixListEntry K.right name st human = s.formatUnixListEntry K.left name st human := by
  unfold Session.formatUnixListEntry
  rw [show K.right.askRootForUsername t.os = K.left.askRootForUsername s.os from h.outcome (·.askRootForUsername),
    show K.right.askRootForGroupname t.os = K.left.askRootForGroupname s.os from h.outcome (·.askRootForGroupname),
    show K.right.strftimeLocal = K.left.strftimeLocal from h.outcome (·.strftimeLocal)]

theorem sendListing (evbuf : Bytes) : K.Paired (s.sendListing K.left evbuf) (t.sendListing K.right evbuf) := by
  unfold Session.sendListing
  rw [h.conn]
  split
  · exact (h.setConn _).sendControlMessage _ _
  · split
    · exact h.setEnded _
    · exact (h.setConn _).bevWrite _ _ _

theorem refuseList (n : Nat) (text : Bytes) : K.Paired (s.refuseList K.left n text) (t.refuseList K.right n text) :=
  (h.setControlWriteCb _).sendControlMessage n text

theorem sendNextChunk (b : Nat) : K.Paired (s.sendNextChunk K.left b) (t.sendNextChunk K.right b) := by
  -- changing the position in the stream
  have hmove : ∀ {s : Session σ} {t : Session τ} (fs : FileStream), K.Paired s t → K.Paired
      { s with conn := { s.conn with dataStream := some fs } }
      { t with conn := { t.conn with dataStream := some fs } } := by
    intro s t fs h
    rw [h.conn]
    exact h.setConn _
  have hread : ∀ fs, readStream K.right fs t = readStream K.left fs s := by
    intro fs
    unfold readStream
    rw [show K.right.read t.os = K.left.read s.os from h.outcome (·.read)]
  unfold Session.sendNextChunk
  rw [h.conn]
  split
  · exact h.setEnded _
  · rename_i fs _
    have hend : K.Paired (if atEnd fs (readStream K.left fs s) then
          { s with conn := { s.conn with dataWriteCb := some .closeOnRetrcb } } else s)
        (if atEnd fs (readStream K.left fs s) then
          { t with conn := { s.conn with dataWriteCb := some .closeOnRetrcb } } else t) := by
      split
      · exact h.setConn _
      · exact h
    dsimp only
    rw [hread]
    split
    · exact hmove _ (hend.closeFd _)
    · exact hmove _ (hend.closeFd _)
    · exact hmove _ (hend.bevWrite _ _ _)

theorem transferComplete : K.Paired (s.transferComplete K.left) (t.transferComplete K.right) :=
  (h.setControlWriteCb _).sendControlMessage _ _

theorem downloadCompletionOnPlainConnectionCb (b : Nat) : K.Paired
    (s.downloadCompletionOnPlainConnectionCb K.left b) (t.downloadCompletionOnPlainConnectionCb K.right b) := by
  unfold Session.downloadCompletionOnPlainConnectionCb
  rw [h.bevs]
  split
  · exact h.setEnded _
  · split
    · exact h.transferComplete
    · exact h

theorem evbufferWrite (b : Nat) (v : Bev) : K.Paired (s.evbufferWrite K.left b v) (t.evbufferWrite K.right b v) := by
  refine h.elim fun w h => ?_
  unfold Session.evbufferWrite
  rw [show K.right.evbufferWrite (s.on w).os = K.left.evbufferWrite s.os from h.outcome (·.evbufferWrite)]
  exact (h.setBevs _).emit (.store b v.tls s.conn.uploadFd _) trivial

theorem drainInput (b fuel : Nat) : K.Paired (s.drainInput K.left b fuel) (t.drainInput K.right b fuel) := by
  induction fuel generalizing s t with
  | zero => exact h.setEnded _
  | succ fuel ih =>
    unfold Session.drainInput
    rw [h.bevs]
    split
    · exact h.setEnded _
    · split
      · exact h
      · exact ih (h.evbufferWrite b _)

theorem onStorRead (b : Nat) : K.Paired (s.onStorRead K.left b) (t.onStorRead K.right b) := by
  unfold Session.onStorRead
  rw [show K.right.spin = K.left.spin from h.outcome (·.spin)]
  exact h.drainInput b _

theorem onEofEventCb : K.Paired (s.onEofEventCb K.left) (t.onEofEventCb K.right) := by
  unfold Session.onEofEventCb
  rw [h.conn, show K.right.spin = K.left.spin from h.outcome (·.spin)]
  split
  · exact h
  · rename_i d _
    split
    · have hdrain := h.drainInput d K.left.spin
      apply hdrain.andThen
      dsimp only
      rw [hdrain.conn]
      have hclose := hdrain.closeFd (s.drainInput K.left d K.left.spin).conn.uploadFd
      rw [hclose.conn]
      exact (hclose.setConn _).sendControlMessage _ _
    · exact h.sendControlMessage _ _

section Paths

variable (hC : ∀ c, c.looks = true → K.calls c)
include hC

theorem listEntries (path : Bytes) (description hidden human : Bool) (names : List Bytes) :
    K.Returns (s.listEntries K.left path description hidden human names)
      (t.listEntries K.right path description hidden human names) := by
  induction names generalizing s t with
  | nil => exact ⟨rfl, h⟩
  | cons name names ih =>
    obtain ⟨hst, hstat⟩ := h.sysLstat (hC (.lstat (cut PATH_MAX (path ++ ascii "/" ++ name))) rfl)
    unfold Session.listEntries
    dsimp only
    rw [hst]
    split
    · exact ih h
    · split
      · exact ih hstat
      · split
        · exact ih hstat
        · rw [hstat.formatUnixListEntry, (ih hstat).1]
          exact ⟨rfl, (ih hstat).2⟩

theorem sendListCommandOutput (path : Bytes) (description hidden human : Bool) :
    K.Paired (s.sendListCommandOutput K.left path description hidden human)
      (t.sendListCommandOutput K.right path description hidden human) := by
  obtain ⟨hdir, hopen⟩ := h.sysOpendir (hC (.opendir path) rfl)
  unfold Session.sendListCommandOutput
  dsimp only
  rw [hdir]
  split
  · exact hopen.setEnded _
  · rename_i fd names _
    obtain ⟨hlines, hlist⟩ := hopen.listEntries hC path description hidden human names
    rw [hlines]
    exact (hlist.closeFd fd).sendListing _

theorem startList (path : Bytes) (description : Bool) (flags : ListFlags) :
    K.Paired (s.startList K.left path description flags) (t.startList K.right path description flags) := by
  unfold Session.startList
  rw [h.conn]
  split
  · exact (h.setConn _).sendControlMessage _ _
  · exact (h.sendControlMessage _ _).sendListCommandOutput hC _ _ _ _

theorem handleListCommand (cmd : CftpCommand) (description : Bool) :
    K.Paired (s.handleListCommand K.left cmd description) (t.handleListCommand K.right cmd description) := by
  unfold Session.handleListCommand
  rw [h.conn]
  split
  · exact h.refuseList _ _
  · rename_i flags _
    split
    · exact h.sendControlMessage _ _
    · split
      · exact h.refuseList _ _
      · obtain ⟨hdir, hopen⟩ := h.sysOpendir (hC (.opendir (listPath flags)) rfl)
        dsimp only
        rw [hdir]
        split
        · exact hopen.refuseList _ _
        · exact hopen.startList hC _ _ _

theorem ftpSendFileWithEvbuffer (path : Bytes) :
    K.Paired (s.ftpSendFileWithEvbuffer K.left path) (t.ftpSendFileWithEvbuffer K.right path) := by
  obtain ⟨hfd, hopen⟩ := h.sysOpenRead (hC (.openRead path) rfl)
  unfold Session.ftpSendFileWithEvbuffer
  dsimp only
  rw [h.conn, hfd]
  split
  · exact h
  · split
    · exact hopen
    · rw [show K.right.fstat _ = K.left.fstat _ from hopen.outcome (·.fstat)]
      split
      · exact hopen.closeFd _
      · have hreply := hopen.sendControlMessage 150 (ascii "Sending file")
        rw [hreply.conn]
        exact ((hreply.setConn _).setWriteLow _ _).sendNextChunk _

theorem ftpSendFilePlain (path : Bytes) :
    K.Paired (s.ftpSendFilePlain K.left path) (t.ftpSendFilePlain K.right path) := by
  obtain ⟨hfd, hopen⟩ := h.sysOpenRead (hC (.openRead path) rfl)
  unfold Session.ftpSendFilePlain
  dsimp only
  rw [h.conn, hfd]
  split
  · exact h
  · split
    · exact hopen.sendControlMessage _ _
    · rw [show K.right.fstat _ = K.left.fstat _ from hopen.outcome (·.fstat)]
      split
      · exact (hopen.closeFd _).sendControlMessage _ _
      · have hreply := hopen.sendControlMessage 150 (ascii "Sending file")
        rw [hreply.conn, show K.right.fileSegment _ = K.left.fileSegment _ from hreply.outcome (·.fileSegment)]
        exact (hreply.setConn _).bevWrite _ _ _

theorem cftpSendFile (path : Bytes) : K.Paired (s.cftpSendFile K.left path) (t.cftpSendFile K.right path) := by
  unfold Session.cftpSendFile
  rw [h.conn]
  split
  · exact h.ftpSendFileWithEvbuffer hC path
  · exact h.ftpSendFilePlain hC path

omit hC in
theorem cftpRecvFileWithEvbuffer (path : Bytes) (hc : K.calls (.openWrite path)) :
    K.Paired (s.cftpRecvFileWithEvbuffer K.left path) (t.cftpRecvFileWithEvbuffer K.right path) := by
  obtain ⟨hfd, hopen⟩ := h.sysOpenWrite hc
  unfold Session.cftpRecvFileWithEvbuffer
  dsimp only
  rw [h.conn, hfd, hopen.conn]
  split
  · exact h.sendControlMessage _ _
  · split
    · exact (hopen.setControlWriteCb _).sendControlMessage _ _
    · exact (hopen.setConn _).sendControlMessage _ _

/-! ## DELE -/

theorem deleteEntries {sub : Bytes → Session σ → Bool × Session σ} {sub' : Bytes → Session τ → Bool × Session τ}
    (hsub : ∀ {s : Session σ} {t : Session τ} (path : Bytes), K.Paired s t → K.Returns (sub path s) (sub' path t))
    (hU : ∀ path, K.calls (.unlink path)) (path : Bytes) (names : List Bytes) :
    K.Returns (s.deleteEntries K.left sub path names) (t.deleteEntries K.right sub' path names) := by
  induction names generalizing s t with
  | nil => exact ⟨rfl, h⟩
  | cons name names ih =>
    obtain ⟨hst, hstat⟩ := h.sysLstat (hC (.lstat (cut PATH_MAX (path ++ ascii "/" ++ name))) rfl)
    obtain ⟨hok, hrec⟩ := hsub (cut PATH_MAX (path ++ ascii "/" ++ name)) hstat
    unfold Session.deleteEntries
    dsimp only
    rw [hst, hok]
    split
    · exact ih h
    · split
      · exact ih hstat
      · split
        · split
          · exact ih hrec
          · exact ⟨rfl, hrec⟩
        · exact ih (hstat.sysUnlink (hU _)).2

theorem deleteDirectoryRecursively (hU : ∀ path, K.calls (.unlink path)) (hR : ∀ path, K.calls (.rmdir path))
    (depth : Nat) (path : Bytes) :
    K.Returns (s.deleteDirectoryRecursively K.left depth path) (t.deleteDirectoryRecursively K.right depth path) := by
  induction depth generalizing path s t with
  | zero => exact ⟨rfl, h.setEnded _⟩
  | succ depth ih =>
    obtain ⟨hdir, hopen⟩ := h.sysOpendir (hC (.opendir path) rfl)
    unfold Session.deleteDirectoryRecursively
    dsimp only
    rw [hdir]
    split
    · exact ⟨rfl, hopen⟩
    · rename_i fd names _
      obtain ⟨hok, hloop⟩ := hopen.deleteEntries hC (fun path h => ih h path) hU path names
      rw [hok, hloop.ended]
      split
      · exact ⟨rfl, hloop⟩
      · split
        · exact (hloop.closeFd fd).sysRmdir (hR path)
        · exact ⟨rfl, hloop.closeFd fd⟩

omit hC in
theorem replyDeleted (deleted force : Bool) :
    K.Paired (s.replyDeleted K.left deleted force) (t.replyDeleted K.right deleted force) := by
  unfold Session.replyDeleted
  split
  · split <;> exact h.sendControlMessage _ _
  · exact h.sendControlMessage _ _

theorem deleteTarget (hU : ∀ path, K.calls (.unlink path)) (hR : ∀ path, K.calls (.rmdir path)) (target : Bytes)
    (recursive force : Bool) :
    K.Paired (s.deleteTarget K.left target recursive force) (t.deleteTarget K.right target recursive force) := by
  obtain ⟨hst, hstat⟩ := h.sysStat (hC (.stat target) rfl)
  obtain ⟨hdel, hrec⟩ := hstat.deleteDirectoryRecursively hC hU hR K.left.stack target
  obtain ⟨hun, hunlink⟩ := hstat.sysUnlink (hU target)
  unfold Session.deleteTarget
  dsimp only
  rw [show K.right.stack = K.left.stack from h.outcome (·.stack), hst, hdel, hun]
  split
  · split <;> exact hstat.sendControlMessage _ _
  · split
    · split
      · exact hstat.sendControlMessage _ _
      · exact hrec.andThen (hrec.replyDeleted _ _)
    · exact hunlink.replyDeleted _ _

theorem handleDeleCommand (hU : ∀ path, K.calls (.unlink path)) (hR : ∀ path, K.calls (.rmdir path))
    (cmd : CftpCommand) :
    K.Paired (s.handleDeleCommand K.left cmd) (t.handleDeleCommand K.right cmd) := by
  unfold Session.handleDeleCommand
  split
  · exact h.sendControlMessage _ _
  · split
    · exact h.sendControlMessage _ _
    · exact h.deleteTarget hC hU hR _ _ _

end Paths

end Transfers

/-! ## Commands -/

section Commands

variable (h : K.Paired s t)
include h

theorem withArg (cmd : CftpCommand) (text : String) {action : Bytes → Session σ → Session σ}
    {action' : Bytes → Session τ → Session τ} (ha : ∀ arg, K.Paired (action arg s) (action' arg t)) :
    K.Paired (s.withArg K.left cmd text action) (t.withArg K.right cmd text action') := by
  unfold Session.withArg
  split
  · exact ha _
  · exact h.sendControlMessage _ _

theorem cftpAuthAction (cmd : CftpCommand) : K.Paired (s.cftpAuthAction K.left cmd) (t.cftpAuthAction K.right cmd) := by
  refine h.withArg _ _ fun arg => ?_
  split
  · have hreply := h.sendControlMessage 234 (ascii "AUTH TLS Success")
    unfold Session.upgradeToTls
    dsimp only
    rw [show K.right.bufferevent _ = K.left.bufferevent _ from hreply.outcome (·.bufferevent), hreply.conn]
    split
    · exact ((hreply.setCtlIn []).setCtlOut []).setConn _
    · exact hreply.setEnded _
  · exact h.sendControlMessage _ _

theorem cftpProtAction (cmd : CftpCommand) : K.Paired (s.cftpProtAction K.left cmd) (t.cftpProtAction K.right cmd) := by
  refine h.withArg _ _ fun arg => ?_
  rw [h.conn]
  split
  · exact (h.setConn _).sendControlMessage _ _
  · exact h.sendControlMessage _ _

theorem cftpTypeAuthenticatedAction (cmd : CftpCommand) :
    K.Paired (s.cftpTypeAuthenticatedAction K.left cmd) (t.cftpTypeAuthenticatedAction K.right cmd) := by
  refine h.withArg _ _ fun arg => ?_
  rw [h.conn]
  split
  · exact (h.setConn _).sendControlMessage _ _
  · split
    · exact (h.setConn _).sendControlMessage _ _
    · exact h.sendControlMessage _ _

theorem cftpPwdAuthenticatedAction :
    K.Paired (s.cftpPwdAuthenticatedAction K.left) (t.cftpPwdAuthenticatedAction K.right) := by
  unfold Session.cftpPwdAuthenticatedAction
  rw [show K.right.getcwd t.os t.proc = K.left.getcwd s.os s.proc from h.outcome (·.getcwd)]
  split <;> exact h.sendControlMessage _ _

theorem cftpAborAuthenticatedAction :
    K.Paired (s.cftpAborAuthenticatedAction K.left) (t.cftpAborAuthenticatedAction K.right) := by
  unfold Session.cftpAborAuthenticatedAction
  rw [h.conn]
  split
  · exact h.closeDataConnection.sendControlMessage _ _
  · exact (h.setControlWriteCb _).sendControlMessage _ _

section Paths

variable (hC : ∀ c, c.looks = true → K.calls c)
include hC

theorem cftpSizeAuthenticatedAction (cmd : CftpCommand) :
    K.Paired (s.cftpSizeAuthenticatedAction K.left cmd) (t.cftpSizeAuthenticatedAction K.right cmd) := by
  refine h.withArg _ _ fun arg => ?_
  obtain ⟨hst, hstat⟩ := h.sysStat (hC (.stat arg) rfl)
  dsimp only
  rw [hst]
  split
  · exact h.sendControlMessage _ _
  · split
    · exact hstat.sendControlMessage _ _
    · split <;> exact hstat.sendControlMessage _ _

theorem handleMdtmCommand (arg : Bytes) :
    K.Paired (s.handleMdtmCommand K.left arg) (t.handleMdtmCommand K.right arg) := by
  obtain ⟨hst, hstat⟩ := h.sysStat (hC (.stat arg) rfl)
  unfold Session.handleMdtmCommand
  dsimp only
  rw [hst, show K.right.strftimeGmt = K.left.strftimeGmt from h.outcome (·.strftimeGmt)]
  split
  · exact hstat.sendControlMessage _ _
  · split <;> exact hstat.sendControlMessage _ _

theorem cftpMkdAuthenticatedAction (hM : ∀ path, K.calls (.mkdir path)) (cmd : CftpCommand) :
    K.Paired (s.cftpMkdAuthenticatedAction K.left cmd) (t.cftpMkdAuthenticatedAction K.right cmd) := by
  refine h.withArg _ _ fun arg => ?_
  obtain ⟨hst, hstat⟩ := h.sysStat (hC (.stat arg) rfl)
  obtain ⟨hmade, hmkdir⟩ := hstat.sysMkdir (hM arg)
  dsimp only
  rw [hst, hmade]
  split
  · exact h.sendControlMessage _ _
  · split
    · exact hstat.sendControlMessage _ _
    · split <;> exact hmkdir.sendControlMessage _ _

theorem cftpRmdAuthenticatedAction (hR : ∀ path, K.calls (.rmdir path)) (cmd : CftpCommand) :
    K.Paired (s.cftpRmdAuthenticatedAction K.left cmd) (t.cftpRmdAuthenticatedAction K.right cmd) := by
  refine h.withArg _ _ fun arg => ?_
  obtain ⟨hst, hstat⟩ := h.sysStat (hC (.stat arg) rfl)
  obtain ⟨hremoved, hrmdir⟩ := hstat.sysRmdir (hR arg)
  dsimp only
  rw [hst, hremoved]
  split
  · exact h.sendControlMessage _ _
  · split
    · exact hstat.sendControlMessage _ _
    · split <;> exact hrmdir.sendControlMessage _ _

theorem handleCwdCommand (hD : ∀ path, K.calls (.chdir path)) (params : Bytes) :
    K.Paired (s.handleCwdCommand K.left params) (t.handleCwdCommand K.right params) := by
  obtain ⟨hst, hstat⟩ := h.sysStat (hC (.stat (cut PATH_MAX params)) rfl)
  obtain ⟨hok, hchdir⟩ := hstat.sysChdir (hD (cut PATH_MAX params))
  unfold Session.handleCwdCommand
  dsimp only
  rw [hst, hok]
  split
  · exact h.writeTextResponse _
  · split
    · exact h.sendControlMessage _ _
    · split
      · exact hstat.writeTextResponse _
      · split <;> exact hchdir.writeTextResponse _

theorem cftpCwdAuthenticatedAction (hD : ∀ path, K.calls (.chdir path)) (cmd : CftpCommand) :
    K.Paired (s.cftpCwdAuthenticatedAction K.left cmd) (t.cftpCwdAuthenticatedAction K.right cmd) := by
  refine h.withArg _ _ fun arg => ?_
  split
  · exact h.handleCwdCommand hC hD arg
  · exact h.sendControlMessage _ _

end Paths

/-- Every command but USER and PASS, with the calls it may make. -/
theorem runAction {a : Action} (cmd : CftpCommand) (ha : a ≠ .user ∧ a ≠ .pass)
    (hC : ∀ c, a.makes c = true → K.calls c) : K.Paired (s.runAction K.left a cmd) (t.runAction K.right a cmd) := by
  have hL : a.pathless = false → ∀ c, c.looks = true → K.calls c := fun ha c hc => hC c (Action.makes_of_looks ha hc)
  cases a with
  | auth => exact h.cftpAuthAction cmd
  | prot => exact h.cftpProtAction cmd
  | type => exact h.cftpTypeAuthenticatedAction cmd
  | epsv => exact h.dataConnectionListenerConfig true
  | pasv => exact h.dataConnectionListenerConfig false
  | nlst => exact h.handleListCommand (hL rfl) cmd false
  | list => exact h.handleListCommand (hL rfl) cmd true
  | size => exact h.cftpSizeAuthenticatedAction (hL rfl) cmd
  | retr => exact h.withArg cmd _ (h.cftpSendFile (hL rfl))
  | stor => exact h.withArg cmd _ fun path => h.cftpRecvFileWithEvbuffer path (hC _ rfl)
  | mdtm => exact h.withArg cmd _ (h.handleMdtmCommand (hL rfl))
  | cwd => exact h.cftpCwdAuthenticatedAction (hL rfl) (fun _ => hC _ rfl) cmd
  | pwd => exact h.cftpPwdAuthenticatedAction
  | abor => exact h.cftpAborAuthenticatedAction
  | mkd => exact h.cftpMkdAuthenticatedAction (hL rfl) (fun _ => hC _ rfl) cmd
  | rmd => exact h.cftpRmdAuthenticatedAction (hL rfl) (fun _ => hC _ rfl) cmd
  | dele => exact h.handleDeleCommand (hL rfl) (fun _ => hC _ rfl) (fun _ => hC _ rfl) cmd
  | user => exact absurd rfl ha.1
  | pass => exact absurd rfl ha.2
  | _ => exact h.sendControlMessage _ _

theorem received (chunk : Bytes) : K.Paired (s.received chunk) (t.received chunk) := by
  unfold Session.received
  rw [h.ctlIn]
  exact h.setCtlIn _

theorem commandOf (chunk : Bytes) : t.commandOf chunk = s.commandOf chunk := by
  rw [Session.commandOf, Session.commandOf, h.ctlIn]

theorem handlerOf (chunk : Bytes) : t.handlerOf chunk = s.handlerOf chunk := by
  rw [Session.handlerOf, Session.handlerOf, h.commandOf, h.conn]

theorem runCommand {chunk : Bytes} (ha : ∀ a, s.handlerOf chunk = some a →
    (a ≠ .user ∧ a ≠ .pass) ∧ ∀ c, a.makes c = true → K.calls c) :
    K.Paired (s.runCommand K.left chunk) (t.runCommand K.right chunk) := by
  unfold Session.runCommand
  rw [h.handlerOf, h.commandOf]
  split
  · rename_i a heq
    exact (h.received chunk).runAction _ (ha a heq).1 (ha a heq).2
  · exact (h.received chunk).sendControlMessage _ _

end Commands

/-! ## Events -/

section Events

variable (h : K.Paired s t)
include h

theorem onWrite : K.Paired (s.onWrite K.left) (t.onWrite K.right) := by
  unfold Session.onWrite
  rw [h.conn]
  split
  · rename_i cb _
    have hcb : K.Paired (s.runControlWriteCb K.left cb) (t.runControlWriteCb K.right cb) := by
      cases cb with
      | closeDataConnectionOnWritecb => exact h.closeDataConnection
      | disableConnectionCb => exact h.setEnded _
    dsimp only
    rw [hcb.conn]
    exact hcb.setConn _
  · exact h

theorem runTimerCallback (cb : TimerCallback) :
    K.Paired (s.runTimerCallback K.left cb) (t.runTimerCallback K.right cb) := by
  cases cb with
  | terminateProcessOnTimeout => exact (h.setControlWriteCb _).sendControlMessage _ _
  | killListenerOnTimeout => exact h.dropListener

theorem dataConnectionReadCb (b : Nat) :
    K.Paired (s.dataConnectionReadCb K.left b) (t.dataConnectionReadCb K.right b) := by
  unfold Session.dataConnectionReadCb
  rw [h.conn]
  split
  · exact h.onStorRead b
  · exact h

theorem dataConnectionWriteCb (b : Nat) :
    K.Paired (s.dataConnectionWriteCb K.left b) (t.dataConnectionWriteCb K.right b) := by
  unfold Session.dataConnectionWriteCb
  rw [h.conn]
  split
  · exact (h.setControlWriteCb _).sendControlMessage _ _
  · exact h.sendNextChunk b
  · exact h.transferComplete
  · exact h.downloadCompletionOnPlainConnectionCb b
  · exact h

theorem dataEof : K.Paired (s.dataEof K.left) (t.dataEof K.right) := by
  unfold Session.dataEof
  rw [h.conn]
  split
  · exact h.onEofEventCb
  · exact h

theorem dataConnected (hC : ∀ c, c.looks = true → K.calls c) :
    K.Paired (s.dataConnected K.left) (t.dataConnected K.right) := by
  have hactive := h.setConn { s.conn with dataActive := s.conn.dataActive + 1 }
  unfold Session.dataConnected
  dsimp only
  rw [h.conn]
  split
  · split
    · rename_i cb _
      cases cb with
      | listTlsOnBevEventConnected => exact hactive.sendListCommandOutput hC _ _ _ _
      | storTlsOnBevEventConnected => exact hactive.setConn _
      | closeDataConnectionOnWritecb => exact hactive.closeDataConnection
    · exact hactive
  · exact hactive

theorem dataConnectionEventCb (hC : ∀ c, c.looks = true → K.calls c) (connected timeout error eof : Bool) :
    K.Paired (s.dataConnectionEventCb K.left connected timeout error eof)
      (t.dataConnectionEventCb K.right connected timeout error eof) := by
  have h₁ : K.Paired (if connected then s.dataConnected K.left else s)
      (if connected then t.dataConnected K.right else t) := by
    split
    · exact h.dataConnected hC
    · exact h
  unfold Session.dataConnectionEventCb
  refine h₁.andThen ?_
  generalize (if connected then s.dataConnected K.left else s) = s₁ at h₁ ⊢
  generalize (if connected then t.dataConnected K.right else t) = t₁ at h₁ ⊢
  have h₂ : K.Paired (if eof then s₁.dataEof K.left else s₁) (if eof then t₁.dataEof K.right else t₁) := by
    split
    · exact h₁.dataEof
    · exact h₁
  refine h₂.andThen ?_
  split
  · exact h₂.closeDataConnection
  · exact h₂

theorem dataArrives (b : Nat) (v : Bev) (bytes : Bytes) :
    K.Paired (s.dataArrives b v bytes) (t.dataArrives b v bytes) := by
  unfold Session.dataArrives
  rw [h.bevs]
  exact h.setBevs _

theorem dataLeaves (b : Nat) (v : Bev) (n : Nat) : K.Paired (s.dataLeaves b v n) (t.dataLeaves b v n) := by
  unfold Session.dataLeaves
  rw [h.bevs]
  exact h.setBevs _

theorem timerFires (i : Nat) (timer : Timer) : K.Paired (s.timerFires i timer) (t.timerFires i timer) := by
  unfold Session.timerFires
  rw [h.timers]
  exact h.setTimers _

/-- Events other than commands; those of data connections may make calls. -/
theorem handle {e : Event} (he : ∀ chunk, e ≠ .controlRead chunk)
    (hC : ∀ b v connected timeout error eof, e = .dataEvent b connected timeout error eof → s.bevs b = some v →
      ∀ c, c.looks = true → K.calls c) : K.Paired (Session.handle K.left e s) (Session.handle K.right e t) := by
  cases e with
  | controlRead chunk => exact absurd rfl (he chunk)
  | controlWrite n =>
    simp only [Session.handle]
    rw [h.ctlOut]
    split
    · exact h
    · split
      · exact (h.setCtlOut _).onWrite
      · exact h.setCtlOut _
  | controlEof => exact h.setEnded _
  | parentDead => exact h.setEnded _
  | timer i =>
    simp only [Session.handle]
    rw [h.timers]
    split
    · split
      · exact (h.timerFires _ _).runTimerCallback _
      · exact h
    · exact h
  | accept listener fd addr =>
    simp only [Session.handle]
    rw [h.listeners]
    split
    · exact h.dataConnectionAcceptCb listener fd addr
    · exact h
  | dataRead b bytes =>
    simp only [Session.handle]
    rw [h.bevs]
    split
    · split
      · exact h
      · exact (h.dataArrives _ _ _).dataConnectionReadCb b
    · exact h
  | dataWrite b n =>
    simp only [Session.handle]
    rw [h.bevs]
    split
    · split
      · exact h
      · split
        · exact (h.dataLeaves _ _ _).dataConnectionWriteCb b
        · exact h.dataLeaves _ _ _
    · exact h
  | dataEvent b connected timeout error eof =>
    simp only [Session.handle]
    rw [h.bevs]
    split
    · rename_i v hv
      exact h.dataConnectionEventCb (hC b v connected timeout error eof rfl hv) _ _ _ _
    · exact h

end Events

end Paired

/-- **A session does the same on systems it cannot tell apart**: at every event but USER and PASS; the calls it makes are
those of the commands that take a path, and of the events of data connections. -/
theorem step_paired {s : Session σ} {t : Session τ} (h : K.Paired s t) (e : Event)
    (ha : ∀ chunk a, e = .controlRead chunk → s.handlerOf chunk = some a →
      (a ≠ .user ∧ a ≠ .pass) ∧ ∀ c, a.makes c = true → K.calls c)
    (hC : ∀ b v connected timeout error eof, e = .dataEvent b connected timeout error eof → s.bevs b = some v →
      ∀ c, c.looks = true → K.calls c) : K.Paired (step K.left e s) (step K.right e t) := by
  apply h.andThen
  by_cases hread : ∃ chunk, e = .controlRead chunk
  · obtain ⟨chunk, rfl⟩ := hread
    by_cases hne : chunk = []
    · simp only [handle, hne, if_true]
      exact h
    · simp only [handle, hne, if_false]
      exact h.runCommand fun a => ha chunk a rfl
  · exact h.handle (fun chunk heq => hread ⟨chunk, heq⟩) hC

end Coupling

end CftpServer
