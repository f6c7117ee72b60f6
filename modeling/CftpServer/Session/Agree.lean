import CftpServer.Session.Handlers

/-!
# What a session does not look at

A session never looks at what it has done, and at the replies it has queued only to see that they are out. So two
sessions that are equal up to these (`Agree`) do the same at every event that is not the departure of replies
(`step_agree`), and there too if the replies are out in both or in none (`Agree.controlWrite`).
-/

namespace CftpServer

open CLib

/-- Bytes move between a data connection and the client, or to a file. -/
def Effect.isMovement : Effect → Bool
  | .bevWrite .. => true
  | .bevFree .. => true
  | .store .. => true
  | _ => false

namespace Session

open Command Security

variable {σ : Type}

/-! ## Replies leave -/

section Replies

variable (env : Env σ) {s : Session σ} {n : Nat}

/-- With these many bytes all replies are out, and `on_write` runs. -/
def RepliesOut (n : Nat) (s : Session σ) : Prop := n ≠ 0 ∧ s.ctlOut ≠ [] ∧ s.ctlOut.drop n = []

theorem handle_controlWrite_out (h : RepliesOut n s) :
    handle env (.controlWrite n) s = onWrite env { s with ctlOut := s.ctlOut.drop n } := by
  obtain ⟨hn, hne, hnil⟩ := h
  simp only [handle, hn, hne, hnil, or_self, if_false, if_true]

theorem handle_controlWrite_kept (h : ¬ RepliesOut n s) :
    handle env (.controlWrite n) s = { s with ctlOut := s.ctlOut.drop n } := by
  unfold RepliesOut at h
  simp only [handle]
  split
  · rename_i hnone
    rcases hnone with rfl | hnil
    · rfl
    · rw [hnil, List.drop_nil, ← hnil]
  · rename_i hsome
    rw [if_neg fun hnil => h ⟨fun hn => hsome (.inl hn), fun he => hsome (.inr he), hnil⟩]

theorem handle_controlWrite_none (n : Nat) (h : s.conn.controlWriteCb = none) :
    handle env (.controlWrite n) s = { s with ctlOut := s.ctlOut.drop n } := by
  by_cases hout : RepliesOut n s
  · rw [handle_controlWrite_out env hout]
    simp only [onWrite, h]
  · exact handle_controlWrite_kept env hout

end Replies

/-! ## Agreement -/

/-- The sessions are equal up to what they have done and the replies they have queued, and have moved the same bytes. -/
def Agree (s s' : Session σ) : Prop :=
  ∃ log ctlOut, s' = { s with log := log, ctlOut := ctlOut } ∧
    log.filter Effect.isMovement = s.log.filter Effect.isMovement

namespace Agree

variable {env : Env σ} {s s' s'' : Session σ}

theorem refl : Agree s s := ⟨s.log, s.ctlOut, rfl, rfl⟩

theorem trans (h : Agree s s') (h' : Agree s' s'') : Agree s s'' := by
  obtain ⟨log, ctlOut, rfl, hlog⟩ := h
  obtain ⟨log', ctlOut', rfl, hlog'⟩ := h'
  exact ⟨log', ctlOut', rfl, hlog'.trans hlog⟩

/-- The second session is the first, with another log and other replies. -/
@[elab_as_elim]
theorem elim {P : Session σ → Prop} (h : Agree s s')
    (hP : ∀ log ctlOut, Agree s { s with log := log, ctlOut := ctlOut } →
    P { s with log := log, ctlOut := ctlOut }) : P s' := by
  obtain ⟨log, ctlOut, rfl, hlog⟩ := h
  exact hP log ctlOut ⟨log, ctlOut, rfl, hlog⟩

section Fields

variable (h : Agree s s')
include h

theorem conn : s'.conn = s.conn := by obtain ⟨_, _, rfl, -⟩ := h; rfl
theorem ctlIn : s'.ctlIn = s.ctlIn := by obtain ⟨_, _, rfl, -⟩ := h; rfl
theorem bevs : s'.bevs = s.bevs := by obtain ⟨_, _, rfl, -⟩ := h; rfl
theorem listeners : s'.listeners = s.listeners := by obtain ⟨_, _, rfl, -⟩ := h; rfl
theorem timers : s'.timers = s.timers := by obtain ⟨_, _, rfl, -⟩ := h; rfl
theorem nextId : s'.nextId = s.nextId := by obtain ⟨_, _, rfl, -⟩ := h; rfl
theorem proc : s'.proc = s.proc := by obtain ⟨_, _, rfl, -⟩ := h; rfl
theorem os : s'.os = s.os := by obtain ⟨_, _, rfl, -⟩ := h; rfl
theorem ended : s'.ended = s.ended := by obtain ⟨_, _, rfl, -⟩ := h; rfl

theorem log : s'.log.filter Effect.isMovement = s.log.filter Effect.isMovement := by
  obtain ⟨_, _, rfl, hlog⟩ := h
  exact hlog

/-! ## Changes of the state -/

/-- A change that has nothing to do with the log and the replies. -/
theorem map (f : Session σ → Session σ) (hf : ∀ (s : Session σ) (log : List Effect) (ctlOut : Bytes),
    f { s with log := log, ctlOut := ctlOut } = { f s with log := log, ctlOut := ctlOut }) : Agree (f s) (f s') := by
  obtain ⟨log, ctlOut, rfl, hlog⟩ := h
  have hkeep := congrArg Session.log (hf s s.log s.ctlOut)
  refine ⟨log, ctlOut, hf s log ctlOut, hlog.trans (congrArg (List.filter Effect.isMovement) ?_)⟩
  exact hkeep.symm

theorem setConn (c : Connection) : Agree { s with conn := c } { s' with conn := c } :=
  h.map (fun s => { s with conn := c }) fun _ _ _ => rfl

theorem setCtlIn (bytes : Bytes) : Agree { s with ctlIn := bytes } { s' with ctlIn := bytes } :=
  h.map (fun s => { s with ctlIn := bytes }) fun _ _ _ => rfl

theorem setBevs (bevs : Nat → Option Bev) : Agree { s with bevs := bevs } { s' with bevs := bevs } :=
  h.map (fun s => { s with bevs := bevs }) fun _ _ _ => rfl

theorem setTimers (timers : Nat → Option Timer) : Agree { s with timers := timers } { s' with timers := timers } :=
  h.map (fun s => { s with timers := timers }) fun _ _ _ => rfl

theorem setListeners (listeners : Nat → Bool) :
    Agree { s with listeners := listeners } { s' with listeners := listeners } :=
  h.map (fun s => { s with listeners := listeners }) fun _ _ _ => rfl

theorem setProc (p : Proc) : Agree { s with proc := p } { s' with proc := p } :=
  h.map (fun s => { s with proc := p }) fun _ _ _ => rfl

theorem setEnded (ending : Ending) : Agree { s with ended := some ending } { s' with ended := some ending } :=
  h.map (fun s => { s with ended := some ending }) fun _ _ _ => rfl

theorem fresh : Agree s.fresh s'.fresh := h.map Session.fresh fun _ _ _ => rfl

theorem setCtlOut (out out' : Bytes) : Agree { s with ctlOut := out } { s' with ctlOut := out' } := by
  obtain ⟨log, ctlOut, rfl, hlog⟩ := h
  exact ⟨log, out', rfl, hlog⟩

theorem emit (env : Env σ) (e : Effect) : Agree (s.emit env e) (s'.emit env e) := by
  obtain ⟨log, ctlOut, rfl, hlog⟩ := h
  refine ⟨log ++ [e], ctlOut, rfl, ?_⟩
  rw [Session.emit, List.filter_append, List.filter_append, hlog]

theorem andThen {f g : Session σ → Session σ} (hf : Agree (f s) (g s')) : Agree (s.andThen f) (s'.andThen g) := by
  unfold Session.andThen
  rw [h.ended]
  split
  · exact h
  · exact hf

end Fields

/-! ## Calls -/

section Calls

variable (h : Agree s s')
include h

theorem sendControlMessage (n : Nat) (text : Bytes) :
    Agree (s.sendControlMessage env n text) (s'.sendControlMessage env n text) :=
      (h.emit env (.reply n text)).setCtlOut _ _

theorem writeTextResponse (text : Bytes) : Agree (s.writeTextResponse env text) (s'.writeTextResponse env text) :=
  (h.emit env (.text text)).setCtlOut _ _

theorem setControlWriteCb (cb : ControlWriteCb) : Agree (s.setControlWriteCb cb) (s'.setControlWriteCb cb) := by
  unfold Session.setControlWriteCb
  rw [h.conn]
  exact h.setConn _

theorem newFd : (s'.newFd env).1 = (s.newFd env).1 ∧ Agree (s.newFd env).2 (s'.newFd env).2 := by
  unfold Session.newFd
  rw [h.nextId]
  exact ⟨rfl, (h.emit env _).fresh⟩

theorem closeFd (fd : Int) : Agree (s.closeFd env fd) (s'.closeFd env fd) := by
  unfold Session.closeFd
  split
  · exact h
  · exact h.emit env _

/-- A call has the same outcome in both. -/
theorem outcome {α : Type} (f : σ → Proc → α) (c : Call) :
    f s'.os s'.proc = f s.os s.proc ∧ Agree (s.call env c) (s'.call env c) := by
  rw [h.os, h.proc]
  exact ⟨rfl, h.emit env _⟩

theorem sysStat (path : Bytes) :
    (s'.sysStat env path).1 = (s.sysStat env path).1 ∧ Agree (s.sysStat env path).2 (s'.sysStat env path).2 :=
  h.outcome (fun w p => env.stat w p path) (.stat path)

theorem sysLstat (path : Bytes) :
    (s'.sysLstat env path).1 = (s.sysLstat env path).1 ∧ Agree (s.sysLstat env path).2 (s'.sysLstat env path).2 :=
  h.outcome (fun w p => env.lstat w p path) (.lstat path)

theorem sysUnlink (path : Bytes) :
    (s'.sysUnlink env path).1 = (s.sysUnlink env path).1 ∧ Agree (s.sysUnlink env path).2 (s'.sysUnlink env path).2 :=
  h.outcome (fun w p => env.unlink w p path) (.unlink path)

theorem sysMkdir (path : Bytes) :
    (s'.sysMkdir env path).1 = (s.sysMkdir env path).1 ∧ Agree (s.sysMkdir env path).2 (s'.sysMkdir env path).2 :=
  h.outcome (fun w p => env.mkdir w p path) (.mkdir path)

theorem sysRmdir (path : Bytes) :
    (s'.sysRmdir env path).1 = (s.sysRmdir env path).1 ∧ Agree (s.sysRmdir env path).2 (s'.sysRmdir env path).2 :=
  h.outcome (fun w p => env.rmdir w p path) (.rmdir path)

theorem sysChdir (path : Bytes) :
    (s'.sysChdir env path).1 = (s.sysChdir env path).1 ∧ Agree (s.sysChdir env path).2 (s'.sysChdir env path).2 := by
  unfold Session.sysChdir
  rw [h.os, h.proc]
  split
  · exact ⟨rfl, (h.emit env _).setProc _⟩
  · exact ⟨rfl, h.emit env _⟩

theorem sysOpenRead (path : Bytes) : (s'.sysOpenRead env path).1 = (s.sysOpenRead env path).1 ∧
    Agree (s.sysOpenRead env path).2 (s'.sysOpenRead env path).2 := by
  have hcall : Agree (s.call env (.openRead path)) (s'.call env (.openRead path)) := h.emit env _
  unfold Session.sysOpenRead
  rw [h.os, h.proc]
  split
  · exact ⟨congrArg some hcall.newFd.1, hcall.newFd.2⟩
  · exact ⟨rfl, hcall⟩

theorem sysOpenWrite (path : Bytes) : (s'.sysOpenWrite env path).1 = (s.sysOpenWrite env path).1 ∧
    Agree (s.sysOpenWrite env path).2 (s'.sysOpenWrite env path).2 := by
  have hcall : Agree (s.call env (.openWrite path)) (s'.call env (.openWrite path)) := h.emit env _
  unfold Session.sysOpenWrite
  rw [h.os, h.proc]
  split
  · exact ⟨congrArg some hcall.newFd.1, hcall.newFd.2⟩
  · exact ⟨rfl, hcall⟩

theorem sysOpendir (path : Bytes) : (s'.sysOpendir env path).1 = (s.sysOpendir env path).1 ∧
    Agree (s.sysOpendir env path).2 (s'.sysOpendir env path).2 := by
  have hcall : Agree (s.call env (.opendir path)) (s'.call env (.opendir path)) := h.emit env _
  unfold Session.sysOpendir
  rw [h.os, h.proc]
  dsimp only
  split
  · exact ⟨congrArg (fun fd => some (fd, _)) hcall.newFd.1, hcall.newFd.2⟩
  · exact ⟨rfl, hcall⟩

theorem bevWrite (b : Nat) (bytes : Bytes) (files : List Int) :
    Agree (s.bevWrite env b bytes files) (s'.bevWrite env b bytes files) := by
  unfold Session.bevWrite
  rw [h.bevs]
  split
  · exact h.setEnded _
  · exact (h.setBevs _).emit env _

theorem closeAll (fds : List Int) : Agree (s.closeAll env fds) (s'.closeAll env fds) := by
  induction fds generalizing s s' with
  | nil => exact h
  | cons fd fds ih => exact ih (h.closeFd fd)

theorem bevFree (b : Nat) : Agree (s.bevFree env b) (s'.bevFree env b) := by
  unfold Session.bevFree
  rw [h.bevs]
  split
  · exact h.setEnded _
  · exact ((h.setBevs _).emit env _).closeAll _

theorem setWriteLow (b low : Nat) : Agree (s.setWriteLow b low) (s'.setWriteLow b low) := by
  unfold Session.setWriteLow
  rw [h.bevs]
  exact h.setBevs _

theorem listenerFree (l : Nat) : Agree (s.listenerFree env l) (s'.listenerFree env l) := by
  unfold Session.listenerFree
  rw [h.listeners]
  split
  · exact (h.setListeners _).emit env _
  · exact (h.emit env _).setEnded _

theorem timerNew (cb : TimerCallback) : Agree (s.timerNew env cb) (s'.timerNew env cb) := by
  unfold Session.timerNew
  refine h.elim fun log ctlOut h => ?_
  have hset := h.map (fun s => { s with
    timers := Function.update s.timers s.nextId (some ⟨cb, true⟩)
    conn := { s.conn with timeoutEvent := some s.nextId } }) fun _ _ _ => rfl
  exact (hset.emit env (.timerNew s.nextId)).fresh

theorem timeoutEventFree : Agree (s.timeoutEventFree env) (s'.timeoutEventFree env) := by
  refine h.elim fun log ctlOut h => ?_
  unfold Session.timeoutEventFree
  dsimp only
  split
  · exact h.setEnded _
  · split
    · exact (h.setTimers _).emit env _
    · exact (h.emit env _).setEnded _

end Calls

/-! ## The data connection and its listener -/

section Data

variable (h : Agree s s')
include h

theorem closeDataConnection : Agree (s.closeDataConnection env) (s'.closeDataConnection env) := by
  unfold Session.closeDataConnection
  rw [h.conn]
  split
  · exact h.setConn _
  · rename_i b _
    have hfree : Agree (s.bevFree env b) (s'.bevFree env b) := h.bevFree b
    dsimp only
    rw [hfree.conn]
    exact hfree.setConn _

theorem tryPort (port : Nat) : Agree (s.tryPort env port) (s'.tryPort env port) := by
  refine h.elim fun log ctlOut h => ?_
  have hbind := h.emit env (.bind port)
  unfold Session.tryPort
  dsimp only
  split
  · have hset := hbind.map (fun s => { s with
      listeners := Function.update s.listeners s.nextId true
      conn := { s.conn with pasvListener := some s.nextId } }) fun _ _ _ => rfl
    exact (hset.emit env (.listenerNew s.nextId port)).fresh
  · exact hbind.setConn _

theorem portLoop (fuel port : Nat) : (s'.portLoop env fuel port).1 = (s.portLoop env fuel port).1 ∧
    Agree (s.portLoop env fuel port).2 (s'.portLoop env fuel port).2 := by
  induction fuel generalizing port s s' with
  | zero => exact ⟨rfl, h.setEnded _⟩
  | succ fuel ih =>
    have htry : Agree (s.tryPort env port) (s'.tryPort env port) := h.tryPort port
    unfold Session.portLoop
    dsimp only
    rw [htry.conn]
    split
    · split
      · exact ⟨rfl, htry⟩
      · exact ih htry _
    · exact ⟨rfl, h⟩

theorem announcePort (extended : Bool) (ip : UInt8 × UInt8 × UInt8 × UInt8) (port : Nat) :
    Agree (s.announcePort env extended ip port) (s'.announcePort env extended ip port) := by
  unfold Session.announcePort
  rw [h.conn]
  split
  · exact h.sendControlMessage _ _
  · dsimp only
    split <;> exact (h.timerNew _).sendControlMessage _ _

theorem dropListener : Agree (s.dropListener env) (s'.dropListener env) := by
  unfold Session.dropListener
  rw [h.conn]
  split
  · rename_i l _
    have hfree : Agree (s.listenerFree env l) (s'.listenerFree env l) := h.listenerFree l
    dsimp only
    rw [hfree.conn]
    exact hfree.setConn _
  · exact h

theorem dataConnectionListenerConfig (extended : Bool) :
    Agree (s.dataConnectionListenerConfig env extended) (s'.dataConnectionListenerConfig env extended) := by
  have hdrop : Agree (s.dropListener env) (s'.dropListener env) := h.dropListener
  unfold Session.dataConnectionListenerConfig
  apply hdrop.andThen
  dsimp only
  rw [hdrop.os]
  split
  · obtain ⟨hport, hloop⟩ : ((s'.dropListener env).portLoop env env.spin env.pasvRange.start).1 =
        ((s.dropListener env).portLoop env env.spin env.pasvRange.start).1 ∧
        Agree ((s.dropListener env).portLoop env env.spin env.pasvRange.start).2
          ((s'.dropListener env).portLoop env env.spin env.pasvRange.start).2 := hdrop.portLoop _ _
    rw [hport]
    exact hloop.andThen (hloop.announcePort _ _ _)
  · exact hdrop.sendControlMessage _ _

theorem newDataBev : Agree (s.newDataBev env) (s'.newDataBev env) := by
  refine h.elim fun log ctlOut h => ?_
  unfold Session.newDataBev
  dsimp only
  split
  · have hset := h.map (fun s => { s with
      bevs := Function.update s.bevs s.nextId (some ⟨s.conn.dataTlsRequired, [], [], 0, [], []⟩)
      conn := { s.conn with dataBev := some s.nextId } }) fun _ _ _ => rfl
    exact (hset.emit env (.bevNew s.nextId s.conn.dataTlsRequired)).fresh
  · exact h.setConn _

theorem dataConnectionAcceptCb (listener : Nat) (fd : Int) (addr : SockAddr) :
    Agree (s.dataConnectionAcceptCb env listener fd addr) (s'.dataConnectionAcceptCb env listener fd addr) := by
  unfold Session.dataConnectionAcceptCb
  rw [h.conn]
  split
  · exact h.emit env _
  · have hfree : Agree (s.listenerFree env listener) (s'.listenerFree env listener) := h.listenerFree listener
    apply hfree.andThen
    dsimp only
    rw [hfree.conn]
    have hnew : Agree (Session.newDataBev env { s.listenerFree env listener with
          conn := { (s.listenerFree env listener).conn with dataActive := 0, pasvListener := none } })
        (Session.newDataBev env { s'.listenerFree env listener with
          conn := { (s.listenerFree env listener).conn with dataActive := 0, pasvListener := none } }) :=
      (hfree.setConn _).newDataBev
    rw [hnew.conn]
    split
    · exact hnew
    · exact (hnew.setConn _).timeoutEventFree

end Data

/-! ## LIST, RETR and STOR -/

section Transfers

variable (h : Agree s s')
include h

theorem formatUnixListEntry (name : Bytes) (st : Stat) (human : Bool) :
    s'.formatUnixListEntry env name st human = s.formatUnixListEntry env name st human := by
  unfold Session.formatUnixListEntry
  rw [h.os]

theorem listEntries (path : Bytes) (description hidden human : Bool) (names : List Bytes) :
    (s'.listEntries env path description hidden human names).1 =
      (s.listEntries env path description hidden human names).1 ∧
      Agree (s.listEntries env path description hidden human names).2
        (s'.listEntries env path description hidden human names).2 := by
  induction names generalizing s s' with
  | nil => exact ⟨rfl, h⟩
  | cons name names ih =>
    obtain ⟨hst, hstat⟩ : (s'.sysLstat env (cut PATH_MAX (path ++ ascii "/" ++ name))).1 = _ ∧ _ := h.sysLstat _
    unfold Session.listEntries
    dsimp only
    rw [hst]
    split
    · exact ih h
    · split
      · exact ih hstat
      · split
        · exact ih hstat
        · rw [hstat.formatUnixListEntry, (ih hstat).1]
          exact ⟨rfl, (ih hstat).2⟩

theorem sendListing (evbuf : Bytes) : Agree (s.sendListing env evbuf) (s'.sendListing env evbuf) := by
  unfold Session.sendListing
  rw [h.conn]
  split
  · exact (h.setConn _).sendControlMessage _ _
  · split
    · exact h.setEnded _
    · exact (h.setConn _).bevWrite _ _ _

theorem sendListCommandOutput (path : Bytes) (description hidden human : Bool) :
    Agree (s.sendListCommandOutput env path description hidden human)
      (s'.sendListCommandOutput env path description hidden human) := by
  obtain ⟨hdir, hopen⟩ : (s'.sysOpendir env path).1 = _ ∧ _ := h.sysOpendir path
  unfold Session.sendListCommandOutput
  dsimp only
  rw [hdir]
  split
  · exact hopen.setEnded _
  · rename_i fd names _
    obtain ⟨hlines, hlist⟩ :
        ((s'.sysOpendir env path).2.listEntries env path description hidden human names).1 = _ ∧ _ :=
      hopen.listEntries path description hidden human names
    rw [hlines]
    exact (hlist.closeFd fd).sendListing _

theorem refuseList (n : Nat) (text : Bytes) : Agree (s.refuseList env n text) (s'.refuseList env n text) :=
  (h.setControlWriteCb _).sendControlMessage n text

theorem startList (path : Bytes) (description : Bool) (flags : ListFlags) :
    Agree (s.startList env path description flags) (s'.startList env path description flags) := by
  unfold Session.startList
  rw [h.conn]
  split
  · exact (h.setConn _).sendControlMessage _ _
  · exact (h.sendControlMessage _ _).sendListCommandOutput _ _ _ _

theorem handleListCommand (cmd : CftpCommand) (description : Bool) :
    Agree (s.handleListCommand env cmd description) (s'.handleListCommand env cmd description) := by
  unfold Session.handleListCommand
  rw [h.conn]
  split
  · exact h.refuseList _ _
  · rename_i flags _
    split
    · exact h.sendControlMessage _ _
    · split
      · exact h.refuseList _ _
      · obtain ⟨hdir, hopen⟩ : (s'.sysOpendir env (listPath flags)).1 = _ ∧ _ := h.sysOpendir (listPath flags)
        dsimp only
        rw [hdir]
        split
        · exact hopen.refuseList _ _
        · exact hopen.startList _ _ _

theorem sendNextChunk (b : Nat) : Agree (s.sendNextChunk env b) (s'.sendNextChunk env b) := by
  -- changing the position in the stream
  have hmove : ∀ {t t' : Session σ} (fs : FileStream), Agree t t' → Agree
      { t with conn := { t.conn with dataStream := some fs } }
        { t' with conn := { t'.conn with dataStream := some fs } } := by
    intro t t' fs ht
    rw [ht.conn]
    exact ht.setConn _
  unfold Session.sendNextChunk
  rw [h.conn]
  split
  · exact h.setEnded _
  · rename_i fs _
    have hread : readStream env fs s' = readStream env fs s := by
      unfold readStream
      rw [h.os]
    have hend : Agree (if atEnd fs (readStream env fs s) then
          { s with conn := { s.conn with dataWriteCb := some .closeOnRetrcb } } else s)
        (if atEnd fs (readStream env fs s) then
          { s' with conn := { s.conn with dataWriteCb := some .closeOnRetrcb } } else s') := by
      split
      · exact h.setConn _
      · exact h
    dsimp only
    rw [hread]
    split
    · exact hmove _ (hend.closeFd _)
    · exact hmove _ (hend.closeFd _)
    · exact hmove _ (hend.bevWrite _ _ _)

theorem ftpSendFileWithEvbuffer (path : Bytes) :
    Agree (s.ftpSendFileWithEvbuffer env path) (s'.ftpSendFileWithEvbuffer env path) := by
  obtain ⟨hfd, hopen⟩ : (s'.sysOpenRead env path).1 = _ ∧ _ := h.sysOpenRead path
  unfold Session.ftpSendFileWithEvbuffer
  dsimp only
  rw [h.conn, hfd]
  split
  · exact h
  · split
    · exact hopen
    · rw [hopen.os]
      split
      · exact hopen.closeFd _
      · have hreply : Agree ((s.sysOpenRead env path).2.sendControlMessage env 150 (ascii "Sending file"))
            ((s'.sysOpenRead env path).2.sendControlMessage env 150 (ascii "Sending file")) :=
              hopen.sendControlMessage _ _
        rw [hreply.conn]
        exact ((hreply.setConn _).setWriteLow _ _).sendNextChunk _

theorem ftpSendFilePlain (path : Bytes) : Agree (s.ftpSendFilePlain env path) (s'.ftpSendFilePlain env path) := by
  obtain ⟨hfd, hopen⟩ : (s'.sysOpenRead env path).1 = _ ∧ _ := h.sysOpenRead path
  unfold Session.ftpSendFilePlain
  dsimp only
  rw [h.conn, hfd]
  split
  · exact h
  · split
    · exact hopen.sendControlMessage _ _
    · rw [hopen.os]
      split
      · exact (hopen.closeFd _).sendControlMessage _ _
      · have hreply : Agree ((s.sysOpenRead env path).2.sendControlMessage env 150 (ascii "Sending file"))
            ((s'.sysOpenRead env path).2.sendControlMessage env 150 (ascii "Sending file")) :=
              hopen.sendControlMessage _ _
        refine hreply.elim fun log ctlOut h => ?_
        exact (h.setConn _).bevWrite _ _ _

theorem cftpSendFile (path : Bytes) : Agree (s.cftpSendFile env path) (s'.cftpSendFile env path) := by
  unfold Session.cftpSendFile
  rw [h.conn]
  split
  · exact h.ftpSendFileWithEvbuffer path
  · exact h.ftpSendFilePlain path

theorem transferComplete : Agree (s.transferComplete env) (s'.transferComplete env) :=
  (h.setControlWriteCb _).sendControlMessage _ _

theorem downloadCompletionOnPlainConnectionCb (b : Nat) : Agree (s.downloadCompletionOnPlainConnectionCb env b)
    (s'.downloadCompletionOnPlainConnectionCb env b) := by
  unfold Session.downloadCompletionOnPlainConnectionCb
  rw [h.bevs]
  split
  · exact h.setEnded _
  · split
    · exact h.transferComplete
    · exact h

theorem cftpRecvFileWithEvbuffer (path : Bytes) :
    Agree (s.cftpRecvFileWithEvbuffer env path) (s'.cftpRecvFileWithEvbuffer env path) := by
  obtain ⟨hfd, hopen⟩ : (s'.sysOpenWrite env path).1 = _ ∧ _ := h.sysOpenWrite path
  unfold Session.cftpRecvFileWithEvbuffer
  dsimp only
  rw [h.conn, hfd, hopen.conn]
  split
  · exact h.sendControlMessage _ _
  · split
    · exact (hopen.setControlWriteCb _).sendControlMessage _ _
    · exact (hopen.setConn _).sendControlMessage _ _

theorem evbufferWrite (b : Nat) (v : Bev) : Agree (s.evbufferWrite env b v) (s'.evbufferWrite env b v) := by
  refine h.elim fun log ctlOut h => ?_
  exact (h.setBevs _).emit env _

theorem drainInput (b fuel : Nat) : Agree (s.drainInput env b fuel) (s'.drainInput env b fuel) := by
  induction fuel generalizing s s' with
  | zero => exact h.setEnded _
  | succ fuel ih =>
    unfold Session.drainInput
    rw [h.bevs]
    split
    · exact h.setEnded _
    · split
      · exact h
      · exact ih (h.evbufferWrite b _)

theorem onEofEventCb : Agree (s.onEofEventCb env) (s'.onEofEventCb env) := by
  unfold Session.onEofEventCb
  rw [h.conn]
  split
  · exact h
  · rename_i d _
    split
    · have hdrain : Agree (s.drainInput env d env.spin) (s'.drainInput env d env.spin) := h.drainInput d env.spin
      apply hdrain.andThen
      dsimp only
      rw [hdrain.conn]
      have hclose : Agree ((s.drainInput env d env.spin).closeFd env (s.drainInput env d env.spin).conn.uploadFd)
          ((s'.drainInput env d env.spin).closeFd env (s.drainInput env d env.spin).conn.uploadFd) := hdrain.closeFd _
      rw [hclose.conn]
      exact (hclose.setConn _).sendControlMessage _ _
    · exact h.sendControlMessage _ _

end Transfers

/-! ## DELE -/

section Deletion

variable (h : Agree s s')
include h

theorem deleteEntries {sub : Bytes → Session σ → Bool × Session σ}
    (hsub : ∀ {s s' : Session σ} (path : Bytes), Agree s s' →
      (sub path s').1 = (sub path s).1 ∧ Agree (sub path s).2 (sub path s').2) (path : Bytes) (names : List Bytes) :
    (s'.deleteEntries env sub path names).1 = (s.deleteEntries env sub path names).1 ∧
      Agree (s.deleteEntries env sub path names).2 (s'.deleteEntries env sub path names).2 := by
  induction names generalizing s s' with
  | nil => exact ⟨rfl, h⟩
  | cons name names ih =>
    obtain ⟨hst, hstat⟩ : (s'.sysLstat env (cut PATH_MAX (path ++ ascii "/" ++ name))).1 = _ ∧ _ := h.sysLstat _
    obtain ⟨hok, hrec⟩ := hsub (cut PATH_MAX (path ++ ascii "/" ++ name)) hstat
    unfold Session.deleteEntries
    dsimp only
    rw [hst, hok]
    split
    · exact ih h
    · split
      · exact ih hstat
      · split
        · split
          · exact ih hrec
          · exact ⟨rfl, hrec⟩
        · exact ih (hstat.sysUnlink _).2

theorem deleteDirectoryRecursively (depth : Nat) (path : Bytes) :
    (s'.deleteDirectoryRecursively env depth path).1 = (s.deleteDirectoryRecursively env depth path).1 ∧
      Agree (s.deleteDirectoryRecursively env depth path).2 (s'.deleteDirectoryRecursively env depth path).2 := by
  induction depth generalizing path s s' with
  | zero => exact ⟨rfl, h.setEnded _⟩
  | succ depth ih =>
    obtain ⟨hdir, hopen⟩ : (s'.sysOpendir env path).1 = _ ∧ _ := h.sysOpendir path
    unfold Session.deleteDirectoryRecursively
    dsimp only
    rw [hdir]
    split
    · exact ⟨rfl, hopen⟩
    · rename_i fd names _
      obtain ⟨hok, hloop⟩ : ((s'.sysOpendir env path).2.deleteEntries env
          (Session.deleteDirectoryRecursively env depth) path names).1 = _ ∧ _ :=
        hopen.deleteEntries (fun path h => ih h path) path names
      rw [hok, hloop.ended]
      split
      · exact ⟨rfl, hloop⟩
      · split
        · exact (hloop.closeFd fd).sysRmdir path
        · exact ⟨rfl, hloop.closeFd fd⟩

theorem replyDeleted (deleted force : Bool) :
    Agree (s.replyDeleted env deleted force) (s'.replyDeleted env deleted force) := by
  unfold Session.replyDeleted
  split
  · split <;> exact h.sendControlMessage _ _
  · exact h.sendControlMessage _ _

theorem deleteTarget (target : Bytes) (recursive force : Bool) :
    Agree (s.deleteTarget env target recursive force) (s'.deleteTarget env target recursive force) := by
  obtain ⟨hst, hstat⟩ : (s'.sysStat env target).1 = _ ∧ _ := h.sysStat target
  obtain ⟨hdel, hrec⟩ : ((s'.sysStat env target).2.deleteDirectoryRecursively env env.stack target).1 = _ ∧ _ :=
    hstat.deleteDirectoryRecursively env.stack target
  obtain ⟨hun, hunlink⟩ : ((s'.sysStat env target).2.sysUnlink env target).1 = _ ∧ _ := hstat.sysUnlink target
  unfold Session.deleteTarget
  dsimp only
  rw [hst, hdel, hun]
  split
  · split <;> exact hstat.sendControlMessage _ _
  · split
    · split
      · exact hstat.sendControlMessage _ _
      · exact hrec.andThen (hrec.replyDeleted _ _)
    · exact hunlink.replyDeleted _ _

theorem handleDeleCommand (cmd : CftpCommand) : Agree (s.handleDeleCommand env cmd) (s'.handleDeleCommand env cmd) := by
  unfold Session.handleDeleCommand
  split
  · exact h.sendControlMessage _ _
  · split
    · exact h.sendControlMessage _ _
    · exact h.deleteTarget _ _ _

end Deletion

/-! ## Commands -/

section Commands

variable (h : Agree s s')
include h

theorem withArg (cmd : CftpCommand) (text : String) {action : Bytes → Session σ → Session σ}
    (ha : ∀ arg, Agree (action arg s) (action arg s')) :
    Agree (s.withArg env cmd text action) (s'.withArg env cmd text action) := by
  unfold Session.withArg
  split
  · exact ha _
  · exact h.sendControlMessage _ _

theorem upgradeToTls : Agree (s.upgradeToTls env) (s'.upgradeToTls env) := by
  have hreply : Agree (s.sendControlMessage env 234 (ascii "AUTH TLS Success"))
      (s'.sendControlMessage env 234 (ascii "AUTH TLS Success")) := h.sendControlMessage _ _
  obtain ⟨log, ctlOut, heq, hlog⟩ := hreply
  unfold Session.upgradeToTls
  dsimp only
  rw [heq]
  split
  · exact ⟨log, [], rfl, hlog⟩
  · exact ⟨log, ctlOut, rfl, hlog⟩

theorem cftpAuthAction (cmd : CftpCommand) : Agree (s.cftpAuthAction env cmd) (s'.cftpAuthAction env cmd) := by
  refine h.withArg _ _ fun arg => ?_
  split
  · exact h.upgradeToTls
  · exact h.sendControlMessage _ _

theorem cftpProtAction (cmd : CftpCommand) : Agree (s.cftpProtAction env cmd) (s'.cftpProtAction env cmd) := by
  refine h.withArg _ _ fun arg => ?_
  rw [h.conn]
  split
  · exact (h.setConn _).sendControlMessage _ _
  · exact h.sendControlMessage _ _

theorem cftpTypeAuthenticatedAction (cmd : CftpCommand) :
    Agree (s.cftpTypeAuthenticatedAction env cmd) (s'.cftpTypeAuthenticatedAction env cmd) := by
  refine h.withArg _ _ fun arg => ?_
  rw [h.conn]
  split
  · exact (h.setConn _).sendControlMessage _ _
  · split
    · exact (h.setConn _).sendControlMessage _ _
    · exact h.sendControlMessage _ _

theorem cftpSizeAuthenticatedAction (cmd : CftpCommand) :
    Agree (s.cftpSizeAuthenticatedAction env cmd) (s'.cftpSizeAuthenticatedAction env cmd) := by
  refine h.withArg _ _ fun arg => ?_
  obtain ⟨hst, hstat⟩ : (s'.sysStat env arg).1 = _ ∧ _ := h.sysStat arg
  dsimp only
  rw [hst]
  split
  · exact h.sendControlMessage _ _
  · split
    · exact hstat.sendControlMessage _ _
    · split <;> exact hstat.sendControlMessage _ _

theorem handleMdtmCommand (arg : Bytes) : Agree (s.handleMdtmCommand env arg) (s'.handleMdtmCommand env arg) := by
  obtain ⟨hst, hstat⟩ : (s'.sysStat env arg).1 = _ ∧ _ := h.sysStat arg
  unfold Session.handleMdtmCommand
  dsimp only
  rw [hst]
  split
  · exact hstat.sendControlMessage _ _
  · split <;> exact hstat.sendControlMessage _ _

theorem cftpMkdAuthenticatedAction (cmd : CftpCommand) :
    Agree (s.cftpMkdAuthenticatedAction env cmd) (s'.cftpMkdAuthenticatedAction env cmd) := by
  refine h.withArg _ _ fun arg => ?_
  obtain ⟨hst, hstat⟩ : (s'.sysStat env arg).1 = _ ∧ _ := h.sysStat arg
  obtain ⟨hmade, hmkdir⟩ : ((s'.sysStat env arg).2.sysMkdir env arg).1 = _ ∧ _ := hstat.sysMkdir arg
  dsimp only
  rw [hst, hmade]
  split
  · exact h.sendControlMessage _ _
  · split
    · exact hstat.sendControlMessage _ _
    · split <;> exact hmkdir.sendControlMessage _ _

theorem cftpRmdAuthenticatedAction (cmd : CftpCommand) :
    Agree (s.cftpRmdAuthenticatedAction env cmd) (s'.cftpRmdAuthenticatedAction env cmd) := by
  refine h.withArg _ _ fun arg => ?_
  obtain ⟨hst, hstat⟩ : (s'.sysStat env arg).1 = _ ∧ _ := h.sysStat arg
  obtain ⟨hremoved, hrmdir⟩ : ((s'.sysStat env arg).2.sysRmdir env arg).1 = _ ∧ _ := hstat.sysRmdir arg
  dsimp only
  rw [hst, hremoved]
  split
  · exact h.sendControlMessage _ _
  · split
    · exact hstat.sendControlMessage _ _
    · split <;> exact hrmdir.sendControlMessage _ _

theorem handleCwdCommand (params : Bytes) : Agree (s.handleCwdCommand env params) (s'.handleCwdCommand env params) := by
  obtain ⟨hst, hstat⟩ : (s'.sysStat env (cut PATH_MAX params)).1 = _ ∧ _ := h.sysStat _
  obtain ⟨hok, hchdir⟩ : ((s'.sysStat env (cut PATH_MAX params)).2.sysChdir env (cut PATH_MAX params)).1 = _ ∧ _ :=
    hstat.sysChdir _
  unfold Session.handleCwdCommand
  dsimp only
  rw [hst, hok]
  split
  · exact h.writeTextResponse _
  · split
    · exact h.sendControlMessage _ _
    · split
      · exact hstat.writeTextResponse _
      · split <;> exact hchdir.writeTextResponse _

theorem cftpCwdAuthenticatedAction (cmd : CftpCommand) :
    Agree (s.cftpCwdAuthenticatedAction env cmd) (s'.cftpCwdAuthenticatedAction env cmd) := by
  refine h.withArg _ _ fun arg => ?_
  split
  · exact h.handleCwdCommand arg
  · exact h.sendControlMessage _ _

theorem cftpPwdAuthenticatedAction : Agree (s.cftpPwdAuthenticatedAction env) (s'.cftpPwdAuthenticatedAction env) := by
  unfold Session.cftpPwdAuthenticatedAction
  rw [h.os, h.proc]
  split <;> exact h.sendControlMessage _ _

theorem cftpAborAuthenticatedAction :
    Agree (s.cftpAborAuthenticatedAction env) (s'.cftpAborAuthenticatedAction env) := by
  unfold Session.cftpAborAuthenticatedAction
  rw [h.conn]
  split
  · exact h.closeDataConnection.sendControlMessage _ _
  · exact (h.setControlWriteCb _).sendControlMessage _ _

theorem refuseLogin : Agree (s.refuseLogin env) (s'.refuseLogin env) :=
  (h.setControlWriteCb _).sendControlMessage _ _

theorem cftpUserAuthenticated (cmd : CftpCommand) :
    Agree (s.cftpUserAuthenticated env cmd) (s'.cftpUserAuthenticated env cmd) := by
  refine h.elim fun log ctlOut h => ?_
  unfold Session.cftpUserAuthenticated
  dsimp only
  split
  · split
    · exact (h.setConn _).sendControlMessage _ _
    · exact h.sendControlMessage _ _
  · exact h.refuseLogin

theorem loggedIn (password : Bytes) : Agree (s.loggedIn env password) (s'.loggedIn env password) := by
  refine h.elim fun log ctlOut h => ?_
  have hauth := h.emit env (.authenticate s.conn.username password (s.login env password).ok)
  exact (hauth.setProc (s.login env password).proc).setConn { s.conn with errorBuf := (s.login env password).errorBuf }

theorem cftpPassAuthenticated (cmd : CftpCommand) :
    Agree (s.cftpPassAuthenticated env cmd) (s'.cftpPassAuthenticated env cmd) := by
  have hlogin : ∀ password, s'.login env password = s.login env password := by
    intro password
    unfold Session.login
    rw [h.os, h.proc, h.conn]
  unfold Session.cftpPassAuthenticated
  split
  · rename_i password _
    rw [hlogin]
    split
    · have hreply : Agree ((s.loggedIn env password).sendControlMessage env 230 (ascii "User logged in"))
          ((s'.loggedIn env password).sendControlMessage env 230 (ascii "User logged in")) :=
        (h.loggedIn password).sendControlMessage _ _
      dsimp only
      rw [hreply.conn]
      exact (hreply.setConn _).timeoutEventFree
    · exact (h.loggedIn password).sendControlMessage _ _
  · exact h.refuseLogin

end Commands

/-! ## Events -/

section Events

variable (h : Agree s s')
include h

theorem runAction (a : Action) (cmd : CftpCommand) : Agree (s.runAction env a cmd) (s'.runAction env a cmd) := by
  cases a with
  | auth => exact h.cftpAuthAction cmd
  | prot => exact h.cftpProtAction cmd
  | type => exact h.cftpTypeAuthenticatedAction cmd
  | epsv => exact h.dataConnectionListenerConfig true
  | pasv => exact h.dataConnectionListenerConfig false
  | nlst => exact h.handleListCommand cmd false
  | list => exact h.handleListCommand cmd true
  | size => exact h.cftpSizeAuthenticatedAction cmd
  | retr => exact h.withArg cmd _ h.cftpSendFile
  | stor => exact h.withArg cmd _ h.cftpRecvFileWithEvbuffer
  | mdtm => exact h.withArg cmd _ h.handleMdtmCommand
  | cwd => exact h.cftpCwdAuthenticatedAction cmd
  | pwd => exact h.cftpPwdAuthenticatedAction
  | abor => exact h.cftpAborAuthenticatedAction
  | mkd => exact h.cftpMkdAuthenticatedAction cmd
  | rmd => exact h.cftpRmdAuthenticatedAction cmd
  | dele => exact h.handleDeleCommand cmd
  | user => exact h.cftpUserAuthenticated cmd
  | pass => exact h.cftpPassAuthenticated cmd
  | _ => exact h.sendControlMessage _ _

theorem executeFtpCommand (input : Bytes) : Agree (s.executeFtpCommand env input) (s'.executeFtpCommand env input) := by
  unfold Session.executeFtpCommand
  dsimp only
  rw [h.conn]
  split
  · exact h.runAction _ _
  · exact h.sendControlMessage _ _

theorem onRead : Agree (s.onRead env) (s'.onRead env) := by
  unfold Session.onRead
  rw [h.ctlIn]
  exact (h.setCtlIn _).executeFtpCommand _

theorem onWrite : Agree (s.onWrite env) (s'.onWrite env) := by
  unfold Session.onWrite
  rw [h.conn]
  split
  · rename_i cb _
    have hcb : Agree (s.runControlWriteCb env cb) (s'.runControlWriteCb env cb) := by
      cases cb with
      | closeDataConnectionOnWritecb => exact h.closeDataConnection
      | disableConnectionCb => exact h.setEnded _
    dsimp only
    rw [hcb.conn]
    exact hcb.setConn _
  · exact h

theorem runTimerCallback (cb : TimerCallback) : Agree (s.runTimerCallback env cb) (s'.runTimerCallback env cb) := by
  cases cb with
  | terminateProcessOnTimeout => exact (h.setControlWriteCb _).sendControlMessage _ _
  | killListenerOnTimeout => exact h.dropListener

theorem dataConnectionReadCb (b : Nat) : Agree (s.dataConnectionReadCb env b) (s'.dataConnectionReadCb env b) := by
  unfold Session.dataConnectionReadCb
  rw [h.conn]
  split
  · exact h.drainInput b env.spin
  · exact h

theorem dataConnectionWriteCb (b : Nat) : Agree (s.dataConnectionWriteCb env b) (s'.dataConnectionWriteCb env b) := by
  unfold Session.dataConnectionWriteCb
  rw [h.conn]
  split
  · exact (h.setControlWriteCb _).sendControlMessage _ _
  · exact h.sendNextChunk b
  · exact h.transferComplete
  · exact h.downloadCompletionOnPlainConnectionCb b
  · exact h

theorem dataConnected : Agree (s.dataConnected env) (s'.dataConnected env) := by
  have hactive := h.setConn { s.conn with dataActive := s.conn.dataActive + 1 }
  unfold Session.dataConnected
  dsimp only
  rw [h.conn]
  split
  · split
    · rename_i cb _
      cases cb with
      | listTlsOnBevEventConnected => exact hactive.sendListCommandOutput _ _ _ _
      | storTlsOnBevEventConnected => exact hactive.setConn _
      | closeDataConnectionOnWritecb => exact hactive.closeDataConnection
    · exact hactive
  · exact hactive

theorem dataEof : Agree (s.dataEof env) (s'.dataEof env) := by
  unfold Session.dataEof
  rw [h.conn]
  split
  · exact h.onEofEventCb
  · exact h

theorem dataConnectionEventCb (connected timeout error eof : Bool) :
    Agree (s.dataConnectionEventCb env connected timeout error eof)
      (s'.dataConnectionEventCb env connected timeout error eof) := by
  have h₁ : Agree (if connected then s.dataConnected env else s) (if connected then s'.dataConnected env else s') := by
    split
    · exact h.dataConnected
    · exact h
  unfold Session.dataConnectionEventCb
  refine h₁.andThen ?_
  generalize (if connected then s.dataConnected env else s) = s₁ at h₁ ⊢
  generalize (if connected then s'.dataConnected env else s') = s₁' at h₁ ⊢
  have h₂ : Agree (if eof then s₁.dataEof env else s₁) (if eof then s₁'.dataEof env else s₁') := by
    split
    · exact h₁.dataEof
    · exact h₁
  refine h₂.andThen ?_
  split
  · exact h₂.closeDataConnection
  · exact h₂

/-- Replies leave: the callback runs in both sessions or in none, or there is none. -/
theorem controlWrite (n n' : Nat) (hout : s.conn.controlWriteCb = none ∨ (RepliesOut n s ↔ RepliesOut n' s')) :
    Agree (handle env (.controlWrite n) s) (handle env (.controlWrite n') s') := by
  have hcut : Agree { s with ctlOut := s.ctlOut.drop n } { s' with ctlOut := s'.ctlOut.drop n' } := h.setCtlOut _ _
  by_cases hnone : s.conn.controlWriteCb = none
  · rw [handle_controlWrite_none env n hnone, handle_controlWrite_none env n' (by rw [h.conn]; exact hnone)]
    exact hcut
  · have hiff := hout.resolve_left hnone
    by_cases hn : RepliesOut n s
    · rw [handle_controlWrite_out env hn, handle_controlWrite_out env (hiff.mp hn)]
      exact hcut.onWrite
    · rw [handle_controlWrite_kept env hn, handle_controlWrite_kept env fun hn' => hn (hiff.mpr hn')]
      exact hcut

end Events

end Agree

section

variable (env : Env σ) {s s' : Session σ}

/-- **A session does not look back**: at every event apart from the departure of replies. -/
theorem step_agree (h : Agree s s') (e : Event) (he : ∀ n, e ≠ .controlWrite n) :
    Agree (step env e s) (step env e s') := by
  apply h.andThen
  cases e with
  | controlRead chunk =>
    simp only [handle]
    rw [h.ctlIn]
    split
    · exact h
    · exact (h.setCtlIn _).onRead
  | controlWrite n => exact absurd rfl (he n)
  | controlEof => exact h.setEnded _
  | parentDead => exact h.setEnded _
  | timer t =>
    simp only [handle]
    rw [h.timers]
    split
    · split
      · unfold timerFires
        rw [h.timers]
        exact (h.setTimers _).runTimerCallback _
      · exact h
    · exact h
  | accept listener fd addr =>
    simp only [handle]
    rw [h.listeners]
    split
    · exact h.dataConnectionAcceptCb listener fd addr
    · exact h
  | dataRead b bytes =>
    simp only [handle]
    rw [h.bevs]
    split
    · split
      · exact h
      · unfold dataArrives
        rw [h.bevs]
        exact (h.setBevs _).dataConnectionReadCb b
    · exact h
  | dataWrite b n =>
    simp only [handle]
    rw [h.bevs]
    unfold dataLeaves
    rw [h.bevs]
    split
    · split
      · exact h
      · split
        · exact (h.setBevs _).dataConnectionWriteCb b
        · exact h.setBevs _
    · exact h
  | dataEvent b connected timeout error eof =>
    simp only [handle]
    rw [h.bevs]
    split
    · exact h.dataConnectionEventCb _ _ _ _
    · exact h

end

end Session

end CftpServer
