import CftpServer.Session.Idle

/-!
# Without STOR nothing is written

The callbacks that write to a file are set by STOR alone. While they are not set, and no STOR comes, nothing is opened
for writing and nothing is written (`step_unwritten`): LIST and RETR read, and the other commands touch no contents.
-/

namespace CftpServer

open CLib

/-- Effects that change the contents of no file: nothing is opened for writing, and nothing is written. -/
def Effect.KeepsFiles : Effect → Prop
  | .call (.openWrite _) => False
  | .store _ _ _ _ => False
  | _ => True

theorem Effect.IsAside.keepsFiles {e : Effect} (h : e.IsAside) : e.KeepsFiles := by
  cases e with
  | call c => cases c <;> exact h
  | store => exact h
  | _ => trivial

namespace Session

open Command Growth

variable {σ : Type} {env : Env σ} {s₀ s s' : Session σ}

/-- No callback writes to a file, and since `s₀` nothing has been written. -/
structure Unwritten (s₀ s : Session σ) : Prop where
  read : s.conn.dataReadCb = none
  eof : s.conn.dataEofEventCb = none
  connected : s.conn.dataTlsEventConnectedCb ≠ some .storTlsOnBevEventConnected
  log : Grown Effect.KeepsFiles s₀.log s.log

namespace Unwritten

theorem did (h : Unwritten s₀ s) (env : Env σ) {e : Effect} (he : e.KeepsFiles) : Unwritten s₀ (emit env e s) :=
  ⟨h.read, h.eof, h.connected, h.log.concat he⟩

/-- Nothing that this is about is different. -/
theorem of_eq (h : Unwritten s₀ s) (hread : s'.conn.dataReadCb = s.conn.dataReadCb)
    (heof : s'.conn.dataEofEventCb = s.conn.dataEofEventCb)
    (hconn : s'.conn.dataTlsEventConnectedCb = s.conn.dataTlsEventConnectedCb) (hlog : s'.log = s.log) :
    Unwritten s₀ s' :=
  ⟨hread.trans h.read, heof.trans h.eof, hconn ▸ h.connected, hlog ▸ h.log⟩

/-- From here on, too. -/
theorem here (h : Unwritten s₀ s) : Unwritten s s := ⟨h.read, h.eof, h.connected, .refl⟩

theorem of_aside (h : Unwritten s₀ s) (ha : Aside s s') : Unwritten s₀ s' := by
  have ht := ha.transfer
  refine ⟨(congrArg Transfer.dataReadCb ht).trans h.read, (congrArg Transfer.dataEofEventCb ht).trans h.eof, ?_,
    h.log.trans (Grown.mono ha.log fun e he => he.keepsFiles)⟩
  rw [show s'.conn.dataTlsEventConnectedCb = _ from congrArg Transfer.dataTlsEventConnectedCb ht]
  exact h.connected

section Calls

variable (h : Unwritten s₀ s)
include h

theorem reply {n : Nat} {text : Bytes} : Unwritten s₀ (sendControlMessage env n text s) :=
  (h.did env (e := .reply n text) trivial).of_eq rfl rfl rfl rfl

theorem setControlWriteCb {cb : ControlWriteCb} : Unwritten s₀ (s.setControlWriteCb cb) := h.of_eq rfl rfl rfl rfl

theorem closeFd {fd : Int} : Unwritten s₀ (s.closeFd env fd) := h.of_aside Aside.refl.closeFd

theorem closeAll {fds : List Int} : Unwritten s₀ (s.closeAll env fds) := by
  induction fds generalizing s with
  | nil => exact h
  | cons fd fds ih => exact ih h.closeFd

theorem bevWrite {b : Nat} {bytes : Bytes} {files : List Int} : Unwritten s₀ (s.bevWrite env b bytes files) := by
  unfold Session.bevWrite
  split
  · exact h.of_eq rfl rfl rfl rfl
  · rename_i v _
    exact (h.did env (e := .bevWrite b v.tls bytes) trivial).of_eq rfl rfl rfl rfl

theorem closeDataConnection : Unwritten s₀ (s.closeDataConnection env) := by
  have hfree : ∀ b, Unwritten s₀ (s.bevFree env b) := by
    intro b
    unfold Session.bevFree
    split
    · exact h.of_eq rfl rfl rfl rfl
    · rename_i v _
      have hgone : Unwritten s₀ { s with bevs := Function.update s.bevs b none } := h.of_eq rfl rfl rfl rfl
      exact (hgone.did env (e := .bevFree b v.output) trivial).closeAll
  unfold Session.closeDataConnection
  split
  · exact ⟨rfl, rfl, nofun, h.log⟩
  · rename_i b _
    exact ⟨rfl, rfl, nofun, (hfree b).log⟩

theorem sysLstat {path : Bytes} : Unwritten s₀ (s.sysLstat env path).2 := h.did env (e := .call (.lstat path)) trivial

theorem sysOpendir {path : Bytes} : Unwritten s₀ (s.sysOpendir env path).2 := h.of_aside Aside.refl.sysOpendir

theorem sysOpenRead {path : Bytes} : Unwritten s₀ (s.sysOpenRead env path).2 := by
  have hcall : Unwritten s₀ (s.call env (.openRead path)) := h.did env (e := .call (.openRead path)) trivial
  unfold Session.sysOpenRead
  split
  · exact hcall.of_aside Aside.refl.newFd
  · exact hcall

end Calls

/-! ## LIST and RETR -/

section Transfers

variable (h : Unwritten s₀ s)
include h

theorem listEntries {path : Bytes} {description hidden human : Bool} {names : List Bytes} :
    Unwritten s₀ (s.listEntries env path description hidden human names).2 := by
  induction names generalizing s with
  | nil => exact h
  | cons name names ih =>
    unfold Session.listEntries
    dsimp only
    split
    · exact ih h
    · split
      · exact ih h.sysLstat
      · split
        · exact ih h.sysLstat
        · exact ih h.sysLstat

theorem sendListing {evbuf : Bytes} : Unwritten s₀ (s.sendListing env evbuf) := by
  unfold Session.sendListing
  split
  · have hset : Unwritten s₀ { s with conn := { s.conn with
        controlWriteCb := some .closeDataConnectionOnWritecb
        dataTlsEventConnectedCb := some .closeDataConnectionOnWritecb } } := ⟨h.read, h.eof, nofun, h.log⟩
    exact hset.reply
  · split
    · exact h.of_eq rfl rfl rfl rfl
    · have hset : Unwritten s₀ { s with conn := { s.conn with dataWriteCb := some .closeOnListcb } } :=
        h.of_eq rfl rfl rfl rfl
      exact hset.bevWrite

theorem sendListCommandOutput {path : Bytes} {description hidden human : Bool} :
    Unwritten s₀ (s.sendListCommandOutput env path description hidden human) := by
  have hopen : Unwritten s₀ (s.sysOpendir env path).2 := h.sysOpendir
  unfold Session.sendListCommandOutput
  dsimp only
  split
  · exact hopen.of_eq rfl rfl rfl rfl
  · exact hopen.listEntries.closeFd.sendListing

theorem refuseList {n : Nat} {text : Bytes} : Unwritten s₀ (s.refuseList env n text) := h.setControlWriteCb.reply

theorem handleListCommand {cmd : CftpCommand} {description : Bool} :
    Unwritten s₀ (s.handleListCommand env cmd description) := by
  unfold Session.handleListCommand
  split
  · exact h.refuseList
  · split
    · exact h.reply
    · split
      · exact h.refuseList
      · dsimp only
        split
        · exact h.sysOpendir.refuseList
        · unfold startList
          split
          · refine Unwritten.reply (s := { (s.sysOpendir env _).2 with conn := _ }) ?_
            exact ⟨h.sysOpendir.read, h.sysOpendir.eof, nofun, h.sysOpendir.log⟩
          · exact h.sysOpendir.reply.sendListCommandOutput

theorem sendNextChunk {b : Nat} : Unwritten s₀ (s.sendNextChunk env b) := by
  unfold Session.sendNextChunk
  split
  · exact h.of_eq rfl rfl rfl rfl
  · rename_i fs _
    have hend : Unwritten s₀ (if atEnd fs (readStream env fs s) then
        { s with conn := { s.conn with dataWriteCb := some .closeOnRetrcb } } else s) := by
      split
      · exact h.of_eq rfl rfl rfl rfl
      · exact h
    dsimp only
    split
    · exact Unwritten.of_eq (s := Session.closeFd env fs.fd _) hend.closeFd rfl rfl rfl rfl
    · exact Unwritten.of_eq (s := Session.closeFd env fs.fd _) hend.closeFd rfl rfl rfl rfl
    · rename_i c cs _
      exact Unwritten.of_eq (s := Session.bevWrite env b (c :: cs) [] _) hend.bevWrite rfl rfl rfl rfl

theorem cftpSendFile {path : Bytes} : Unwritten s₀ (s.cftpSendFile env path) := by
  have hopen : Unwritten s₀ (s.sysOpenRead env path).2 := h.sysOpenRead
  unfold Session.cftpSendFile
  split
  · unfold ftpSendFileWithEvbuffer
    split
    · exact h
    · dsimp only
      split
      · exact hopen
      · split
        · exact hopen.closeFd
        · refine Unwritten.sendNextChunk ?_
          unfold setWriteLow
          exact Unwritten.of_eq (s := sendControlMessage env 150 (ascii "Sending file") _) hopen.reply rfl rfl rfl rfl
  · unfold ftpSendFilePlain
    split
    · exact h
    · dsimp only
      split
      · exact hopen.reply
      · split
        · exact hopen.closeFd.reply
        · refine Unwritten.bevWrite ?_
          exact Unwritten.of_eq (s := sendControlMessage env 150 (ascii "Sending file") _) hopen.reply rfl rfl rfl rfl

theorem transferComplete : Unwritten s₀ (s.transferComplete env) := h.setControlWriteCb.reply

/-! ## Events of the data connection -/

theorem dataConnectionWriteCb {b : Nat} : Unwritten s₀ (s.dataConnectionWriteCb env b) := by
  unfold Session.dataConnectionWriteCb
  split
  · exact h.setControlWriteCb.reply
  · exact h.sendNextChunk
  · exact h.transferComplete
  · unfold downloadCompletionOnPlainConnectionCb
    split
    · exact h.of_eq rfl rfl rfl rfl
    · split
      · exact h.transferComplete
      · exact h
  · exact h

theorem dataConnected : Unwritten s₀ (s.dataConnected env) := by
  have hactive : Unwritten s₀ { s with conn := { s.conn with dataActive := s.conn.dataActive + 1 } } :=
    h.of_eq rfl rfl rfl rfl
  unfold Session.dataConnected
  dsimp only
  split
  · split
    · rename_i cb hcb
      cases cb with
      | listTlsOnBevEventConnected => exact hactive.sendListCommandOutput
      | storTlsOnBevEventConnected => exact absurd hcb h.connected
      | closeDataConnectionOnWritecb => exact hactive.closeDataConnection
    · exact hactive
  · exact hactive

theorem andThen {f : Session σ → Session σ} (hf : Unwritten s₀ (f s)) : Unwritten s₀ (s.andThen f) := by
  unfold Session.andThen
  split
  · exact h
  · exact hf

theorem dataConnectionEventCb {connected timeout error eof : Bool} :
    Unwritten s₀ (s.dataConnectionEventCb env connected timeout error eof) := by
  have h₁ : Unwritten s₀ (if connected then s.dataConnected env else s) := by
    split
    · exact h.dataConnected
    · exact h
  have h₂ : Unwritten s₀ (if eof then Session.dataEof env (if connected then s.dataConnected env else s)
      else if connected then s.dataConnected env else s) := by
    split
    · rw [dataEof_none h₁.eof]
      exact h₁
    · exact h₁
  unfold Session.dataConnectionEventCb
  refine h₁.andThen (h₂.andThen ?_)
  split
  · exact h₂.closeDataConnection
  · exact h₂

/-- **An event of a data connection.** -/
theorem dataEvent {b : Nat} {e : Event} (he : DataEventOf b e) : Unwritten s₀ (handle env e s) := by
  cases he with
  | read bytes =>
    simp only [handle]
    split
    · split
      · exact h
      · rename_i v _ _
        have harrives : (dataArrives b v bytes s).conn.dataReadCb = none := h.read
        simp only [dataConnectionReadCb, harrives]
        exact h.of_eq rfl rfl rfl rfl
    · exact h
  | write n =>
    simp only [handle]
    split
    · rename_i v _
      have hleaves : Unwritten s₀ (dataLeaves b v n s) := h.of_eq rfl rfl rfl rfl
      split
      · exact h
      · split
        · exact hleaves.dataConnectionWriteCb
        · exact hleaves
    · exact h
  | event connected timeout error eof =>
    simp only [handle]
    split
    · exact h.dataConnectionEventCb
    · exact h

end Transfers

end Unwritten

/-- No STOR comes. -/
def NoStor (e : Event) (s : Session σ) : Prop := ∀ chunk, e = .controlRead chunk → handlerOf s chunk ≠ some .stor

/-- **One event** that is no STOR: nothing is written, and no callback that writes is set. -/
theorem step_unwritten (env : Env σ) (e : Event) (h : Unwritten s₀ s) (hg : NoStor e s) :
    Unwritten s₀ (step env e s) := by
  have hst := step_transfer env e s
  generalize step env e s = s' at hst
  cases hst with
  | aside ha => exact h.of_aside ha
  | @command chunk a _ ha ht =>
    have hreceived : Unwritten s₀ (received s chunk) := h.of_eq rfl rfl rfl rfl
    cases a with
    | list => exact hreceived.handleListCommand
    | nlst => exact hreceived.handleListCommand
    | retr =>
      simp only [runAction, cftpRetrAuthenticatedAction, withArg]
      split
      · exact hreceived.cftpSendFile
      · exact hreceived.reply
    | stor => exact absurd ha (hg chunk rfl)
    | _ => cases ht
  | @abort chunk =>
    have hreceived : Unwritten s₀ (received s chunk) := h.of_eq rfl rfl rfl rfl
    exact hreceived.closeDataConnection.reply
  | @flush n _ _ _ ht hlog =>
    have hout : Unwritten s₀ { s with ctlOut := [] } := h.of_eq rfl rfl rfl rfl
    have hclose : Unwritten s₀ (closeDataConnection env { s with ctlOut := [] }) := hout.closeDataConnection
    exact hclose.of_eq (congrArg Transfer.dataReadCb ht) (congrArg Transfer.dataEofEventCb ht)
      (congrArg Transfer.dataTlsEventConnectedCb ht) hlog
  | @connect listener fd addr hs hl hp =>
    obtain ⟨s₁, ha₁, ha₂⟩ := accept_aside env fd hs hl hp
    have h₁ := h.of_aside ha₁
    have hnew : Unwritten s₀ (newDataBev env s₁) := by
      unfold newDataBev
      split
      · exact (h₁.did env (e := .bevNew s₁.nextId s₁.conn.dataTlsRequired) trivial).of_eq rfl rfl rfl rfl
      · exact h₁.of_eq rfl rfl rfl rfl
    exact hnew.of_aside ha₂
  | data _ he => exact h.dataEvent he

/-- So its effects change no file. -/
theorem step_keepsFiles (env : Env σ) (ev : Event) (h : Unwritten s₀ s) (hg : NoStor ev s) :
    ∀ e ∈ newEffects s (step env ev s), e.KeepsFiles := by
  obtain ⟨d, hd, hkeeps⟩ := (step_unwritten env ev h.here hg).log
  rw [newEffects_eq hd]
  exact hkeeps

end Session

end CftpServer
