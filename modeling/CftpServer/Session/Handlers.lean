import CftpServer.Session.Moves

/-!
# The handlers are made of moves

One lemma for each function of the session, apart from PROT, PASV and EPSV, USER and PASS, a client that connects and
the timer of the listener. `step_moves` is the one fact about a step that properties of runs start from: an event
makes moves, or it is one of these (`Special`).
-/

namespace CftpServer.Session

open CLib Command Security

variable {σ : Type} {env : Env σ} {C : Call → Prop} {s₀ s : Session σ}

namespace Moves

/-! ## LIST and NLST -/

theorem sendListing (h : Moves env C s₀ s) {evbuf : Bytes} : Moves env C s₀ (s.sendListing env evbuf) := by
  unfold Session.sendListing
  split
  · refine replies ?_ (by decide)
    exact h.keep rfl
  · split
    · exact h.crash
    · apply bevWrite
      exact h.keep rfl

theorem refuseList (h : Moves env C s₀ s) {n : Nat} {text : Bytes} (hn : n ≠ 200) :
    Moves env C s₀ (s.refuseList env n text) := replies h.setControlWriteCb hn

section Calls

variable (hC : ∀ c, C c)
include hC

theorem sendListCommandOutput (h : Moves env C s₀ s) {path : Bytes} {description hidden human : Bool} :
    Moves env C s₀ (s.sendListCommandOutput env path description hidden human) := by
  have h₁ := h.sysOpendir (hC (.opendir path))
  simp only [Session.sendListCommandOutput]
  split
  · exact h₁.crash
  · exact sendListing (closeFd (listEntries_inv (fun _ _ h => h.sysLstat (hC _)) _ _ h₁))

theorem handleListCommand (h : Moves env C s₀ s) {cmd : CftpCommand} {description : Bool} :
    Moves env C s₀ (s.handleListCommand env cmd description) := by
  unfold Session.handleListCommand
  split
  · exact refuseList h (by decide)
  · rename_i flags _
    split
    · exact h.replies (by decide)
    · split
      · exact refuseList h (by decide)
      · have h₁ := h.sysOpendir (hC (.opendir (listPath flags)))
        simp only []
        split
        · exact refuseList h₁ (by decide)
        · unfold startList
          split
          · refine replies ?_ (by decide)
            exact h₁.keep rfl
          · exact sendListCommandOutput hC (h₁.replies (by decide))

end Calls

/-! ## RETR and STOR -/

theorem sendNextChunk (h : Moves env C s₀ s) {b : Nat} : Moves env C s₀ (s.sendNextChunk env b) := by
  unfold Session.sendNextChunk
  split
  · exact h.crash
  · rename_i fs _
    have h₁ : Moves env C s₀ (if atEnd fs (readStream env fs s) then
        { s with conn := { s.conn with dataWriteCb := some .closeOnRetrcb } } else s) := by
      split
      · exact h.keep rfl
      · exact h
    simp only []
    split
    · exact h₁.closeFd.keep rfl
    · exact h₁.closeFd.keep rfl
    · exact h₁.bevWrite.keep rfl

theorem transferComplete (h : Moves env C s₀ s) : Moves env C s₀ (s.transferComplete env) :=
  replies h.setControlWriteCb (by decide)

theorem downloadCompletionOnPlainConnectionCb (h : Moves env C s₀ s) {b : Nat} :
    Moves env C s₀ (s.downloadCompletionOnPlainConnectionCb env b) := by
  unfold Session.downloadCompletionOnPlainConnectionCb
  split
  · exact h.crash
  · split
    · exact h.transferComplete
    · exact h

theorem evbufferWrite (h : Moves env C s₀ s) {b : Nat} {v : Bev} (hv : s.bevs b = some v) :
    Moves env C s₀ (s.evbufferWrite env b v) := by
  unfold Session.evbufferWrite
  refine move (h.bev hv ?_) (.stored _ _ ?_)
  · rfl
  · exact ⟨_, Function.update_self .., rfl⟩

theorem drainInput (h : Moves env C s₀ s) {b fuel : Nat} : Moves env C s₀ (s.drainInput env b fuel) :=
  drainInput_inv (fun _ _ hv h => h.evbufferWrite hv) (fun _ h => h.crash) (fun _ h => h.hang) fuel s h

theorem onEofEventCb (h : Moves env C s₀ s) : Moves env C s₀ (s.onEofEventCb env) := by
  unfold Session.onEofEventCb
  split
  · exact h
  · split
    · refine andThen h.drainInput fun h => ?_
      refine replies ?_ (by decide)
      exact h.closeFd.keep rfl
    · exact h.replies (by decide)

/-- A download on a data connection opens its file first. -/
theorem ftpSendFileWithEvbuffer_call {path : Bytes} {b : Nat} (hb : s.conn.dataBev = some b) :
    Moves env C (s.call env (.openRead path)) (s.ftpSendFileWithEvbuffer env path) := by
  have h₁ : Moves env C (s.call env (.openRead path)) (s.sysOpenRead env path).2 := sysOpenRead_call
  simp only [Session.ftpSendFileWithEvbuffer, hb]
  split
  · exact h₁
  · split
    · exact h₁.closeFd
    · refine sendNextChunk (setWriteLow ?_)
      exact (h₁.replies (by decide)).keep rfl

theorem ftpSendFilePlain_call {path : Bytes} {b : Nat} (hb : s.conn.dataBev = some b) :
    Moves env C (s.call env (.openRead path)) (s.ftpSendFilePlain env path) := by
  have h₁ : Moves env C (s.call env (.openRead path)) (s.sysOpenRead env path).2 := sysOpenRead_call
  simp only [Session.ftpSendFilePlain, hb]
  split
  · exact h₁.replies (by decide)
  · split
    · exact h₁.closeFd.replies (by decide)
    · apply bevWrite
      exact (h₁.replies (by decide)).keep rfl

theorem cftpSendFile_call {path : Bytes} {b : Nat} (hb : s.conn.dataBev = some b) :
    Moves env C (s.call env (.openRead path)) (s.cftpSendFile env path) := by
  unfold Session.cftpSendFile
  split
  · exact ftpSendFileWithEvbuffer_call hb
  · exact ftpSendFilePlain_call hb

/-- A download without a data connection does nothing. -/
theorem cftpSendFile_none {path : Bytes} (hb : s.conn.dataBev = none) : s.cftpSendFile env path = s := by
  unfold Session.cftpSendFile Session.ftpSendFileWithEvbuffer Session.ftpSendFilePlain
  split <;> rw [hb]

/-- An upload on a data connection opens its file first. -/
theorem cftpRecvFileWithEvbuffer_call {path : Bytes} {b : Nat} (hb : s.conn.dataBev = some b) :
    Moves env C (s.call env (.openWrite path)) (s.cftpRecvFileWithEvbuffer env path) := by
  have h₁ : Moves env C (s.call env (.openWrite path)) (s.sysOpenWrite env path).2 := sysOpenWrite_call
  simp only [Session.cftpRecvFileWithEvbuffer, hb, Option.isNone_some, Bool.false_eq_true, if_false]
  split
  · exact replies h₁.setControlWriteCb (by decide)
  · refine replies ?_ (by decide)
    split
    · exact h₁.keep rfl
    · exact h₁.keep rfl

/-- An upload without a data connection only replies. -/
theorem cftpRecvFileWithEvbuffer_none (h : Moves env C s₀ s) {path : Bytes} (hb : s.conn.dataBev = none) :
    Moves env C s₀ (s.cftpRecvFileWithEvbuffer env path) := by
  simp only [Session.cftpRecvFileWithEvbuffer, hb, Option.isNone_none, if_true]
  exact h.replies (by decide)

section Calls

variable (hC : ∀ c, C c)
include hC

theorem cftpSendFile (h : Moves env C s₀ s) {path : Bytes} : Moves env C s₀ (s.cftpSendFile env path) := by
  cases hb : s.conn.dataBev with
  | none => rw [cftpSendFile_none hb]; exact h
  | some b => exact (h.call (hC _)).trans (cftpSendFile_call hb)

theorem cftpRecvFileWithEvbuffer (h : Moves env C s₀ s) {path : Bytes} :
    Moves env C s₀ (s.cftpRecvFileWithEvbuffer env path) := by
  cases hb : s.conn.dataBev with
  | none => exact h.cftpRecvFileWithEvbuffer_none hb
  | some b => exact (h.call (hC _)).trans (cftpRecvFileWithEvbuffer_call hb)

/-! ## DELE -/

theorem deleteDirectoryRecursively (h : Moves env C s₀ s) {depth : Nat} {path : Bytes} :
    Moves env C s₀ (s.deleteDirectoryRecursively env depth path).2 :=
  deleteDirectoryRecursively_inv (fun _ _ h => h.sysLstat (hC _)) (fun _ _ h => h.sysUnlink (hC _))
    (fun _ _ h => h.sysOpendir (hC _)) (fun _ _ h => h.sysRmdir (hC _)) (fun _ _ h => h.closeFd) (fun _ h => h.crash)
    depth path s h

theorem handleDeleCommand (h : Moves env C s₀ s) {cmd : CftpCommand} :
    Moves env C s₀ (s.handleDeleCommand env cmd) := by
  have hr : ∀ {deleted force : Bool} {s : Session σ}, Moves env C s₀ s →
      Moves env C s₀ (s.replyDeleted env deleted force) := by
    intro deleted force s h
    unfold replyDeleted
    split
    · split <;> exact h.replies (by decide)
    · exact h.replies (by decide)
  unfold Session.handleDeleCommand
  split
  · exact h.replies (by decide)
  · rename_i target _ _ _
    split
    · exact h.replies (by decide)
    · have h₁ := h.sysStat (hC (.stat target))
      simp only [deleteTarget]
      split
      · split <;> exact h₁.replies (by decide)
      · split
        · split
          · exact h₁.replies (by decide)
          · exact andThen (deleteDirectoryRecursively hC h₁) hr
        · exact hr (h₁.sysUnlink (hC _))

end Calls

/-! ## Commands -/

theorem withArg (h : Moves env C s₀ s) {cmd : CftpCommand} {text : String} {action : Bytes → Session σ → Session σ}
    (ha : ∀ arg, Moves env C s₀ (action arg s)) : Moves env C s₀ (s.withArg env cmd text action) := by
  unfold Session.withArg
  split
  · exact ha _
  · exact h.replies (by decide)

theorem cftpAuthAction (h : Moves env C s₀ s) {cmd : CftpCommand} : Moves env C s₀ (s.cftpAuthAction env cmd) := by
  refine h.withArg fun arg => ?_
  split
  · have h₁ : Moves env C s₀ (s.sendControlMessage env 234 (ascii "AUTH TLS Success")) := h.replies (by decide)
    simp only [upgradeToTls]
    split
    · exact h₁.keep rfl
    · exact h₁.crash
  · exact h.replies (by decide)

theorem cftpTypeAuthenticatedAction (h : Moves env C s₀ s) {cmd : CftpCommand} :
    Moves env C s₀ (s.cftpTypeAuthenticatedAction env cmd) := by
  refine h.withArg fun arg => ?_
  split
  · refine sendControlMessage ?_ (by decide)
    exact h.keep rfl
  · split
    · refine sendControlMessage ?_ (by decide)
      exact h.keep rfl
    · exact h.replies (by decide)

theorem cftpPwdAuthenticatedAction (h : Moves env C s₀ s) : Moves env C s₀ (s.cftpPwdAuthenticatedAction env) := by
  unfold Session.cftpPwdAuthenticatedAction
  split
  · exact h.replies (by decide)
  · exact h.replies (by decide)

theorem cftpAborAuthenticatedAction (h : Moves env C s₀ s) : Moves env C s₀ (s.cftpAborAuthenticatedAction env) := by
  unfold Session.cftpAborAuthenticatedAction
  split
  · exact h.closeDataConnection.replies (by decide)
  · exact replies h.setControlWriteCb (by decide)

/-- MDTM asks for its argument at once. -/
theorem handleMdtmCommand_call {arg : Bytes} : Moves env C (s.call env (.stat arg)) (s.handleMdtmCommand env arg) := by
  have h₁ : Moves env C (s.call env (.stat arg)) (s.sysStat env arg).2 := .refl
  simp only [Session.handleMdtmCommand]
  split
  · exact h₁.replies (by decide)
  · split <;> exact h₁.replies (by decide)

section Calls

variable (hC : ∀ c, C c)
include hC

theorem cftpSizeAuthenticatedAction (h : Moves env C s₀ s) {cmd : CftpCommand} :
    Moves env C s₀ (s.cftpSizeAuthenticatedAction env cmd) := by
  refine h.withArg fun arg => ?_
  split
  · exact h.replies (by decide)
  · have h₁ := h.sysStat (hC (.stat arg))
    simp only []
    split
    · exact h₁.replies (by decide)
    · split <;> exact h₁.replies (by decide)

theorem cftpMdtmAuthenticatedAction (h : Moves env C s₀ s) {cmd : CftpCommand} :
    Moves env C s₀ (s.cftpMdtmAuthenticatedAction env cmd) :=
  h.withArg fun arg => (h.call (hC (.stat arg))).trans (handleMdtmCommand_call)

theorem cftpMkdAuthenticatedAction (h : Moves env C s₀ s) {cmd : CftpCommand} :
    Moves env C s₀ (s.cftpMkdAuthenticatedAction env cmd) := by
  refine h.withArg fun arg => ?_
  split
  · exact h.replies (by decide)
  · have h₁ := h.sysStat (hC (.stat arg))
    simp only []
    split
    · exact h₁.replies (by decide)
    · split <;> exact (h₁.sysMkdir (hC _)).replies (by decide)

theorem cftpRmdAuthenticatedAction (h : Moves env C s₀ s) {cmd : CftpCommand} :
    Moves env C s₀ (s.cftpRmdAuthenticatedAction env cmd) := by
  refine h.withArg fun arg => ?_
  split
  · exact h.replies (by decide)
  · have h₁ := h.sysStat (hC (.stat arg))
    simp only []
    split
    · exact h₁.replies (by decide)
    · split <;> exact (h₁.sysRmdir (hC _)).replies (by decide)

theorem cftpCwdAuthenticatedAction (h : Moves env C s₀ s) {cmd : CftpCommand} :
    Moves env C s₀ (s.cftpCwdAuthenticatedAction env cmd) := by
  refine h.withArg fun arg => ?_
  split
  · unfold handleCwdCommand
    split
    · exact h.writeTextResponse
    · split
      · exact h.replies (by decide)
      · have h₁ := h.sysStat (hC (.stat (cut PATH_MAX arg)))
        simp only []
        split
        · exact h₁.writeTextResponse
        · split <;> exact (h₁.sysChdir (hC _)).writeTextResponse
  · exact h.replies (by decide)

end Calls

/-! ## The other events -/

theorem onWrite (h : Moves env C s₀ s) : Moves env C s₀ (s.onWrite env) := by
  unfold Session.onWrite
  split
  · rename_i cb _
    have h₁ : Moves env C s₀ (runControlWriteCb env cb s) := by
      cases cb with
      | closeDataConnectionOnWritecb => exact h.closeDataConnection
      | disableConnectionCb => exact h.keep rfl
    exact h₁.keep rfl
  · exact h

theorem dataConnectionReadCb (h : Moves env C s₀ s) {b : Nat} : Moves env C s₀ (s.dataConnectionReadCb env b) := by
  unfold Session.dataConnectionReadCb
  split
  · exact h.drainInput
  · exact h

theorem dataConnectionWriteCb (h : Moves env C s₀ s) {b : Nat} : Moves env C s₀ (s.dataConnectionWriteCb env b) := by
  unfold Session.dataConnectionWriteCb
  split
  · exact replies h.setControlWriteCb (by decide)
  · exact h.sendNextChunk
  · exact h.transferComplete
  · exact h.downloadCompletionOnPlainConnectionCb
  · exact h

theorem dataEof (h : Moves env C s₀ s) : Moves env C s₀ (s.dataEof env) := by
  unfold Session.dataEof
  split
  · exact h.onEofEventCb
  · exact h

section Calls

variable (hC : ∀ c, C c)
include hC

theorem dataConnected (h : Moves env C s₀ s) : Moves env C s₀ (s.dataConnected env) := by
  have h₁ : Moves env C s₀ { s with conn := { s.conn with dataActive := s.conn.dataActive + 1 } } :=
    h.keep rfl
  unfold Session.dataConnected
  simp only []
  split
  · split
    · rename_i cb _
      cases cb with
      | listTlsOnBevEventConnected => exact h₁.sendListCommandOutput hC
      | storTlsOnBevEventConnected => exact h₁.keep rfl
      | closeDataConnectionOnWritecb => exact h₁.closeDataConnection
    · exact h₁
  · exact h₁

theorem dataConnectionEventCb (h : Moves env C s₀ s) {connected timeout error eof : Bool} :
    Moves env C s₀ (s.dataConnectionEventCb env connected timeout error eof) := by
  unfold Session.dataConnectionEventCb
  have h₁ : Moves env C s₀ (if connected then s.dataConnected env else s) := by
    split
    · exact h.dataConnected hC
    · exact h
  refine andThen h₁ fun h => ?_
  generalize (if connected then s.dataConnected env else s) = s₁ at h ⊢
  have h₂ : Moves env C s₀ (if eof then s₁.dataEof env else s₁) := by
    split
    · exact h.dataEof
    · exact h
  refine andThen h₂ fun h => ?_
  split
  · exact h.closeDataConnection
  · exact h

end Calls

end Moves

/-- Commands that neither listen nor log in, other than PROT. -/
theorem runAction_moves {a : Action} (cmd : CftpCommand) (ha : a ≠ .prot ∧ a ≠ .user ∧ a ≠ .pass)
    (hN : a ≠ .epsv ∧ a ≠ .pasv) (hC : a.pathless = false → ∀ c, C c) : Moves env C s (runAction env a cmd s) := by
  have h : Moves env C s s := .refl
  cases a with
  | prot => exact absurd rfl ha.1
  | user => exact absurd rfl ha.2.1
  | pass => exact absurd rfl ha.2.2
  | epsv => exact absurd rfl hN.1
  | pasv => exact absurd rfl hN.2
  | syst => exact h.replies (by decide)
  | quit => exact h.replies (by decide)
  | pbsz => exact h.sendControlMessage (by decide)
  | noop => exact h.sendControlMessage (by decide)
  | feat => exact h.replies (by decide)
  | nonAuthenticated => exact h.replies (by decide)
  | authenticated => exact h.replies (by decide)
  | auth => exact h.cftpAuthAction
  | type => exact h.cftpTypeAuthenticatedAction
  | pwd => exact h.cftpPwdAuthenticatedAction
  | abor => exact h.cftpAborAuthenticatedAction
  | nlst => exact h.handleListCommand (hC rfl)
  | list => exact h.handleListCommand (hC rfl)
  | size => exact h.cftpSizeAuthenticatedAction (hC rfl)
  | retr => exact h.withArg fun _ => h.cftpSendFile (hC rfl)
  | stor => exact h.withArg fun _ => h.cftpRecvFileWithEvbuffer (hC rfl)
  | mdtm => exact h.cftpMdtmAuthenticatedAction (hC rfl)
  | cwd => exact h.cftpCwdAuthenticatedAction (hC rfl)
  | mkd => exact h.cftpMkdAuthenticatedAction (hC rfl)
  | rmd => exact h.cftpRmdAuthenticatedAction (hC rfl)
  | dele => exact h.handleDeleCommand (hC rfl)

/-! ## One event -/

/-- The control connection drains. -/
theorem controlWrite_moves (n : Nat) : Moves env C s (handle env (.controlWrite n) s) := by
  simp only [handle]
  split
  · exact .refl
  · have h : Moves env C s { s with ctlOut := s.ctlOut.drop n } := Moves.refl.keep rfl
    split
    · exact h.onWrite
    · exact h

theorem exit_moves : Moves env C s (exit s) := Moves.refl.keep rfl

/-- A timer other than that of a listener runs out. -/
theorem timer_moves {t : Nat} (ht : s.timers t ≠ some ⟨.killListenerOnTimeout, true⟩) :
    Moves env C s (handle env (.timer t) s) := by
  simp only [handle]
  split
  · rename_i timer htimer
    split
    · rename_i hpending
      have h : Moves env C s (timerFires t timer s) := Moves.refl.move (.fired htimer)
      cases hcb : timer.callback with
      | terminateProcessOnTimeout => exact Moves.replies h.setControlWriteCb (by decide)
      | killListenerOnTimeout => exact absurd (by rw [htimer, ← hcb, ← hpending]) ht
    · exact .refl
  · exact .refl

/-- Events of data connections. -/
theorem data_moves {e : Event} (he : ∃ b, (∃ bytes, e = .dataRead b bytes) ∨ (∃ n, e = .dataWrite b n) ∨
    ∃ connected timeout error eof, e = .dataEvent b connected timeout error eof) (hC : ∀ c, C c) :
    Moves env C s (handle env e s) := by
  have h : Moves env C s s := .refl
  obtain ⟨b, ⟨bytes, rfl⟩ | ⟨n, rfl⟩ | ⟨connected, timeout, error, eof, rfl⟩⟩ := he
  · simp only [handle]
    split
    · rename_i v hv
      split
      · exact h
      · apply Moves.dataConnectionReadCb
        exact h.bev hv rfl
    · exact h
  · simp only [handle]
    split
    · rename_i v hv
      have h₁ : Moves env C s (dataLeaves b v n s) := h.bev hv rfl
      split
      · exact h
      · split
        · exact h₁.dataConnectionWriteCb
        · exact h₁
    · exact h
  · simp only [handle]
    split
    · exact h.dataConnectionEventCb hC
    · exact h

/-- The command that `on_read` finds when a chunk arrives. -/
def commandOf (s : Session σ) (chunk : Bytes) : CftpCommand := parseTextCommand (readInput (s.ctlIn ++ chunk))

/-- The session as the handler of a command gets it. -/
def received (s : Session σ) (chunk : Bytes) : Session σ := { s with ctlIn := readRest (s.ctlIn ++ chunk) }

/-- The handler a command is dispatched to. -/
def handlerOf (s : Session σ) (chunk : Bytes) : Option Action :=
  actionFor (commandOf s chunk).command s.conn.authenticated

/-- The handler runs; a command without one is answered as unknown. -/
def runCommand (env : Env σ) (chunk : Bytes) (s : Session σ) : Session σ :=
  match handlerOf s chunk with
  | some a => runAction env a (commandOf s chunk) (received s chunk)
  | none => cftpInvalidAction env (received s chunk)

variable (env)

variable {env} in
/-- A session that has ended takes no more events. -/
theorem step_ended {e : Event} {s : Session σ} (h : s.ended ≠ none) : step env e s = s := by
  rw [step, Session.andThen, if_pos (Option.isSome_iff_ne_none.mpr h)]

variable {env} in
theorem step_handle {e : Event} {s : Session σ} (h : s.ended = none) : step env e s = handle env e s := by
  rw [step, Session.andThen, if_neg (by simp [h])]

variable {env} in
theorem step_running {e : Event} {s : Session σ} (h : (step env e s).ended = none) : s.ended = none := by
  by_contra hne
  rw [step_ended hne] at h
  exact hne h

variable {env} in
/-- A command with a handler. -/
theorem step_command {chunk : Bytes} {a : Action} {s : Session σ} (hs : s.ended = none) (hne : chunk ≠ [])
    (ha : handlerOf s chunk = some a) :
    step env (.controlRead chunk) s = runAction env a (commandOf s chunk) (received s chunk) := by
  have hrun : runCommand env chunk s = runAction env a (commandOf s chunk) (received s chunk) := by rw [runCommand, ha]
  rw [step_handle hs, handle, if_neg hne]
  exact hrun

/-- What one event does: nothing, or it runs a command, or the callback of another event. -/
theorem step_cases (e : Event) (s : Session σ) :
    step env e s = s ∨
      (∃ chunk, e = .controlRead chunk ∧ chunk ≠ [] ∧ s.ended = none ∧ step env e s = runCommand env chunk s) ∨
      ((∀ chunk, e ≠ .controlRead chunk) ∧ s.ended = none ∧ step env e s = handle env e s) := by
  by_cases hend : s.ended = none
  · have hstep : step env e s = handle env e s := step_handle hend
    by_cases hread : ∃ chunk, e = .controlRead chunk
    · obtain ⟨chunk, rfl⟩ := hread
      by_cases hc : chunk = []
      · exact .inl (by rw [hstep, handle, if_pos hc])
      · exact .inr (.inl ⟨chunk, rfl, hc, hend, by rw [hstep, handle, if_neg hc]; rfl⟩)
    · exact .inr (.inr ⟨fun chunk he => hread ⟨chunk, he⟩, hend, hstep⟩)
  · exact .inl (step_ended hend)

/-- The events whose callbacks are more than moves, in a session that runs, and the session after each. -/
inductive Special (s : Session σ) : Event → Session σ → Prop where
  | prot {chunk : Bytes} (hne : chunk ≠ []) (ha : handlerOf s chunk = some .prot)
      (hargs : (commandOf s chunk).args = [ascii "P"]) :
      Special s (.controlRead chunk) (sendControlMessage env 200 (ascii "PROT now Private")
        { received s chunk with conn := { s.conn with dataTlsRequired := true } })
  | user {chunk arg username : Bytes} (hne : chunk ≠ []) (ha : handlerOf s chunk = some .user)
      (hargs : (commandOf s chunk).args = [arg]) (hu : userExists env s.os s.proc arg = some username) :
      Special s (.controlRead chunk) (sendControlMessage env 331 (ascii "User name okay, need password")
        { received s chunk with conn := { s.conn with username := username } })
  | pass {chunk arg : Bytes} (hne : chunk ≠ []) (ha : handlerOf s chunk = some .pass)
      (hargs : (commandOf s chunk).args = [arg]) :
      Special s (.controlRead chunk) (cftpPassAuthenticated env (commandOf s chunk) (received s chunk))
  | passive {chunk : Bytes} (extended : Bool) (hne : chunk ≠ [])
      (ha : handlerOf s chunk = some (if extended then .epsv else .pasv)) :
      Special s (.controlRead chunk) (dataConnectionListenerConfig env extended (received s chunk))
  | accept {listener : Nat} {fd : Int} {addr : SockAddr} (hl : s.listeners listener = true)
      (hp : samePeer s.conn.sourceIp addr = true) :
      Special s (.accept listener fd addr) (dataConnectionAcceptCb env listener fd addr s)
  | timer {t : Nat} (ht : s.timers t = some ⟨.killListenerOnTimeout, true⟩) :
      Special s (.timer t) (killListenerOnTimeout env (timerFires t ⟨.killListenerOnTimeout, true⟩ s))

theorem action_cases {a : Action} (h : ¬ ((a ≠ .prot ∧ a ≠ .user ∧ a ≠ .pass) ∧ a ≠ .epsv ∧ a ≠ .pasv)) :
    a = .prot ∨ a = .user ∨ a = .pass ∨ a = .epsv ∨ a = .pasv := by
  tauto

/-- What a command does. -/
theorem runCommand_moves {chunk : Bytes} (hne : chunk ≠ []) (s : Session σ) :
    Moves env (fun _ => True) s (runCommand env chunk s) ∨
      Special env s (.controlRead chunk) (runCommand env chunk s) := by
  have hrec : Moves env (fun _ => True) s (received s chunk) := Moves.refl.keep rfl
  have hr : ∀ {s' : Session σ}, Moves env (fun _ => True) (received s chunk) s' → Moves env (fun _ => True) s s' :=
    hrec.trans
  have h : Moves env (fun _ => True) (received s chunk) (received s chunk) := .refl
  rw [runCommand]
  cases ha : handlerOf s chunk with
  | none => exact .inl (hr (h.replies (by decide)))
  | some a =>
    by_cases hex : (a ≠ .prot ∧ a ≠ .user ∧ a ≠ .pass) ∧ a ≠ .epsv ∧ a ≠ .pasv
    · exact .inl (hr (runAction_moves _ hex.1 hex.2 fun _ _ => trivial))
    · rcases action_cases hex with rfl | rfl | rfl | rfl | rfl
      · simp only [runAction, cftpProtAction, withArg]
        split
        · rename_i arg hargs
          by_cases hp : arg = ascii "P"
          · rw [if_pos hp]
            exact .inr (.prot hne ha (by rw [hargs, hp]))
          · rw [if_neg hp]
            exact .inl (hr (h.replies (by decide)))
        · exact .inl (hr (h.replies (by decide)))
      · simp only [runAction, cftpUserAuthenticated]
        split
        · rename_i arg hargs
          cases hu : userExists env (received s chunk).os (received s chunk).proc arg with
          | some username => exact .inr (.user hne ha hargs hu)
          | none => exact .inl (hr (h.replies (by decide)))
        · exact .inl (hr (h.setControlWriteCb.replies (by decide)))
      · by_cases harg : ∃ arg, (commandOf s chunk).args = [arg]
        · obtain ⟨arg, hargs⟩ := harg
          exact .inr (.pass hne ha hargs)
        · simp only [runAction, cftpPassAuthenticated]
          split
          · rename_i arg hargs
            exact absurd ⟨arg, hargs⟩ harg
          · exact .inl (hr (h.setControlWriteCb.replies (by decide)))
      · exact .inr (.passive true hne ha)
      · exact .inr (.passive false hne ha)

/-- **What one event does, all told**: it makes moves, or its callback is one of the few that listen, connect, log in,
close a listener or set the protection level. -/
theorem step_moves (e : Event) (s : Session σ) :
    Moves env (fun _ => True) s (step env e s) ∨ (s.ended = none ∧ Special env s e (step env e s)) := by
  rcases step_cases env e s with heq | ⟨chunk, rfl, hne, hs, heq⟩ | ⟨hread, hs, heq⟩
  · rw [heq]
    exact .inl .refl
  · rw [heq]
    exact (runCommand_moves env hne s).imp_right fun h => ⟨hs, h⟩
  · rw [heq]
    cases e with
    | controlRead chunk => exact absurd rfl (hread chunk)
    | controlWrite n => exact .inl (controlWrite_moves n)
    | controlEof => exact .inl exit_moves
    | parentDead => exact .inl exit_moves
    | timer t =>
      by_cases ht : s.timers t = some ⟨.killListenerOnTimeout, true⟩
      · refine .inr ⟨hs, ?_⟩
        simp only [handle, ht, if_true]
        exact .timer ht
      · exact .inl (timer_moves ht)
    | accept listener fd addr =>
      simp only [handle]
      split
      · rename_i hl
        by_cases hp : samePeer s.conn.sourceIp addr = true
        · exact .inr ⟨hs, .accept hl hp⟩
        · rw [dataConnectionAcceptCb, if_pos (by simpa using hp)]
          exact .inl (Moves.refl.did (e := .rejected fd) trivial)
      · exact .inl .refl
    | dataRead b bytes => exact .inl (data_moves ⟨b, .inl ⟨bytes, rfl⟩⟩ fun _ => trivial)
    | dataWrite b n => exact .inl (data_moves ⟨b, .inr (.inl ⟨n, rfl⟩)⟩ fun _ => trivial)
    | dataEvent b connected timeout error eof =>
      exact .inl (data_moves ⟨b, .inr (.inr ⟨connected, timeout, error, eof, rfl⟩)⟩ fun _ => trivial)

end CftpServer.Session
