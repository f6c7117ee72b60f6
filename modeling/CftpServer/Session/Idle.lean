import CftpServer.Session.DataConnection

/-!
# Callbacks without a data connection

LIST, RETR and STOR set the callbacks of the connection only while it has a data connection, and
`close_data_connection` takes them all back. So a session with one data connection at a time finds no callback left over
when the next one comes (`reached_idle`), and none is set before the first transfer command on it (`reached_unused`).
-/

namespace CftpServer.Session

open CLib Command Runs

variable {σ : Type} (env : Env σ)

/-- No callback of a data connection is set. -/
structure NoCallbacks (c : Connection) : Prop where
  read : c.dataReadCb = none
  write : c.dataWriteCb = none
  connected : c.dataTlsEventConnectedCb = none
  eof : c.dataEofEventCb = none

/-- There is no data connection, and no callback for one. -/
structure Settled (s : Session σ) : Prop where
  dataBev : s.conn.dataBev = none
  none : NoCallbacks s.conn

/-- Without a data connection there is no callback. -/
def Idle (s : Session σ) : Prop := s.conn.dataBev = none → NoCallbacks s.conn

section Slots

variable {env} {s s' : Session σ}

theorem NoCallbacks.of_transfer (h : NoCallbacks s.conn) (ht : s'.transfer = s.transfer) : NoCallbacks s'.conn :=
  ⟨(congrArg Transfer.dataReadCb ht).trans h.read, (congrArg Transfer.dataWriteCb ht).trans h.write,
    (congrArg Transfer.dataTlsEventConnectedCb ht).trans h.connected, (congrArg Transfer.dataEofEventCb ht).trans h.eof⟩

theorem Settled.of_transfer (h : Settled s) (ht : s'.transfer = s.transfer) : Settled s' :=
  ⟨(congrArg Transfer.dataBev ht).trans h.dataBev, h.none.of_transfer ht⟩

theorem Settled.dataBev_ne (h : Settled s) (b : Nat) : s.conn.dataBev ≠ some b := by
  rw [h.dataBev]
  exact (Option.some_ne_none b).symm

theorem Settled.idle (h : Settled s) : Idle s := fun _ => h.none

theorem Idle.of_transfer (h : Idle s) (ht : s'.transfer = s.transfer) : Idle s' :=
  fun hd => (h ((congrArg Transfer.dataBev ht).symm.trans hd)).of_transfer ht

theorem Idle.of_some {b : Nat} (h : s.conn.dataBev = some b) : Idle s := fun hd => by rw [h] at hd; cases hd

/-- `close_data_connection` takes every callback back. -/
theorem closeDataConnection_settled (s : Session σ) : Settled (closeDataConnection env s) := by
  unfold closeDataConnection
  split <;> exact ⟨rfl, rfl, rfl, rfl, rfl⟩

theorem bevWrite_conn {b : Nat} {bytes : Bytes} {files : List Int} (s : Session σ) :
    (bevWrite env b bytes files s).conn = s.conn := by
  unfold bevWrite
  split <;> rfl

theorem drainInput_conn (b fuel : Nat) (s : Session σ) : (drainInput env b fuel s).conn = s.conn :=
  drainInput_inv (P := fun s' => s'.conn = s.conn) (fun _ _ _ h => h) (fun _ h => h) (fun _ h => h) fuel s rfl

theorem closeFd_conn (fd : Int) (s : Session σ) : (closeFd env fd s).conn = s.conn := by
  unfold closeFd
  split <;> rfl

end Slots

/-! ## LIST and NLST -/

section Listing

variable {env} {s₀ s : Session σ}

theorem Aside.listEntries (h : Aside s₀ s) {path : Bytes} {description hidden human : Bool} {names : List Bytes} :
    Aside s₀ (s.listEntries env path description hidden human names).2 :=
  listEntries_inv (fun _ _ h => h.did env (e := .call _) trivial) names s h

theorem sendListing_dataBev (evbuf : Bytes) (s : Session σ) :
    (sendListing env evbuf s).conn.dataBev = s.conn.dataBev := by
  unfold sendListing
  split
  · rfl
  · split
    · rfl
    · rw [bevWrite_conn]

theorem sendListCommandOutput_dataBev {path : Bytes} {description hidden human : Bool} (s : Session σ) :
    (sendListCommandOutput env path description hidden human s).conn.dataBev = s.conn.dataBev := by
  have hdir : Aside s (sysOpendir env path s).2 := Aside.refl.sysOpendir
  unfold sendListCommandOutput
  dsimp only
  split
  · exact congrArg Transfer.dataBev hdir.transfer
  · rename_i fd names _
    rw [sendListing_dataBev, closeFd_conn]
    exact congrArg Transfer.dataBev hdir.listEntries.transfer

end Listing

/-! ## The transfer commands -/

section Commands

variable {env} {s : Session σ} {cmd : CftpCommand}

/-- Without a data connection a transfer command does nothing to transfers. -/
theorem transferCommand_none {a : Action} (ht : a.transfers = true) (hd : s.conn.dataBev = none) :
    Aside s (runAction env a cmd s) := by
  have h : Aside s s := .refl
  have hlist : ∀ description, Aside s (handleListCommand env cmd description s) := by
    intro description
    unfold handleListCommand
    split
    · exact (Aside.rule env s).reply ((Aside.rule env s).setControlWriteCb h)
    · rw [if_pos (by rw [hd]; rfl)]
      exact h.reply
  cases a with
  | list => exact hlist true
  | nlst => exact hlist false
  | retr =>
    refine (Aside.rule env s).withArg h fun path _ => ?_
    unfold cftpSendFile ftpSendFileWithEvbuffer ftpSendFilePlain
    rw [hd]
    split <;> exact h
  | stor =>
    refine (Aside.rule env s).withArg h fun path _ => ?_
    unfold cftpRecvFileWithEvbuffer
    rw [if_pos (by rw [hd]; rfl)]
    exact h.reply
  | _ => cases ht

theorem Aside.sysOpenRead {s₀ : Session σ} (h : Aside s₀ s) {path : Bytes} : Aside s₀ (s.sysOpenRead env path).2 := by
  have h₁ : Aside s₀ (s.call env (.openRead path)) := h.did env (e := .call (.openRead path)) trivial
  unfold Session.sysOpenRead
  split
  · exact h₁.newFd
  · exact h₁

theorem sysOpenWrite_conn (path : Bytes) (s : Session σ) : (sysOpenWrite env path s).2.conn = s.conn := by
  unfold sysOpenWrite
  split <;> rfl

theorem sendNextChunk_dataBev (b : Nat) (s : Session σ) : (sendNextChunk env b s).conn.dataBev = s.conn.dataBev := by
  have hend : ∀ {p : Prop} [Decidable p] {cb : DataWriteCb},
      (if p then { s with conn := { s.conn with dataWriteCb := some cb } } else s).conn.dataBev = s.conn.dataBev := by
    intro p _ cb
    split <;> rfl
  unfold sendNextChunk
  split
  · rfl
  · dsimp only
    split
    · rw [closeFd_conn]
      exact hend
    · rw [closeFd_conn]
      exact hend
    · rw [bevWrite_conn]
      exact hend

theorem cftpSendFile_dataBev (path : Bytes) (s : Session σ) :
    (cftpSendFile env path s).conn.dataBev = s.conn.dataBev := by
  have hopen : (sysOpenRead env path s).2.conn.dataBev = s.conn.dataBev :=
    congrArg Transfer.dataBev (Aside.refl.sysOpenRead (s := s)).transfer
  unfold cftpSendFile ftpSendFileWithEvbuffer ftpSendFilePlain
  split
  · split
    · rfl
    · dsimp only
      split
      · exact hopen
      · split
        · rw [closeFd_conn]
          exact hopen
        · rw [sendNextChunk_dataBev]
          exact hopen
  · split
    · rfl
    · dsimp only
      split
      · exact hopen
      · split
        · exact (congrArg Connection.dataBev (closeFd_conn _ _)).trans hopen
        · rw [bevWrite_conn]
          exact hopen

theorem cftpRecvFileWithEvbuffer_dataBev (path : Bytes) (s : Session σ) :
    (cftpRecvFileWithEvbuffer env path s).conn.dataBev = s.conn.dataBev := by
  have hopen : (sysOpenWrite env path s).2.conn.dataBev = s.conn.dataBev :=
    congrArg Connection.dataBev (sysOpenWrite_conn path s)
  unfold cftpRecvFileWithEvbuffer
  split
  · rfl
  · dsimp only
    split
    · exact hopen
    · split <;> exact hopen

theorem handleListCommand_dataBev (description : Bool) (s : Session σ) :
    (handleListCommand env cmd description s).conn.dataBev = s.conn.dataBev := by
  unfold handleListCommand
  split
  · rfl
  · rename_i flags _
    have hdir : (sysOpendir env (listPath flags) s).2.conn.dataBev = s.conn.dataBev :=
      congrArg Transfer.dataBev (Aside.refl.sysOpendir (s := s)).transfer
    split
    · rfl
    · split
      · rfl
      · dsimp only
        split
        · exact hdir
        · unfold startList
          split
          · exact hdir
          · rw [sendListCommandOutput_dataBev]
            exact hdir

/-- A transfer command works on the data connection there is. -/
theorem transferCommand_dataBev {a : Action} (ht : a.transfers = true) (s : Session σ) :
    (runAction env a cmd s).conn.dataBev = s.conn.dataBev := by
  have harg : ∀ {text : String} {action : Bytes → Session σ → Session σ},
      (∀ path, (action path s).conn.dataBev = s.conn.dataBev) →
      (withArg env cmd text action s).conn.dataBev = s.conn.dataBev := by
    intro text action h
    unfold withArg
    split
    · exact h _
    · rfl
  cases a with
  | list => exact handleListCommand_dataBev true s
  | nlst => exact handleListCommand_dataBev false s
  | retr => exact harg fun path => cftpSendFile_dataBev path s
  | stor => exact harg fun path => cftpRecvFileWithEvbuffer_dataBev path s
  | _ => cases ht

end Commands

/-! ## The events of the data connection -/

section Events

variable {env} {s : Session σ} {b : Nat}

theorem dataConnectionWriteCb_dataBev (b : Nat) (s : Session σ) :
    (dataConnectionWriteCb env b s).conn.dataBev = s.conn.dataBev := by
  unfold dataConnectionWriteCb
  split
  · rfl
  · exact sendNextChunk_dataBev b s
  · rfl
  · unfold downloadCompletionOnPlainConnectionCb
    split
    · rfl
    · split <;> rfl
  · rfl

theorem dataConnected_dataBev (s : Session σ) :
    (dataConnected env s).conn.dataBev = s.conn.dataBev ∨ Settled (dataConnected env s) := by
  unfold dataConnected
  dsimp only
  split
  · split
    · rename_i cb _
      cases cb with
      | listTlsOnBevEventConnected => exact .inl (sendListCommandOutput_dataBev _)
      | storTlsOnBevEventConnected => exact .inl rfl
      | closeDataConnectionOnWritecb => exact .inr (closeDataConnection_settled _)
    · exact .inl rfl
  · exact .inl rfl

theorem dataEof_dataBev (s : Session σ) : (dataEof env s).conn.dataBev = s.conn.dataBev := by
  unfold dataEof
  split
  · unfold onEofEventCb
    split
    · rfl
    · rename_i d _
      split
      · have hdrain : (drainInput env d env.spin s).conn.dataBev = s.conn.dataBev :=
          congrArg Connection.dataBev (drainInput_conn d env.spin s)
        unfold Session.andThen
        split
        · exact hdrain
        · exact (congrArg Connection.dataBev (closeFd_conn _ _)).trans hdrain
      · rfl
  · rfl

/-- Without a callback, the handshake only makes the data connection active. -/
theorem dataConnected_none (h : s.conn.dataTlsEventConnectedCb = none) :
    dataConnected env s = { s with conn := { s.conn with dataActive := s.conn.dataActive + 1 } } := by
  simp [dataConnected, h]

theorem dataEof_none (h : s.conn.dataEofEventCb = none) : dataEof env s = s := by simp only [dataEof, h]

theorem dataConnected_settled (h : Settled s) : Settled (dataConnected env s) := by
  rw [dataConnected_none h.none.connected]
  exact h.of_transfer rfl

theorem dataEof_settled (h : Settled s) : Settled (dataEof env s) := by
  rw [dataEof_none h.none.eof]
  exact h

/-- The three parts of `data_connection_event_cb`: a property each of them keeps. -/
theorem dataConnectionEventCb_inv {P : Session σ → Prop} {connected timeout error eof : Bool}
    (hc : connected = true → ∀ s, P s → P (dataConnected env s)) (he : eof = true → ∀ s, P s → P (dataEof env s))
    (hclose : (eof || error || timeout) = true → ∀ s, P s → P (closeDataConnection env s)) (hs : P s) :
    P (dataConnectionEventCb env connected timeout error eof s) := by
  rw [dataConnectionEventCb]
  refine andThen_of ?_ fun _ h => andThen_of ?_ fun _ h => ?_
  · split
    · rename_i hflag
      exact hc hflag s hs
    · exact hs
  · split
    · rename_i hflag
      exact he hflag _ h
    · exact h
  · split
    · rename_i hflag
      exact hclose hflag _ h
    · exact h

variable (env s) in
/-- The end of a data connection, unless its last callback does not return. -/
theorem dataConnectionEventCb_closing (connected : Bool) {timeout error eof : Bool}
    (h : (eof || error || timeout) = true) :
    (dataConnectionEventCb env connected timeout error eof s).ended ≠ none ∨
      Settled (dataConnectionEventCb env connected timeout error eof s) := by
  have hthen : ∀ (s : Session σ) (f : Session σ → Session σ), ((f s).ended ≠ none ∨ Settled (f s)) →
      ((s.andThen f).ended ≠ none ∨ Settled (s.andThen f)) := by
    intro s f hf
    unfold Session.andThen
    split
    · rename_i hended
      exact .inl (Option.isSome_iff_ne_none.mp hended)
    · exact hf
  unfold dataConnectionEventCb
  refine hthen _ _ (hthen _ _ ?_)
  rw [if_pos h]
  exact .inr (closeDataConnection_settled _)

theorem dataConnectionEventCb_open (connected : Bool) :
    dataConnectionEventCb env connected false false false s = if connected then dataConnected env s else s := by
  simp [dataConnectionEventCb, Session.andThen]

/-- An event of the data connection keeps it, or all is settled after it. -/
theorem dataEvent_dataBev {e : Event} (he : DataEventOf b e) (hd : s.conn.dataBev = some b) :
    (handle env e s).conn.dataBev = some b ∨ Settled (handle env e s) := by
  cases he with
  | read bytes =>
    simp only [handle]
    split
    · split
      · exact .inl hd
      · unfold dataConnectionReadCb
        split
        · exact .inl ((congrArg Connection.dataBev (drainInput_conn b env.spin _)).trans hd)
        · exact .inl hd
    · exact .inl hd
  | write n =>
    simp only [handle]
    split
    · split
      · exact .inl hd
      · split
        · exact .inl ((dataConnectionWriteCb_dataBev b _).trans hd)
        · exact .inl hd
    · exact .inl hd
  | event connected timeout error eof =>
    simp only [handle]
    split
    · refine dataConnectionEventCb_inv (P := fun s => s.conn.dataBev = some b ∨ Settled s) (fun _ s h => ?_)
        (fun _ s h => ?_) (fun _ s _ => .inr (closeDataConnection_settled s)) (.inl hd)
      · rcases h with h | h
        · exact (dataConnected_dataBev s).imp_left fun heq => heq.trans h
        · exact .inr (dataConnected_settled h)
      · rcases h with h | h
        · exact .inl ((dataEof_dataBev s).trans h)
        · exact .inr (dataEof_settled h)
    · exact .inl hd

/-- Without callbacks, events set none. -/
theorem dataEvent_noCallbacks {e : Event} (he : DataEventOf b e) (h : NoCallbacks s.conn) :
    NoCallbacks (handle env e s).conn := by
  cases he with
  | read bytes =>
    simp only [handle]
    split
    · split
      · exact h
      · simp only [dataConnectionReadCb, dataArrives, h.read]
        exact h
    · exact h
  | write n =>
    simp only [handle]
    split
    · split
      · exact h
      · split
        · simp only [dataConnectionWriteCb, dataLeaves, h.write]
          exact h
        · exact h
    · exact h
  | event connected timeout error eof =>
    simp only [handle]
    split
    · refine dataConnectionEventCb_inv (P := fun s => NoCallbacks s.conn) (fun _ s h => ?_) (fun _ s h => ?_)
        (fun _ s _ => (closeDataConnection_settled s).none) h
      · rw [dataConnected_none h.connected]
        exact ⟨h.read, h.write, h.connected, h.eof⟩
      · rw [dataEof_none h.eof]
        exact h
    · exact h

end Events

/-! ## Runs -/

/-- A client connects where there is no data connection, or the bufferevent for it cannot be made. -/
theorem newDataBev_cases {s : Session σ} (hd : s.conn.dataBev = none) :
    newDataBev env s = s ∨
      newDataBev env s = fresh (emit env (.bevNew s.nextId s.conn.dataTlsRequired)
        { s with
          bevs := Function.update s.bevs s.nextId (some ⟨s.conn.dataTlsRequired, [], [], 0, [], []⟩)
          conn := { s.conn with dataBev := some s.nextId } }) := by
  unfold newDataBev
  split
  · exact .inr rfl
  · refine .inl ?_
    rw [← hd]

/-- **One event**, in a session with one data connection at a time, leaves no callback behind. -/
theorem step_idle (e : Event) {s : Session σ} (hsingle : Single s) (h : Idle s) (hg : AcceptsOne e s) :
    Idle (step env e s) := by
  have hst := step_transfer env e s
  generalize step env e s = s' at hst ⊢
  cases hst with
  | aside ha => exact h.of_transfer ha.transfer
  | @command chunk a hs ha ht =>
    have hrec : Idle (received s chunk) := h.of_transfer rfl
    cases hd : (received s chunk).conn.dataBev with
    | none => exact hrec.of_transfer (transferCommand_none ht hd).transfer
    | some d => exact .of_some ((transferCommand_dataBev ht _).trans hd)
  | abort => exact (closeDataConnection_settled _).idle.of_transfer rfl
  | flush hs hcb ht => exact (closeDataConnection_settled _).idle.of_transfer ht
  | @connect listener fd addr hs hl hp =>
    obtain ⟨s₁, ha₁, ha₂⟩ := accept_aside env fd hs hl hp
    have hd : s₁.conn.dataBev = none :=
      (congrArg Transfer.dataBev ha₁.transfer).trans (hg listener fd addr rfl hs hl hp)
    have h₁ : Idle s₁ := h.of_transfer ha₁.transfer
    refine Idle.of_transfer ?_ ha₂.transfer
    rcases newDataBev_cases env hd with heq | heq
    · rw [heq]
      exact h₁
    · rw [heq]
      exact .of_some rfl
  | data hs he hv =>
    rcases dataEvent_dataBev he (hsingle.only _ _ hv) with hd | hsettled
    · exact .of_some hd
    · exact hsettled.idle

/-- **No callback is left over**: over every run with one data connection at a time. -/
theorem reached_idle (addr : SockAddr) (proc : Proc) (os : σ) (es : List Event)
    (hg : Guarded (step env) AcceptsOne es (start env addr proc os)) :
    Single (reached env addr proc os es) ∧ Idle (reached env addr proc os es) :=
  run_inv_of_guarded (P := fun s => Single s ∧ Idle s)
    (fun e _ hg h => ⟨step_single env e h.1 hg, step_idle env e h.1 h.2 hg⟩) es hg
    ⟨start_single env addr proc os, fun _ => ⟨rfl, rfl, rfl, rfl⟩⟩

/-! ## Before the first transfer -/

/-- No transfer command comes while `b` is the data connection. -/
def NoTransfer (b : Nat) (e : Event) (s : Session σ) : Prop :=
  ∀ chunk a, e = .controlRead chunk → handlerOf s chunk = some a → a.transfers = true → s.conn.dataBev ≠ some b

theorem step_unused {b : Nat} (e : Event) {s : Session σ} (hsingle : Single s) (hidle : Idle s)
    (h : s.conn.dataBev = some b → NoCallbacks s.conn) (hg : AcceptsOne e s) (hno : NoTransfer b e s)
    (hd' : (step env e s).conn.dataBev = some b) : NoCallbacks (step env e s).conn := by
  have hst := step_transfer env e s
  generalize step env e s = s' at hst hd' ⊢
  cases hst with
  | aside ha => exact (h ((congrArg Transfer.dataBev ha.transfer).symm.trans hd')).of_transfer ha.transfer
  | @command chunk a hs ha ht =>
    exact absurd ((transferCommand_dataBev ht (received s chunk)).symm.trans hd') (hno chunk a rfl ha ht)
  | abort => exact absurd hd' (((closeDataConnection_settled _).of_transfer rfl).dataBev_ne b)
  | flush hs hcb ht => exact absurd hd' (((closeDataConnection_settled _).of_transfer ht).dataBev_ne b)
  | @connect listener fd addr hs hl hp =>
    obtain ⟨s₁, ha₁, ha₂⟩ := accept_aside env fd hs hl hp
    have hd : s.conn.dataBev = none := hg listener fd addr rfl hs hl hp
    have hnone : NoCallbacks s₁.conn := (hidle hd).of_transfer ha₁.transfer
    refine NoCallbacks.of_transfer (s := newDataBev env s₁) ?_ ha₂.transfer
    rcases newDataBev_cases env ((congrArg Transfer.dataBev ha₁.transfer).trans hd) with heq | heq
    · rw [heq]
      exact hnone
    · rw [heq]
      exact ⟨hnone.read, hnone.write, hnone.connected, hnone.eof⟩
  | @data d v _ hs he hv =>
    have hd : s.conn.dataBev = some d := hsingle.only d v hv
    rcases dataEvent_dataBev he hd with hkept | hsettled
    · rw [hkept, Option.some.injEq] at hd'
      exact dataEvent_noCallbacks he (h (hd.trans (congrArg some hd')))
    · exact absurd hd' (hsettled.dataBev_ne b)

/-- **A data connection without a transfer has no callbacks.** -/
theorem reached_unused (addr : SockAddr) (proc : Proc) (os : σ) (es : List Event) (b : Nat)
    (hg : Guarded (step env) (fun e s => AcceptsOne e s ∧ NoTransfer b e s) es (start env addr proc os)) :
    Single (reached env addr proc os es) ∧
      ((reached env addr proc os es).conn.dataBev = some b → NoCallbacks (reached env addr proc os es).conn) := by
  have h := run_inv_of_guarded (P := fun s => Single s ∧ Idle s ∧ (s.conn.dataBev = some b → NoCallbacks s.conn))
    (fun e _ hg h => ⟨step_single env e h.1 hg.1, step_idle env e h.1 h.2.1 hg.1,
      step_unused env e h.1 h.2.1 h.2.2 hg.1 hg.2⟩) es hg
    ⟨start_single env addr proc os, fun _ => ⟨rfl, rfl, rfl, rfl⟩, fun _ => ⟨rfl, rfl, rfl, rfl⟩⟩
  exact ⟨h.1, h.2.2⟩

end CftpServer.Session
