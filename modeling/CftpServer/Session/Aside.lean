import CftpServer.Session.Frame

/-!
# What leaves the transfers alone

The slots of a transfer are fields of the connection that LIST, RETR and STOR set and the callbacks of a data connection
read. `Aside s s'` says that on the way from `s` to `s'` neither a slot nor a bufferevent was touched.

* `runAction_aside`: the commands other than transfers and ABOR
* `step_transfer`: what an event does to the transfers of a session
-/

namespace CftpServer

open CLib

/-- The commands that use the data connection. -/
def Command.Action.transfers : Command.Action → Bool
  | .list | .nlst | .retr | .stor => true
  | _ => false

/-- Effects outside of any transfer: no file is opened for writing and nothing moves on a data connection. -/
def Effect.IsAside : Effect → Prop
  | .call (.openWrite _) => False
  | .bevNew _ _ => False
  | .bevWrite _ _ _ => False
  | .bevFree _ _ => False
  | .store _ _ _ _ => False
  | _ => True

/-- A descriptor is opened or closed. -/
def Effect.OnDescriptor : Effect → Prop
  | .opened _ => True
  | .closed _ => True
  | _ => False

namespace Session

open Command Security Growth

/-- The slots of a transfer and the bufferevents. -/
structure Transfer where
  dataReadCb : Option DataReadCb
  dataWriteCb : Option DataWriteCb
  dataTlsEventConnectedCb : Option DataConnectedCb
  dataEofEventCb : Option DataEofCb
  dataStream : Option FileStream
  path : Bytes
  description : Bool
  hidden : Bool
  human : Bool
  dataBev : Option Nat
  uploadFd : Int
  bevs : Nat → Option Bev

variable {σ : Type} (env : Env σ)

def transfer (s : Session σ) : Transfer where
  dataReadCb := s.conn.dataReadCb
  dataWriteCb := s.conn.dataWriteCb
  dataTlsEventConnectedCb := s.conn.dataTlsEventConnectedCb
  dataEofEventCb := s.conn.dataEofEventCb
  dataStream := s.conn.dataStream
  path := s.conn.path
  description := s.conn.description
  hidden := s.conn.hidden
  human := s.conn.human
  dataBev := s.conn.dataBev
  uploadFd := s.conn.uploadFd
  bevs := s.bevs

/-- The transfers of `s` are left alone on the way to `s'`. -/
structure Aside (s s' : Session σ) : Prop where
  transfer : s'.transfer = s.transfer
  nextId : s.nextId ≤ s'.nextId
  log : ∃ d, s'.log = s.log ++ d ∧ ∀ e ∈ d, e.IsAside

/-! ## A rule for the commands that leave the transfers alone -/

theorem andThen_of {P : Session σ → Prop} {s : Session σ} (h : P s) {f : Session σ → Session σ}
    (hf : s.ended = none → P s → P (f s)) : P (s.andThen f) := by
  unfold Session.andThen
  split
  · exact h
  · rename_i hs
    exact hf (by simpa using hs) h

/-- `P` survives what is aside from the transfers and concerns no descriptor. -/
structure AsideRule (P : Session σ → Prop) : Prop where
  did : ∀ {s : Session σ} {e : Effect}, e.IsAside → ¬ e.OnDescriptor → P s → P (emit env e s)
  keep : ∀ {s s' : Session σ}, P s → s'.transfer = s.transfer → s'.log = s.log → s.nextId ≤ s'.nextId →
    (s'.ended = none → s.ended = none) → P s'

namespace AsideRule

variable {env} {P : Session σ → Prop} {s : Session σ} (r : AsideRule env P)
include r

theorem crash (h : P s) : P s.crash := r.keep h rfl rfl le_rfl (fun he => (by cases he))

theorem reply (h : P s) {n : Nat} {text : Bytes} : P (sendControlMessage env n text s) :=
  r.keep (r.did (e := .reply n text) trivial id h) rfl rfl le_rfl id

theorem text (h : P s) {text : Bytes} : P (writeTextResponse env text s) :=
  r.keep (r.did (e := .text text) trivial id h) rfl rfl le_rfl id

theorem setControlWriteCb (h : P s) {cb : ControlWriteCb} : P (s.setControlWriteCb cb) := r.keep h rfl rfl le_rfl id

theorem sysStat (h : P s) {path : Bytes} : P (s.sysStat env path).2 := r.did (e := .call (.stat path)) trivial id h

theorem sysMkdir (h : P s) {path : Bytes} : P (s.sysMkdir env path).2 := r.did (e := .call (.mkdir path)) trivial id h

theorem sysRmdir (h : P s) {path : Bytes} : P (s.sysRmdir env path).2 := r.did (e := .call (.rmdir path)) trivial id h

theorem sysChdir (h : P s) {path : Bytes} : P (s.sysChdir env path).2 := by
  have h₁ : P (s.call env (.chdir path)) := r.did (e := .call (.chdir path)) trivial id h
  unfold Session.sysChdir
  split
  · exact r.keep h₁ rfl rfl le_rfl id
  · exact h₁

/-! ### Listeners and timers -/

theorem dropListener (h : P s) : P (s.dropListener env) := by
  have hfree : ∀ l, P (emit env (.listenerFree l) s) := fun l => r.did (e := .listenerFree l) trivial id h
  unfold Session.dropListener listenerFree
  split
  · rename_i l _
    dsimp only
    split
    · exact r.keep (hfree l) rfl rfl le_rfl id
    · exact r.keep (hfree l) rfl rfl le_rfl (fun he => (by cases he))
  · exact h

theorem timeoutEventFree (h : P s) : P (s.timeoutEventFree env) := by
  unfold Session.timeoutEventFree
  split
  · exact r.crash h
  · rename_i t _
    have hfree : P (emit env (.timerFree t) s) := r.did (e := .timerFree t) trivial id h
    split
    · exact r.keep hfree rfl rfl le_rfl id
    · exact r.crash hfree

theorem tryPort (h : P s) {port : Nat} : P (s.tryPort env port) := by
  have hbind : P (emit env (.bind port) s) := r.did (e := .bind port) trivial id h
  unfold Session.tryPort
  dsimp only
  split
  · have hnew : P (emit env (.listenerNew s.nextId port) (emit env (.bind port) s)) :=
      r.did (e := .listenerNew s.nextId port) trivial id hbind
    exact r.keep hnew rfl rfl (Nat.le_succ _) id
  · exact r.keep hbind rfl rfl le_rfl id

theorem portLoop (fuel : Nat) : ∀ (port : Nat) {s : Session σ}, P s → P (s.portLoop env fuel port).2 := by
  induction fuel with
  | zero => exact fun _ _ h => r.keep h rfl rfl le_rfl (fun he => (by cases he))
  | succ fuel ih =>
    intro port s h
    unfold Session.portLoop
    split
    · dsimp only
      split
      · exact r.tryPort h
      · exact ih _ (r.tryPort h)
    · exact h

theorem announcePort (h : P s) {extended : Bool} {ip : UInt8 × UInt8 × UInt8 × UInt8} {port : Nat} :
    P (s.announcePort env extended ip port) := by
  unfold Session.announcePort
  split
  · exact r.reply h
  · have htimer : P (s.timerNew env .killListenerOnTimeout) :=
      r.keep (r.did (e := .timerNew s.nextId) trivial id h) rfl rfl (Nat.le_succ _) id
    dsimp only
    split <;> exact r.reply htimer

theorem dataConnectionListenerConfig (h : P s) {extended : Bool} : P (s.dataConnectionListenerConfig env extended) := by
  refine andThen_of (r.dropListener h) fun _ h => ?_
  split
  · exact andThen_of (r.portLoop _ _ h) fun _ h => r.announcePort h
  · exact r.reply h

/-! ### The commands -/

theorem withArg (h : P s) {cmd : CftpCommand} {text : String} {action : Bytes → Session σ → Session σ}
    (ha : ∀ arg, cmd.args = [arg] → P (action arg s)) : P (s.withArg env cmd text action) := by
  unfold Session.withArg
  split
  · rename_i arg hargs
    exact ha arg hargs
  · exact r.reply h

/-- The commands that are no transfers, apart from ABOR and DELE. -/
theorem runAction {a : Action} (ht : a.transfers = false) (hab : a ≠ .abor) (hdele : a ≠ .dele) (cmd : CftpCommand)
    (h : P s) : P (runAction env a cmd s) := by
  cases a with
  | list | nlst | retr | stor => cases ht
  | abor => exact absurd rfl hab
  | dele => exact absurd rfl hdele
  | syst | quit | pbsz | noop | feat | nonAuthenticated | authenticated => exact r.reply h
  | epsv => exact r.dataConnectionListenerConfig h
  | pasv => exact r.dataConnectionListenerConfig h
  | auth =>
    rw [Session.runAction, cftpAuthAction]
    refine r.withArg h fun arg _ => ?_
    split
    · have hr : P (sendControlMessage env 234 (ascii "AUTH TLS Success") s) := r.reply h
      simp only [upgradeToTls]
      split
      · exact r.keep hr rfl rfl le_rfl id
      · exact r.crash hr
    · exact r.reply h
  | prot =>
    rw [Session.runAction, cftpProtAction]
    refine r.withArg h fun arg _ => ?_
    split
    · apply r.reply
      exact r.keep h rfl rfl le_rfl id
    · exact r.reply h
  | type =>
    have hmode : ∀ mode, P { s with conn := { s.conn with transferMode := mode } } :=
      fun _ => r.keep h rfl rfl le_rfl id
    rw [Session.runAction, cftpTypeAuthenticatedAction]
    refine r.withArg h fun arg _ => ?_
    split
    · exact r.reply (hmode _)
    · split
      · exact r.reply (hmode _)
      · exact r.reply h
  | size =>
    rw [Session.runAction, cftpSizeAuthenticatedAction]
    refine r.withArg h fun arg _ => ?_
    split
    · exact r.reply h
    · dsimp only
      split
      · exact r.reply (r.sysStat h)
      · split <;> exact r.reply (r.sysStat h)
  | mdtm =>
    refine r.withArg h fun arg _ => ?_
    simp only [handleMdtmCommand]
    split
    · exact r.reply (r.sysStat h)
    · split <;> exact r.reply (r.sysStat h)
  | cwd =>
    rw [Session.runAction, cftpCwdAuthenticatedAction]
    refine r.withArg h fun arg _ => ?_
    split
    · unfold handleCwdCommand
      split
      · exact r.text h
      · split
        · exact r.reply h
        · dsimp only
          split
          · exact r.text (r.sysStat h)
          · split <;> exact r.text (r.sysChdir (r.sysStat h))
    · exact r.reply h
  | pwd =>
    simp only [Session.runAction, cftpPwdAuthenticatedAction]
    split <;> exact r.reply h
  | mkd =>
    rw [Session.runAction, cftpMkdAuthenticatedAction]
    refine r.withArg h fun arg _ => ?_
    split
    · exact r.reply h
    · dsimp only
      split
      · exact r.reply (r.sysStat h)
      · split <;> exact r.reply (r.sysMkdir (r.sysStat h))
  | rmd =>
    rw [Session.runAction, cftpRmdAuthenticatedAction]
    refine r.withArg h fun arg _ => ?_
    split
    · exact r.reply h
    · dsimp only
      split
      · exact r.reply (r.sysStat h)
      · split <;> exact r.reply (r.sysRmdir (r.sysStat h))
  | user =>
    have hname : ∀ username, P { s with conn := { s.conn with username := username } } :=
      fun _ => r.keep h rfl rfl le_rfl id
    simp only [Session.runAction, cftpUserAuthenticated]
    split
    · split
      · exact r.reply (hname _)
      · exact r.reply h
    · exact r.reply (r.setControlWriteCb h)
  | pass =>
    simp only [Session.runAction, cftpPassAuthenticated]
    split
    · rename_i arg _
      have hlogin : P (loggedIn env arg s) :=
        r.keep (r.did (e := .authenticate s.conn.username arg (login env arg s).ok) trivial id h) rfl rfl
          le_rfl id
      split
      · have hreply : P (sendControlMessage env 230 (ascii "User logged in") (loggedIn env arg s)) := r.reply hlogin
        apply r.timeoutEventFree
        exact r.keep hreply rfl rfl le_rfl id
      · exact r.reply hlogin
    · exact r.reply (r.setControlWriteCb h)

end AsideRule

/-! ## Leaving the transfers alone -/

namespace Aside

variable {env} {s₀ s s' : Session σ}

theorem of_eq (ht : s'.transfer = s.transfer) (hlog : s'.log = s.log) (hid : s.nextId ≤ s'.nextId) : Aside s s' :=
  ⟨ht, hid, Grown.of_eq hlog⟩

theorem refl : Aside s s := of_eq rfl rfl le_rfl

theorem trans (h : Aside s₀ s) (h' : Aside s s') : Aside s₀ s' :=
  ⟨h'.transfer.trans h.transfer, h.nextId.trans h'.nextId, Grown.trans h.log h'.log⟩

theorem did (env : Env σ) (h : Aside s₀ s) {e : Effect} (he : e.IsAside) : Aside s₀ (emit env e s) :=
  h.trans ⟨rfl, le_rfl, Grown.one he⟩

theorem keep (h : Aside s₀ s) (ht : s'.transfer = s.transfer) (hlog : s'.log = s.log) (hid : s.nextId ≤ s'.nextId) :
    Aside s₀ s' := h.trans (of_eq ht hlog hid)

theorem rule (env : Env σ) (s₀ : Session σ) : AsideRule env (Aside s₀) :=
  ⟨fun he _ h => h.did env he, fun h ht hlog hid _ => h.keep ht hlog hid⟩

theorem reply (h : Aside s₀ s) {n : Nat} {text : Bytes} : Aside s₀ (sendControlMessage env n text s) :=
  (rule env s₀).reply h

theorem dropListener (h : Aside s₀ s) : Aside s₀ (s.dropListener env) := (rule env s₀).dropListener h

theorem timeoutEventFree (h : Aside s₀ s) : Aside s₀ (s.timeoutEventFree env) := (rule env s₀).timeoutEventFree h

theorem dataConnectionListenerConfig (h : Aside s₀ s) {extended : Bool} :
    Aside s₀ (s.dataConnectionListenerConfig env extended) := (rule env s₀).dataConnectionListenerConfig h

theorem newFd (h : Aside s₀ s) : Aside s₀ (s.newFd env).2 :=
  (h.did env (e := .opened s.nextId) trivial).keep rfl rfl (Nat.le_succ _)

theorem closeFd (h : Aside s₀ s) {fd : Int} : Aside s₀ (s.closeFd env fd) := by
  unfold Session.closeFd
  split
  · exact h
  · exact h.did env (e := .closed fd) trivial

theorem sysOpendir (h : Aside s₀ s) {path : Bytes} : Aside s₀ (s.sysOpendir env path).2 := by
  have h₁ : Aside s₀ (s.call env (.opendir path)) := h.did env (e := .call (.opendir path)) trivial
  unfold Session.sysOpendir
  split
  · exact h₁.newFd
  · exact h₁

theorem deleteDirectoryRecursively (h : Aside s₀ s) {depth : Nat} {path : Bytes} :
    Aside s₀ (s.deleteDirectoryRecursively env depth path).2 :=
  deleteDirectoryRecursively_inv (fun _ _ h => h.did env (e := .call _) trivial)
    (fun _ _ h => h.did env (e := .call _) trivial) (fun _ _ h => h.sysOpendir)
    (fun _ _ h => h.did env (e := .call _) trivial) (fun _ _ h => h.closeFd) (fun _ h => h.keep rfl rfl le_rfl) depth
    path s h

end Aside

/-- DELE, from what `delete_directory_recursively` keeps. -/
theorem AsideRule.handleDeleCommand {env : Env σ} {P : Session σ → Prop} (r : AsideRule env P)
    (hrec : ∀ (path : Bytes) (s : Session σ), P s → P (deleteDirectoryRecursively env env.stack path s).2)
    (cmd : CftpCommand) {s : Session σ} (h : P s) : P (handleDeleCommand env cmd s) := by
  have hdeleted : ∀ {s : Session σ} (deleted force : Bool), P s → P (s.replyDeleted env deleted force) := by
    intro s deleted force h
    unfold replyDeleted
    split
    · split <;> exact r.reply h
    · exact r.reply h
  unfold Session.handleDeleCommand
  split
  · exact r.reply h
  · split
    · exact r.reply h
    · simp only [deleteTarget]
      split
      · split <;> exact r.reply (r.sysStat h)
      · split
        · split
          · exact r.reply (r.sysStat h)
          · exact andThen_of (hrec _ _ (r.sysStat h)) fun _ => hdeleted _ _
        · exact hdeleted _ _ (r.did (e := .call _) trivial id (r.sysStat h))

/-- **The commands that are no transfers** leave the transfers alone, ABOR apart. -/
theorem runAction_aside {a : Action} (ht : a.transfers = false) (hab : a ≠ .abor) (cmd : CftpCommand) (s : Session σ) :
    Aside s (runAction env a cmd s) := by
  by_cases hdele : a = .dele
  · subst hdele
    exact (Aside.rule env s).handleDeleCommand (fun _ _ h => h.deleteDirectoryRecursively) cmd .refl
  · exact (Aside.rule env s).runAction ht hab hdele cmd .refl

/-! ## One event -/

/-- The events of a bufferevent. -/
inductive DataEventOf (b : Nat) : Event → Prop where
  | read (bytes : Bytes) : DataEventOf b (.dataRead b bytes)
  | write (n : Nat) : DataEventOf b (.dataWrite b n)
  | event (connected timeout error eof : Bool) : DataEventOf b (.dataEvent b connected timeout error eof)

/-- What an event does to the transfers of a session: nothing, or the session runs and it is one of those that start,
move or end them. -/
inductive TransferStep (s : Session σ) : Event → Session σ → Prop where
  | aside {e : Event} {s' : Session σ} (h : Aside s s') : TransferStep s e s'
  | command {chunk : Bytes} {a : Action} (hs : s.ended = none) (ha : handlerOf s chunk = some a)
      (ht : a.transfers = true) :
      TransferStep s (.controlRead chunk) (runAction env a (commandOf s chunk) (received s chunk))
  | abort {chunk : Bytes} (hs : s.ended = none) (ha : handlerOf s chunk = some .abor)
      (hactive : s.conn.dataActive ≠ 0) :
      TransferStep s (.controlRead chunk) (sendControlMessage env 451 (ascii "closed data connection; tansfer aborted")
        (closeDataConnection env (received s chunk)))
  | flush {n : Nat} {s' : Session σ} (hs : s.ended = none)
      (hcb : s.conn.controlWriteCb = some .closeDataConnectionOnWritecb)
      (hs' : s'.transfer = (closeDataConnection env { s with ctlOut := [] }).transfer)
      (hlog : s'.log = (closeDataConnection env { s with ctlOut := [] }).log)
      (hid : s'.nextId = (closeDataConnection env { s with ctlOut := [] }).nextId) : TransferStep s (.controlWrite n) s'
  | connect {listener : Nat} {fd : Int} {addr : SockAddr} (hs : s.ended = none) (hl : s.listeners listener = true)
      (hp : samePeer s.conn.sourceIp addr = true) :
      TransferStep s (.accept listener fd addr) (dataConnectionAcceptCb env listener fd addr s)
  | data {b : Nat} {v : Bev} {e : Event} (hs : s.ended = none) (he : DataEventOf b e) (hv : s.bevs b = some v) :
      TransferStep s e (handle env e s)

theorem received_aside (s : Session σ) (chunk : Bytes) : Aside s (received s chunk) := .of_eq rfl rfl le_rfl

/-- A command, in these terms. -/
theorem runCommand_transfer (chunk : Bytes) {s : Session σ} (hs : s.ended = none) :
    TransferStep env s (.controlRead chunk) (runCommand env chunk s) := by
  have hrec := received_aside s chunk
  rw [runCommand]
  cases ha : handlerOf s chunk with
  | none => exact .aside (hrec.reply)
  | some a =>
    cases ht : a.transfers with
    | true => exact .command hs ha ht
    | false =>
      by_cases hab : a = .abor
      · subst hab
        simp only [runAction, cftpAborAuthenticatedAction]
        split
        · rename_i hactive
          exact .abort hs ha hactive
        · exact .aside ((Aside.rule env s).reply ((Aside.rule env s).setControlWriteCb hrec))
      · exact .aside (hrec.trans (runAction_aside env ht hab _ _))

/-- The control connection drains. -/
theorem controlWrite_transfer (n : Nat) {s : Session σ} (hs : s.ended = none) :
    TransferStep env s (.controlWrite n) (handle env (.controlWrite n) s) := by
  have hout : Aside s { s with ctlOut := s.ctlOut.drop n } := .of_eq rfl rfl le_rfl
  simp only [handle]
  split
  · exact .aside .refl
  · split
    · rename_i hempty
      simp only [onWrite]
      split
      · rename_i cb hcb
        rw [hempty]
        cases cb with
        | closeDataConnectionOnWritecb => exact .flush hs hcb rfl rfl rfl
        | disableConnectionCb => exact .aside (.of_eq rfl rfl le_rfl)
      · exact .aside hout
    · exact .aside hout

theorem timer_aside (t : Nat) (s : Session σ) : Aside s (handle env (.timer t) s) := by
  simp only [handle]
  split
  · rename_i timer _
    split
    · have hfired : Aside s (timerFires t timer s) := .of_eq rfl rfl le_rfl
      cases timer.callback with
      | terminateProcessOnTimeout => exact (Aside.rule env s).reply ((Aside.rule env s).setControlWriteCb hfired)
      | killListenerOnTimeout => exact hfired.dropListener
    · exact .refl
  · exact .refl

/-- **What one event does to the transfers**: nothing, or it is a transfer command, an ABOR, a reply that is out, a
client that connects, or an event of a data connection. -/
theorem step_transfer (e : Event) (s : Session σ) : TransferStep env s e (step env e s) := by
  rcases step_cases env e s with heq | ⟨chunk, rfl, hne, hs, heq⟩ | ⟨hread, hs, heq⟩
  · rw [heq]
    exact .aside .refl
  · rw [heq]
    exact runCommand_transfer env chunk hs
  · rw [heq]
    cases e with
    | controlRead chunk => exact absurd rfl (hread chunk)
    | controlWrite n => exact controlWrite_transfer env n hs
    | controlEof => exact .aside (.of_eq rfl rfl le_rfl)
    | parentDead => exact .aside (.of_eq rfl rfl le_rfl)
    | timer t => exact .aside (timer_aside env t s)
    | accept listener fd addr =>
      by_cases hl : s.listeners listener = true
      · by_cases hp : samePeer s.conn.sourceIp addr = true
        · simp only [handle, if_pos hl]
          exact .connect hs hl hp
        · simp only [handle, if_pos hl, dataConnectionAcceptCb,
          if_pos (show (!samePeer s.conn.sourceIp addr) = true by simpa using hp)]
          exact .aside (Aside.refl.did env (e := .rejected fd) trivial)
      · simp only [handle, if_neg hl]
        exact .aside .refl
    | dataRead b bytes =>
      cases hv : s.bevs b with
      | none =>
        simp only [handle, hv]
        exact .aside .refl
      | some v => exact .data hs (.read bytes) hv
    | dataWrite b n =>
      cases hv : s.bevs b with
      | none =>
        simp only [handle, hv]
        exact .aside .refl
      | some v => exact .data hs (.write n) hv
    | dataEvent b connected timeout error eof =>
      cases hv : s.bevs b with
      | none =>
        simp only [handle, hv]
        exact .aside .refl
      | some v => exact .data hs (.event connected timeout error eof) hv

/-- A client connects: the listener goes before the new bufferevent comes, the timer after it. -/
theorem accept_aside {s : Session σ} {listener : Nat} (fd : Int) {addr : SockAddr} (hs : s.ended = none)
    (hl : s.listeners listener = true) (hp : samePeer s.conn.sourceIp addr = true) :
    ∃ s₁, Aside s s₁ ∧ Aside (newDataBev env s₁) (dataConnectionAcceptCb env listener fd addr s) := by
  have hfree : Aside s (emit env (.listenerFree listener) s) := Aside.refl.did env (e := .listenerFree listener) trivial
  refine ⟨emit env (.listenerFree listener) { s with
      listeners := Function.update s.listeners listener false
      conn := { s.conn with dataActive := 0, pasvListener := none } }, hfree.keep rfl rfl le_rfl, ?_⟩
  simp only [dataConnectionAcceptCb, hp, Bool.not_true, Bool.false_eq_true, if_false, listenerFree, if_pos hl,
    Session.andThen, emit, hs, Option.isSome_none]
  split
  · exact .refl
  · apply Aside.timeoutEventFree
    exact .of_eq rfl rfl le_rfl

/-- Numbers are never given out again. -/
theorem step_nextId_le (e : Event) (s : Session σ) : s.nextId ≤ (step env e s).nextId := by
  rcases step_moves env e s with hm | ⟨hs, hsp⟩
  · exact hm.nextId_le
  · generalize step env e s = s' at hsp ⊢
    cases hsp with
    | prot => exact le_rfl
    | user => exact le_rfl
    | @pass chunk =>
      exact (received_aside s chunk).nextId.trans (runAction_aside env (a := .pass) rfl (by decide) _ _).nextId
    | @passive chunk => exact ((received_aside s chunk).dataConnectionListenerConfig).nextId
    | accept hl hp =>
      obtain ⟨s₁, ha₁, ha₂⟩ := accept_aside env _ hs hl hp
      have hnew : s₁.nextId ≤ (newDataBev env s₁).nextId := by
        unfold newDataBev
        split
        · exact Nat.le_succ _
        · exact le_rfl
      exact ha₁.nextId.trans (hnew.trans ha₂.nextId)
    | @timer t ht =>
      have hfired : Aside s (timerFires t ⟨.killListenerOnTimeout, true⟩ s) := .of_eq rfl rfl le_rfl
      exact hfired.nextId.trans (Aside.refl.dropListener).nextId

end Session

end CftpServer
