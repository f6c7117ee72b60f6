import CftpServer.Session.Agree
import CftpServer.Session.Answers

/-!
# A further command during a transfer

All transfers of a session share the callbacks, the stream and the descriptor of its connection, and no handler looks
whether a transfer is running. So a further LIST, NLST, RETR or STOR leaves a running transfer alone when it is refused
before it gets at these (`Refused`), and then nothing that follows differs (`refused_undisturbing`).
-/

namespace CftpServer

open CLib

/-- Replies, and opens that fail, leave the system as it is. -/
structure Env.Quiet {σ : Type} (env : Env σ) : Prop where
  reply : ∀ w p n text, env.after w p (.reply n text) = w
  openRead : ∀ w p path, env.openRead w p path = false → env.after w p (.call (.openRead path)) = w

namespace Session

open Command Runs

variable {σ : Type} (env : Env σ)

/-- The transfer command is refused before it gets at what transfers share: it is a RETR or STOR without the one
argument they take, or a RETR of a file that cannot be opened, or there is no data connection. -/
def RefusedEarly (cmd : CftpCommand) (s : Session σ) : Action → Prop
  | .retr => cmd.args.length ≠ 1 ∨ s.conn.dataBev = none ∨
    ∃ path, cmd.args = [path] ∧ env.openRead s.os s.proc path = false
  | .stor => cmd.args.length ≠ 1 ∨ s.conn.dataBev = none
  -- with flags it does not know, LIST queues the close before it looks whether there is a data connection
  | .list | .nlst => (parseListFlags cmd.args ⟨false, false, false, none⟩).isSome ∧ s.conn.dataBev = none
  | _ => False

/-- A further command that comes by itself and is refused. -/
structure Refused (chunk : Bytes) (s : Session σ) : Prop where
  alone : readRest (s.ctlIn ++ chunk) = s.ctlIn
  early : ∃ a, handlerOf s chunk = some a ∧ RefusedEarly env (commandOf s chunk) s a

/-- Two runs side by side, of `es` from `s` and of `es'` from `s'`: the same events, but the second has further
commands that are refused, and its replies leave in portions of their own. -/
inductive Beside : Session σ → List Event → Session σ → List Event → Prop where
  | done (s s' : Session σ) : Beside s [] s' []
  | event {e : Event} {s s' : Session σ} {es es' : List Event} (he : ∀ n, e ≠ .controlWrite n)
      (h : Beside (step env e s) es (step env e s') es') : Beside s (e :: es) s' (e :: es')
  | replies {n n' : Nat} {s s' : Session σ} {es es' : List Event}
      (hout : s.conn.controlWriteCb = none ∨ (RepliesOut n s ↔ RepliesOut n' s'))
      (h : Beside (step env (.controlWrite n) s) es (step env (.controlWrite n') s') es') :
      Beside s (.controlWrite n :: es) s' (.controlWrite n' :: es')
  | further {chunk : Bytes} {s s' : Session σ} {es es' : List Event} (hr : Refused env chunk s')
      (h : Beside s es (step env (.controlRead chunk) s') es') : Beside s es s' (.controlRead chunk :: es')

section Further

variable {env} {s s' : Session σ}

/-- What the system does not notice and moves no bytes. -/
theorem Agree.unnoticed {e : Effect} {ctlOut : Bytes} (hos : env.after s.os s.proc e = s.os)
    (he : e.isMovement = false) :
    Agree s { Session.emit env e s with ctlOut := ctlOut } := by
  refine ⟨s.log ++ [e], ctlOut, ?_, ?_⟩
  · unfold Session.emit
    rw [hos]
  · rw [List.filter_append, List.filter_singleton, he]
    simp

theorem Agree.reply (hq : env.Quiet) (h : Agree s s') {n : Nat} {text : Bytes} :
    Agree s (Session.sendControlMessage env n text s') := h.trans (.unnoticed (hq.reply _ _ _ _) rfl)

/-- A RETR of a file that cannot be opened. -/
theorem cftpSendFile_refused (hq : env.Quiet) {path : Bytes} (hopen : env.openRead s.os s.proc path = false) :
    Agree s (cftpSendFile env path s) := by
  have hcall : Agree s (call env (.openRead path) s) := .unnoticed (hq.openRead _ _ _ hopen) rfl
  cases hd : s.conn.dataBev with
  | none =>
    rw [Moves.cftpSendFile_none hd]
    exact .refl
  | some b =>
    have hfail : sysOpenRead env path s = (none, call env (.openRead path) s) := by
      unfold sysOpenRead
      rw [if_neg (by simp [hopen])]
    simp only [cftpSendFile, ftpSendFileWithEvbuffer, ftpSendFilePlain, hd, hfail]
    split
    · exact hcall
    · exact hcall.reply hq

theorem withArg_refused (hq : env.Quiet) {cmd : CftpCommand} {text : String}
    {action : Bytes → Session σ → Session σ} (h : ∀ path, cmd.args = [path] → Agree s (action path s)) :
    Agree s (withArg env cmd text action s) := by
  unfold withArg
  split
  · rename_i path hpath
    exact h path hpath
  · exact Agree.refl.reply hq

theorem handleListCommand_refused (hq : env.Quiet) {cmd : CftpCommand} {description : Bool}
    (hflags : (parseListFlags cmd.args ⟨false, false, false, none⟩).isSome) (hd : s.conn.dataBev = none) :
    Agree s (handleListCommand env cmd description s) := by
  obtain ⟨flags, hflags⟩ := Option.isSome_iff_exists.mp hflags
  simp only [handleListCommand, hflags, hd, Option.isNone_none, if_true]
  exact Agree.refl.reply hq

theorem runAction_refused (hq : env.Quiet) {cmd : CftpCommand} {a : Action} (h : RefusedEarly env cmd s a) :
    Agree s (runAction env a cmd s) := by
  cases a with
  | retr =>
    refine withArg_refused hq fun path hpath => ?_
    rcases h with hargs | hd | ⟨path', hpath', hopen⟩
    · exact absurd (congrArg List.length hpath) hargs
    · rw [Moves.cftpSendFile_none hd]
      exact .refl
    · obtain rfl : path = path' := by simpa [hpath] using hpath'
      exact cftpSendFile_refused hq hopen
  | stor =>
    refine withArg_refused hq fun path hpath => ?_
    rcases h with hargs | hd
    · exact absurd (congrArg List.length hpath) hargs
    · simp only [cftpRecvFileWithEvbuffer, hd, Option.isNone_none, if_true]
      exact Agree.refl.reply hq
  | list => exact handleListCommand_refused hq h.1 h.2
  | nlst => exact handleListCommand_refused hq h.1 h.2
  | _ => exact h.elim

/-- **A refused command changes nothing** but the log and the replies. -/
theorem Refused.agree (hq : env.Quiet) {chunk : Bytes} (h : Refused env chunk s) :
    Agree s (step env (.controlRead chunk) s) := by
  have hrec : received s chunk = s := by
    unfold received
    rw [h.alone]
  by_cases hs : s.ended = none
  · by_cases hne : chunk = []
    · rw [step_handle hs, handle, if_pos hne]
      exact .refl
    · obtain ⟨a, ha, hearly⟩ := h.early
      rw [step_command hs hne ha, hrec]
      exact runAction_refused hq hearly
  · rw [step_ended hs]
    exact .refl

/-- Two runs side by side agree. -/
theorem Beside.agree (hq : env.Quiet) {es es' : List Event} (h : Beside env s es s' es') (hs : Agree s s') :
    Agree (run (step env) es s) (run (step env) es' s') := by
  induction h with
  | done => exact hs
  | event he _ ih => exact ih (step_agree env hs _ he)
  | @replies n n' s s' _ _ hout _ ih =>
    refine ih (hs.andThen ?_)
    exact hs.controlWrite n n' hout
  | further hr _ ih => exact ih (hs.trans (hr.agree hq))

end Further

/-- **A refused command disturbs no transfer.** In whatever state of a session and its transfers, with whatever
events: when a run has further LIST, NLST, RETR and STOR commands that are refused before they get at the connection,
the connection and its data connections, with all they have sent and have still to send, are as in the run without
them, and so are the bytes that were moved, to the client or to files. -/
theorem refused_undisturbing (hq : env.Quiet) (s : Session σ) (es es' : List Event) (h : Beside env s es s es') :
    (run (step env) es' s).conn = (run (step env) es s).conn ∧
      (run (step env) es' s).bevs = (run (step env) es s).bevs ∧
      (run (step env) es' s).log.filter Effect.isMovement = (run (step env) es s).log.filter Effect.isMovement := by
  have hagree := h.agree hq .refl
  exact ⟨hagree.conn, hagree.bevs, hagree.log⟩

/-- A system where no file can be read. -/
def unreadable : Env Unit := { Env.permissive with openRead := fun _ _ _ => false }

/-- A RETR and a STOR that are refused in the course of alice's upload. -/
theorem unreadable_upload_undisturbed :
    (run (step unreadable) [.dataRead 3 (ascii "ab"), .controlRead (ascii "RETR x\r\n"),
      .controlRead (ascii "STOR\r\n"),
        .controlWrite 100, .dataRead 3 (ascii "cd")] (aliceSession unreadable [.controlRead (ascii "PASV\r\n"),
        .accept 1 9 (.inet 127 0 0 1), .controlRead (ascii "STOR f\r\n")])).log.filter Effect.isMovement =
      [.store 3 false 4 (ascii "ab"), .store 3 false 4 (ascii "cd")] := by
  have hread : ∀ (bytes : Bytes) (n : Nat), Event.dataRead 3 bytes ≠ .controlWrite n := by
    intro bytes n he
    cases he
  have h := refused_undisturbing unreadable ⟨fun _ _ _ _ => rfl, fun _ _ _ _ => rfl⟩
    (aliceSession unreadable [.controlRead (ascii "PASV\r\n"), .accept 1 9 (.inet 127 0 0 1),
      .controlRead (ascii "STOR f\r\n")])
    [.dataRead 3 (ascii "ab"), .controlWrite 100, .dataRead 3 (ascii "cd")]
    [.dataRead 3 (ascii "ab"), .controlRead (ascii "RETR x\r\n"), .controlRead (ascii "STOR\r\n"), .controlWrite 100,
      .dataRead 3 (ascii "cd")]
    (.event (hread _) (.further ⟨by decide, .retr, by decide, .inr (.inr ⟨ascii "x", by decide, rfl⟩)⟩
      (.further ⟨by decide, .stor, by decide, .inl (by decide)⟩
        (.replies (.inl (by decide)) (.event (hread _) (.done _ _))))))
  exact h.2.2.trans (by decide)

/-- Files of two bytes, and directories of one entry. -/
def twoByteFilesOneEntry : Env Unit := { Env.twoByteFiles with opendir := fun _ _ _ => some [ascii "a"] }

/-- A second STOR takes over the upload: what then comes of the first file is stored in the second. A listing goes out
with the rest of a download. -/
theorem second_command_disturbs :
    (aliceSession Env.permissive [.controlRead (ascii "PASV\r\n"), .accept 1 9 (.inet 127 0 0 1),
        .controlRead (ascii "STOR f\r\n"), .dataRead 3 (ascii "ab"), .dataRead 3 (ascii "cd")]).log.filter
          Effect.isMovement = [.store 3 false 4 (ascii "ab"), .store 3 false 4 (ascii "cd")] ∧
      (aliceSession Env.permissive [.controlRead (ascii "PASV\r\n"), .accept 1 9 (.inet 127 0 0 1),
        .controlRead (ascii "STOR f\r\n"), .dataRead 3 (ascii "ab"), .controlRead (ascii "STOR g\r\n"),
        .dataRead 3 (ascii "cd")]).log.filter Effect.isMovement =
          [.store 3 false 4 (ascii "ab"), .store 3 false 5 (ascii "cd")] ∧
      ((aliceSession twoByteFilesOneEntry [.controlRead (ascii "PASV\r\n"), .accept 1 9 (.inet 127 0 0 1),
        .controlRead (ascii "RETR f\r\n"), .dataWrite 3 100]).bevs 3).map Bev.sent = some (ascii "ab") ∧
      ((aliceSession twoByteFilesOneEntry [.controlRead (ascii "PASV\r\n"), .accept 1 9 (.inet 127 0 0 1),
        .controlRead (ascii "RETR f\r\n"), .controlRead (ascii "NLST\r\n"), .dataWrite 3 100]).bevs 3).map Bev.sent =
          some (ascii "aba\r\n") := by
  decide

end Session

end CftpServer
