import CftpServer.Session.Passive

/-!
# Every command is answered

* `runAction_answered`: the commands other than PASV and EPSV, apart from a RETR or DELE that ends without a word
* `listenerConfig_answered`, `listenerConfig_silent`: PASV and EPSV, by whether their loop ends
* `command_answered_iff`: when a command is answered
-/

namespace CftpServer

open CLib

/-- A reply on the control connection. -/
def Effect.IsReply : Effect → Prop
  | .reply _ _ => True
  | .text _ => True
  | _ => False

/-- The same surroundings, with another bound on loops. -/
def Env.spinning {σ : Type} (env : Env σ) (n : Nat) : Env σ := { env with spin := n }

namespace Session

open Command Security Runs Growth

variable {σ : Type} (env : Env σ)

/-- A reply was queued on the way from `s` to `s'`. -/
def Answered (s s' : Session σ) : Prop := ∃ e ∈ newEffects s s', e.IsReply

/-- The command is answered, given time: the bound on loops is one of the model. -/
def AnswersCommand (input : Bytes) (s : Session σ) : Prop :=
  ∃ n, ∀ m, n ≤ m → Answered s (executeFtpCommand (env.spinning m) input s)

/-! ## Replies -/

section Replies

variable {env} {s s₁ s' : Session σ}

theorem answered_of_log {e : Effect} (he : e.IsReply) (h₁ : s.log <+: s₁.log) (h₂ : s₁.log ++ [e] <+: s'.log) :
    Answered s s' := by
  obtain ⟨d₁, hd₁⟩ := h₁
  obtain ⟨d₂, hd₂⟩ := h₂
  refine ⟨e, ?_, he⟩
  rw [newEffects_eq (d := d₁ ++ [e] ++ d₂) (by rw [← hd₂, ← hd₁]; simp)]
  simp

theorem prefix_of_moves {C : Call → Prop} (h : Moves env C s s') : s.log <+: s'.log := by
  obtain ⟨d, hd, -⟩ := (Extends.of_moves (N := False) env h).log
  exact ⟨d, hd.symm⟩

/-- A reply, and then anything. -/
theorem answered_then (n : Nat) (text : Bytes) (h : Moves env (fun _ => True) s s₁)
    (h' : Moves env (fun _ => True) (sendControlMessage env n text s₁) s') : Answered s s' :=
  answered_of_log (e := .reply n text) trivial (prefix_of_moves h) (prefix_of_moves h')

/-- A reply at the end. -/
theorem answered_reply {n : Nat} {text : Bytes} (h : Moves env (fun _ => True) s s₁) :
    Answered s (sendControlMessage env n text s₁) := answered_then n text h .refl

theorem answered_text {text : Bytes} (h : Moves env (fun _ => True) s s₁) :
    Answered s (writeTextResponse env text s₁) :=
  answered_of_log (e := .text text) trivial (prefix_of_moves h) List.prefix_rfl

theorem withArg_answered {cmd : CftpCommand} {text : String} {action : Bytes → Session σ → Session σ}
    (ha : ∀ arg, cmd.args = [arg] → Answered s (action arg s)) : Answered s (withArg env cmd text action s) := by
  unfold withArg
  split
  · exact ha _ (by assumption)
  · exact answered_reply .refl

end Replies

/-! ## The handlers -/

section Handlers

variable {env} {s : Session σ} {cmd : CftpCommand}

/-- LIST and NLST reply 150 before they list. -/
theorem handleListCommand_answered (description : Bool) : Answered s (handleListCommand env cmd description s) := by
  unfold handleListCommand
  split
  · exact answered_reply Moves.refl.setControlWriteCb
  · rename_i flags _
    split
    · exact answered_reply .refl
    · split
      · exact answered_reply Moves.refl.setControlWriteCb
      · have h₁ : Moves env (fun _ => True) s (sysOpendir env (listPath flags) s).2 := Moves.refl.sysOpendir trivial
        simp only []
        split
        · exact answered_reply h₁.setControlWriteCb
        · unfold startList
          split
          · apply answered_reply
            exact h₁.keep rfl
          · exact answered_then 150 _ h₁ (Moves.refl.sendListCommandOutput fun _ => trivial)

/-- The file of a RETR cannot be opened, or not be looked at. -/
def Unreadable (env : Env σ) (path : Bytes) (s : Session σ) : Prop :=
  env.openRead s.os s.proc path = false ∨ env.fstat (sysOpenRead env path s).2.os s.nextId = none

/-- The branches of RETR that return without a reply. -/
def RetrSilent (env : Env σ) (cmd : CftpCommand) (s : Session σ) : Prop :=
  ∃ path, cmd.args = [path] ∧
    (s.conn.dataBev = none ∨ (s.conn.dataTlsRequired = true ∧ Unreadable env path s))

theorem sysOpenRead_ok {path : Bytes} (h : env.openRead s.os s.proc path = true) :
    (sysOpenRead env path s).1 = some (s.nextId : Int) := by
  unfold sysOpenRead
  rw [if_pos h]
  rfl

theorem sysOpenRead_fail {path : Bytes} (h : env.openRead s.os s.proc path = false) :
    (sysOpenRead env path s).1 = none := by
  unfold sysOpenRead
  rw [if_neg (by simp [h])]

theorem cftpSendFile_answered {path : Bytes} {b : Nat} (hb : s.conn.dataBev = some b)
    (h : ¬ (s.conn.dataTlsRequired = true ∧ Unreadable env path s)) : Answered s (cftpSendFile env path s) := by
  have h₁ : Moves env (fun _ => True) s (sysOpenRead env path s).2 :=
    Moves.trans (Moves.refl.call trivial) Moves.sysOpenRead_call
  unfold cftpSendFile
  split
  · rename_i htls
    have hr : env.openRead s.os s.proc path = true ∧ env.fstat (sysOpenRead env path s).2.os s.nextId ≠ none := by
      rw [← Bool.not_eq_false]
      exact ⟨fun hf => h ⟨htls, .inl hf⟩, fun hf => h ⟨htls, .inr hf⟩⟩
    obtain ⟨st, hst⟩ := Option.ne_none_iff_exists'.mp hr.2
    simp only [ftpSendFileWithEvbuffer, hb, sysOpenRead_ok hr.1, hst]
    refine answered_then 150 (ascii "Sending file") h₁ (Moves.sendNextChunk (Moves.setWriteLow ?_))
    exact Moves.refl.keep rfl
  · simp only [ftpSendFilePlain, hb]
    split
    · exact answered_reply h₁
    · split
      · exact answered_reply h₁.closeFd
      · refine answered_then 150 (ascii "Sending file") h₁ (Moves.bevWrite ?_)
        exact Moves.refl.keep rfl

theorem cftpRecvFileWithEvbuffer_answered {path : Bytes} : Answered s (cftpRecvFileWithEvbuffer env path s) := by
  have h₁ : Moves env (fun _ => True) s (sysOpenWrite env path s).2 :=
    Moves.trans (Moves.refl.call trivial) Moves.sysOpenWrite_call
  unfold cftpRecvFileWithEvbuffer
  split
  · exact answered_reply .refl
  · simp only []
    split
    · exact answered_reply h₁.setControlWriteCb
    · apply answered_reply
      split
      · exact h₁.keep rfl
      · exact h₁.keep rfl

/-- DELE of a directory whose nested calls do not fit the stack. -/
def DeleSilent (env : Env σ) (cmd : CftpCommand) (s : Session σ) : Prop :=
  ∃ target force st, parseDeleParams cmd.args = some (target, true, force) ∧ isPathSafe target = true ∧
    env.stat s.os s.proc target = some st ∧ st.isDir = true ∧
    (deleteDirectoryRecursively env env.stack target (sysStat env target s).2).2.ended ≠ none

theorem replyDeleted_answered {s₁ : Session σ} {deleted force : Bool} (h : Moves env (fun _ => True) s s₁) :
    Answered s (replyDeleted env deleted force s₁) := by
  unfold replyDeleted
  split
  · split <;> exact answered_reply h
  · exact answered_reply h

theorem handleDeleCommand_answered (h : ¬ DeleSilent env cmd s) : Answered s (handleDeleCommand env cmd s) := by
  unfold handleDeleCommand
  split
  · exact answered_reply .refl
  · rename_i target recursive force hparse
    split
    · exact answered_reply .refl
    · rename_i hsafe
      have h₁ : Moves env (fun _ => True) s (sysStat env target s).2 := Moves.refl.sysStat trivial
      simp only [deleteTarget]
      split
      · split <;> exact answered_reply h₁
      · rename_i st hst
        split
        · rename_i hdir
          split
          · exact answered_reply h₁
          · rename_i hrec
            have hended :
                (deleteDirectoryRecursively env env.stack target (sysStat env target s).2).2.ended = none := by
              by_contra hne
              refine h ⟨target, force, st, ?_, by simpa using hsafe, hst, hdir, hne⟩
              rw [hparse, show recursive = true by simpa using hrec]
            rw [Session.andThen, if_neg (by simp [hended])]
            exact replyDeleted_answered (Moves.deleteDirectoryRecursively (fun _ => trivial) h₁)
        · exact replyDeleted_answered (h₁.sysUnlink trivial)

/-- The commands other than PASV and EPSV. -/
theorem runAction_answered {a : Action} (hp : a ≠ .epsv ∧ a ≠ .pasv) (hr : a = .retr → ¬ RetrSilent env cmd s)
    (hd : a = .dele → ¬ DeleSilent env cmd s) : Answered s (runAction env a cmd s) := by
  cases a with
  | epsv => exact absurd rfl hp.1
  | pasv => exact absurd rfl hp.2
  | syst | quit | pbsz | noop | feat | nonAuthenticated | authenticated => exact answered_reply .refl
  | list | nlst => exact handleListCommand_answered _
  | dele => exact handleDeleCommand_answered (hd rfl)
  | auth =>
    refine withArg_answered fun arg _ => ?_
    split
    · simp only [upgradeToTls]
      split
      · exact answered_then 234 (ascii "AUTH TLS Success") .refl (Moves.refl.keep rfl)
      · exact answered_then 234 (ascii "AUTH TLS Success") .refl Moves.refl.crash
    · exact answered_reply .refl
  | prot =>
    refine withArg_answered fun arg _ => ?_
    split
    · exact answered_of_log (e := protPrivate) trivial List.prefix_rfl List.prefix_rfl
    · exact answered_reply .refl
  | type =>
    refine withArg_answered fun arg _ => ?_
    split
    · exact answered_reply (Moves.refl.keep rfl)
    · split
      · exact answered_reply (Moves.refl.keep rfl)
      · exact answered_reply .refl
  | size =>
    refine withArg_answered fun arg _ => ?_
    split
    · exact answered_reply .refl
    · have h₁ : Moves env (fun _ => True) s (sysStat env arg s).2 := Moves.refl.sysStat trivial
      simp only []
      split
      · exact answered_reply h₁
      · split <;> exact answered_reply h₁
  | retr =>
    refine withArg_answered fun arg harg => ?_
    cases hb : s.conn.dataBev with
    | none => exact absurd ⟨arg, harg, .inl hb⟩ (hr rfl)
    | some b => exact cftpSendFile_answered hb fun h => hr rfl ⟨arg, harg, .inr h⟩
  | stor => exact withArg_answered fun arg _ => cftpRecvFileWithEvbuffer_answered
  | mdtm =>
    refine withArg_answered fun arg _ => ?_
    have h₁ : Moves env (fun _ => True) s (sysStat env arg s).2 := Moves.refl.sysStat trivial
    simp only [handleMdtmCommand]
    split
    · exact answered_reply h₁
    · split <;> exact answered_reply h₁
  | cwd =>
    refine withArg_answered fun arg _ => ?_
    split
    · unfold handleCwdCommand
      split
      · exact answered_text .refl
      · split
        · exact answered_reply .refl
        · have h₁ : Moves env (fun _ => True) s (sysStat env (cut PATH_MAX arg) s).2 := Moves.refl.sysStat trivial
          simp only []
          split
          · exact answered_text h₁
          · split <;> exact answered_text (h₁.sysChdir trivial)
    · exact answered_reply .refl
  | pwd =>
    simp only [runAction, cftpPwdAuthenticatedAction]
    split <;> exact answered_reply .refl
  | abor =>
    simp only [runAction, cftpAborAuthenticatedAction]
    split
    · exact answered_reply Moves.refl.closeDataConnection
    · exact answered_reply Moves.refl.setControlWriteCb
  | mkd =>
    refine withArg_answered fun arg _ => ?_
    split
    · exact answered_reply .refl
    · have h₁ : Moves env (fun _ => True) s (sysStat env arg s).2 := Moves.refl.sysStat trivial
      simp only []
      split
      · exact answered_reply h₁
      · split <;> exact answered_reply (h₁.sysMkdir trivial)
  | rmd =>
    refine withArg_answered fun arg _ => ?_
    split
    · exact answered_reply .refl
    · have h₁ : Moves env (fun _ => True) s (sysStat env arg s).2 := Moves.refl.sysStat trivial
      simp only []
      split
      · exact answered_reply h₁
      · split <;> exact answered_reply (h₁.sysRmdir trivial)
  | user =>
    simp only [runAction, cftpUserAuthenticated]
    split
    · split
      · exact answered_of_log (e := .reply 331 (ascii "User name okay, need password")) trivial
          List.prefix_rfl List.prefix_rfl
      · exact answered_reply .refl
    · exact answered_reply Moves.refl.setControlWriteCb
  | pass =>
    simp only [runAction, cftpPassAuthenticated]
    split
    · rename_i arg _
      have h₁ : s.log <+: (loggedIn env arg s).log := List.prefix_append ..
      split
      · refine answered_of_log (e := .reply 230 (ascii "User logged in")) trivial h₁ ?_
        obtain ⟨d, hd, -⟩ := (Extends.refl.timeoutEventFree env (C := fun _ => True) (N := False)
          (s := { sendControlMessage env 230 (ascii "User logged in") (loggedIn env arg s) with
            conn := { (loggedIn env arg s).conn with authenticated := true } })).log
        exact ⟨d, hd.symm⟩
      · exact answered_of_log (e := .reply 530 (ascii "Invalid credentials")) trivial h₁ List.prefix_rfl
    · exact answered_reply Moves.refl.setControlWriteCb

end Handlers

/-! ## Silence -/

/-- Nothing was said to the client on the way from `s` to `s'`. -/
def Mute (s s' : Session σ) : Prop := ∃ d, s'.log = s.log ++ d ∧ ∀ e ∈ d, ¬ e.IsReply

namespace Mute

variable {env} {s₀ s s' : Session σ}

theorem refl : Mute s s := Grown.refl

theorem trans (h : Mute s₀ s) (h' : Mute s s') : Mute s₀ s' := Grown.trans h h'

theorem of_log (h : s'.log = s.log) : Mute s s' := Grown.of_eq h

theorem not_answered (h : Mute s₀ s) : ¬ Answered s₀ s := by
  obtain ⟨d, hd, hmute⟩ := h
  rintro ⟨e, he, hreply⟩
  rw [newEffects_eq hd] at he
  exact hmute e he hreply

theorem emit (h : Mute s₀ s) {e : Effect} (he : ¬ e.IsReply) : Mute s₀ (s.emit env e) := Grown.concat h he

theorem call (h : Mute s₀ s) {c : Call} : Mute s₀ (s.call env c) := h.emit id

theorem newFd (h : Mute s₀ s) : Mute s₀ (s.newFd env).2 := by
  have h' : Mute s₀ (s.emit env (.opened s.nextId)) := h.emit id
  exact h'

theorem closeFd (h : Mute s₀ s) {fd : Int} : Mute s₀ (s.closeFd env fd) := by
  unfold Session.closeFd
  split
  · exact h
  · exact h.emit id

theorem sysOpendir (h : Mute s₀ s) {path : Bytes} : Mute s₀ (s.sysOpendir env path).2 := by
  unfold Session.sysOpendir
  split
  · exact h.call.newFd
  · exact h.call

theorem sysOpenRead (h : Mute s₀ s) {path : Bytes} : Mute s₀ (s.sysOpenRead env path).2 := by
  unfold Session.sysOpenRead
  split
  · exact h.call.newFd
  · exact h.call

theorem deleteDirectoryRecursively (h : Mute s₀ s) {depth : Nat} {path : Bytes} :
    Mute s₀ (s.deleteDirectoryRecursively env depth path).2 :=
  deleteDirectoryRecursively_inv (fun _ _ h => h.call) (fun _ _ h => h.call) (fun _ _ h => h.sysOpendir)
    (fun _ _ h => h.call) (fun _ _ h => h.closeFd) (fun _ h => h) depth path s h

theorem bindAll {ports : List Nat} (h : Mute s₀ s) : Mute s₀ (s.bindAll env ports) := by
  obtain ⟨d, hd, hmute⟩ := h
  refine ⟨d ++ ports.map .bind, by rw [(bindAll_spec env ports s).1, hd, List.append_assoc], fun e he => ?_⟩
  rcases List.mem_append.mp he with he | he
  · exact hmute e he
  · obtain ⟨port, -, rfl⟩ := List.mem_map.mp he
    exact id

end Mute

section Silence

variable {env} {s : Session σ} {cmd : CftpCommand}

/-- Without a data connection, and where a TLS download cannot be started, RETR just returns. -/
theorem retr_mute (h : RetrSilent env cmd s) : Mute s (runAction env .retr cmd s) := by
  obtain ⟨path, hargs, h⟩ := h
  simp only [runAction, cftpRetrAuthenticatedAction, withArg, hargs, cftpSendFile]
  rcases h with hb | ⟨htls, h⟩
  · split
    · simp only [ftpSendFileWithEvbuffer, hb]
      exact .refl
    · simp only [ftpSendFilePlain, hb]
      exact .refl
  · rw [if_pos htls]
    unfold ftpSendFileWithEvbuffer
    split
    · exact .refl
    · rcases h with hopen | hfstat
      · simp only [sysOpenRead_fail hopen]
        exact Mute.refl.sysOpenRead
      · cases hopen : env.openRead s.os s.proc path with
        | false =>
          simp only [sysOpenRead_fail hopen]
          exact Mute.refl.sysOpenRead
        | true =>
          simp only [sysOpenRead_ok hopen, hfstat]
          exact Mute.refl.sysOpenRead.closeFd

/-- The stack runs out before DELE comes to its reply. -/
theorem dele_mute (h : DeleSilent env cmd s) : Mute s (runAction env .dele cmd s) := by
  obtain ⟨target, force, st, hparse, hsafe, hst, hdir, hended⟩ := h
  have hst' : (sysStat env target s).1 = some st := hst
  simp only [runAction, handleDeleCommand, hparse, hsafe, deleteTarget, hst', hdir]
  simp only [Bool.not_true, Bool.false_eq_true, if_false, if_true]
  rw [Session.andThen, if_pos (Option.isSome_iff_ne_none.mpr hended)]
  exact Mute.deleteDirectoryRecursively (Mute.refl.call (c := .stat target))

end Silence

/-! ## PASV and EPSV -/

/-- The port of a round of the loop, if all rounds before it failed. -/
def nthPort (first : Nat) : Nat → Nat
  | 0 => first
  | k + 1 => (nthPort first k + 1) % 2 ^ 16

/-- The session after so many rounds that failed. -/
def afterRounds (k : Nat) (s : Session σ) : Session σ :=
  bindAll env ((List.range k).map (nthPort env.pasvRange.start)) s

/-- After so many rounds that failed the loop goes on and fails once more. -/
def RoundFails (k : Nat) (s : Session σ) : Prop :=
  nthPort env.pasvRange.start k ≤ env.pasvRange.end ∧
    env.newBind (afterRounds env k s).os (nthPort env.pasvRange.start k) = false

/-- No round of the port loop is the last one. -/
def NoPort (s : Session σ) : Prop :=
  env.getsockname (dropListener env s).os ≠ none ∧ ∀ k, RoundFails env k (dropListener env s)

section Loop

variable {env} {s : Session σ}

theorem afterRounds_pasvListener (hp : s.conn.pasvListener = none) (k : Nat) :
    (afterRounds env k s).conn.pasvListener = none := by
  rw [afterRounds, (bindAll_spec env _ s).2.1]
  exact hp

theorem portLoop_rounds (hp : s.conn.pasvListener = none) (k : Nat) : ∀ fuel, (∀ i < k, RoundFails env i s) →
    portLoop env (k + fuel) env.pasvRange.start s =
      portLoop env fuel (nthPort env.pasvRange.start k) (afterRounds env k s) := by
  induction k with
  | zero =>
    intro fuel _
    rw [Nat.zero_add]
    rfl
  | succ k ih =>
    intro fuel hfail
    obtain ⟨hport, hbind⟩ := hfail k (Nat.lt_succ_self k)
    have hlast :
        afterRounds env (k + 1) s = emit env (.bind (nthPort env.pasvRange.start k)) (afterRounds env k s) := by
      rw [afterRounds, List.range_succ, List.map_append, List.map_singleton, bindAll_concat]
      rfl
    rw [Nat.add_assoc k 1 fuel, Nat.add_comm 1 fuel, ih (fuel + 1) fun i hi => hfail i (by omega),
      portLoop_round env (afterRounds_pasvListener hp k) hport hbind, hlast]
    rfl

/-- A round that does not fail is the last one. -/
theorem portLoop_ends (hp : s.conn.pasvListener = none) (hs : s.ended = none) {k : Nat}
    (hfail : ∀ i < k, RoundFails env i s) (hk : ¬ RoundFails env k s) (fuel : Nat) :
    (portLoop env (k + (fuel + 1)) env.pasvRange.start s).2.ended = none := by
  have hended : (afterRounds env k s).ended = none := (bindAll_spec env _ s).2.2.trans hs
  rw [portLoop_rounds hp k (fuel + 1) hfail, portLoop]
  split
  · rename_i hport
    have hbind : env.newBind (afterRounds env k s).os (nthPort env.pasvRange.start k) = true := by
      rw [← Bool.not_eq_false]
      exact fun hf => hk ⟨hport, hf⟩
    have hsome :
        (tryPort env (nthPort env.pasvRange.start k) (afterRounds env k s)).conn.pasvListener.isSome = true := by
      simp [tryPort, hbind, fresh, emit]
    simp only [hsome, if_true]
    rw [tryPort_ended]
    exact hended
  · exact hended

/-- Without a last round the loop runs for ever. -/
theorem portLoop_endless (hp : s.conn.pasvListener = none) (hfail : ∀ k, RoundFails env k s) (fuel : Nat) :
    (portLoop env fuel env.pasvRange.start s).2 = hang (afterRounds env fuel s) := by
  have h := portLoop_rounds hp fuel 0 fun i _ => hfail i
  rw [Nat.add_zero] at h
  rw [h]
  rfl

theorem announcePort_answered {s₁ : Session σ} {extended : Bool} {ip : UInt8 × UInt8 × UInt8 × UInt8} {port : Nat}
    (h : s.log <+: s₁.log) : Answered s (announcePort env extended ip port s₁) := by
  have h' : s.log <+: (timerNew env .killListenerOnTimeout s₁).log := h.trans (List.prefix_append ..)
  unfold announcePort
  split
  · exact answered_of_log (e := .reply 425 (ascii "Can't open passive connection")) trivial h List.prefix_rfl
  · simp only []
    split
    · exact answered_of_log (e := .reply 229 (extendedPassiveText port)) trivial h' List.prefix_rfl
    · exact answered_of_log (e := .reply 227 (passiveText ip port)) trivial h' List.prefix_rfl

variable (hok : ListenerOk s) (hs : s.ended = none) (extended : Bool)
include hok hs

/-- Where the address of the server cannot be had, the reply says so. -/
theorem noAddress_answered (hip : env.getsockname (dropListener env s).os = none) :
    Answered s (dataConnectionListenerConfig env extended s) := by
  obtain ⟨hended, d, hlog, -⟩ := dropListener_spec env hok hs
  have hdrop : s.log <+: (dropListener env s).log := ⟨d, hlog.symm⟩
  rw [dataConnectionListenerConfig, Session.andThen, if_neg (by simp [hended])]
  simp only [hip]
  exact answered_of_log (e := .reply 425 (ascii "Can't open passive connection")) trivial hdrop List.prefix_rfl

/-- A passive command whose loop has a last round is answered. -/
theorem listenerConfig_answered {k fuel : Nat} (hfail : ∀ i < k, RoundFails env i (dropListener env s))
    (hk : ¬ RoundFails env k (dropListener env s)) (hspin : env.spin = k + (fuel + 1)) :
    Answered s (dataConnectionListenerConfig env extended s) := by
  obtain ⟨hended, d, hlog, -⟩ := dropListener_spec env hok hs
  have hdrop : s.log <+: (dropListener env s).log := ⟨d, hlog.symm⟩
  cases hip : env.getsockname (dropListener env s).os with
  | none => exact noAddress_answered hok hs extended hip
  | some ip =>
    have hloop := portLoop_ends (Extends.dropListener_pasvListener env s) hended hfail hk fuel
    rw [← hspin] at hloop
    rw [dataConnectionListenerConfig, Session.andThen, if_neg (by simp [hended])]
    simp only [hip]
    rw [Session.andThen, if_neg (by simp [hloop])]
    obtain ⟨d', hd', -⟩ := (Extends.portLoop (C := fun _ => True) env trivial env.spin env.pasvRange.start
      (Extends.dropListener_pasvListener env s) .refl).log
    exact announcePort_answered (hdrop.trans ⟨d', hd'.symm⟩)

/-- One whose loop has none is not. -/
theorem listenerConfig_mute (h : NoPort env s) : Mute s (dataConnectionListenerConfig env extended s) := by
  obtain ⟨hip, hfail⟩ := h
  obtain ⟨hended, d, hlog, hfree⟩ := dropListener_spec env hok hs
  have hdrop : Mute s (dropListener env s) := ⟨d, hlog, fun e he => by
    obtain ⟨l, rfl⟩ := hfree e he
    exact id⟩
  rw [dataConnectionListenerConfig, Session.andThen, if_neg (by simp [hended])]
  split
  · simp only []
    rw [portLoop_endless (Extends.dropListener_pasvListener env s) hfail]
    exact hdrop.bindAll
  · rename_i hnone
    exact absurd hnone hip

end Loop

/-! ## All commands -/

/-- The commands that end without a reply. -/
def Unanswered (input : Bytes) (s : Session σ) : Prop :=
  match actionFor (parseTextCommand input).command s.conn.authenticated with
  | some .retr => RetrSilent env (parseTextCommand input) s
  | some .dele => DeleSilent env (parseTextCommand input) s
  | some .pasv | some .epsv => NoPort env s
  | _ => False

section Commands

variable {env} {s : Session σ} {input : Bytes}

theorem executeFtpCommand_action {a : Action}
    (ha : actionFor (parseTextCommand input).command s.conn.authenticated = some a) :
    executeFtpCommand env input s = runAction env a (parseTextCommand input) s := by
  simp only [executeFtpCommand, ha]

theorem unanswered_mute (hok : ListenerOk s) (hs : s.ended = none) (h : Unanswered env input s) :
    Mute s (executeFtpCommand env input s) := by
  unfold Unanswered at h
  split at h
  · rename_i ha
    rw [executeFtpCommand_action ha]
    exact retr_mute h
  · rename_i ha
    rw [executeFtpCommand_action ha]
    exact dele_mute h
  · rename_i ha
    rw [executeFtpCommand_action ha]
    exact listenerConfig_mute hok hs false h
  · rename_i ha
    rw [executeFtpCommand_action ha]
    exact listenerConfig_mute hok hs true h
  · exact h.elim

theorem passive_answered (hok : ListenerOk s) (hs : s.ended = none) (extended : Bool) (h : ¬ NoPort env s) :
    ∃ n, ∀ m, n ≤ m → Answered s (dataConnectionListenerConfig (env.spinning m) extended s) := by
  classical
  by_cases hall : ∀ k, RoundFails env k (dropListener env s)
  · have hip : env.getsockname (dropListener env s).os = none := by
      by_contra hip
      exact h ⟨hip, hall⟩
    exact ⟨0, fun m _ => noAddress_answered hok hs extended hip⟩
  · -- the first round that does not fail
    have hex : ∃ k, ¬ RoundFails env k (dropListener env s) := by
      push Not at hall
      exact hall
    refine ⟨Nat.find hex + 1, fun m hm => ?_⟩
    refine listenerConfig_answered hok hs extended (k := Nat.find hex)
      (fun i hi => ?_) (Nat.find_spec hex) (show m = Nat.find hex + (m - (Nat.find hex + 1) + 1) by omega)
    exact not_not.mp (Nat.find_min hex hi)

/-- The bound on loops has no part in the deletion of a tree. -/
theorem deleteEntries_spinning (m : Nat) (sub : Bytes → Session σ → Bool × Session σ) (path : Bytes)
    (names : List Bytes) :
    ∀ s, deleteEntries (env.spinning m) sub path names s = deleteEntries env sub path names s := by
  induction names with
  | nil => exact fun _ => rfl
  | cons name names ih =>
    intro s
    simp only [deleteEntries, ih]
    rfl

theorem deleteDirectoryRecursively_spinning (m depth : Nat) :
    deleteDirectoryRecursively (env.spinning m) depth = deleteDirectoryRecursively env depth := by
  induction depth with
  | zero => rfl
  | succ depth ih =>
    funext path s
    simp only [deleteDirectoryRecursively, ih, deleteEntries_spinning]
    rfl

theorem deleSilent_spinning (m : Nat) {cmd : CftpCommand} :
    DeleSilent (env.spinning m) cmd s ↔ DeleSilent env cmd s := by
  unfold DeleSilent
  rw [deleteDirectoryRecursively_spinning]
  rfl

/-- Nor in the commands without an answer. -/
theorem unanswered_spinning (m : Nat) : Unanswered (env.spinning m) input s ↔ Unanswered env input s := by
  unfold Unanswered
  split
  · rfl
  · exact deleSilent_spinning m
  · rfl
  · rfl
  · rfl

theorem answersCommand_of_not (hok : ListenerOk s) (hs : s.ended = none) (h : ¬ Unanswered env input s) :
    AnswersCommand env input s := by
  unfold AnswersCommand
  unfold Unanswered at h
  cases ha : actionFor (parseTextCommand input).command s.conn.authenticated with
  | none =>
    refine ⟨0, fun m _ => ?_⟩
    simp only [executeFtpCommand, ha]
    exact answered_reply .refl
  | some a =>
    simp only [executeFtpCommand_action ha]
    rw [ha] at h
    by_cases hp : a = .pasv
    · subst hp
      exact passive_answered hok hs false h
    · by_cases he : a = .epsv
      · subst he
        exact passive_answered hok hs true h
      · refine ⟨0, fun m _ => runAction_answered ⟨he, hp⟩ (fun hr => ?_) fun hd => ?_⟩
        · subst hr
          exact h
        · subst hd
          rw [deleSilent_spinning]
          exact h

end Commands

/-- **Every command is answered but for these.** In every session, an input line is answered, whatever its handler, its
arguments, the state of the data connection and the outcome of the calls, unless it is a RETR without a data connection,
a RETR with TLS of a file that cannot be opened or looked at, a recursive DELE that does not fit the stack, or a PASV or
EPSV whose loop over the ports never ends. -/
theorem command_answered_iff (addr : SockAddr) (proc : Proc) (os : σ) (es : List Event) (input : Bytes)
    (hrun : (reached env addr proc os es).ended = none) :
    AnswersCommand env input (reached env addr proc os es) ↔ ¬ Unanswered env input (reached env addr proc os es) := by
  have hok := reached_listenerOk env addr proc os es
  generalize reached env addr proc os es = s at hrun hok ⊢
  refine ⟨fun ⟨n, hn⟩ h => ?_, answersCommand_of_not hok hrun⟩
  have hmute : Mute s (executeFtpCommand (env.spinning n) input s) := 
    unanswered_mute hok hrun ((unanswered_spinning n).mpr h)
  exact hmute.not_answered (hn n (le_refl n))

/-- LIST in alice's session, without a data connection, is answered. -/
theorem list_without_data_answered : (aliceSession Env.permissive []).ended = none ∧
    AnswersCommand Env.permissive (ascii "LIST\r\n") (aliceSession Env.permissive []) := by
  have ha :
      actionFor (parseTextCommand (ascii "LIST\r\n")).command (aliceSession Env.permissive []).conn.authenticated =
      some .list := by decide
  have h : ¬ Unanswered Env.permissive (ascii "LIST\r\n") (aliceSession Env.permissive []) := by
    unfold Unanswered
    rw [ha]
    exact id
  exact ⟨by decide, (command_answered_iff Env.permissive _ _ _ _ _ (by decide)).mpr h⟩

/-- RETR there is not: nothing at all happens. -/
theorem retr_without_data_unanswered :
    newEffects (aliceSession Env.permissive [])
        (executeFtpCommand Env.permissive (ascii "RETR x\r\n") (aliceSession Env.permissive [])) = [] ∧
      ¬ AnswersCommand Env.permissive (ascii "RETR x\r\n") (aliceSession Env.permissive []) := by
  refine ⟨by decide, ?_⟩
  rintro ⟨n, hn⟩
  have ha :
      actionFor (parseTextCommand (ascii "RETR x\r\n")).command (aliceSession Env.permissive []).conn.authenticated =
      some .retr := by decide
  have hsilent : RetrSilent (Env.permissive.spinning n) (parseTextCommand (ascii "RETR x\r\n"))
      (aliceSession Env.permissive []) := ⟨ascii "x", by decide, .inl (by decide)⟩
  refine (retr_mute hsilent).not_answered ?_
  rw [← executeFtpCommand_action ha]
  exact hn n (le_refl n)

end Session

end CftpServer
