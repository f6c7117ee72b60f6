import CftpServer.Session.Idle
import CftpServer.Session.Listing

/-!
# The end of a transfer

A transfer that was answered 150 gets its completion reply from one of several callbacks, and its data connection is
closed by another: when the reply is out, by ABOR, or at the end of the data connection itself.

* `Unused.command`: an accepted command begins a transfer
* `step_ongoing`: one event in the course of it
* `closed_completed_once`: the transfers that end with one completion reply
-/

namespace CftpServer

open CLib

/-- 226, 4xx and 5xx. -/
def Effect.isCompletion : Effect → Bool
  | .reply n _ => n == 226 || (400 ≤ n && n < 600)
  | _ => false

namespace Session

open Command Runs

variable {σ : Type} (env : Env σ)

/-! ## Counting -/

/-- How many completion replies were sent between two states. -/
def completions (s s' : Session σ) : Nat := (newEffects s s').countP Effect.isCompletion

/-- So many completion replies were sent on the way from `s` to `s'`. -/
def Says (k : Nat) (s s' : Session σ) : Prop := ∃ d, s'.log = s.log ++ d ∧ d.countP Effect.isCompletion = k

section Counting

variable {env} {s s' s'' : Session σ} {j k : Nat}

theorem Says.completions (h : Says k s s') : completions s s' = k := by
  obtain ⟨d, hd, hk⟩ := h
  rw [Session.completions, newEffects_eq hd, hk]

theorem Says.trans (h : Says j s s') (h' : Says k s' s'') : Says (j + k) s s'' := by
  obtain ⟨d, hd, hj⟩ := h
  obtain ⟨d', hd', hk⟩ := h'
  exact ⟨d ++ d', by rw [hd', hd, List.append_assoc], by rw [List.countP_append, hj, hk]⟩

theorem Mute.silent (h : Mute s s') : Says 0 s s' := by
  obtain ⟨d, hd, hmute⟩ := h
  refine ⟨d, hd, List.countP_eq_zero.mpr fun e he hc => hmute e he ?_⟩
  cases e with
  | reply => exact trivial
  | _ => cases hc

theorem Says.mute (h : Says k s s') (h' : Mute s' s'') : Says k s s'' := h.trans h'.silent

variable (env) in
/-- A completion reply. -/
theorem Says.reply (h : Says k s s') {n : Nat} {text : Bytes} (hn : (Effect.reply n text).isCompletion = true) :
    Says (k + 1) s (sendControlMessage env n text s') :=
  h.trans ⟨[.reply n text], rfl, by rw [List.countP_singleton, if_pos hn]⟩

/-! ### What is mute -/

theorem closeDataConnection_mute (s : Session σ) : Mute s (closeDataConnection env s) := by
  obtain ⟨d, hd, hclose⟩ := closeDataConnection_log env s
  refine ⟨d, hd, fun e he => ?_⟩
  rcases hclose e he with ⟨b, dropped, rfl⟩ | ⟨fd, rfl⟩ <;> exact id

theorem bevWrite_mute (b : Nat) (bytes : Bytes) (files : List Int) (s : Session σ) :
    Mute s (bevWrite env b bytes files s) := by
  unfold bevWrite
  split
  · exact Mute.of_log rfl
  · rename_i v _
    refine (Mute.of_log ?_).trans (Mute.refl.emit (e := .bevWrite b v.tls bytes) id)
    rfl

theorem drainInput_mute (b fuel : Nat) (s : Session σ) : Mute s (drainInput env b fuel s) := by
  refine drainInput_inv (P := fun s' => Mute s s') (fun v s' _ h => ?_) (fun _ h => h) (fun _ h => h) fuel s .refl
  have hstore : Mute s' (evbufferWrite env b v s') := ⟨[_], rfl, List.forall_mem_singleton.mpr id⟩
  exact h.trans hstore

theorem sendNextChunk_mute (b : Nat) (s : Session σ) : Mute s (sendNextChunk env b s) := by
  have hend : ∀ {p : Prop} [Decidable p] {cb : DataWriteCb},
      Mute s (if p then { s with conn := { s.conn with dataWriteCb := some cb } } else s) := by
    intro p _ cb
    split <;> exact Mute.of_log rfl
  unfold sendNextChunk
  split
  · exact Mute.of_log rfl
  · dsimp only
    split
    · exact hend.closeFd
    · exact hend.closeFd
    · exact hend.trans (bevWrite_mute _ _ _ _)

end Counting

/-! ## In the course of a transfer -/

/-- The completion reply is queued, and the data connection will be closed when it is out. -/
def Completed (s : Session σ) : Prop := s.conn.controlWriteCb = some .closeDataConnectionOnWritecb

instance (s : Session σ) : Decidable (Completed s) := inferInstanceAs (Decidable (_ = _))

/-- What of the connection decides how a data connection is closed. -/
def closing (s : Session σ) : Option Nat × Option ControlWriteCb × Option DataConnectedCb :=
  (s.conn.dataBev, s.conn.controlWriteCb, s.conn.dataTlsEventConnectedCb)

/-- The data connection of the transfer is there: one completion reply if it is completed, none before. -/
structure Ongoing (b : Nat) (s₀ s : Session σ) : Prop where
  dataBev : s.conn.dataBev = some b
  alive : s.bevs b ≠ none
  count : s.ended = none → (Completed s ∧ Says 1 s₀ s) ∨
    (¬ Completed s ∧ Says 0 s₀ s ∧ s.conn.dataTlsEventConnectedCb ≠ some .closeDataConnectionOnWritecb)

/-- The data connection is closed, after one completion reply, and no callback is left. -/
structure ClosedOnce (b : Nat) (s₀ s : Session σ) : Prop where
  settled : Settled s
  gone : s.bevs b = none
  told : Says 1 s₀ s

section Course

variable {env} {s₀ s s' : Session σ} {b : Nat}

/-- What says nothing and keeps these fields keeps the transfer as it is. -/
theorem Ongoing.of_mute (h : Ongoing b s₀ s) (hs : s.ended = none) (hm : Mute s s') (hc : closing s' = closing s)
    (halive : s'.bevs b ≠ none) : Ongoing b s₀ s' := by
  have hcb : s'.conn.controlWriteCb = s.conn.controlWriteCb := congrArg (fun c => c.2.1) hc
  have hconn : s'.conn.dataTlsEventConnectedCb = s.conn.dataTlsEventConnectedCb := congrArg (fun c => c.2.2) hc
  refine ⟨(congrArg Prod.fst hc).trans h.dataBev, halive, fun _ => ?_⟩
  unfold Completed
  rw [hcb, hconn]
  exact (h.count hs).imp (fun h => ⟨h.1, h.2.mute hm⟩) fun h => ⟨h.1, h.2.1.mute hm, h.2.2⟩

/-- A state that has ended, whatever it is, needs only its data connection. -/
theorem Ongoing.of_ended (hd : s.conn.dataBev = some b) (halive : s.bevs b ≠ none) (hended : s.ended ≠ none) :
    Ongoing b s₀ s := ⟨hd, halive, fun hs => absurd hs hended⟩

/-- A transfer that is not completed has no completion reply yet. -/
theorem Ongoing.says_zero (h : Ongoing b s₀ s) (hs : s.ended = none) (hc : ¬ Completed s) : Says 0 s₀ s := by
  rcases h.count hs with h | h
  · exact absurd h.1 hc
  · exact h.2.1

theorem Ongoing.says_one (h : Ongoing b s₀ s) (hs : s.ended = none) (hc : Completed s) : Says 1 s₀ s := by
  rcases h.count hs with h | h
  · exact h.2
  · exact absurd hc h.1

/-- The completion reply. -/
theorem Ongoing.complete (h : Ongoing b s₀ s) (hs : s.ended = none) (hc : ¬ Completed s) {text : Bytes} (hm : Mute s s')
    (hd : s'.conn.dataBev = some b) (halive : s'.bevs b ≠ none) (hc' : Completed s') :
    Ongoing b s₀ (sendControlMessage env 226 text s') :=
  ⟨hd, halive, fun _ => .inl ⟨hc', ((h.says_zero hs hc).mute hm).reply env (by rfl)⟩⟩

/-- The data connection is closed. -/
theorem closeDataConnection_closedOnce (hd : s.conn.dataBev = some b) (halive : s.bevs b ≠ none) (h : Says 1 s₀ s) :
    ClosedOnce b s₀ (closeDataConnection env s) := by
  obtain ⟨v, hv⟩ := Option.ne_none_iff_exists'.mp halive
  refine ⟨closeDataConnection_settled s, ?_, h.mute (closeDataConnection_mute s)⟩
  obtain ⟨d, os, heq, -⟩ := closeDataConnection_live env hd hv
  rw [heq]
  exact Function.update_self ..

/-- A change to a data connection keeps the others. -/
theorem update_alive {bevs : Nat → Option Bev} (h : bevs b ≠ none) (d : Nat) (v : Bev) :
    Function.update bevs d (some v) b ≠ none := by
  by_cases hbd : b = d
  · rw [hbd, Function.update_self]
    exact Option.some_ne_none v
  · rw [Function.update_of_ne hbd]
    exact h

theorem bevWrite_alive {d : Nat} {bytes : Bytes} {files : List Int} (h : s.bevs b ≠ none) :
    (bevWrite env d bytes files s).bevs b ≠ none := by
  unfold bevWrite
  split
  · exact h
  · exact update_alive h _ _

theorem setWriteLow_alive {low : Nat} (h : s.bevs b ≠ none) : (setWriteLow b low s).bevs b ≠ none := by
  obtain ⟨v, hv⟩ := Option.ne_none_iff_exists'.mp h
  unfold setWriteLow
  rw [hv]
  exact update_alive h _ _

theorem drainInput_alive (h : s.bevs b ≠ none) (d fuel : Nat) : (drainInput env d fuel s).bevs b ≠ none :=
  drainInput_inv (P := fun s' => s'.bevs b ≠ none) (fun _ _ _ h => update_alive h _ _) (fun _ h => h)
    (fun _ h => h) fuel s
    h

theorem closeFd_alive {fd : Int} (h : s.bevs b ≠ none) : (closeFd env fd s).bevs b ≠ none := by
  unfold closeFd
  split <;> exact h

theorem sendNextChunk_alive {d : Nat} (h : s.bevs b ≠ none) : (sendNextChunk env d s).bevs b ≠ none := by
  have hend : ∀ {p : Prop} [Decidable p] {cb : DataWriteCb},
      (if p then { s with conn := { s.conn with dataWriteCb := some cb } } else s).bevs b ≠ none := by
    intro p _ cb
    split <;> exact h
  unfold sendNextChunk
  split
  · exact h
  · dsimp only
    split
    · exact closeFd_alive hend
    · exact closeFd_alive hend
    · exact bevWrite_alive hend

/-- `send_next_chunk` only changes the callback for drained output. -/
theorem sendNextChunk_closing (d : Nat) (s : Session σ) : closing (sendNextChunk env d s) = closing s := by
  have hend : ∀ {p : Prop} [Decidable p] {cb : DataWriteCb},
      closing (if p then { s with conn := { s.conn with dataWriteCb := some cb } } else s) = closing s := by
    intro p _ cb
    split <;> rfl
  unfold sendNextChunk
  split
  · rfl
  · dsimp only
    split
    · simp only [closing, closeFd_conn]
      exact hend
    · simp only [closing, closeFd_conn]
      exact hend
    · simp only [closing, bevWrite_conn]
      exact hend

/-- `send_next_chunk` in the course of a transfer. -/
theorem Ongoing.sendNextChunk (h : Ongoing b s₀ s) (hs : s.ended = none) {d : Nat} :
    Ongoing b s₀ (sendNextChunk env d s) :=
  h.of_mute hs (sendNextChunk_mute d s) (sendNextChunk_closing d s) (sendNextChunk_alive h.alive)

/-- A listing goes out: nothing to list is a completion reply. -/
theorem Ongoing.sendListing (h : Ongoing b s₀ s) (hs : s.ended = none) {lines : Bytes}
    (hnil : lines = [] → ¬ Completed s) : Ongoing b s₀ (sendListing env lines s) := by
  unfold Session.sendListing
  split
  · rename_i hlines
    exact h.complete hs (hnil hlines) (Mute.of_log rfl) h.dataBev h.alive rfl
  · simp only [h.dataBev]
    have hset : Ongoing b s₀ { s with conn := { s.conn with dataWriteCb := some .closeOnListcb } } :=
      h.of_mute hs (Mute.of_log rfl) rfl h.alive
    simp only [h.dataBev] at hset
    refine hset.of_mute hs (bevWrite_mute ..) ?_ (bevWrite_alive h.alive)
    simp only [closing, bevWrite_conn]

theorem Ongoing.sendListCommandOutput (h : Ongoing b s₀ s) (hs : s.ended = none) {path : Bytes}
    {description hidden human : Bool} (hnil : listing env path description hidden human s = some [] → ¬ Completed s) :
    Ongoing b s₀ (sendListCommandOutput env path description hidden human s) := by
  cases hl : listing env path description hidden human s with
  | none =>
    rw [sendListCommandOutput_crash hl]
    exact .of_ended h.dataBev h.alive (Option.some_ne_none _)
  | some lines =>
    obtain ⟨s₁, hlooked, heq⟩ := sendListCommandOutput_listing hl
    have h₁ : Ongoing b s₀ s₁ := by
      refine h.of_mute hs hlooked.mute (by rw [closing, closing, hlooked.conn]) ?_
      rw [hlooked.bevs]
      exact h.alive
    rw [heq]
    refine h₁.sendListing (hlooked.ended.trans hs) fun hlines => ?_
    rw [Completed, hlooked.conn]
    exact hnil (hlines ▸ hl)

end Course

/-! ## The events -/

/-- The output of `b` drains by `n` bytes, and its callback takes that for the end of the transfer. -/
def drainCompletes (b n : Nat) (s : Session σ) : Prop :=
  ∃ v, s.bevs b = some v ∧ (v.output.drop n).length ≤ v.writeLow ∧
    (s.conn.dataWriteCb = some .closeOnListcb ∨ s.conn.dataWriteCb = some .closeOnRetrcb ∨
      (s.conn.dataWriteCb = some .downloadCompletionOnPlainConnectionCb ∧ v.output.drop n = []))

/-- The handshake finds a LIST that has nothing to list. -/
def handshakeCompletes (s : Session σ) : Prop :=
  s.conn.dataTlsEventConnectedCb = some .listTlsOnBevEventConnected ∧ promised env s = some []

/-- An event in the course of the transfer on `b`, at a moment the code is made for: no callback completes a transfer
that is completed, the data connection ends when the transfer is completed or is completed by its end (an upload), and
ABOR comes before that. -/
def InCourse (b : Nat) (e : Event) (s : Session σ) : Prop :=
  match e with
  | .dataRead d _ => d = b
  | .dataWrite d n => d = b ∧ (drainCompletes b n s → ¬ Completed s)
  | .dataEvent d connected timeout error eof => d = b ∧
    (connected = true → (eof || error || timeout) = false ∧ (handshakeCompletes env s → ¬ Completed s)) ∧
    ((eof || error || timeout) = true → (eof = true ∧ s.conn.dataEofEventCb ≠ none ↔ ¬ Completed s))
  | .controlWrite _ => True
  | .controlRead chunk => handlerOf s chunk = some .abor ∧ ¬ Completed s
  | _ => False

section Events

variable {env} {s₀ s : Session σ} {b : Nat}

/-- Bytes arrive. -/
theorem Ongoing.dataRead (h : Ongoing b s₀ s) (hs : s.ended = none) (bytes : Bytes) :
    Ongoing b s₀ (handle env (.dataRead b bytes) s) := by
  obtain ⟨v, hv⟩ := Option.ne_none_iff_exists'.mp h.alive
  have harrive : Ongoing b s₀ (dataArrives b v bytes s) := h.of_mute hs (Mute.of_log rfl) rfl (update_alive h.alive _ _)
  simp only [handle, hv]
  split
  · exact h
  · unfold dataConnectionReadCb
    split
    · refine harrive.of_mute hs (drainInput_mute ..) ?_ (drainInput_alive harrive.alive b env.spin)
      rw [closing, closing, onStorRead, drainInput_conn]
    · exact harrive

/-- Output drains. -/
theorem Ongoing.dataWrite (h : Ongoing b s₀ s) (hs : s.ended = none) {n : Nat}
    (hok : drainCompletes b n s → ¬ Completed s) : Ongoing b s₀ (handle env (.dataWrite b n) s) := by
  obtain ⟨v, hv⟩ := Option.ne_none_iff_exists'.mp h.alive
  have hleave : Ongoing b s₀ (dataLeaves b v n s) := h.of_mute hs (Mute.of_log rfl) rfl (update_alive h.alive _ _)
  simp only [handle, hv]
  split
  · exact h
  · split
    · rename_i hlow
      unfold dataConnectionWriteCb
      split
      · rename_i hcb
        refine hleave.complete hs (hok ⟨v, hv, hlow, .inl hcb⟩) (Mute.of_log rfl) hleave.dataBev hleave.alive rfl
      · exact hleave.sendNextChunk hs
      · rename_i hcb
        exact hleave.complete hs (hok ⟨v, hv, hlow, .inr (.inl hcb)⟩) (Mute.of_log rfl) hleave.dataBev hleave.alive rfl
      · rename_i hcb
        have hv' : (dataLeaves b v n s).bevs b = some { v with
            output := v.output.drop n, sent := v.sent ++ v.output.take n } := Function.update_self ..
        simp only [downloadCompletionOnPlainConnectionCb, hv']
        split
        · rename_i hnil
          exact hleave.complete hs (hok ⟨v, hv, hlow, .inr (.inr ⟨hcb, hnil⟩)⟩) (Mute.of_log rfl) hleave.dataBev
            hleave.alive rfl
        · exact hleave
      · exact hleave
    · exact hleave

/-- The handshake is done. -/
theorem Ongoing.dataConnected (h : Ongoing b s₀ s) (hs : s.ended = none)
    (hok : handshakeCompletes env s → ¬ Completed s) :
    Ongoing b s₀ (dataConnected env s) ∨ ClosedOnce b s₀ (dataConnected env s) := by
  have hactive : Ongoing b s₀ { s with conn := { s.conn with dataActive := s.conn.dataActive + 1 } } :=
    h.of_mute hs (Mute.of_log rfl) rfl h.alive
  unfold Session.dataConnected
  dsimp only
  split
  · split
    · rename_i cb hcb
      cases cb with
      | listTlsOnBevEventConnected =>
        refine .inl (hactive.sendListCommandOutput hs fun hnil => hok ⟨hcb, ?_⟩)
        rw [← hnil]
        exact listing_eq rfl rfl rfl
      | storTlsOnBevEventConnected => exact .inl (hactive.of_mute hs (Mute.of_log rfl) rfl h.alive)
      | closeDataConnectionOnWritecb =>
        rcases hactive.count hs with ⟨-, hone⟩ | ⟨-, -, hne⟩
        · exact .inr (closeDataConnection_closedOnce hactive.dataBev hactive.alive hone)
        · exact absurd hcb hne
    · exact .inl hactive
  · exact .inl hactive

/-- The end of an upload is answered, unless the last of it does not get stored. -/
theorem dataEof_told (h : Ongoing b s₀ s) (hs : s.ended = none) (hc : ¬ Completed s)
    (hcb : s.conn.dataEofEventCb ≠ none) :
    (dataEof env s).bevs b ≠ none ∧ ((dataEof env s).ended = none → Says 1 s₀ (dataEof env s)) := by
  have hzero := h.says_zero hs hc
  obtain ⟨cb, hcb⟩ := Option.ne_none_iff_exists'.mp hcb
  simp only [dataEof, hcb, onEofEventCb, h.dataBev]
  split
  · have hdrain : (drainInput env b env.spin s).bevs b ≠ none := drainInput_alive h.alive b env.spin
    unfold Session.andThen
    split
    · rename_i hended
      exact ⟨hdrain, fun hnone => absurd hnone (Option.isSome_iff_ne_none.mp hended)⟩
    · refine ⟨closeFd_alive hdrain, fun _ => ?_⟩
      have hmute : Mute s (closeFd env (drainInput env b env.spin s).conn.uploadFd (drainInput env b env.spin s)) :=
        (drainInput_mute ..).closeFd
      exact ((hzero.mute hmute).mute (Mute.of_log rfl)).reply env (by rfl)
  · exact ⟨h.alive, fun _ => hzero.reply env (by rfl)⟩

/-- The end of the data connection. -/
theorem Ongoing.dataEnd (h : Ongoing b s₀ s) (hs : s.ended = none) {timeout error eof : Bool}
    (hend : (eof || error || timeout) = true) (hok : eof = true ∧ s.conn.dataEofEventCb ≠ none ↔ ¬ Completed s) :
    Ongoing b s₀ (dataConnectionEventCb env false timeout error eof s) ∨
      ClosedOnce b s₀ (dataConnectionEventCb env false timeout error eof s) := by
  have hcb : dataConnectionEventCb env false timeout error eof s =
      (if eof then dataEof env s else s).andThen (closeDataConnection env) := by
    have hrun : s.andThen (fun s => (if eof then dataEof env s else s).andThen (closeDataConnection env)) =
        (if eof then dataEof env s else s).andThen (closeDataConnection env) := by
      rw [Session.andThen, if_neg (by simp [hs])]
    rw [← hrun, dataConnectionEventCb]
    simp only [hend, if_true]
    rfl
  -- after the EOF part: the data connection is there, and there is a completion reply
  obtain ⟨hd₁, halive₁, hone₁⟩ : (if eof then dataEof env s else s).conn.dataBev = some b ∧
      (if eof then dataEof env s else s).bevs b ≠ none ∧
      ((if eof then dataEof env s else s).ended = none → Says 1 s₀ (if eof then dataEof env s else s)) := by
    by_cases hc : Completed s
    · have hskip : (if eof then dataEof env s else s) = s := by
        split
        · rename_i heof
          by_cases hnone : s.conn.dataEofEventCb = none
          · exact dataEof_none hnone
          · exact absurd hc (hok.mp ⟨heof, hnone⟩)
        · rfl
      rw [hskip]
      exact ⟨h.dataBev, h.alive, fun _ => h.says_one hs hc⟩
    · obtain ⟨heof, hset⟩ := hok.mpr hc
      rw [if_pos heof]
      exact ⟨(dataEof_dataBev s).trans h.dataBev, dataEof_told h hs hc hset⟩
  rw [hcb]
  generalize (if eof then dataEof env s else s) = s₁ at hd₁ halive₁ hone₁ ⊢
  unfold Session.andThen
  split
  · rename_i hended
    exact .inl (.of_ended hd₁ halive₁ (Option.isSome_iff_ne_none.mp hended))
  · rename_i hended
    exact .inr (closeDataConnection_closedOnce hd₁ halive₁ (hone₁ (by simpa using hended)))

/-- A reply leaves. -/
theorem Ongoing.controlWrite (h : Ongoing b s₀ s) (hs : s.ended = none) (n : Nat) :
    Ongoing b s₀ (handle env (.controlWrite n) s) ∨ ClosedOnce b s₀ (handle env (.controlWrite n) s) := by
  have hsent : Ongoing b s₀ { s with ctlOut := s.ctlOut.drop n } := h.of_mute hs (Mute.of_log rfl) rfl h.alive
  simp only [handle]
  split
  · exact .inl h
  · split
    · unfold onWrite
      split
      · rename_i cb hcb
        cases cb with
        | closeDataConnectionOnWritecb =>
          have hclosed : ClosedOnce b s₀ (closeDataConnection env { s with ctlOut := s.ctlOut.drop n }) :=
            closeDataConnection_closedOnce hsent.dataBev hsent.alive (hsent.says_one hs hcb)
          exact .inr ⟨hclosed.settled.of_transfer rfl, hclosed.gone, hclosed.told⟩
        | disableConnectionCb => exact .inl (.of_ended h.dataBev h.alive (Option.some_ne_none _))
      · exact .inl hsent
    · exact .inl hsent

/-- ABOR. -/
theorem Ongoing.abort (h : Ongoing b s₀ s) (hs : s.ended = none) (hc : ¬ Completed s) :
    Ongoing b s₀ (cftpAborAuthenticatedAction env s) ∨ ClosedOnce b s₀ (cftpAborAuthenticatedAction env s) := by
  have hzero := h.says_zero hs hc
  unfold cftpAborAuthenticatedAction
  split
  · obtain ⟨v, hv⟩ := Option.ne_none_iff_exists'.mp h.alive
    obtain ⟨d, os, heq, -⟩ := closeDataConnection_live env h.dataBev hv
    refine .inr ⟨(closeDataConnection_settled s).of_transfer rfl, ?_, ?_⟩
    · simp only [sendControlMessage, emit, heq]
      exact Function.update_self ..
    · exact (hzero.mute (closeDataConnection_mute s)).reply env (by rfl)
  · exact .inl (h.complete hs hc (Mute.of_log rfl) h.dataBev h.alive rfl)

/-- **One event** in the course of a transfer. -/
theorem step_ongoing {e : Event} (h : Ongoing b s₀ s) (hok : InCourse env b e s) :
    Ongoing b s₀ (step env e s) ∨ ClosedOnce b s₀ (step env e s) := by
  by_cases hs : s.ended = none
  · cases e with
    | dataRead d bytes =>
      obtain rfl := hok
      rw [step_handle hs]
      exact .inl (h.dataRead hs bytes)
    | dataWrite d n =>
      obtain ⟨rfl, hdrain⟩ := hok
      rw [step_handle hs]
      exact .inl (h.dataWrite hs hdrain)
    | dataEvent d connected timeout error eof =>
      obtain ⟨rfl, hconnected, hend⟩ := hok
      obtain ⟨v, hv⟩ := Option.ne_none_iff_exists'.mp h.alive
      rw [step_handle hs]
      simp only [handle, hv]
      cases hflags : eof || error || timeout with
      | true =>
        -- the end of the data connection is not reported together with the handshake
        cases connected with
        | true =>
          rw [(hconnected rfl).1] at hflags
          cases hflags
        | false => exact h.dataEnd hs hflags (hend hflags)
      | false =>
        obtain ⟨⟨rfl, rfl⟩, rfl⟩ : (eof = false ∧ error = false) ∧ timeout = false := by simpa using hflags
        rw [dataConnectionEventCb_open]
        split
        · rename_i hc
          exact h.dataConnected hs (hconnected (by simp_all)).2
        · exact .inl h
    | controlWrite n =>
      rw [step_handle hs]
      exact h.controlWrite hs n
    | controlRead chunk =>
      obtain ⟨ha, hc⟩ := hok
      by_cases hne : chunk = []
      · rw [step_handle hs, handle, if_pos hne]
        exact .inl h
      · rw [step_command hs hne ha]
        have hrec : Ongoing b s₀ (received s chunk) := h.of_mute hs (Mute.of_log rfl) rfl h.alive
        exact hrec.abort hs hc
    | _ => exact hok.elim
  · rw [step_ended hs]
    exact .inl h

end Events

/-! ## The command -/

section Command

variable {env} {s₀ s : Session σ} {b : Nat}

variable (env) in
/-- A preliminary reply. -/
theorem Says.preliminary {k : Nat} (h : Says k s₀ s) {text : Bytes} : Says k s₀ (sendControlMessage env 150 text s) :=
  h.trans ⟨[.reply 150 text], rfl, rfl⟩

/-- The data connection `b` before a transfer. -/
structure Unused (b : Nat) (s₀ s : Session σ) : Prop where
  dataBev : s.conn.dataBev = some b
  alive : s.bevs b ≠ none
  none : NoCallbacks s.conn
  waiting : ¬ Completed s
  told : Says 0 s₀ s

/-- The file is open, and the command is accepted. -/
theorem Unused.accepted (h : Unused b s₀ s) {s' : Session σ} (hconn : s'.conn = s.conn) (hbevs : s'.bevs = s.bevs)
    (hm : Mute s s') {text : Bytes} : Unused b s₀ (sendControlMessage env 150 text s') := by
  refine ⟨(congrArg Connection.dataBev hconn).trans h.dataBev, ?_, ?_, ?_, (h.told.mute hm).preliminary env⟩
  · exact fun hnone => h.alive ((congrFun hbevs b).symm.trans hnone)
  · exact hconn.symm ▸ h.none
  · exact fun hc => h.waiting ((congrArg Connection.controlWriteCb hconn).symm.trans hc)

/-- The callbacks of the transfer are set. -/
theorem Unused.start (h : Unused b s₀ s) {c : Connection} (hd : c.dataBev = s.conn.dataBev)
    (hw : c.controlWriteCb = s.conn.controlWriteCb)
    (hc : c.dataTlsEventConnectedCb ≠ some .closeDataConnectionOnWritecb) :
    Ongoing b s₀ { s with conn := c } := by
  refine ⟨hd.trans h.dataBev, h.alive, fun _ => .inr ⟨?_, h.told.mute (Mute.of_log rfl), hc⟩⟩
  exact fun hcomp => h.waiting (hw.symm.trans hcomp)

theorem Unused.connectedCb (h : Unused b s₀ s) :
    s.conn.dataTlsEventConnectedCb ≠ some .closeDataConnectionOnWritecb := by
  rw [h.none.connected]
  exact (Option.some_ne_none _).symm

/-- LIST and NLST. -/
theorem Unused.list (h : Unused b s₀ s) (hs : s.ended = Option.none) {cmd : CftpCommand} {description : Bool}
    (h150 : ∃ text, .reply 150 text ∈ newEffects s (handleListCommand env cmd description s)) :
    Ongoing b s₀ (handleListCommand env cmd description s) := by
  obtain ⟨flags, haccepted⟩ := handleListCommand_accepted h.dataBev h150
  rw [haccepted s rfl rfl h.dataBev]
  have hlooked : Looked s (sysOpendir env (listPath flags) s).2 := Looked.refl.sysOpendir
  generalize (sysOpendir env (listPath flags) s).2 = dir at hlooked ⊢
  have h₁ : Unused b s₀ (sendControlMessage env 150 (ascii "Here comes the directory listings") dir) :=
    h.accepted hlooked.conn hlooked.bevs hlooked.mute
  unfold startList
  split
  · exact h₁.start rfl rfl (by simp [emit])
  · exact (h₁.start rfl rfl h₁.connectedCb).sendListCommandOutput (hlooked.ended.trans hs) fun _ => h₁.waiting

/-- RETR. -/
theorem Unused.retr (h : Unused b s₀ s) (hs : s.ended = Option.none) {path : Bytes}
    (h150 : ∃ text, .reply 150 text ∈ newEffects s (cftpSendFile env path s)) :
    Ongoing b s₀ (cftpSendFile env path s) := by
  obtain ⟨text, h150⟩ := h150
  have hlooked : Looked s (sysOpenRead env path s).2 := Looked.refl.sysOpenRead
  have hsilent : ∀ {s' : Session σ}, Mute s s' → .reply 150 text ∉ newEffects s s' := by
    intro s' hm hmem
    exact hm.not_answered ⟨_, hmem, trivial⟩
  have hrefused : ∀ {s' : Session σ}, Mute s s' →
      .reply 150 text ∉ newEffects s (sendControlMessage env 550 (ascii "Failed to open file") s') := by
    intro s' hm hmem
    exact absurd (hm.reply_mem hmem) (by decide)
  have h₁ : Unused b s₀ (sendControlMessage env 150 (ascii "Sending file") (sysOpenRead env path s).2) :=
    h.accepted hlooked.conn hlooked.bevs hlooked.mute
  have hs₁ : (sysOpenRead env path s).2.ended = Option.none := hlooked.ended.trans hs
  simp only [cftpSendFile, ftpSendFileWithEvbuffer, ftpSendFilePlain, h.dataBev] at h150 ⊢
  cases hfd : (sysOpenRead env path s).1 with
  | none =>
    simp only [hfd] at h150
    split at h150
    · exact absurd h150 (hsilent hlooked.mute)
    · exact absurd h150 (hrefused hlooked.mute)
  | some fd =>
    cases hst : env.fstat (sysOpenRead env path s).2.os fd with
    | none =>
      simp only [hfd, hst] at h150
      split at h150
      · exact absurd h150 (hsilent hlooked.closeFd.mute)
      · exact absurd h150 (hrefused hlooked.closeFd.mute)
    | some st =>
      simp only [hst]
      split
      · have hset : Ongoing b s₀ (setWriteLow b WRITE_LOW
            { sendControlMessage env 150 (ascii "Sending file") (sysOpenRead env path s).2 with
              conn := { (sysOpenRead env path s).2.conn with
                dataStream := some ⟨fd, 0, st.size⟩
                dataWriteCb := some .sendNextChunk } }) := by
          have hstart : Ongoing b s₀ { sendControlMessage env 150 (ascii "Sending file") (sysOpenRead env path s).2 with
              conn := { (sysOpenRead env path s).2.conn with
                dataStream := some ⟨fd, 0, st.size⟩
                dataWriteCb := some .sendNextChunk } } := h₁.start rfl rfl h₁.connectedCb
          exact hstart.of_mute hs₁ (Mute.of_log rfl) rfl (setWriteLow_alive hstart.alive)
        exact hset.sendNextChunk hs₁
      · have hset : Ongoing b s₀ { sendControlMessage env 150 (ascii "Sending file") (sysOpenRead env path s).2 with
              conn := { (sysOpenRead env path s).2.conn with
                dataWriteCb := some .downloadCompletionOnPlainConnectionCb } } := h₁.start rfl rfl h₁.connectedCb
        refine hset.of_mute hs₁ (bevWrite_mute ..) ?_ (bevWrite_alive hset.alive)
        simp only [closing, bevWrite_conn]
        rfl

/-- STOR. -/
theorem Unused.stor (h : Unused b s₀ s) {path : Bytes}
    (h150 : ∃ text, .reply 150 text ∈ newEffects s (cftpRecvFileWithEvbuffer env path s)) :
    Ongoing b s₀ (cftpRecvFileWithEvbuffer env path s) := by
  obtain ⟨text, h150⟩ := h150
  have hmute : Mute s (sysOpenWrite env path s).2 := by
    unfold sysOpenWrite
    split
    · exact Mute.refl.call.newFd
    · exact Mute.refl.call
  have hbevs : (sysOpenWrite env path s).2.bevs = s.bevs := by
    unfold sysOpenWrite
    split <;> rfl
  have h₁ : Unused b s₀ (sendControlMessage env 150 (ascii "Read to receive") (sysOpenWrite env path s).2) :=
    h.accepted (sysOpenWrite_conn path s) hbevs hmute
  have hsome : s.conn.dataBev.isNone = false := by rw [h.dataBev, Option.isNone_some]
  simp only [cftpRecvFileWithEvbuffer, hsome, Bool.false_eq_true, if_false] at h150 ⊢
  cases hfd : (sysOpenWrite env path s).1 with
  | none =>
    simp only [hfd] at h150
    have hset : Mute s (setControlWriteCb .closeDataConnectionOnWritecb (sysOpenWrite env path s).2) :=
      hmute.trans (Mute.of_log rfl)
    exact absurd (hset.reply_mem h150) (by decide)
  | some fd =>
    dsimp only
    split
    · exact h₁.start rfl rfl (by simp [emit])
    · exact h₁.start rfl rfl h₁.connectedCb

/-- **A transfer begins**: the command is answered by 150. -/
theorem Unused.command (h : Unused b s₀ s) (hs : s.ended = Option.none) {a : Action} (ht : a.transfers = true)
    {cmd : CftpCommand} (h150 : ∃ text, .reply 150 text ∈ newEffects s (runAction env a cmd s)) :
    Ongoing b s₀ (runAction env a cmd s) := by
  have harg : ∀ {text : String} {action : Bytes → Session σ → Session σ},
      (∃ t, .reply 150 t ∈ newEffects s (withArg env cmd text action s)) →
      ∃ path, withArg env cmd text action s = action path s := by
    rintro text action ⟨t, hmem⟩
    unfold withArg at hmem ⊢
    split at hmem
    · rename_i path hcmd
      exact ⟨path, rfl⟩
    · exact absurd (Mute.refl.reply_mem hmem) (by decide)
  cases a with
  | list => exact h.list hs h150
  | nlst => exact h.list hs h150
  | retr =>
    obtain ⟨path, heq⟩ := harg h150
    simp only [runAction, cftpRetrAuthenticatedAction] at h150 ⊢
    rw [heq] at h150 ⊢
    exact h.retr hs h150
  | stor =>
    obtain ⟨path, heq⟩ := harg h150
    simp only [runAction, cftpStorAuthenticatedAction] at h150 ⊢
    rw [heq] at h150 ⊢
    exact h.stor h150
  | _ => cases ht

end Command

/-! ## Runs -/

section Runs

variable {env} {s₀ s : Session σ} {b : Nat}

/-- What is closed stays closed. -/
theorem step_gone {e : Event} (hok : InCourse env b e s) (h : s.conn.dataBev = none ∧ s.bevs b = none) :
    (step env e s).conn.dataBev = none ∧ (step env e s).bevs b = none := by
  have hclose : ∀ {s' : Session σ}, s'.conn.dataBev = none → s'.bevs b = none →
      (closeDataConnection env s').conn.dataBev = none ∧ (closeDataConnection env s').bevs b = none := by
    intro s' hd hb
    simp only [closeDataConnection, hd]
    exact ⟨rfl, hb⟩
  have hst := step_transfer env e s
  generalize step env e s = s' at hst ⊢
  cases hst with
  | aside ha =>
    exact ⟨(congrArg Transfer.dataBev ha.transfer).trans h.1,
      (congrFun (congrArg Transfer.bevs ha.transfer) b).trans h.2⟩
  | command hs ha ht =>
    rw [hok.1, Option.some.injEq] at ha
    rw [← ha] at ht
    cases ht
  | abort => exact hclose h.1 h.2
  | flush hs hcb ht =>
    obtain ⟨hd, hb⟩ : (closeDataConnection env { s with ctlOut := [] }).conn.dataBev = none ∧
      (closeDataConnection env { s with ctlOut := [] }).bevs b = none := hclose h.1 h.2
    exact ⟨(congrArg Transfer.dataBev ht).trans hd, (congrFun (congrArg Transfer.bevs ht) b).trans hb⟩
  | connect => exact hok.elim
  | data hs he hv =>
    cases he with
    | read =>
      obtain rfl := hok
      rw [h.2] at hv
      cases hv
    | write =>
      obtain ⟨rfl, -⟩ := hok
      rw [h.2] at hv
      cases hv
    | event =>
      obtain ⟨rfl, -⟩ := hok
      rw [h.2] at hv
      cases hv

/-- In the course of a transfer the data connection is there, or all is over. -/
theorem run_ongoing (es : List Event) (hg : Guarded (step env) (InCourse env b) es s) (h : Ongoing b s₀ s)
    (halive : (run (step env) es s).bevs b ≠ none) : Ongoing b s₀ (run (step env) es s) := by
  have hrun : Ongoing b s₀ (run (step env) es s) ∨
      (run (step env) es s).conn.dataBev = none ∧ (run (step env) es s).bevs b = none := by
    refine run_inv_of_guarded (P := fun s => Ongoing b s₀ s ∨ s.conn.dataBev = none ∧ s.bevs b = none)
      (fun e s hok h => ?_) es hg (.inl h)
    rcases h with h | h
    · exact (step_ongoing h hok).imp_right fun hclosed => ⟨hclosed.settled.dataBev, hclosed.gone⟩
    · exact .inr (step_gone hok h)
  exact hrun.resolve_right fun hgone => halive hgone.2

end Runs

/-- **A transfer is completed once.** In every run in which one client at a time connects, a transfer command on a
data connection `b` that had none before is answered 150 while no close is queued, and then events of `b`, replies
that leave and ABOR come in any order, each at a moment the code is made for: with the event that closes the data
connection there has been exactly one completion reply, and no callback is left to give another. -/
theorem closed_completed_once (addr : SockAddr) (proc : Proc) (os : σ) (es₀ : List Event) (b : Nat) (chunk : Bytes)
    (a : Action) (es : List Event) (e : Event)
    (hg₀ : Guarded (step env) (fun e s => AcceptsOne e s ∧ NoTransfer b e s) es₀ (start env addr proc os))
    (hd : (reached env addr proc os es₀).conn.dataBev = some b) (hbev : (reached env addr proc os es₀).bevs b ≠ none)
    (hqueued : ¬ Completed (reached env addr proc os es₀))
    (ha : handlerOf (reached env addr proc os es₀) chunk = some a) (ht : a.transfers = true)
    (h150 : ∃ text, .reply 150 text ∈ newEffects (reached env addr proc os es₀)
      (step env (.controlRead chunk) (reached env addr proc os es₀)))
    (hg : Guarded (step env) (InCourse env b) (es ++ [e])
      (step env (.controlRead chunk) (reached env addr proc os es₀)))
    (halive : (run (step env) es (step env (.controlRead chunk) (reached env addr proc os es₀))).bevs b ≠ none)
    (hgone : (run (step env) (es ++ [e])
      (step env (.controlRead chunk) (reached env addr proc os es₀))).bevs b = none) :
    completions (reached env addr proc os es₀)
        (run (step env) (es ++ [e]) (step env (.controlRead chunk) (reached env addr proc os es₀))) = 1 ∧
      NoCallbacks (run (step env) (es ++ [e]) (step env (.controlRead chunk) (reached env addr proc os es₀))).conn := by
  obtain ⟨-, hunused⟩ := reached_unused env addr proc os es₀ b hg₀
  have hnone := hunused hd
  generalize reached env addr proc os es₀ = s₀ at *
  have hstart : Ongoing b s₀ (step env (.controlRead chunk) s₀) := by
    obtain ⟨text, hmem⟩ := h150
    have hs : s₀.ended = none := by
      by_contra hs
      rw [step_ended hs, newEffects_self] at hmem
      cases hmem
    have hne : chunk ≠ [] := by
      intro hchunk
      rw [step_handle hs, handle, if_pos hchunk, newEffects_self] at hmem
      cases hmem
    rw [step_command hs hne ha] at hmem ⊢
    have hrec : Unused b s₀ (received s₀ chunk) := ⟨hd, hbev, hnone, hqueued, (Mute.of_log rfl).silent⟩
    exact hrec.command hs ht ⟨text, hmem⟩
  generalize step env (.controlRead chunk) s₀ = s₁ at *
  rw [run_append] at hgone ⊢
  have hongoing := run_ongoing es hg.prefix hstart halive
  rcases step_ongoing hongoing hg.last with h | h
  · exact absurd hgone h.alive
  · exact ⟨h.told.completions, h.settled.none⟩

/-- Alice's upload of two bytes: its end is its completion. -/
theorem stor_completed_once :
    completions (aliceSession Env.permissive [.controlRead (ascii "PASV\r\n"), .accept 1 9 (.inet 127 0 0 1)])
      (aliceSession Env.permissive [.controlRead (ascii "PASV\r\n"), .accept 1 9 (.inet 127 0 0 1),
        .controlRead (ascii "STOR f\r\n"), .dataRead 3 (ascii "ab"), .controlWrite 100,
        .dataEvent 3 false false false true]) = 1 := by
  have hcmd : ∀ {chunk : Bytes} {s : Session Unit} (a : Action), handlerOf s chunk = some a → a.transfers = false →
      AcceptsOne (.controlRead chunk) s ∧ NoTransfer 3 (.controlRead chunk) s := by
    intro chunk s a ha hno
    refine ⟨fun _ _ _ he => (by cases he), fun chunk' a' he ha' ht => ?_⟩
    cases he
    rw [ha, Option.some.injEq] at ha'
    rw [← ha', hno] at ht
    cases ht
  have h := closed_completed_once Env.permissive (.inet 127 0 0 1) ⟨ascii "/", ascii "/", 0, 0, []⟩ ()
    [.controlRead (ascii "USER alice\r\n"), .controlRead (ascii "PASS x\r\n"), .controlRead (ascii "PASV\r\n"),
      .accept 1 9 (.inet 127 0 0 1)] 3 (ascii "STOR f\r\n") .stor [.dataRead 3 (ascii "ab"), .controlWrite 100]
    (.dataEvent 3 false false false true)
    ⟨hcmd .user (by decide) rfl, hcmd .pass (by decide) rfl, hcmd .pasv (by decide) rfl,
      ⟨fun _ _ _ _ _ _ _ => by decide, fun _ _ he => (by cases he)⟩, trivial⟩
    (by decide) (by decide) (by decide) (by decide) rfl ⟨ascii "Read to receive", by decide⟩
    ⟨rfl, trivial, ⟨rfl, fun hfalse => (Bool.false_ne_true hfalse).elim, fun _ => by decide⟩, trivial⟩ (by decide)
      (by decide)
  exact h.1

/-- A download whose data connection breaks is not completed at all; a listing that is aborted when its reply is
queued is completed twice. -/
theorem broken_retr_not_completed_aborted_list_twice :
    (aliceSession Env.twoByteFiles [.controlRead (ascii "PASV\r\n"), .accept 1 9 (.inet 127 0 0 1),
        .controlRead (ascii "RETR f\r\n"), .dataEvent 3 false false true false]).bevs 3 = none ∧
      .reply 150 (ascii "Sending file") ∈ (aliceSession Env.twoByteFiles [.controlRead (ascii "PASV\r\n"),
        .accept 1 9 (.inet 127 0 0 1), .controlRead (ascii "RETR f\r\n"), .dataEvent 3 false false true false]).log ∧
      completions (aliceSession Env.twoByteFiles [.controlRead (ascii "PASV\r\n"), .accept 1 9 (.inet 127 0 0 1)])
        (aliceSession Env.twoByteFiles [.controlRead (ascii "PASV\r\n"), .accept 1 9 (.inet 127 0 0 1),
          .controlRead (ascii "RETR f\r\n"), .dataEvent 3 false false true false]) = 0 ∧
      (aliceSession Env.permissive [.controlRead (ascii "PASV\r\n"), .accept 1 9 (.inet 127 0 0 1),
        .controlRead (ascii "LIST\r\n"), .controlRead (ascii "ABOR\r\n")]).bevs 3 = none ∧
      completions (aliceSession Env.permissive [.controlRead (ascii "PASV\r\n"), .accept 1 9 (.inet 127 0 0 1)])
        (aliceSession Env.permissive [.controlRead (ascii "PASV\r\n"), .accept 1 9 (.inet 127 0 0 1),
          .controlRead (ascii "LIST\r\n"), .controlRead (ascii "ABOR\r\n")]) = 2 := by
  decide

end Session

end CftpServer
