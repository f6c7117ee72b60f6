import CftpServer.Session.Idle

/-!
# Uploads

The bytes of an upload wait in the input of the bufferevent until `on_stor_read` or, at the end, `on_eof_event_cb`
writes them to the file.

* `drainInput_spec`: what leaves the input is what is written
* `step_uploadOk`: the file and the input are together what has arrived
* `upload_stored`: so the file is what was sent when the 226 reply goes out
-/

namespace CftpServer

open CLib

/-- A file as the effects of a session change it: whether the next file opened is emptied, and what the file has. -/
structure FileView where
  truncating : Bool
  content : Bytes
deriving DecidableEq, Repr

/-- The file of a descriptor after an effect: `open` with `O_TRUNC` empties it, writes go to its end. -/
def FileView.after (fd : Int) (f : FileView) : Effect → FileView
  | .call (.openWrite _) => { f with truncating := true }
  | .call _ => { f with truncating := false }
  | .opened fd' => ⟨false, if f.truncating ∧ fd' = fd then [] else f.content⟩
  | .store _ _ fd' bytes => if fd' = fd then { f with content := f.content ++ bytes } else f
  | _ => f

/-- What the file of a descriptor has after these effects, and what it had before them. -/
def fileContent (fd : Int) (old : Bytes) (log : List Effect) : Bytes :=
  (log.foldl (FileView.after fd) ⟨false, old⟩).content

namespace Session

open Command Runs

variable {σ : Type} (env : Env σ)

/-! ## The file -/

section Content

/-- The file of `fd` has the content `c`, whatever it had when the session began. -/
def FileHas (fd : Int) (c : Bytes) (s : Session σ) : Prop :=
  ∀ old, s.log.foldl (FileView.after fd) ⟨false, old⟩ = ⟨false, c⟩

variable {s s' : Session σ} {fd : Int} {c : Bytes}

theorem FileHas.extend (h : FileHas fd c s) {d : List Effect} (hlog : s'.log = s.log ++ d)
    (hd : ∀ e ∈ d, FileView.after fd ⟨false, c⟩ e = ⟨false, c⟩) : FileHas fd c s' := by
  intro old
  rw [hlog, List.foldl_append, h old]
  clear hlog
  induction d with
  | nil => rfl
  | cons e d ih =>
    rw [List.foldl_cons, hd e List.mem_cons_self]
    exact ih fun e' he' => hd e' (List.mem_cons_of_mem e he')

/-- Only transfers write to the file. -/
theorem after_aside {e : Effect} (he : e.IsAside) : FileView.after fd ⟨false, c⟩ e = ⟨false, c⟩ := by
  cases e with
  | call call =>
    cases call with
    | openWrite => exact he.elim
    | _ => rfl
  | opened fd' => simp [FileView.after]
  | store => exact he.elim
  | _ => rfl

theorem FileHas.of_aside (h : FileHas fd c s) (ha : Aside s s') : FileHas fd c s' := by
  obtain ⟨d, hd, haside⟩ := ha.log
  exact h.extend hd fun e he => after_aside (haside e he)

/-- Writes to the file go to its end. -/
theorem FileHas.store (h : FileHas fd c s) {b : Nat} {tls : Bool} (chunks : List Bytes)
    (hlog : s'.log = s.log ++ chunks.map (.store b tls fd)) : FileHas fd (c ++ chunks.flatten) s' := by
  intro old
  rw [hlog, List.foldl_append, h old]
  clear h hlog
  induction chunks generalizing c with
  | nil => simp
  | cons bytes chunks ih =>
    rw [List.map_cons, List.foldl_cons, List.flatten_cons, ← List.append_assoc, ← ih]
    simp [FileView.after]

end Content

/-! ## The loop that writes -/

/-- **What leaves the input is written**, in order; the loop leaves nothing there unless it runs for ever. -/
theorem drainInput_spec (b fuel : Nat) : ∀ {s : Session σ} {v : Bev}, s.bevs b = some v →
    ∃ (chunks : List Bytes) (rest : Bytes),
    (drainInput env b fuel s).log = s.log ++ chunks.map (.store b v.tls s.conn.uploadFd) ∧
      (drainInput env b fuel s).bevs = Function.update s.bevs b (some { v with input := rest }) ∧
      chunks.flatten ++ rest = v.input ∧
      ((drainInput env b fuel s).ended = some .hung ∨ ((drainInput env b fuel s).ended = s.ended ∧ rest = [])) := by
  induction fuel with
  | zero =>
    intro s v hv
    refine ⟨[], v.input, by simp [drainInput, hang], ?_, rfl, .inl rfl⟩
    rw [← hv, Function.update_eq_self]
    rfl
  | succ fuel ih =>
    intro s v hv
    by_cases hinput : v.input = []
    · have hstop : drainInput env b (fuel + 1) s = s := by
        rw [drainInput, hv]
        simp only [hinput, if_true]
      rw [hstop]
      refine ⟨[], [], by simp, ?_, by rw [hinput]; rfl, .inr ⟨rfl, rfl⟩⟩
      rw [← hinput, ← hv, Function.update_eq_self]
    · -- one write, and then the rest of the loop
      have hgo : drainInput env b (fuel + 1) s = drainInput env b fuel (evbufferWrite env b v s) := by
        rw [drainInput, hv]
        simp only [hinput, if_false]
      obtain ⟨n, hn⟩ : ∃ n, evbufferWrite env b v s = emit env (.store b v.tls s.conn.uploadFd (v.input.take n))
          { s with bevs := Function.update s.bevs b (some { v with input := v.input.drop n }) } := ⟨_, rfl⟩
      obtain ⟨chunks, rest, hlog, hbevs, hflat, hended⟩ :=
        ih (s := evbufferWrite env b v s) (v := { v with input := v.input.drop n }) (by rw [hn]; simp [emit])
      rw [hgo]
      refine ⟨v.input.take n :: chunks, rest, ?_, ?_, ?_, ?_⟩
      · rw [hlog, hn]
        simp [emit]
      · rw [hbevs, hn]
        simp [emit]
      · rw [List.flatten_cons, List.append_assoc, hflat, List.take_append_drop]
      · exact hended

/-! ## One upload on one data connection -/

/-- The bytes that arrive on a data connection with an event. -/
def arrived (b : Nat) : Event → Session σ → Bytes
  | .dataRead d bytes, s => if d = b ∧ s.ended = none ∧ (s.bevs b).isSome then bytes else []
  | _, _ => []

/-- The only transfer commands on the data connection `b` are STOR, and none comes after one that was accepted. -/
def OneStor (b : Nat) (e : Event) (s : Session σ) : Prop :=
  ∀ chunk a, e = .controlRead chunk → handlerOf s chunk = some a → a.transfers = true → s.conn.dataBev = some b →
    a = .stor ∧ s.conn.dataEofEventCb = none

/-- Before the STOR: what has arrived is in the input. -/
structure Waiting (b : Nat) (sent : Bytes) (s : Session σ) : Prop where
  none : NoCallbacks s.conn
  input : ∃ v, s.bevs b = some v ∧ v.input = sent

/-- After it: the file and the input are together what has arrived. -/
structure Storing (b : Nat) (sent : Bytes) (s : Session σ) : Prop where
  eof : s.conn.dataEofEventCb = some .onEofEventCb
  write : s.conn.dataWriteCb = none
  connected : s.conn.dataTlsEventConnectedCb ≠ some .listTlsOnBevEventConnected ∧
    s.conn.dataTlsEventConnectedCb ≠ some .closeDataConnectionOnWritecb
  fd : 0 ≤ s.conn.uploadFd
  file : ∃ v c, s.bevs b = some v ∧ FileHas s.conn.uploadFd c s ∧ c ++ v.input = sent

/-- The state of the upload on `b`, once it is there and as long as it and the session are. -/
structure UploadOk (b : Nat) (sent : Bytes) (s : Session σ) : Prop where
  fresh : s.nextId ≤ b → sent = []
  holds : s.ended = none → s.conn.dataBev = some b → Waiting b sent s ∨ Storing b sent s

section Stages

variable {env} {s s' : Session σ} {b : Nat} {sent : Bytes}

theorem Waiting.of_transfer (h : Waiting b sent s) (ht : s'.transfer = s.transfer) : Waiting b sent s' := by
  obtain ⟨v, hv, hin⟩ := h.input
  exact ⟨h.none.of_transfer ht, v, (congrFun (congrArg Transfer.bevs ht) b).trans hv, hin⟩

theorem Storing.of_aside (h : Storing b sent s) (ha : Aside s s') : Storing b sent s' := by
  have ht := ha.transfer
  obtain ⟨v, c, hv, hfile, hin⟩ := h.file
  have hfd : s'.conn.uploadFd = s.conn.uploadFd := congrArg Transfer.uploadFd ht
  refine ⟨(congrArg Transfer.dataEofEventCb ht).trans h.eof, (congrArg Transfer.dataWriteCb ht).trans h.write, ?_,
    hfd ▸ h.fd, v, c, ?_, ?_, hin⟩
  · rw [show s'.conn.dataTlsEventConnectedCb = _ from congrArg Transfer.dataTlsEventConnectedCb ht]
    exact h.connected
  · exact (congrFun (congrArg Transfer.bevs ht) b).trans hv
  · rw [hfd]
    exact hfile.of_aside ha

/-! ### STOR -/

/-- An accepted STOR empties its file. -/
theorem stor_fileHas {path : Bytes} (hopen : env.openWrite s.os s.proc path = true) (n : Nat) (text : Bytes)
    (conn : Connection) :
    FileHas (s.nextId : Int) [] (sendControlMessage env n text { (sysOpenWrite env path s).2 with conn := conn }) := by
  intro old
  have hlog : (sendControlMessage env n text { (sysOpenWrite env path s).2 with conn := conn }).log =
      s.log ++ [.call (.openWrite path), .opened s.nextId, .reply n text] := by
    simp [sendControlMessage, sysOpenWrite, hopen, newFd, fresh, call, emit]
  rw [hlog, List.foldl_append]
  simp [FileView.after]

theorem stor_holds {cmd : CftpCommand} (h : Waiting b sent s) :
    Waiting b sent (runAction env .stor cmd s) ∨ Storing b sent (runAction env .stor cmd s) := by
  simp only [runAction, cftpStorAuthenticatedAction, withArg]
  split
  · rename_i path _
    unfold cftpRecvFileWithEvbuffer
    split
    · exact .inl (h.of_transfer rfl)
    · cases hopen : env.openWrite s.os s.proc path with
      | false =>
        have hfail : sysOpenWrite env path s = (none, call env (.openWrite path) s) := by simp [sysOpenWrite, hopen]
        simp only [hfail]
        exact .inl (h.of_transfer rfl)
      | true =>
        have hfd : (sysOpenWrite env path s).1 = some (s.nextId : Int) := by
          simp [sysOpenWrite, hopen, newFd, call, emit]
        have hbevs : (sysOpenWrite env path s).2.bevs = s.bevs := by
          simp [sysOpenWrite, hopen, newFd, call, emit, fresh]
        have hconn : (sysOpenWrite env path s).2.conn = s.conn := sysOpenWrite_conn path s
        obtain ⟨v, hv, hin⟩ := h.input
        have hfile := stor_fileHas hopen 150 (ascii "Read to receive")
        simp only [hfd, hconn]
        right
        split
        · exact ⟨rfl, h.none.write, ⟨by simp [sendControlMessage, emit], by simp [sendControlMessage, emit]⟩,
            Int.natCast_nonneg _, v, [], (congrFun hbevs b).trans hv, hfile _, hin⟩
        · refine ⟨rfl, h.none.write, ⟨?_, ?_⟩, Int.natCast_nonneg _, v, [], (congrFun hbevs b).trans hv, hfile _, hin⟩
          · simp [sendControlMessage, emit, h.none.connected]
          · simp [sendControlMessage, emit, h.none.connected]
  · exact .inl (h.of_transfer rfl)

/-! ### The events of the data connection -/

/-- The loop moves bytes from the input to the file. -/
theorem Storing.drained (h : Storing b sent s) (fuel : Nat) : Storing b sent (drainInput env b fuel s) := by
  obtain ⟨v, c, hv, hfile, hin⟩ := h.file
  obtain ⟨chunks, rest, hlog, hbevs, hflat, -⟩ := drainInput_spec env b fuel hv
  have hconn : (drainInput env b fuel s).conn = s.conn := drainInput_conn b fuel s
  refine ⟨by rw [hconn]; exact h.eof, by rw [hconn]; exact h.write, by rw [hconn]; exact h.connected,
    by rw [hconn]; exact h.fd, { v with input := rest }, c ++ chunks.flatten, by rw [hbevs, Function.update_self], ?_,
    by rw [List.append_assoc, hflat]; exact hin⟩
  rw [hconn]
  exact hfile.store chunks hlog

/-- When it ends, all that has arrived is in the file. -/
theorem Storing.drained_file (h : Storing b sent s) {fuel : Nat} (hs : (drainInput env b fuel s).ended = none) :
    FileHas s.conn.uploadFd sent (drainInput env b fuel s) := by
  obtain ⟨v, c, hv, hfile, hin⟩ := h.file
  obtain ⟨chunks, rest, hlog, -, hflat, hended | ⟨-, hrest⟩⟩ := drainInput_spec env b fuel hv
  · rw [hs] at hended
    cases hended
  · rw [hrest, List.append_nil] at hflat
    rw [← hin, ← hflat]
    exact hfile.store chunks hlog

/-- Bytes arrive. -/
theorem dataArrives_holds {v : Bev} (bytes : Bytes) (hv : s.bevs b = some v) (h : Waiting b sent s ∨ Storing b sent s) :
    Waiting b (sent ++ bytes) (dataConnectionReadCb env b (dataArrives b v bytes s)) ∨
      Storing b (sent ++ bytes) (dataConnectionReadCb env b (dataArrives b v bytes s)) := by
  have hbev : (dataArrives b v bytes s).bevs b = some { v with input := v.input ++ bytes } := by simp [dataArrives]
  rcases h with h | h
  · obtain ⟨w, hw, hin⟩ := h.input
    rw [hv, Option.some.injEq] at hw
    have hread : dataConnectionReadCb env b (dataArrives b v bytes s) = dataArrives b v bytes s := by
      simp only [dataConnectionReadCb, dataArrives, h.none.read]
    rw [hread]
    exact .inl ⟨h.none, _, hbev, by rw [← hin, ← hw]⟩
  · obtain ⟨w, c, hw, hfile, hin⟩ := h.file
    rw [hv, Option.some.injEq] at hw
    have harrived : Storing b (sent ++ bytes) (dataArrives b v bytes s) :=
      ⟨h.eof, h.write, h.connected, h.fd, _, c, hbev, hfile, by rw [← hin, ← hw, List.append_assoc]⟩
    unfold dataConnectionReadCb
    split
    · exact .inr (harrived.drained env.spin)
    · exact .inr harrived

/-- Output leaves: there is no callback for it. -/
theorem dataLeaves_holds {v : Bev} (n : Nat) (hv : s.bevs b = some v) (h : Waiting b sent s ∨ Storing b sent s) :
    Waiting b sent (dataLeaves b v n s) ∨ Storing b sent (dataLeaves b v n s) := by
  have hbev : (dataLeaves b v n s).bevs b =
      some { v with output := v.output.drop n, sent := v.sent ++ v.output.take n } := by simp [dataLeaves]
  rcases h with h | h
  · obtain ⟨w, hw, hin⟩ := h.input
    rw [hv, Option.some.injEq] at hw
    exact .inl ⟨h.none, _, hbev, by rw [← hin, ← hw]⟩
  · obtain ⟨w, c, hw, hfile, hin⟩ := h.file
    rw [hv, Option.some.injEq] at hw
    exact .inr ⟨h.eof, h.write, h.connected, h.fd, _, c, hbev, hfile, by rw [← hin, ← hw]⟩

theorem holds_write (h : Waiting b sent s ∨ Storing b sent s) : s.conn.dataWriteCb = none := by
  rcases h with h | h
  · exact h.none.write
  · exact h.write

/-- The handshake is done. -/
theorem dataConnected_holds (h : Waiting b sent s ∨ Storing b sent s) :
    Waiting b sent (dataConnected env s) ∨ Storing b sent (dataConnected env s) := by
  rcases h with h | h
  · rw [dataConnected_none h.none.connected]
    exact .inl (h.of_transfer rfl)
  · have hactive : Storing b sent { s with conn := { s.conn with dataActive := s.conn.dataActive + 1 } } :=
      h.of_aside (.of_eq rfl rfl le_rfl)
    unfold dataConnected
    dsimp only
    split
    · split
      · rename_i cb hcb
        cases cb with
        | listTlsOnBevEventConnected => exact absurd hcb h.connected.1
        | storTlsOnBevEventConnected =>
          exact .inr ⟨hactive.eof, hactive.write, hactive.connected, hactive.fd, hactive.file⟩
        | closeDataConnectionOnWritecb => exact absurd hcb h.connected.2
      · exact .inr hactive
    · exact .inr hactive

end Stages

/-- **An event of the data connection** keeps the upload in order, or ends it. -/
theorem dataEvent_holds {s : Session σ} {b : Nat} {sent : Bytes} {v : Bev} {e : Event} (he : DataEventOf b e)
    (hs : s.ended = none) (hv : s.bevs b = some v) (h : Waiting b sent s ∨ Storing b sent s)
    (hs' : (handle env e s).ended = none) (hd : (handle env e s).conn.dataBev = some b) :
    Waiting b (sent ++ arrived b e s) (handle env e s) ∨ Storing b (sent ++ arrived b e s) (handle env e s) := by
  cases he with
  | read bytes =>
    have harrived : arrived b (.dataRead b bytes) s = bytes := by simp [arrived, hs, hv]
    rw [harrived]
    simp only [handle, hv]
    split
    · rename_i hempty
      rw [hempty, List.append_nil]
      exact h
    · exact dataArrives_holds bytes hv h
  | write n =>
    rw [show arrived b (.dataWrite b n) s = [] from rfl, List.append_nil]
    simp only [handle, hv]
    split
    · exact h
    · have hw : (dataLeaves b v n s).conn.dataWriteCb = none := holds_write (dataLeaves_holds n hv h)
      split
      · simp only [dataConnectionWriteCb, hw]
        exact dataLeaves_holds n hv h
      · exact dataLeaves_holds n hv h
  | event connected timeout error eof =>
    rw [show arrived b (.dataEvent b connected timeout error eof) s = [] from rfl, List.append_nil]
    simp only [handle, hv] at hs' hd ⊢
    cases hflags : (eof || error || timeout) with
    | true =>
      rcases dataConnectionEventCb_closing env s (connected && v.tls) hflags with hended | hsettled
      · exact absurd hs' hended
      · exact absurd hd (hsettled.dataBev_ne b)
    | false =>
      simp only [Bool.or_eq_false_iff] at hflags
      obtain ⟨⟨rfl, rfl⟩, rfl⟩ := hflags
      rw [dataConnectionEventCb_open]
      split
      · exact dataConnected_holds h
      · exact h

theorem arrived_eq_nil {b : Nat} {e : Event} {s : Session σ}
    (h : ¬ (DataEventOf b e ∧ s.ended = none ∧ s.bevs b ≠ none)) :
    arrived b e s = [] := by
  cases e with
  | dataRead d bytes =>
    apply if_neg
    rintro ⟨rfl, hs, hv⟩
    exact h ⟨.read bytes, hs, Option.isSome_iff_ne_none.mp hv⟩
  | _ => rfl

/-- **One event** keeps the upload in order. -/
theorem step_uploadOk {s : Session σ} {b : Nat} {sent : Bytes} (e : Event) (hsingle : Single s) (hidle : Idle s)
    (h : UploadOk b sent s) (hg : AcceptsOne e s) (hone : OneStor b e s) :
    UploadOk b (sent ++ arrived b e s) (step env e s) := by
  refine ⟨fun hid => ?_, fun hs' hd' => ?_⟩
  · have hle : s.nextId ≤ b := (step_nextId_le env e s).trans hid
    rw [h.fresh hle, arrived_eq_nil fun hb => hb.2.2 (hsingle.old b hle), List.append_nil]
  · have hs : s.ended = none := step_running hs'
    by_cases hb : DataEventOf b e ∧ s.ended = none ∧ s.bevs b ≠ none
    · obtain ⟨he, -, hb⟩ := hb
      obtain ⟨v, hv⟩ := Option.ne_none_iff_exists'.mp hb
      rw [step_handle hs] at hs' hd' ⊢
      exact dataEvent_holds env he hs hv (h.holds hs (hsingle.only b v hv)) hs' hd'
    · rw [arrived_eq_nil hb, List.append_nil]
      have hst := step_transfer env e s
      generalize step env e s = s' at hst hs' hd' ⊢
      cases hst with
      | aside ha =>
        rcases h.holds hs ((congrArg Transfer.dataBev ha.transfer).symm.trans hd') with h | h
        · exact .inl (h.of_transfer ha.transfer)
        · exact .inr (h.of_aside ha)
      | @command chunk a _ ha ht =>
        have hd : s.conn.dataBev = some b := (transferCommand_dataBev ht (received s chunk)).symm.trans hd'
        obtain ⟨rfl, heof⟩ := hone chunk a rfl ha ht hd
        rcases h.holds hs hd with h | h
        · exact stor_holds (h.of_transfer (received_aside s chunk).transfer)
        · rw [h.eof] at heof
          cases heof
      | @abort chunk =>
        have hnone : (closeDataConnection env (received s chunk)).conn.dataBev = none :=
          (closeDataConnection_settled _).dataBev
        exact absurd (hnone.symm.trans hd') (Option.some_ne_none b).symm
      | flush _ _ ht =>
        have hnone : (closeDataConnection env { s with ctlOut := [] }).conn.dataBev = none :=
          (closeDataConnection_settled _).dataBev
        have hd := (congrArg Transfer.dataBev ht).symm.trans hd'
        exact absurd (hnone.symm.trans hd) (Option.some_ne_none b).symm
      | @connect listener fd addr _ hl hp =>
        obtain ⟨s₁, ha₁, ha₂⟩ := accept_aside env fd hs hl hp
        have hd : s.conn.dataBev = none := hg listener fd addr rfl hs hl hp
        have hd₁ : s₁.conn.dataBev = none := (congrArg Transfer.dataBev ha₁.transfer).trans hd
        have hd₂ : (newDataBev env s₁).conn.dataBev = some b := (congrArg Transfer.dataBev ha₂.transfer).symm.trans hd'
        rcases newDataBev_cases env hd₁ with heq | heq
        · rw [heq, hd₁] at hd₂
          cases hd₂
        · -- the data connection is a new one
          rw [heq] at hd₂
          have hnew : s₁.nextId = b := Option.some.inj hd₂
          have hnil : sent = [] := h.fresh (hnew ▸ ha₁.nextId)
          have hnone : NoCallbacks s₁.conn := (hidle hd).of_transfer ha₁.transfer
          refine .inl (Waiting.of_transfer (s := newDataBev env s₁) ?_ ha₂.transfer)
          rw [heq, hnil, ← hnew]
          exact ⟨⟨hnone.read, hnone.write, hnone.connected, hnone.eof⟩, _, Function.update_self .., rfl⟩
      | @data d v _ _ he hv =>
        have hd : s.conn.dataBev = some d := hsingle.only d v hv
        rcases dataEvent_dataBev he hd with hkept | hsettled
        · rw [hkept, Option.some.injEq] at hd'
          subst hd'
          exact absurd ⟨he, hs, by rw [hv]; exact Option.some_ne_none v⟩ hb
        · exact absurd hd' (hsettled.dataBev_ne b)

/-! ## The reply -/

/-- The reply to an upload that has come to its end. -/
def uploadComplete : Effect := .reply 226 (ascii "Transfer complete")

section Reply

variable {env} {s : Session σ} {b : Nat} {sent : Bytes}

/-- Closing the data connection writes nothing and says nothing. -/
theorem FileHas.closeDataConnection {fd : Int} {c : Bytes} (h : FileHas fd c s) :
    FileHas fd c (closeDataConnection env s) := by
  obtain ⟨d, hd, hclose⟩ := closeDataConnection_log env s
  refine h.extend hd fun e he => ?_
  rcases hclose e he with ⟨b, dropped, rfl⟩ | ⟨fd', rfl⟩ <;> rfl

variable (env) in
/-- `on_eof_event_cb`: it does not return, or all that has arrived is in the file. -/
theorem Storing.eof_drains (h : Storing b sent s) (hd : s.conn.dataBev = some b) :
    ((dataEof env s).ended ≠ none ∧ uploadComplete ∉ newEffects s (dataEof env s)) ∨
      FileHas s.conn.uploadFd sent (dataEof env s) := by
  have heof : dataEof env s = (drainInput env b env.spin s).andThen fun s =>
      sendControlMessage env 226 (ascii "Transfer complete")
        { closeFd env s.conn.uploadFd s with
          conn := { (closeFd env s.conn.uploadFd s).conn with uploadFd := -1 } } := by
    simp only [dataEof, h.eof, onEofEventCb, hd, if_pos h.fd]
  rw [heof]
  by_cases hended : (drainInput env b env.spin s).ended = none
  · right
    rw [Session.andThen, if_neg (by simp [hended])]
    have hclosed : Aside (drainInput env b env.spin s) (closeFd env (drainInput env b env.spin s).conn.uploadFd
      (drainInput env b env.spin s)) := Aside.refl.closeFd
    have hfile := (h.drained_file hended).of_aside hclosed
    refine hfile.extend (d := [uploadComplete]) rfl fun e he => ?_
    rw [List.mem_singleton.mp he]
    rfl
  · left
    obtain ⟨v, c, hv, -⟩ := h.file
    obtain ⟨chunks, rest, hlog, -⟩ := drainInput_spec env b env.spin hv
    rw [Session.andThen, if_pos (Option.isSome_iff_ne_none.mpr hended)]
    refine ⟨hended, fun hmem => ?_⟩
    rw [newEffects_eq hlog] at hmem
    obtain ⟨bytes, -, hbytes⟩ := List.mem_map.mp hmem
    cases hbytes

/-- The handshake is done: no word, no file. -/
theorem dataConnected_quiet (h : Waiting b sent s ∨ Storing b sent s) : (dataConnected env s).log = s.log ∧
    (dataConnected env s).ended = s.ended ∧ (dataConnected env s).conn.dataBev = s.conn.dataBev ∧
    (dataConnected env s).conn.uploadFd = s.conn.uploadFd := by
  rcases h with h | h
  · rw [dataConnected_none h.none.connected]
    exact ⟨rfl, rfl, rfl, rfl⟩
  · unfold dataConnected
    dsimp only
    split
    · split
      · rename_i cb hcb
        cases cb with
        | listTlsOnBevEventConnected => exact absurd hcb h.connected.1
        | storTlsOnBevEventConnected => exact ⟨rfl, rfl, rfl, rfl⟩
        | closeDataConnectionOnWritecb => exact absurd hcb h.connected.2
      · exact ⟨rfl, rfl, rfl, rfl⟩
    · exact ⟨rfl, rfl, rfl, rfl⟩

/-- What follows the handshake part of the event, when the client has closed the data connection. -/
theorem eof_stored (h : Waiting b sent s ∨ Storing b sent s) (hd : s.conn.dataBev = some b) {s' : Session σ}
    (hs' : s' = (dataEof env s).andThen (closeDataConnection env)) (h226 : uploadComplete ∈ newEffects s s') :
    FileHas s.conn.uploadFd sent s' := by
  subst hs'
  rcases h with h | h
  · -- no upload: the data connection is just closed
    exfalso
    rw [dataEof_none h.none.eof] at h226
    obtain ⟨d, hlog, hclose⟩ := closeDataConnection_log env s
    have hnew : ∃ d', newEffects s (s.andThen (closeDataConnection env)) = d' ∧ ∀ e ∈ d', e ≠ uploadComplete := by
      unfold Session.andThen
      split
      · exact ⟨[], newEffects_self s, List.forall_mem_nil _⟩
      · refine ⟨d, newEffects_eq hlog, fun e he heq => ?_⟩
        rcases hclose e he with ⟨b, dropped, rfl⟩ | ⟨fd, rfl⟩ <;> cases heq
    obtain ⟨d', hd', hne⟩ := hnew
    rw [hd'] at h226
    exact hne _ h226 rfl
  · rcases h.eof_drains env hd with ⟨hended, hno⟩ | hfile
    · rw [Session.andThen, if_pos (Option.isSome_iff_ne_none.mpr hended)] at h226
      exact absurd h226 hno
    · unfold Session.andThen
      split
      · exact hfile
      · exact hfile.closeDataConnection

end Reply

/-- **An acknowledged upload is stored exactly.** In every run with one data connection at a time and a data
connection `b` that is used for one STOR, however the bytes are cut into read events, however much each write takes,
and wherever the command and the handshake come: when the end of the data connection is answered by 226, the file of
the upload is what arrived on `b`, whatever it was before. -/
theorem upload_stored (addr : SockAddr) (proc : Proc) (os : σ) (es : List Event) (b : Nat)
    (hg : Guarded (step env) (fun e s => AcceptsOne e s ∧ OneStor b e s) es (start env addr proc os))
    (connected timeout error : Bool)
    (h226 : uploadComplete ∈ newEffects (reached env addr proc os es)
      (step env (.dataEvent b connected timeout error true) (reached env addr proc os es))) (old : Bytes) :
    fileContent (reached env addr proc os es).conn.uploadFd old
        (step env (.dataEvent b connected timeout error true) (reached env addr proc os es)).log =
      collected (step env) (arrived b) es (start env addr proc os) := by
  obtain ⟨hsingle, -, hok⟩ : Single (reached env addr proc os es) ∧ Idle (reached env addr proc os es) ∧
      UploadOk b ([] ++ collected (step env) (arrived b) es (start env addr proc os))
        (reached env addr proc os es) := by
    refine run_inv_collected (P := fun s sent => Single s ∧ Idle s ∧ UploadOk b sent s)
      (fun e s sent hg h => ?_) es hg ?_
    · exact ⟨step_single env e h.1 hg.1, step_idle env e h.1 h.2.1 hg.1, step_uploadOk env e h.1 h.2.1 h.2.2 hg.1 hg.2⟩
    · exact ⟨start_single env addr proc os, fun _ => ⟨rfl, rfl, rfl, rfl⟩, fun _ => rfl, fun _ hd => (by cases hd)⟩
  rw [List.nil_append] at hok
  generalize collected (step env) (arrived b) es (start env addr proc os) = sent at hok ⊢
  generalize reached env addr proc os es = s at hsingle hok h226 ⊢
  have hs : s.ended = none := by
    by_contra hs
    rw [step_ended hs, newEffects_self] at h226
    cases h226
  rw [step_handle hs] at h226 ⊢
  cases hv : s.bevs b with
  | none =>
    simp only [handle, hv, newEffects_self] at h226
    cases h226
  | some v =>
    simp only [handle, hv] at h226 ⊢
    have hd := hsingle.only b v hv
    have h := hok.holds hs hd
    -- the handshake part of the event, and then its end
    obtain ⟨s₁, hs₁, h₁, hlog₁, hended₁, hd₁, hfd₁⟩ :
        ∃ s₁, s₁ = (if connected && v.tls then dataConnected env s else s) ∧
        (Waiting b sent s₁ ∨ Storing b sent s₁) ∧ s₁.log = s.log ∧ s₁.ended = s.ended ∧
        s₁.conn.dataBev = s.conn.dataBev ∧ s₁.conn.uploadFd = s.conn.uploadFd := by
      refine ⟨_, rfl, ?_⟩
      split
      · exact ⟨dataConnected_holds h, dataConnected_quiet h⟩
      · exact ⟨h, rfl, rfl, rfl, rfl⟩
    have hcb : dataConnectionEventCb env (connected && v.tls) timeout error true s =
        (dataEof env s₁).andThen (closeDataConnection env) := by
      rw [dataConnectionEventCb, ← hs₁, Session.andThen, if_neg (by simp [hended₁, hs])]
      rfl
    rw [← hfd₁]
    refine congrArg FileView.content (eof_stored h₁ (hd₁.trans hd) hcb ?_ old)
    rw [newEffects, hlog₁]
    exact h226

/-- A system where each write takes one byte. -/
def bytewise : Env Unit := { Env.permissive with evbufferWrite := fun _ _ _ => some 1 }

/-- Two bytes come before the STOR and two after it: alice's file has the four. -/
theorem bytewise_upload_stored :
    fileContent 4 (ascii "old")
        (step bytewise (.dataEvent 3 false false false true) (aliceSession bytewise [.controlRead (ascii "PASV\r\n"),
          .accept 1 9 (.inet 127 0 0 1), .dataRead 3 (ascii "ab"), .controlRead (ascii "STOR f\r\n"),
          .dataRead 3 (ascii "cd")])).log = ascii "abcd" := by
  have hcmd : ∀ {chunk : Bytes} {s : Session Unit} (a : Action), handlerOf s chunk = some a → s.conn.dataBev ≠ some 3 ∨
      (a = .stor ∧ s.conn.dataEofEventCb = none) →
      AcceptsOne (.controlRead chunk) s ∧ OneStor 3 (.controlRead chunk) s := by
    intro chunk s a ha h
    refine ⟨fun _ _ _ he => (by cases he), fun chunk' a' he ha' _ hd => ?_⟩
    cases he
    rw [ha, Option.some.injEq] at ha'
    rcases h with h | h
    · exact absurd hd h
    · exact ha' ▸ h
  have hread :
      ∀ {bytes : Bytes} {s : Session Unit}, AcceptsOne (.dataRead 3 bytes) s ∧ OneStor 3 (.dataRead 3 bytes) s :=
    ⟨fun _ _ _ he => (by cases he), fun _ _ he => (by cases he)⟩
  have h := upload_stored bytewise (.inet 127 0 0 1) ⟨ascii "/", ascii "/", 0, 0, []⟩ ()
    [.controlRead (ascii "USER alice\r\n"), .controlRead (ascii "PASS x\r\n"), .controlRead (ascii "PASV\r\n"),
      .accept 1 9 (.inet 127 0 0 1), .dataRead 3 (ascii "ab"), .controlRead (ascii "STOR f\r\n"),
      .dataRead 3 (ascii "cd")] 3
    ⟨hcmd .user (by decide) (.inl (by decide)), hcmd .pass (by decide) (.inl (by decide)),
      hcmd .pasv (by decide) (.inl (by decide)),
      ⟨fun _ _ _ _ _ _ _ => by decide, fun _ _ he => (by cases he)⟩, hread,
      hcmd .stor (by decide) (.inr (by decide)), hread, trivial⟩
    false false false (by decide) (ascii "old")
  exact h.trans (by decide)

end Session

end CftpServer
