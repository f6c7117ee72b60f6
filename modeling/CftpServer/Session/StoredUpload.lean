import CftpServer.Session.History
import CftpServer.Session.Changes
import CftpServer.Session.Unwritten
import CftpServer.Session.Upload

/-!
# Uploads on a file system with contents

`Upload` follows the file of an upload in what the session does. On a `System` the file is there: STOR opens the file
that its path leads to, or makes it, and what leaves the input of the data connection is in it.

* `after_contents`, `after_handle`: nothing but `open` for writing and writes changes what is in files
* `step_onDisk`: the file that STOR has opened and the input of the data connection are together what has arrived
-/

namespace CftpServer

open CLib FileTree

namespace System

variable {env : Env Moment} {w : System} {p : Proc} {e : Effect} {fd : Int} {h : Handle} {i : Nat} {c bytes : Bytes}

/-- The file `i` has the content `c`, and the descriptor is open like this unless it is closed. -/
structure Holds (fd : Int) (h : Handle) (i : Nat) (c : Bytes) (w : System) : Prop where
  contents : w.files.contents i = c
  handle : w.handles fd = some h ∨ w.handles fd = none

/-! ## What changes files -/

theorem after_contents (env : Env Moment) (w : System) (p : Proc) (he : e.KeepsFiles) :
    (System.after env w p e).files.contents = w.files.contents := by
  cases e with
  | store => exact he.elim
  | call call =>
    simp only [System.after]
    split
    · cases call with
      | openWrite => exact he.elim
      | unlink path =>
        simp only [System.call, upshot, changed]
        cases w.unlinks p path <;> rfl
      | mkdir path =>
        simp only [System.call, upshot, changed]
        cases w.makes p path <;> rfl
      | rmdir path =>
        simp only [System.call, upshot, changed]
        cases w.rmdirs p path <;> rfl
      | _ => rfl
    · rfl
  | _ => rfl

theorem after_handle (env : Env Moment) (w : System) (p : Proc) (he : e.KeepsFiles) (hfd : e ≠ .opened fd) :
    (System.after env w p e).handles fd = w.handles fd ∨ (System.after env w p e).handles fd = none := by
  cases e with
  | store => exact he.elim
  | call call =>
    left
    simp only [System.after]
    split <;> rfl
  | opened fd' =>
    left
    have hne : fd ≠ fd' := fun heq => hfd (by rw [heq])
    simp only [System.after, act, Function.update_of_ne hne]
  | closed fd' =>
    simp only [System.after, act, Function.update_apply]
    split
    · exact .inr rfl
    · exact .inl rfl
  | _ => exact .inl rfl

theorem Holds.after (hw : Holds fd h i c w) (env : Env Moment) (p : Proc) (he : e.KeepsFiles) (hfd : e ≠ .opened fd) :
    Holds fd h i c (System.after env w p e) := by
  refine ⟨by rw [after_contents env w p he, hw.contents], ?_⟩
  rcases after_handle env w p he hfd with heq | hnone
  · rw [heq]
    exact hw.handle
  · exact .inr hnone

/-- A write at the end of the file. -/
theorem overwrite_end (c bytes : Bytes) : overwrite c c.length bytes = c ++ bytes := by
  simp [overwrite]

theorem Holds.store (hw : Holds fd (.writing i c.length) i c w) (bytes : Bytes)
    (hnone : w.handles fd = none → bytes = []) :
    Holds fd (.writing i (c ++ bytes).length) i (c ++ bytes) (w.store fd bytes) := by
  rcases hw.handle with hfd | hfd
  · have hstore : w.store fd bytes =
        { w with
          files := w.files.write i (overwrite (w.files.contents i) c.length bytes)
          handles := Function.update w.handles fd (some (.writing i (c.length + bytes.length))) } := by
      rw [System.store, hfd]
      rfl
    rw [hstore, hw.contents, overwrite_end]
    refine ⟨?_, .inl ?_⟩
    · rw [FileStore.write_contents, Function.update_self]
    · simp only [Function.update_self, List.length_append]
  · have hstore : w.store fd bytes = w := by rw [System.store, hfd]
    rw [hstore, hnone hfd, List.append_nil]
    exact hw

end System

namespace Session

open Command Runs

variable {env : Env Moment} {s s' : Session System} {b i : Nat} {sent c : Bytes} {fd : Int} {h : Handle}

/-- A step whose effects change no file, and the handle of an old descriptor. -/
theorem step_holds (ev : Event) (hnew : ∀ e ∈ newEffects s (step (onStore env) ev s), e.KeepsFiles)
    (hfd : fd < s.nextId) (hw : System.Holds fd h i c s.os) : System.Holds fd h i c (step (onStore env) ev s).os := by
  refine step_os (H := Effect.KeepsFiles) ev s (fun w p e hw he hopened => ?_) hnew hw
  refine hw.after env p he fun heq => ?_
  have := hopened fd heq
  omega

/-! ## The loop that writes -/

variable (env b) in
/-- One write of the loop. -/
theorem evbufferWrite_holds (v : Bev) (hw : System.Holds s.conn.uploadFd (.writing i c.length) i c s.os) :
    ∃ n, (evbufferWrite (onStore env) b v s).bevs = Function.update s.bevs b (some { v with input := v.input.drop n }) ∧
      (evbufferWrite (onStore env) b v s).conn = s.conn ∧ (evbufferWrite (onStore env) b v s).ended = s.ended ∧
      System.Holds s.conn.uploadFd (.writing i (c ++ v.input.take n).length) i (c ++ v.input.take n)
        (evbufferWrite (onStore env) b v s).os := by
  refine ⟨_, rfl, rfl, rfl, ?_⟩
  have hstore := hw.store (v.input.take
    ((if s.conn.uploadFd < 0 then none else (onStore env).evbufferWrite s.os s.conn.uploadFd v.input).getD 0)) ?_
  · exact ⟨hstore.contents, hstore.handle⟩
  · intro hnone
    have hrefused : (onStore env).evbufferWrite s.os s.conn.uploadFd v.input = none := by simp only [onStore, hnone]
    rw [hrefused, ite_self]
    rfl

variable (env b) in
/-- **What leaves the input is in the file.** -/
theorem drainInput_holds (fuel : Nat) : ∀ {s : Session System} {v : Bev} {c : Bytes}, s.bevs b = some v →
    System.Holds s.conn.uploadFd (.writing i c.length) i c s.os → ∃ c' rest, c' ++ rest = c ++ v.input ∧
      (drainInput (onStore env) b fuel s).bevs b = some { v with input := rest } ∧
      System.Holds s.conn.uploadFd (.writing i c'.length) i c' (drainInput (onStore env) b fuel s).os ∧
      ((drainInput (onStore env) b fuel s).ended = none → rest = []) := by
  induction fuel with
  | zero =>
    intro s v c hv hw
    exact ⟨c, v.input, rfl, hv, hw, fun hended => (by cases hended)⟩
  | succ fuel ih =>
    intro s v c hv hw
    rw [drainInput, hv]
    simp only
    split
    · rename_i hinput
      exact ⟨c, v.input, rfl, hv, hw, fun _ => hinput⟩
    · obtain ⟨n, hbevs, hconn, -, hw'⟩ := evbufferWrite_holds env b v hw
      rw [← hconn] at hw'
      obtain ⟨c', rest, happend, hbev, hholds, hrest⟩ := ih (by rw [hbevs, Function.update_self]) hw'
      rw [hconn] at hholds
      refine ⟨c', rest, ?_, hbev, hholds, hrest⟩
      rw [happend, List.append_assoc, List.take_append_drop]

/-! ## One upload on one data connection -/

variable (env) in
/-- The number of the file that a STOR names, when it is accepted. -/
def storFile (e : Event) (s : Session System) : Option Nat :=
  match e with
  | .controlRead chunk =>
    match handlerOf s chunk, (commandOf s chunk).args with
    | some .stor, [path] =>
      if Effect.reply 150 (ascii "Read to receive") ∈ newEffects s (step (onStore env) e s) then
        (step (onStore env) e s).os.fileNumber s.proc path
      else none
    | _, _ => none
  | _ => none

/-- The file `i` and the input of `b` are together what has arrived. -/
structure OnDisk (b i : Nat) (sent : Bytes) (s : Session System) : Prop where
  fd : s.conn.uploadFd < s.nextId
  file : ∃ v c, s.bevs b = some v ∧ System.Holds s.conn.uploadFd (.writing i c.length) i c s.os ∧ c ++ v.input = sent

/-- So it is while an upload on `b` is under way, with the file that STOR named. -/
def Filed (b : Nat) (sent : Bytes) (file : Option Nat) (s : Session System) : Prop :=
  s.ended = none → s.conn.dataBev = some b → s.conn.dataEofEventCb ≠ none → ∃ i, file = some i ∧ OnDisk b i sent s

/-- What leaves the upload alone leaves its file alone. -/
theorem OnDisk.of_aside (h : OnDisk b i sent s) {ev : Event} (ha : Aside s (step (onStore env) ev s)) :
    OnDisk b i sent (step (onStore env) ev s) := by
  obtain ⟨v, c, hv, hw, happend⟩ := h.file
  obtain ⟨d, hd, haside⟩ := ha.log
  have hfd : (step (onStore env) ev s).conn.uploadFd = s.conn.uploadFd := congrArg Transfer.uploadFd ha.transfer
  have hbev : (step (onStore env) ev s).bevs b = s.bevs b := congrFun (congrArg Transfer.bevs ha.transfer) b
  refine ⟨?_, v, c, hbev.trans hv, ?_, happend⟩
  · rw [hfd]
    exact h.fd.trans_le (Int.ofNat_le.mpr ha.nextId)
  · rw [hfd]
    refine step_holds ev (fun e he => ?_) h.fd hw
    rw [newEffects_eq hd] at he
    exact (haside e he).keepsFiles

/-! ### The events of the data connection -/

/-- Nothing that the file depends on is different. -/
theorem OnDisk.of_eq (h : OnDisk b i sent s) (hfd : s'.conn.uploadFd = s.conn.uploadFd) (hid : s'.nextId = s.nextId)
    (hbev : s'.bevs b = s.bevs b) (hos : s'.os = s.os) : OnDisk b i sent s' := by
  obtain ⟨v, c, hv, hw, happend⟩ := h.file
  exact ⟨by rw [hfd, hid]; exact h.fd, v, c, hbev.trans hv, by rw [hfd, hos]; exact hw, happend⟩

theorem OnDisk.drained (h : OnDisk b i sent s) (fuel : Nat) : OnDisk b i sent (drainInput (onStore env) b fuel s) := by
  obtain ⟨v, c, hv, hw, happend⟩ := h.file
  obtain ⟨c', rest, hrest, hbev, hw', -⟩ := drainInput_holds env b fuel hv hw
  have hconn : (drainInput (onStore env) b fuel s).conn = s.conn := drainInput_conn b fuel s
  have hid : s.nextId ≤ (drainInput (onStore env) b fuel s).nextId :=
    (Moves.refl (C := fun _ => True)).drainInput.nextId_le
  refine ⟨?_, { v with input := rest }, c', hbev, ?_, hrest.trans happend⟩
  · rw [hconn]
    exact h.fd.trans_le (Int.ofNat_le.mpr hid)
  · rw [hconn]
    exact hw'

/-- Bytes arrive. -/
theorem OnDisk.dataArrives (h : OnDisk b i sent s) {v : Bev} (hv : s.bevs b = some v) (bytes : Bytes) :
    OnDisk b i (sent ++ bytes) (dataConnectionReadCb (onStore env) b (dataArrives b v bytes s)) := by
  obtain ⟨w, c, hw, hholds, happend⟩ := h.file
  rw [hv, Option.some.injEq] at hw
  have harrived : OnDisk b i (sent ++ bytes) (Session.dataArrives b v bytes s) := by
    refine ⟨h.fd, _, c, Function.update_self .., hholds, ?_⟩
    rw [← happend, hw, List.append_assoc]
  unfold dataConnectionReadCb
  split
  · exact harrived.drained env.spin
  · exact harrived

/-- The handshake is done. -/
theorem dataConnected_filed {file : Option Nat} (hs : s.ended = none) (hd : s.conn.dataBev = some b)
    (h : Waiting b sent s ∨ Storing b sent s) (hfiled : Filed b sent file s) :
    Filed b sent file (dataConnected (onStore env) s) := by
  intro _ _ heof'
  rcases h with h | h
  · rw [dataConnected_none h.none.connected] at heof'
    exact absurd h.none.eof heof'
  · obtain ⟨i, hi, hdisk⟩ := hfiled hs hd (by rw [h.eof]; exact Option.some_ne_none _)
    refine ⟨i, hi, ?_⟩
    unfold dataConnected
    dsimp only
    split
    · split
      · rename_i cb hcb
        cases cb with
        | listTlsOnBevEventConnected => exact absurd hcb h.connected.1
        | storTlsOnBevEventConnected => exact hdisk.of_eq rfl rfl rfl rfl
        | closeDataConnectionOnWritecb => exact absurd hcb h.connected.2
      · exact hdisk.of_eq rfl rfl rfl rfl
    · exact hdisk.of_eq rfl rfl rfl rfl

/-- **An event of the data connection.** -/
theorem dataEvent_filed {v : Bev} {e : Event} {file : Option Nat} (he : DataEventOf b e) (hs : s.ended = none)
    (hv : s.bevs b = some v) (hd : s.conn.dataBev = some b) (h : Waiting b sent s ∨ Storing b sent s)
    (hfiled : Filed b sent file s) : Filed b (sent ++ arrived b e s) file (handle (onStore env) e s) := by
  cases he with
  | read bytes =>
    have harrived : arrived b (.dataRead b bytes) s = bytes := by simp [arrived, hs, hv]
    rw [harrived]
    simp only [handle, hv]
    split
    · rename_i hempty
      rw [hempty, List.append_nil]
      exact hfiled
    · intro _ _ heof'
      rcases h with h | h
      · refine absurd ?_ heof'
        simp only [dataConnectionReadCb, dataArrives, h.none.read]
        exact h.none.eof
      · obtain ⟨i, hi, hdisk⟩ := hfiled hs hd (by rw [h.eof]; exact Option.some_ne_none _)
        exact ⟨i, hi, hdisk.dataArrives hv bytes⟩
  | write n =>
    have hleaves : Filed b sent file (dataLeaves b v n s) := by
      intro _ _ heof'
      obtain ⟨i, hi, hdisk⟩ := hfiled hs hd heof'
      obtain ⟨w, c, hw, hholds, happend⟩ := hdisk.file
      rw [hv, Option.some.injEq] at hw
      exact ⟨i, hi, hdisk.fd, _, c, Function.update_self .., hholds, by rw [← happend, hw]⟩
    have hcb : (dataLeaves b v n s).conn.dataWriteCb = none := (holds_write h : s.conn.dataWriteCb = none)
    rw [show arrived b (.dataWrite b n) s = [] from rfl, List.append_nil]
    simp only [handle, hv]
    split
    · exact hfiled
    · split
      · simp only [dataConnectionWriteCb, hcb]
        exact hleaves
      · exact hleaves
  | event connected timeout error eof =>
    rw [show arrived b (.dataEvent b connected timeout error eof) s = [] from rfl, List.append_nil]
    intro hs' hd' heof'
    simp only [handle, hv] at hs' hd' heof' ⊢
    cases hflags : (eof || error || timeout) with
    | true =>
      rcases dataConnectionEventCb_closing (onStore env) s (connected && v.tls) hflags with hended | hsettled
      · exact absurd hs' hended
      · exact absurd hd' (hsettled.dataBev_ne b)
    | false =>
      simp only [Bool.or_eq_false_iff] at hflags
      obtain ⟨⟨rfl, rfl⟩, rfl⟩ := hflags
      rw [dataConnectionEventCb_open] at hs' hd' heof' ⊢
      revert hs' hd' heof'
      split
      · exact dataConnected_filed hs hd h hfiled
      · exact hfiled

/-! ### STOR -/

/-- An accepted STOR on an idle connection: the file is empty, and nothing of the input is in it. -/
theorem stor_onDisk {cmd : CftpCommand} (h : Waiting b sent s) (hd : s.conn.dataBev = some b)
    (heof : (runAction (onStore env) .stor cmd s).conn.dataEofEventCb ≠ none) : ∃ path i, cmd.args = [path] ∧
      Effect.reply 150 (ascii "Read to receive") ∈ newEffects s (runAction (onStore env) .stor cmd s) ∧
      (runAction (onStore env) .stor cmd s).os.fileNumber s.proc path = some i ∧
      OnDisk b i sent (runAction (onStore env) .stor cmd s) := by
  have hnone : ∀ s' : Session System, s'.conn.dataEofEventCb = s.conn.dataEofEventCb → s'.conn.dataEofEventCb = none :=
    fun s' heq => heq.trans h.none.eof
  simp only [runAction, cftpStorAuthenticatedAction, withArg] at heof ⊢
  split at heof
  · rename_i path hargs
    unfold cftpRecvFileWithEvbuffer at heof ⊢
    rw [if_neg (by simp [hd])] at heof ⊢
    cases hopen : (onStore env).openWrite s.os s.proc path with
    | false =>
      have hfail : sysOpenWrite (onStore env) path s = (none, call (onStore env) (.openWrite path) s) := by
        simp [sysOpenWrite, hopen]
      simp only [hfail] at heof
      exact absurd (hnone _ rfl) heof
    | true =>
      obtain ⟨i, hnumber, hcontents, hopening⟩ := System.openWrite_opens hopen
      have hok : sysOpenWrite (onStore env) path s =
          (some (s.nextId : Int), (newFd (onStore env) (call (onStore env) (.openWrite path) s)).2) := by
        simp [sysOpenWrite, hopen, newFd, call, emit]
      obtain ⟨v, hv, hin⟩ := h.input
      simp only [hok]
      refine ⟨path, i, hargs, ?_, hnumber, ?_⟩
      · rw [newEffects_eq (d := [.call (.openWrite path), .opened s.nextId, .reply 150 (ascii "Read to receive")])
          (by simp [sendControlMessage, newFd, fresh, call, emit])]
        simp
      · have hw : System.Holds (s.nextId : Int) (.writing i 0) i []
            (System.after env (System.after env s.os s.proc (.call (.openWrite path))) s.proc (.opened s.nextId)) :=
          ⟨hcontents, .inl ((Function.update_self ..).trans hopening)⟩
        split
        · exact ⟨by simp [sendControlMessage, newFd, fresh, call, emit], v, [], hv, ⟨hw.contents, hw.handle⟩, hin⟩
        · exact ⟨by simp [sendControlMessage, newFd, fresh, call, emit], v, [], hv, ⟨hw.contents, hw.handle⟩, hin⟩
  · exact absurd (hnone _ rfl) heof

/-- While an upload is under way no STOR is accepted. -/
theorem storFile_eq_none {e : Event} (hone : OneStor b e s) (hd : s.conn.dataBev = some b)
    (heof : s.conn.dataEofEventCb ≠ none) : storFile env e s = none := by
  unfold storFile
  split
  · rename_i chunk
    split
    · rename_i path ha hargs
      exact absurd (hone chunk .stor rfl ha rfl hd).2 heof
    · rfl
  · rfl

/-- **One event**: the file that STOR named and the input are together what has arrived. -/
theorem step_filed {file : Option Nat} (e : Event) (hsingle : Single s) (hidle : Idle s) (h : UploadOk b sent s)
    (hfiled : Filed b sent file s) (hg : AcceptsOne e s) (hone : OneStor b e s) :
    Filed b (sent ++ arrived b e s) ((storFile env e s).or file) (step (onStore env) e s) := by
  intro hs' hd' heof'
  have hs : s.ended = none := step_running hs'
  by_cases hb : DataEventOf b e ∧ s.ended = none ∧ s.bevs b ≠ none
  · obtain ⟨he, -, hb⟩ := hb
    obtain ⟨v, hv⟩ := Option.ne_none_iff_exists'.mp hb
    have hd := hsingle.only b v hv
    have hnone : storFile env e s = none := by cases he <;> rfl
    rw [hnone, Option.none_or]
    rw [step_handle hs] at hs' hd' heof' ⊢
    exact dataEvent_filed he hs hv hd (h.holds hs hd) hfiled hs' hd' heof'
  · rw [arrived_eq_nil hb, List.append_nil]
    have hst := step_transfer (onStore env) e s
    generalize hstep : step (onStore env) e s = s' at hst hs' hd' heof' ⊢
    cases hst with
    | aside ha =>
      have hd : s.conn.dataBev = some b := (congrArg Transfer.dataBev ha.transfer).symm.trans hd'
      have heof : s.conn.dataEofEventCb ≠ none := by
        rwa [show s'.conn.dataEofEventCb = _ from congrArg Transfer.dataEofEventCb ha.transfer] at heof'
      obtain ⟨i, hi, hdisk⟩ := hfiled hs hd heof
      refine ⟨i, by rw [storFile_eq_none hone hd heof]; exact hi, ?_⟩
      rw [← hstep] at ha ⊢
      exact hdisk.of_aside ha
    | @command chunk a _ ha ht =>
      have hd : s.conn.dataBev = some b := (transferCommand_dataBev ht (received s chunk)).symm.trans hd'
      obtain ⟨rfl, heof⟩ := hone chunk a rfl ha ht hd
      rcases h.holds hs hd with h | h
      · have hreceived : Waiting b sent (received s chunk) := h.of_transfer (received_aside s chunk).transfer
        obtain ⟨path, i, hargs, hmem, hnumber, hdisk⟩ := stor_onDisk hreceived hd heof'
        refine ⟨i, ?_, hdisk⟩
        simp only [storFile, ha, hargs, hstep]
        rw [if_pos (by exact hmem)]
        exact congrArg (Option.or · file) hnumber
      · rw [h.eof] at heof
        cases heof
    | @abort chunk =>
      have hnone : (closeDataConnection (onStore env) (received s chunk)).conn.dataBev = none :=
        (closeDataConnection_settled _).dataBev
      exact absurd (hnone.symm.trans hd') (Option.some_ne_none b).symm
    | flush _ _ ht =>
      have hnone : (closeDataConnection (onStore env) { s with ctlOut := [] }).conn.dataBev = none :=
        (closeDataConnection_settled _).dataBev
      have hd := (congrArg Transfer.dataBev ht).symm.trans hd'
      exact absurd (hnone.symm.trans hd) (Option.some_ne_none b).symm
    | @connect listener fd addr _ hl hp =>
      -- the data connection is a new one, and there are no callbacks yet
      obtain ⟨s₁, ha₁, ha₂⟩ := accept_aside (onStore env) fd hs hl hp
      have hnone : NoCallbacks s₁.conn := (hidle (hg listener fd addr rfl hs hl hp)).of_transfer ha₁.transfer
      have heof : (newDataBev (onStore env) s₁).conn.dataEofEventCb = none := by
        unfold newDataBev
        split
        · exact hnone.eof
        · exact hnone.eof
      exact absurd ((congrArg Transfer.dataEofEventCb ha₂.transfer).trans heof) heof'
    | @data d v _ _ he hv =>
      have hd : s.conn.dataBev = some d := hsingle.only d v hv
      rcases dataEvent_dataBev he hd with hkept | hsettled
      · rw [hkept, Option.some.injEq] at hd'
        subst hd'
        exact absurd ⟨he, hs, by rw [hv]; exact Option.some_ne_none v⟩ hb
      · exact absurd hd' (hsettled.dataBev_ne b)

/-! ## The end of an upload -/

theorem closeFd_contents (fd : Int) (s : Session System) :
    (closeFd (onStore env) fd s).os.files.contents = s.os.files.contents := by
  unfold closeFd
  split
  · rfl
  · exact System.after_contents env s.os s.proc (e := .closed fd) trivial

theorem closeAll_contents (fds : List Int) (s : Session System) :
    (closeAll (onStore env) fds s).os.files.contents = s.os.files.contents := by
  induction fds generalizing s with
  | nil => rfl
  | cons fd fds ih => exact (ih _).trans (closeFd_contents fd s)

/-- Closing the data connection writes nothing. -/
theorem closeDataConnection_contents (s : Session System) :
    (closeDataConnection (onStore env) s).os.files.contents = s.os.files.contents := by
  have hfree : ∀ b, (bevFree (onStore env) b s).os.files.contents = s.os.files.contents := by
    intro b
    unfold bevFree
    split
    · rfl
    · exact (closeAll_contents _ _).trans (System.after_contents env s.os s.proc (e := .bevFree b _) trivial)
  unfold closeDataConnection
  split
  · rfl
  · exact hfree _

/-- Without an upload the end of the data connection is not answered. -/
theorem waiting_silent (h : Waiting b sent s) :
    uploadComplete ∉ newEffects s ((dataEof (onStore env) s).andThen (closeDataConnection (onStore env))) := by
  rw [dataEof_none h.none.eof]
  unfold andThen
  split
  · rw [newEffects_self]
    exact List.not_mem_nil
  · obtain ⟨d, hlog, hclose⟩ := closeDataConnection_log (onStore env) s
    rw [newEffects_eq hlog]
    intro hmem
    rcases hclose _ hmem with ⟨b, dropped, he⟩ | ⟨fd, he⟩ <;> cases he

/-- `on_eof_event_cb` of an upload, and what follows: it does not come to the reply, or all that has arrived is in the
file. -/
theorem dataEof_contents (hstoring : Storing b sent s) (h : OnDisk b i sent s) (hd : s.conn.dataBev = some b)
    (h226 : uploadComplete ∈
      newEffects s ((dataEof (onStore env) s).andThen (closeDataConnection (onStore env)))) :
    ((dataEof (onStore env) s).andThen (closeDataConnection (onStore env))).os.files.contents i = sent := by
  obtain ⟨v, c, hv, hw, happend⟩ := h.file
  have heof : dataEof (onStore env) s = (drainInput (onStore env) b env.spin s).andThen fun s =>
      sendControlMessage (onStore env) 226 (ascii "Transfer complete")
        { closeFd (onStore env) s.conn.uploadFd s with
          conn := { (closeFd (onStore env) s.conn.uploadFd s).conn with uploadFd := -1 } } := by
    simp only [dataEof, hstoring.eof, onEofEventCb, hd, if_pos hstoring.fd]
    rfl
  by_cases hended : (drainInput (onStore env) b env.spin s).ended = none
  · obtain ⟨c', rest, hrest, -, hw', hempty⟩ := drainInput_holds env b env.spin hv hw
    rw [hempty hended, List.append_nil] at hrest
    have hcontents : (dataEof (onStore env) s).os.files.contents i = sent := by
      rw [heof, andThen, if_neg (by simp [hended])]
      refine (congrFun (closeFd_contents _ _) i).trans ?_
      rw [hw'.contents, hrest, happend]
    rw [← hcontents]
    unfold andThen
    split
    · rfl
    · exact congrFun (closeDataConnection_contents _) i
  · -- the loop does not end, and there is no reply
    obtain ⟨chunks, rest, hlog, -⟩ := drainInput_spec (onStore env) b env.spin hv
    have hsome : (drainInput (onStore env) b env.spin s).ended.isSome := Option.isSome_iff_ne_none.mpr hended
    rw [heof, andThen, andThen, if_pos hsome, if_pos hsome, newEffects_eq hlog] at h226
    obtain ⟨bytes, -, hbytes⟩ := List.mem_map.mp h226
    cases hbytes

/-- **The end of the data connection**: if it is answered by 226, the file that STOR named is what has arrived. -/
theorem eof_onDisk {v : Bev} {file : Option Nat} {connected timeout error : Bool} (hs : s.ended = none)
    (hv : s.bevs b = some v) (hd : s.conn.dataBev = some b) (h : Waiting b sent s ∨ Storing b sent s)
    (hfiled : Filed b sent file s)
    (h226 : uploadComplete ∈ newEffects s (step (onStore env) (.dataEvent b connected timeout error true) s)) :
    ∃ i, file = some i ∧
      (step (onStore env) (.dataEvent b connected timeout error true) s).os.files.contents i = sent := by
  rw [step_handle hs] at h226 ⊢
  simp only [handle, hv] at h226 ⊢
  obtain ⟨s₁, hs₁, h₁, hfiled₁, hlog₁, hended₁, hd₁⟩ :
      ∃ s₁, s₁ = (if connected && v.tls then dataConnected (onStore env) s else s) ∧
      (Waiting b sent s₁ ∨ Storing b sent s₁) ∧ Filed b sent file s₁ ∧ s₁.log = s.log ∧ s₁.ended = s.ended ∧
      s₁.conn.dataBev = s.conn.dataBev := by
    refine ⟨_, rfl, ?_⟩
    split
    · obtain ⟨hlog, hended, hdata, -⟩ : (dataConnected (onStore env) s).log = s.log ∧ _ := dataConnected_quiet h
      exact ⟨dataConnected_holds h, dataConnected_filed hs hd h hfiled, hlog, hended, hdata⟩
    · exact ⟨h, hfiled, rfl, rfl, rfl⟩
  have hcb : dataConnectionEventCb (onStore env) (connected && v.tls) timeout error true s =
      (dataEof (onStore env) s₁).andThen (closeDataConnection (onStore env)) := by
    rw [dataConnectionEventCb, ← hs₁, andThen, if_neg (by simp [hended₁, hs])]
    rfl
  rw [hcb] at h226 ⊢
  rw [newEffects, ← hlog₁, ← newEffects] at h226
  rcases h₁ with h₁ | h₁
  · exact absurd h226 (waiting_silent h₁)
  · obtain ⟨i, hi, hdisk⟩ := hfiled₁ (hended₁.trans hs) (hd₁.trans hd) (by rw [h₁.eof]; exact Option.some_ne_none _)
    exact ⟨i, hi, dataEof_contents h₁ hdisk (hd₁.trans hd) h226⟩

end Session

end CftpServer
