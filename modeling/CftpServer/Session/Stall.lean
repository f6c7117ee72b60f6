import CftpServer.Session.Completion
import CftpServer.Session.Download
import CftpServer.Session.Upload

/-!
# Downloads that stall (`actions/retr.c`)

The completion reply of RETR comes from the write callback, which runs when output has left the data connection. So a
download that leaves the output empty, and has not queued the reply, can only wait for the client to close.

* `step_dry`: an output that is empty stays empty, and nothing is replied
* `step_inDownload`: one event of a download that goes on
* `retr_never_stalls_iff`: a download goes on exactly if what it queues when the output is empty is not empty
-/

namespace CftpServer.Session

open CLib Command Runs Growth

variable {σ : Type} (env : Env σ)

/-- The answer to a RETR whose file is opened. -/
def sendingFile : Effect := .reply 150 (ascii "Sending file")

/-- The events of a data connection, but for its end, the client's close. -/
inductive Remaining (b : Nat) : Event → Prop where
  | read (bytes : Bytes) : Remaining b (.dataRead b bytes)
  | write (n : Nat) : Remaining b (.dataWrite b n)
  | event (connected timeout error : Bool) : Remaining b (.dataEvent b connected timeout error false)

/-- In `s'`, reached from `s`, the output of the data connection `b` is drained, and neither has the completion reply
been queued nor do more events of the data connection lead to it. -/
structure Stalled (b : Nat) (s s' : Session σ) : Prop where
  running : s'.ended = none
  drained : ∃ v, s'.bevs b = some v ∧ v.output = []
  unanswered : ∀ es : List Event, (∀ e ∈ es, Remaining b e) → transferDone ∉ newEffects s (run (step env) es s')

/-- What RETR of `path` puts into the output at once: the file, or with TLS its first chunk. -/
def firstBytes (path : Bytes) (s : Session σ) : Bytes :=
  let opened := (sysOpenRead env path s).2
  let answered := sendControlMessage env 150 (ascii "Sending file") opened
  if s.conn.dataTlsRequired then (env.read answered.os s.nextId 0 FILE_CHUNK_SIZE).getD []
  else env.fileSegment answered.os s.nextId ((env.fstat opened.os s.nextId).elim 0 Stat.size)

/-- What the next `read` of `send_next_chunk` gives. -/
def nextChunk (s : Session σ) : Bytes := (s.conn.dataStream.bind fun fs => readStream env fs s).getD []

/-- As long as there is no completion reply, a `send_next_chunk` that finds the output empty reads something. -/
def ReadsOn (b : Nat) (s₀ : Session σ) : Event → Session σ → Prop
  | .dataWrite d n, s => d = b → s.ended = none → transferDone ∉ newEffects s₀ s →
      s.conn.dataWriteCb = some .sendNextChunk → ∀ v, s.bevs b = some v → n ≠ 0 → v.output ≠ [] →
        v.output.drop n = [] → nextChunk env s ≠ []
  | _, _ => True

/-! ## An empty output -/

section Dry

variable {env} {b : Nat} {s₀ s s' : Session σ}

/-- Nothing to drain, no completion reply, and no listing to come. -/
structure Dry (b : Nat) (s₀ s : Session σ) : Prop where
  log : Grown (· ≠ transferDone) s₀.log s.log
  output : ∀ v, s.bevs b = some v → v.output = []
  connected : s.conn.dataTlsEventConnectedCb ≠ some .listTlsOnBevEventConnected

theorem Dry.of_eq (h : Dry b s₀ s) (hlog : s'.log = s.log) (hbevs : s'.bevs = s.bevs)
    (hcb : s'.conn.dataTlsEventConnectedCb = s.conn.dataTlsEventConnectedCb) : Dry b s₀ s' :=
  ⟨by rw [hlog]; exact h.log, by rw [hbevs]; exact h.output, by rw [hcb]; exact h.connected⟩

theorem Dry.unanswered (h : Dry b s₀ s) : transferDone ∉ newEffects s₀ s := by
  obtain ⟨d, hd, hne⟩ := h.log
  rw [newEffects_eq hd]
  exact fun hm => hne _ hm rfl

theorem closeDataConnection_grown (s : Session σ) :
    Grown (· ≠ transferDone) s.log (closeDataConnection env s).log := by
  obtain ⟨d, hd, hclose⟩ := closeDataConnection_log env s
  refine ⟨d, hd, fun e he => ?_⟩
  rcases hclose e he with ⟨_, _, rfl⟩ | ⟨_, rfl⟩ <;> exact fun heq => by cases heq

variable (env) in
theorem closeDataConnection_bevs (s : Session σ) (b : Nat) :
    (closeDataConnection env s).bevs b = s.bevs b ∨ (closeDataConnection env s).bevs b = none := by
  by_cases hgone : ∀ d, s.conn.dataBev = some d → s.bevs d = none
  · exact .inl (congrFun (congrArg Durable.bevs (closeDataConnection_gone env hgone)) b)
  · push Not at hgone
    obtain ⟨d, hd, hv⟩ := hgone
    obtain ⟨v, hv⟩ := Option.ne_none_iff_exists'.mp hv
    obtain ⟨l, os, heq, -⟩ := closeDataConnection_live env hd hv
    rw [heq]
    by_cases hbd : b = d
    · exact .inr (by rw [hbd]; exact Function.update_self ..)
    · exact .inl (Function.update_of_ne hbd ..)

theorem Dry.close (h : Dry b s₀ s) : Dry b s₀ (closeDataConnection env s) := by
  refine ⟨h.log.trans (closeDataConnection_grown s), fun v hv => ?_, ?_⟩
  · rcases closeDataConnection_bevs env s b with heq | heq
    · exact h.output v (heq.symm.trans hv)
    · rw [heq] at hv
      cases hv
  · rw [(closeDataConnection_settled s).none.connected]
    exact (Option.some_ne_none _).symm

theorem Dry.dataConnected (h : Dry b s₀ s) : Dry b s₀ (dataConnected env s) := by
  have hactive : Dry b s₀ { s with conn := { s.conn with dataActive := s.conn.dataActive + 1 } } := h.of_eq rfl rfl rfl
  unfold Session.dataConnected
  dsimp only
  split
  · split
    · rename_i cb hcb
      cases cb with
      | listTlsOnBevEventConnected => exact absurd hcb h.connected
      | storTlsOnBevEventConnected => exact hactive.of_eq rfl rfl rfl
      | closeDataConnectionOnWritecb => exact hactive.close
    · exact hactive
  · exact hactive

variable (env) in
/-- The input of an upload that is written leaves the output as it is. -/
theorem drainInput_quiet {v : Bev} (fuel : Nat) (hv : s.bevs b = some v) :
    Grown (· ≠ transferDone) s.log (drainInput env b fuel s).log ∧
      ∃ rest, (drainInput env b fuel s).bevs b = some { v with input := rest } := by
  obtain ⟨chunks, rest, hlog, hbevs, -, -⟩ := drainInput_spec env b fuel hv
  refine ⟨⟨_, hlog, fun e he => ?_⟩, rest, by rw [hbevs]; exact Function.update_self ..⟩
  obtain ⟨chunk, -, rfl⟩ := List.mem_map.mp he
  exact fun heq => by cases heq

theorem Dry.dataRead (h : Dry b s₀ s) (bytes : Bytes) : Dry b s₀ (handle env (.dataRead b bytes) s) := by
  cases hv : s.bevs b with
  | none =>
    simp only [handle, hv]
    exact h
  | some v =>
    have hv' : (dataArrives b v bytes s).bevs b = some { v with input := v.input ++ bytes } := Function.update_self ..
    have harrives : Dry b s₀ (dataArrives b v bytes s) := by
      refine ⟨h.log, fun w hw => ?_, h.connected⟩
      rw [hv', Option.some.injEq] at hw
      rw [← hw]
      exact h.output v hv
    simp only [handle, hv]
    split
    · exact h
    · unfold dataConnectionReadCb
      split
      · obtain ⟨hgrown, rest, hrest⟩ := drainInput_quiet env env.spin hv'
        refine ⟨harrives.log.trans hgrown, fun w hw => ?_, ?_⟩
        · rw [onStorRead, hrest, Option.some.injEq] at hw
          rw [← hw]
          exact h.output v hv
        · rw [onStorRead, drainInput_conn]
          exact h.connected
      · exact harrives

/-- **An empty output stays empty**, and no event of the data connection brings the reply. -/
theorem step_dry {e : Event} (he : Remaining b e) (h : Dry b s₀ s) : Dry b s₀ (step env e s) := by
  by_cases hs : s.ended = none
  · rw [step_handle hs]
    cases he with
    | read bytes => exact h.dataRead bytes
    | write n =>
      simp only [handle]
      split
      · rename_i v hv
        rw [if_pos (.inr (h.output v hv))]
        exact h
      · exact h
    | event connected timeout error =>
      simp only [handle]
      split
      · exact dataConnectionEventCb_inv (fun _ _ h => h.dataConnected) (fun heof => by cases heof)
          (fun _ _ h => h.close) h
      · exact h
  · rw [step_ended hs]
    exact h

theorem run_dry {es : List Event} (hes : ∀ e ∈ es, Remaining b e) (h : Dry b s₀ s) :
    Dry b s₀ (run (step env) es s) := by
  induction es generalizing s with
  | nil => exact h
  | cons e es ih =>
    exact ih (fun f hf => hes f (List.mem_cons_of_mem e hf)) (step_dry (hes e List.mem_cons_self) h)

theorem Dry.stalled (h : Dry b s₀ s) (hs : s.ended = none) (hv : s.bevs b ≠ none) : Stalled env b s₀ s := by
  obtain ⟨v, hv⟩ := Option.ne_none_iff_exists'.mp hv
  exact ⟨hs, ⟨v, hv, h.output v hv⟩, fun es hes => (run_dry hes h).unanswered⟩

/-- What a state shows that has stalled. -/
theorem stalled_of_drained (hs : s.ended = none)
    (hlog : s.log = s₀.log ++ newEffects s₀ s) (hsilent : transferDone ∉ newEffects s₀ s)
    (hout : (s.bevs b).map Bev.output = some []) (hcb : s.conn.dataTlsEventConnectedCb = none) :
    Stalled env b s₀ s := by
  obtain ⟨v, hv, hempty⟩ := Option.map_eq_some_iff.mp hout
  refine Dry.stalled ⟨⟨_, hlog, fun e he heq => hsilent (by rwa [← heq])⟩, fun w hw => ?_, ?_⟩ hs ?_
  · rw [hv, Option.some.injEq] at hw
    rw [← hw, hempty]
  · rw [hcb]
    exact (Option.some_ne_none _).symm
  · rw [hv]
    exact Option.some_ne_none _

end Dry

/-! ## A download that goes on -/

/-- There is output to leave, and the callback that will run then goes on from there. -/
structure Flowing (b : Nat) (s : Session σ) : Prop where
  output : ∃ v, s.bevs b = some v ∧ v.output ≠ []
  callback : s.conn.dataWriteCb = some .downloadCompletionOnPlainConnectionCb ∨
    s.conn.dataWriteCb = some .closeOnRetrcb ∨
    (s.conn.dataWriteCb = some .sendNextChunk ∧ s.conn.dataStream ≠ none)
  connected : s.conn.dataTlsEventConnectedCb ≠ some .listTlsOnBevEventConnected

/-- How far the download of `s₀` is. -/
inductive Course (b : Nat) (s₀ s : Session σ) : Prop where
  | flowing (h : Flowing b s)
  | answered (h : transferDone ∈ newEffects s₀ s)
  | past (h : s.ended ≠ none ∨ s.conn.dataBev ≠ some b)

/-- The states after RETR in `s₀`, in a session with one data connection at a time. -/
structure InDownload (b : Nat) (s₀ s : Session σ) : Prop where
  single : Single s
  old : b < s.nextId
  log : s₀.log <+: s.log
  course : Course b s₀ s

section Flowing

variable {env} {b : Nat} {s₀ s s' : Session σ}

theorem newEffects_mono (h₀ : s₀.log <+: s.log) (h : s.log <+: s'.log) {e : Effect} (he : e ∈ newEffects s₀ s) :
    e ∈ newEffects s₀ s' := by
  obtain ⟨d, hd⟩ := h₀
  obtain ⟨d', hd'⟩ := h
  rw [newEffects_eq hd.symm] at he
  rw [newEffects_eq (d := d ++ d') (by rw [← hd', ← hd, List.append_assoc])]
  exact List.mem_append_left _ he

variable (env) in
/-- An event only adds to the log. -/
theorem step_log (e : Event) (s : Session σ) : s.log <+: (step env e s).log := by
  rcases step_extends env e s with h | ⟨chunk, -, -, -, heq⟩ | ⟨chunk, username, -, -, h⟩ | ⟨chunk, arg, -, -, -, h⟩
  · obtain ⟨d, hd, -⟩ := h.log
    exact ⟨d, hd.symm⟩
  · rw [heq]
    exact List.prefix_append ..
  · obtain ⟨d, hd, -⟩ := h.log
    exact ⟨d, hd.symm⟩
  · obtain ⟨d, hd, -⟩ := h.log
    rw [hd]
    exact (List.prefix_append ..).trans (List.prefix_append ..)

/-- A download that goes on, that is answered or that is over has not stalled. -/
theorem InDownload.not_stalled (h : InDownload b s₀ s) : ¬ Stalled env b s₀ s := by
  intro hst
  obtain ⟨v, hv, hempty⟩ := hst.drained
  cases h.course with
  | flowing hf =>
    obtain ⟨w, hw, hne⟩ := hf.output
    rw [hv, Option.some.injEq] at hw
    exact hne (hw ▸ hempty)
  | answered hm => exact hst.unanswered [] (List.forall_mem_nil _) hm
  | past ho =>
    rcases ho with hs | hd
    · exact hs hst.running
    · exact hd (h.single.only b v hv)

/-! ### One event -/

/-- A data connection that is gone does not come back. -/
theorem step_gone_data {e : Event} (hsingle : Single s) (hold : b < s.nextId) (hd : s.conn.dataBev ≠ some b)
    (hone : AcceptsOne e s) : (step env e s).conn.dataBev ≠ some b := by
  have hst := step_transfer env e s
  generalize step env e s = s' at hst ⊢
  cases hst with
  | aside ha => exact fun hd' => hd ((congrArg Transfer.dataBev ha.transfer).symm.trans hd')
  | @command chunk a hs ha ht => exact fun hd' => hd ((transferCommand_dataBev ht (received s chunk)).symm.trans hd')
  | abort => exact ((closeDataConnection_settled _).of_transfer rfl).dataBev_ne b
  | flush hs hcb ht => exact ((closeDataConnection_settled _).of_transfer ht).dataBev_ne b
  | @connect listener fd addr hs hl hp =>
    obtain ⟨s₁, ha₁, ha₂⟩ := accept_aside env fd hs hl hp
    have hnone : s₁.conn.dataBev = none :=
      (congrArg Transfer.dataBev ha₁.transfer).trans (hone listener fd addr rfl hs hl hp)
    intro hd'
    have hnew : (newDataBev env s₁).conn.dataBev = some b := (congrArg Transfer.dataBev ha₂.transfer).symm.trans hd'
    rcases newDataBev_cases env hnone with heq | heq
    · rw [heq, hnone] at hnew
      cases hnew
    · rw [heq] at hnew
      have hid : s₁.nextId = b := Option.some.inj hnew
      have := ha₁.nextId
      omega
  | data hs he hv =>
    have hd₁ := hsingle.only _ _ hv
    rcases dataEvent_dataBev he hd₁ with hkept | hsettled
    · rw [hkept, ← hd₁]
      exact hd
    · exact hsettled.dataBev_ne b

theorem Flowing.of_transfer (h : Flowing b s) (ht : s'.transfer = s.transfer) : Flowing b s' where
  output := by
    have hbevs : s'.bevs = s.bevs := congrArg Transfer.bevs ht
    rw [hbevs]
    exact h.output
  callback := by
    have hcb : s'.conn.dataWriteCb = s.conn.dataWriteCb := congrArg Transfer.dataWriteCb ht
    have hfs : s'.conn.dataStream = s.conn.dataStream := congrArg Transfer.dataStream ht
    rw [hcb, hfs]
    exact h.callback
  connected := by
    have hcb : s'.conn.dataTlsEventConnectedCb = s.conn.dataTlsEventConnectedCb :=
      congrArg Transfer.dataTlsEventConnectedCb ht
    rw [hcb]
    exact h.connected

/-- Bytes arrive. -/
theorem Flowing.dataRead (h : Flowing b s) (bytes : Bytes) : Flowing b (handle env (.dataRead b bytes) s) := by
  obtain ⟨v, hv, hne⟩ := h.output
  have hv' : (dataArrives b v bytes s).bevs b = some { v with input := v.input ++ bytes } := Function.update_self ..
  simp only [handle, hv]
  split
  · exact h
  · unfold dataConnectionReadCb
    split
    · obtain ⟨-, rest, hrest⟩ := drainInput_quiet env env.spin hv'
      refine ⟨⟨_, hrest, hne⟩, ?_, ?_⟩
      · rw [onStorRead, drainInput_conn]
        exact h.callback
      · rw [onStorRead, drainInput_conn]
        exact h.connected
    · exact ⟨⟨_, hv', hne⟩, h.callback, h.connected⟩

variable (env) in
/-- The handshake is done, or the connection ends. -/
theorem Flowing.dataEvent (h : Flowing b s) (connected timeout error eof : Bool) :
    Flowing b (dataConnectionEventCb env connected timeout error eof s) ∨
      (dataConnectionEventCb env connected timeout error eof s).ended ≠ none ∨
        Settled (dataConnectionEventCb env connected timeout error eof s) := by
  cases hend : eof || error || timeout with
  | true => exact .inr (dataConnectionEventCb_closing env s connected hend)
  | false =>
    obtain ⟨⟨rfl, rfl⟩, rfl⟩ : (eof = false ∧ error = false) ∧ timeout = false := by simpa using hend
    have hactive : Flowing b { s with conn := { s.conn with dataActive := s.conn.dataActive + 1 } } :=
      ⟨h.output, h.callback, h.connected⟩
    rw [dataConnectionEventCb_open]
    split
    · unfold dataConnected
      dsimp only
      split
      · split
        · rename_i cb hcb
          cases cb with
          | listTlsOnBevEventConnected => exact absurd hcb h.connected
          | storTlsOnBevEventConnected => exact .inl ⟨hactive.output, hactive.callback, hactive.connected⟩
          | closeDataConnectionOnWritecb => exact .inr (.inr (closeDataConnection_settled _))
        · exact .inl hactive
      · exact .inl hactive
    · exact .inl h

/-! ### Reading on -/

theorem nextChunk_eq {fs : FileStream} (hfs : s.conn.dataStream = some fs) :
    nextChunk env s = (readStream env fs s).getD [] := by
  rw [nextChunk, hfs]
  rfl

/-- Nothing comes from a `read` at the end, nor from one that fails. -/
theorem readStream_nothing {fs : FileStream} (hfs : s.conn.dataStream = some fs) (h : nextChunk env s = []) :
    readStream env fs s = none ∨ readStream env fs s = some [] := by
  rw [nextChunk_eq hfs] at h
  cases hread : readStream env fs s with
  | none => exact .inl rfl
  | some bytes =>
    rw [hread, Option.getD_some] at h
    exact .inr (by rw [h])

/-- `send_next_chunk` keeps the download going if it reads something, or finds output that has still to leave. -/
theorem sendNextChunk_flowing {v : Bev} (hv : s.bevs b = some v) (hcb : s.conn.dataWriteCb = some .sendNextChunk)
    (hfs : s.conn.dataStream ≠ none)
    (hconnected : s.conn.dataTlsEventConnectedCb ≠ some .listTlsOnBevEventConnected)
    (hmore : v.output ≠ [] ∨ nextChunk env s ≠ []) : Flowing b (sendNextChunk env b s) := by
  obtain ⟨fs, hfs⟩ := Option.ne_none_iff_exists'.mp hfs
  have hcb' : ∀ chunk, (afterRead fs chunk s.conn).dataWriteCb = some .closeOnRetrcb ∨
      (afterRead fs chunk s.conn).dataWriteCb = some .sendNextChunk := fun chunk =>
    (afterRead_dataWriteCb (P := True) hcb fun _ => trivial).symm.imp_left And.left
  by_cases hnext : nextChunk env s = []
  · obtain ⟨hconn, hbevs, -⟩ := sendNextChunk_stop (b := b) env hfs rfl (readStream_nothing hfs hnext)
    refine ⟨⟨v, by rw [hbevs]; exact hv, hmore.resolve_right (fun hne => hne hnext)⟩, ?_, ?_⟩
    · rw [hconn]
      exact .inr ((hcb' _).imp_right fun h => ⟨h, Option.some_ne_none _⟩)
    · rw [hconn]
      exact hconnected
  · obtain ⟨bytes, hread⟩ : ∃ bytes, readStream env fs s = some bytes := by
      by_contra hno
      rw [nextChunk_eq hfs, Option.eq_none_iff_forall_ne_some.mpr (not_exists.mp hno)] at hnext
      exact hnext rfl
    have hne : bytes ≠ [] := by
      rw [nextChunk_eq hfs, hread] at hnext
      exact hnext
    obtain ⟨hconn, hbev, -⟩ := sendNextChunk_chunk env hfs hread hne hv
    refine ⟨⟨_, hbev, List.append_ne_nil_of_right_ne_nil _ hne⟩, ?_, ?_⟩
    · rw [hconn]
      exact .inr ((hcb' _).imp_right fun h => ⟨h, Option.some_ne_none _⟩)
    · rw [hconn]
      exact hconnected

/-- It stalls if it reads nothing, and there is no output left. -/
theorem sendNextChunk_stalls {v : Bev} (hs : s.ended = none) (hlog : Grown (· ≠ transferDone) s₀.log s.log)
    (hv : s.bevs b = some v) (hempty : v.output = []) (hfs : s.conn.dataStream ≠ none)
    (hconnected : s.conn.dataTlsEventConnectedCb ≠ some .listTlsOnBevEventConnected) (hnext : nextChunk env s = []) :
    Stalled env b s₀ (sendNextChunk env b s) := by
  obtain ⟨fs, hfs⟩ := Option.ne_none_iff_exists'.mp hfs
  obtain ⟨hconn, hbevs, hended, hclosed⟩ := sendNextChunk_stop (b := b) env hfs rfl (readStream_nothing hfs hnext)
  have hgrown : Grown (· ≠ transferDone) s.log (sendNextChunk env b s).log :=
    Grown.mono hclosed fun e he heq => by
      rw [he] at heq
      cases heq
  refine Dry.stalled ⟨hlog.trans hgrown, fun w hw => ?_, ?_⟩ (hended.trans hs) ?_
  · rw [hbevs, hv, Option.some.injEq] at hw
    rw [← hw]
    exact hempty
  · rw [hconn]
    exact hconnected
  · rw [hbevs, hv]
    exact Option.some_ne_none v

/-- The completion reply. -/
theorem transferComplete_answered (hlog : s₀.log <+: s.log) :
    transferDone ∈ newEffects s₀ (transferComplete env s) := by
  obtain ⟨d, hd⟩ := hlog
  rw [newEffects_eq (d := d ++ [transferDone]) (by rw [transferComplete_log, ← hd, List.append_assoc])]
  exact List.mem_append_right _ List.mem_cons_self

/-- Output leaves. -/
theorem Flowing.dataWrite (h : Flowing b s) (hs : s.ended = none) (hlog : s₀.log <+: s.log)
    (hsilent : transferDone ∉ newEffects s₀ s) {n : Nat} (hg : ReadsOn env b s₀ (.dataWrite b n) s) :
    Flowing b (handle env (.dataWrite b n) s) ∨ transferDone ∈ newEffects s₀ (handle env (.dataWrite b n) s) := by
  obtain ⟨v, hv, hne⟩ := h.output
  have hv' : (dataLeaves b v n s).bevs b = some (drained v n) := dataLeaves_bevs n
  have hleaves : (drained v n).output ≠ [] → Flowing b (dataLeaves b v n s) := fun hrest =>
    ⟨⟨_, hv', hrest⟩, h.callback, h.connected⟩
  simp only [handle, hv]
  split
  · exact .inl h
  · rename_i hn
    split
    · rcases h.callback with hcb | hcb | ⟨hcb, hfs⟩
      · have hcb' : (dataLeaves b v n s).conn.dataWriteCb = some .downloadCompletionOnPlainConnectionCb := hcb
        simp only [dataConnectionWriteCb, hcb', downloadCompletionOnPlainConnectionCb, hv']
        split
        · exact .inr (transferComplete_answered hlog)
        · rename_i hrest
          exact .inl (hleaves hrest)
      · have hcb' : (dataLeaves b v n s).conn.dataWriteCb = some .closeOnRetrcb := hcb
        simp only [dataConnectionWriteCb, hcb', closeOnRetrcb]
        exact .inr (transferComplete_answered hlog)
      · have hcb' : (dataLeaves b v n s).conn.dataWriteCb = some .sendNextChunk := hcb
        simp only [dataConnectionWriteCb, hcb']
        refine .inl (sendNextChunk_flowing hv' hcb' hfs h.connected ?_)
        by_cases hrest : v.output.drop n = []
        · exact .inr (hg rfl hs hsilent hcb v hv (fun h0 => hn (.inl h0)) hne hrest)
        · exact .inl hrest
    · rename_i hmore
      exact .inl (hleaves (List.ne_nil_of_length_pos (by
        simp only [drained]
        omega)))

/-- **One event of a download that goes on**, while no other client connects, and no other transfer is asked for. -/
theorem step_inDownload {e : Event} (h : InDownload b s₀ s) (hone : AcceptsOne e s) (hno : NoTransfer b e s)
    (hg : ReadsOn env b s₀ e s) : InDownload b s₀ (step env e s) := by
  refine ⟨step_single env e h.single hone, h.old.trans_le (step_nextId_le env e s), h.log.trans (step_log env e s), ?_⟩
  by_cases hanswered : transferDone ∈ newEffects s₀ s
  · exact .answered (newEffects_mono h.log (step_log env e s) hanswered)
  by_cases hs : s.ended = none
  · by_cases hd : s.conn.dataBev = some b
    · have hf : Flowing b s := by
        cases h.course with
        | flowing hf => exact hf
        | answered hm => exact absurd hm hanswered
        | past ho => exact absurd hd (ho.resolve_left fun hne => hne hs)
      have hgone : ∀ {s₁ : Session σ}, Settled s₁ → Course b s₀ s₁ := fun hsettled =>
        .past (.inr (hsettled.dataBev_ne b))
      have hst := step_transfer env e s
      generalize step env e s = s' at hst ⊢
      cases hst with
      | aside ha => exact .flowing (hf.of_transfer ha.transfer)
      | command _ ha ht => exact absurd hd (hno _ _ rfl ha ht)
      | abort => exact hgone ((closeDataConnection_settled _).of_transfer rfl)
      | flush _ _ ht => exact hgone ((closeDataConnection_settled _).of_transfer ht)
      | connect _ hl hp =>
        rw [hone _ _ _ rfl hs hl hp] at hd
        cases hd
      | @data d v _ _ he hv =>
        obtain rfl : d = b := h.single.eq_of_live hv hd
        cases he with
        | read bytes => exact .flowing (hf.dataRead bytes)
        | write n =>
          rcases hf.dataWrite hs h.log hanswered hg with hf' | hm
          · exact .flowing hf'
          · exact .answered hm
        | event connected timeout error eof =>
          simp only [handle, hv]
          rcases hf.dataEvent env (connected && v.tls) timeout error eof with hf' | hs' | hsettled
          · exact .flowing hf'
          · exact .past (.inl hs')
          · exact hgone hsettled
    · exact .past (.inr (step_gone_data h.single h.old hd hone))
  · rw [step_ended hs]
    exact h.course

/-- The condition is exact for one event. -/
theorem stalls_unless_readsOn {e : Event} (h : InDownload b s₀ s) (hq : ¬ Stalled env b s₀ (step env e s)) :
    ReadsOn env b s₀ e s := by
  cases e with
  | dataWrite d n =>
    rintro rfl hs hsilent hcb v hv hn hout hrest hnext
    have hf : Flowing d s := by
      cases h.course with
      | flowing hf => exact hf
      | answered hm => exact absurd hm hsilent
      | past ho => exact absurd (h.single.only d v hv) (ho.resolve_left fun hne => hne hs)
    have hfs : s.conn.dataStream ≠ none := by
      rcases hf.callback with hcb' | hcb' | ⟨-, hfs⟩
      · rw [hcb] at hcb'
        cases hcb'
      · rw [hcb] at hcb'
        cases hcb'
      · exact hfs
    obtain ⟨l, hl⟩ := h.log
    have hgrown : Grown (· ≠ transferDone) s₀.log s.log := by
      refine ⟨l, hl.symm, fun e he heq => hsilent ?_⟩
      rw [newEffects_eq hl.symm, ← heq]
      exact he
    have hcb' : (dataLeaves d v n s).conn.dataWriteCb = some .sendNextChunk := hcb
    refine hq ?_
    rw [step_handle hs]
    simp only [handle, hv]
    rw [if_neg (not_or.mpr ⟨hn, hout⟩), if_pos (by rw [hrest]; exact Nat.zero_le _)]
    simp only [dataConnectionWriteCb, hcb']
    exact sendNextChunk_stalls (s := dataLeaves d v n s) hs hgrown (dataLeaves_bevs n) hrest hfs hf.connected hnext
  | _ => trivial

end Flowing

/-! ## RETR -/

section Retr

variable {env} {b : Nat} {v : Bev} {path : Bytes} {s₀ s : Session σ}

/-- A RETR that is answered 150 has opened its file. -/
theorem sendingFile_opened (h : sendingFile ∈ newEffects s (cftpSendFile env path s)) :
    (sysOpenRead env path s).1 = some (s.nextId : Int) ∧
      ∃ st, env.fstat (sysOpenRead env path s).2.os s.nextId = some st := by
  by_contra hcon
  have hopen : Grown (· ≠ sendingFile) s.log (sysOpenRead env path s).2.log :=
    Grown.mono (Looked.refl.sysOpenRead).log fun e hlook heq => by
      rw [heq] at hlook
      exact hlook
  have hfd : ∀ fd, (sysOpenRead env path s).1 = some fd → fd = s.nextId := by
    intro fd hfd
    unfold sysOpenRead at hfd
    split at hfd
    · exact (Option.some.inj hfd).symm
    · cases hfd
  have hclose : ∀ (fd : Int) (s₁ : Session σ), Grown (· ≠ sendingFile) s.log s₁.log →
      Grown (· ≠ sendingFile) s.log (closeFd env fd s₁).log := by
    intro fd s₁ h₁
    unfold closeFd
    split
    · exact h₁
    · exact h₁.concat (fun heq => by cases heq)
  have hfailed : ∀ (s₁ : Session σ), Grown (· ≠ sendingFile) s.log s₁.log →
      Grown (· ≠ sendingFile) s.log (sendControlMessage env 550 (ascii "Failed to open file") s₁).log :=
    fun s₁ h₁ => h₁.concat (fun heq => by cases heq)
  have hgrown : Grown (· ≠ sendingFile) s.log (cftpSendFile env path s).log := by
    unfold cftpSendFile ftpSendFileWithEvbuffer ftpSendFilePlain
    generalize sysOpenRead env path s = opened at hopen hfd hcon ⊢
    obtain ⟨fd, s₁⟩ := opened
    have hstat : ∀ fd' st, fd = some fd' → env.fstat s₁.os fd' ≠ some st := by
      intro fd' st hfd' hst
      obtain rfl := hfd fd' hfd'
      exact hcon ⟨hfd', st, hst⟩
    split
    · split
      · exact .refl
      · dsimp only
        split
        · exact hopen
        · split
          · exact hclose _ _ hopen
          · rename_i hst
            exact absurd hst (hstat _ _ rfl)
    · split
      · exact .refl
      · dsimp only
        split
        · exact hfailed _ hopen
        · split
          · exact hfailed _ (hclose _ _ hopen)
          · rename_i hst
            exact absurd hst (hstat _ _ rfl)
  obtain ⟨d, hd, hne⟩ := hgrown
  rw [newEffects_eq hd] at h
  exact hne _ h rfl

/-- RETR, once it is answered 150, stalls at once unless there is something in the output. -/
theorem retr_begins (hd : s.conn.dataBev = some b) (hv : s.bevs b = some v) (hs : s.ended = none)
    (hlog : Grown (· ≠ transferDone) s₀.log s.log)
    (hlist : s.conn.dataTlsEventConnectedCb ≠ some .listTlsOnBevEventConnected)
    (h150 : sendingFile ∈ newEffects s (cftpSendFile env path s)) :
    (v.output ≠ [] ∨ firstBytes env path s ≠ [] → Flowing b (cftpSendFile env path s)) ∧
      (¬ (v.output ≠ [] ∨ firstBytes env path s ≠ []) → Stalled env b s₀ (cftpSendFile env path s)) := by
  obtain ⟨hfd, st, hst⟩ := sendingFile_opened h150
  have hlooked : Looked s (sysOpenRead env path s).2 := Looked.refl.sysOpenRead
  have hgrown : Grown (· ≠ transferDone) s₀.log (sysOpenRead env path s).2.log :=
    hlog.trans (Grown.mono hlooked.log fun e hlook heq => by
      rw [heq] at hlook
      exact hlook)
  unfold firstBytes cftpSendFile ftpSendFileWithEvbuffer ftpSendFilePlain
  simp only [hd]
  generalize sysOpenRead env path s = opened at hfd hst hlooked hgrown ⊢
  obtain ⟨fd, s₁⟩ := opened
  simp only at hfd hst hlooked hgrown ⊢
  subst hfd
  simp only [hst, Option.elim_some]
  have hanswered : Grown (· ≠ transferDone) s₀.log (sendControlMessage env 150 (ascii "Sending file") s₁).log :=
    hgrown.concat (fun heq => by cases heq)
  have hconnected : s₁.conn.dataTlsEventConnectedCb ≠ some .listTlsOnBevEventConnected := by
    rw [hlooked.conn]
    exact hlist
  have hs₁ : s₁.ended = none := hlooked.ended.trans hs
  have hv₁ : s₁.bevs b = some v := by rw [hlooked.bevs, hv]
  cases htls : s.conn.dataTlsRequired with
  | true =>
    simp only [if_true]
    generalize hs₂ : setWriteLow b WRITE_LOW _ = s₂
    have hv₂ : s₂.bevs b = some { v with writeLow := WRITE_LOW } := by
      rw [← hs₂]
      simp [setWriteLow, sendControlMessage, emit, hv₁]
    have hfs : s₂.conn.dataStream = some ⟨s.nextId, 0, st.size⟩ := by
      rw [← hs₂]
      rfl
    have hcb : s₂.conn.dataWriteCb = some .sendNextChunk := by
      rw [← hs₂]
      rfl
    have hnext : nextChunk env s₂ = (env.read (sendControlMessage env 150 (ascii "Sending file") s₁).os s.nextId 0
        FILE_CHUNK_SIZE).getD [] := by
      rw [nextChunk_eq hfs, readStream, if_neg (by simp), ← hs₂]
      rfl
    have hconnected₂ : s₂.conn.dataTlsEventConnectedCb ≠ some .listTlsOnBevEventConnected := by
      rw [← hs₂]
      exact hconnected
    rw [← hnext]
    refine ⟨fun hmore => ?_, fun hnone => ?_⟩
    · exact sendNextChunk_flowing hv₂ hcb (by rw [hfs]; exact Option.some_ne_none _) hconnected₂ hmore
    · obtain ⟨hempty, hnothing⟩ : v.output = [] ∧ nextChunk env s₂ = [] := by
        simpa only [not_or, not_not] using hnone
      have hs₂' : s₂.ended = none := by
        rw [← hs₂]
        exact hs₁
      have hanswered₂ : Grown (· ≠ transferDone) s₀.log s₂.log := by
        rw [← hs₂]
        exact hanswered
      exact sendNextChunk_stalls hs₂' hanswered₂ hv₂ hempty (by rw [hfs]; exact Option.some_ne_none _) hconnected₂
        hnothing
  | false =>
    simp only [Bool.false_eq_true, if_false]
    rw [bevWrite_live env (v := v) (by simp [sendControlMessage, emit, hv₁])]
    refine ⟨fun hmore => ?_, fun hnone => ?_⟩
    · refine ⟨⟨_, Function.update_self .., fun happ => ?_⟩, .inl rfl, hconnected⟩
      obtain ⟨hempty, hnothing⟩ := List.append_eq_nil_iff.mp happ
      exact hmore.elim (fun h => h hempty) fun h => h hnothing
    · obtain ⟨hempty, hnothing⟩ : v.output = [] ∧ env.fileSegment _ _ _ = [] := by
        simpa only [not_or, not_not] using hnone
      refine Dry.stalled ⟨hanswered.concat (fun heq => by cases heq), fun w hw => ?_, hconnected⟩ hs₁ ?_
      · simp only [emit, Function.update_self, Option.some.injEq] at hw
        rw [← hw]
        exact List.append_eq_nil_iff.mpr ⟨hempty, hnothing⟩
      · simp [emit]

end Retr

/-- **A RETR never stalls** exactly if it finds something to send whenever the output is empty. In every run in which
one client at a time connects, a RETR is answered 150 on a data connection `b` where no LIST waits for the handshake,
and then any events come but another transfer command on `b`: no state of the run is stalled if and only if RETR leaves
something in the output, and, before the completion reply, each `send_next_chunk` that finds the output empty reads
something. -/
theorem retr_never_stalls_iff (addr : SockAddr) (proc : Proc) (os : σ) (es₀ : List Event) (b : Nat) (v : Bev)
    (chunk path : Bytes) (es : List Event) (hg₀ : Guarded (step env) AcceptsOne es₀ (start env addr proc os))
    (hv : (reached env addr proc os es₀).bevs b = some v)
    (hlist : (reached env addr proc os es₀).conn.dataTlsEventConnectedCb ≠ some .listTlsOnBevEventConnected)
    (ha : handlerOf (reached env addr proc os es₀) chunk = some .retr)
    (hargs : (commandOf (reached env addr proc os es₀) chunk).args = [path])
    (h150 : sendingFile ∈ newEffects (reached env addr proc os es₀)
      (step env (.controlRead chunk) (reached env addr proc os es₀)))
    (hg : Guarded (step env) (fun e s => AcceptsOne e s ∧ NoTransfer b e s) es
      (step env (.controlRead chunk) (reached env addr proc os es₀))) :
    (∀ pre, pre <+: es → ¬ Stalled env b (reached env addr proc os es₀)
        (run (step env) pre (step env (.controlRead chunk) (reached env addr proc os es₀)))) ↔
      (v.output ≠ [] ∨ firstBytes env path (received (reached env addr proc os es₀) chunk) ≠ []) ∧
        Guarded (step env) (ReadsOn env b (reached env addr proc os es₀)) es
          (step env (.controlRead chunk) (reached env addr proc os es₀)) := by
  obtain ⟨hsingle, -⟩ := reached_idle env addr proc os es₀ hg₀
  generalize reached env addr proc os es₀ = s at *
  have hs : s.ended = none := by
    by_contra hs
    rw [step_ended hs, newEffects_self] at h150
    cases h150
  have hne : chunk ≠ [] := by
    intro hchunk
    rw [step_handle hs, handle, if_pos hchunk, newEffects_self] at h150
    cases h150
  have hd : s.conn.dataBev = some b := hsingle.only b v hv
  have hold : b < s.nextId := by
    by_contra hge
    rw [hsingle.old b (by omega)] at hv
    cases hv
  have hretr : step env (.controlRead chunk) s = cftpSendFile env path (received s chunk) := by
    rw [step_command hs hne ha]
    simp only [runAction, cftpRetrAuthenticatedAction, withArg, hargs]
  have hstep : Single (step env (.controlRead chunk) s) := step_single env _ hsingle fun _ _ _ he => by cases he
  have hsent : sendingFile ∈ newEffects (received s chunk) (cftpSendFile env path (received s chunk)) := by
    rw [← hretr]
    exact h150
  have hsilent : Grown (· ≠ transferDone) s.log (received s chunk).log := .refl
  have hbegins := @retr_begins _ env b v path s (received s chunk) hd hv hs hsilent hlist hsent
  rw [← hretr] at hbegins
  obtain ⟨hflows, hstalls⟩ := hbegins
  by_cases hmore : v.output ≠ [] ∨ firstBytes env path (received s chunk) ≠ []
  · rw [and_iff_right hmore]
    refine forall_prefix_iff_guarded_of (I := InDownload b s) (fun _ h => h.not_stalled)
      (fun _ _ h _ hq => stalls_unless_readsOn h hq) (fun _ _ h hH hG => step_inDownload h hH.1 hH.2 hG) es ?_ hg
    exact ⟨hstep, hold.trans_le (step_nextId_le env _ s), step_log env _ s, .flowing (hflows hmore)⟩
  · refine iff_of_false (fun h => ?_) (fun h => hmore h.1)
    exact h [] List.nil_prefix (hstalls hmore)

/-- A file of two bytes that leave one by one: between the two nothing has stalled. -/
theorem retr_never_stalls_twoBytes :
    ¬ Stalled Env.twoByteFiles 3
      (aliceSession Env.twoByteFiles [.controlRead (ascii "PASV\r\n"), .accept 1 9 (.inet 127 0 0 1)])
      (aliceSession Env.twoByteFiles [.controlRead (ascii "PASV\r\n"), .accept 1 9 (.inet 127 0 0 1),
        .controlRead (ascii "RETR x\r\n"), .dataWrite 3 1]) := by
  have hno : ∀ {e : Event} {s : Session Unit}, (∀ listener fd addr, e ≠ .accept listener fd addr) → AcceptsOne e s :=
    fun h listener fd addr he => absurd he (h listener fd addr)
  have hdrain : ∀ s : Session Unit, AcceptsOne (.dataWrite 3 1) s ∧ NoTransfer 3 (.dataWrite 3 1) s :=
    fun _ => ⟨hno (by simp), fun _ _ he => by cases he⟩
  have h := retr_never_stalls_iff Env.twoByteFiles (.inet 127 0 0 1) ⟨ascii "/", ascii "/", 0, 0, []⟩ ()
    [.controlRead (ascii "USER alice\r\n"), .controlRead (ascii "PASS x\r\n"), .controlRead (ascii "PASV\r\n"),
      .accept 1 9 (.inet 127 0 0 1)] 3 ⟨false, [], [], 0, [], []⟩ (ascii "RETR x\r\n") (ascii "x")
    [.dataWrite 3 1, .dataWrite 3 1]
    ⟨hno (by simp), hno (by simp), hno (by simp), fun _ _ _ _ _ _ _ => by decide, trivial⟩ (by decide) (by decide)
    (by decide) (by decide) (by decide) ⟨hdrain _, hdrain _, trivial⟩
  refine h.mpr ⟨.inr (by decide), fun _ _ _ hcb => ?_, fun _ _ _ hcb => ?_, trivial⟩ [.dataWrite 3 1]
    ((List.prefix_cons_inj _).mpr List.nil_prefix)
  · exact absurd hcb (by decide)
  · exact absurd hcb (by decide)

/-- An empty file stalls at once, without TLS and with it. -/
theorem retr_emptyFile_stalls :
    let s := aliceSession Env.permissive [.controlRead (ascii "PASV\r\n"), .accept 1 9 (.inet 127 0 0 1)]
    let s' := step Env.permissive (.controlRead (ascii "RETR x\r\n")) s
    let t := aliceSession Env.permissive [.controlRead (ascii "PROT P\r\n"), .controlRead (ascii "PASV\r\n"),
      .accept 1 9 (.inet 127 0 0 1)]
    let t' := step Env.permissive (.controlRead (ascii "RETR x\r\n")) t
    sendingFile ∈ newEffects s s' ∧ Stalled Env.permissive 3 s s' ∧
      sendingFile ∈ newEffects t t' ∧ Stalled Env.permissive 3 t t' :=
  ⟨by decide, stalled_of_drained (by decide) (by decide) (by decide) (by decide) (by decide),
    by decide, stalled_of_drained (by decide) (by decide) (by decide) (by decide) (by decide)⟩

end CftpServer.Session
