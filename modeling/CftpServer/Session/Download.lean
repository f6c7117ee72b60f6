import CftpServer.Session.Frame

/-!
# Downloads

A download queues the file on the data connection, all at once or, with TLS, chunk by chunk; the callbacks of RETR run
as the output drains, and the last of them queues the reply 226, after which the connection is closed.

* `sendNextChunk_moving`: what is sent and what is queued are the part of the file read so far
* `data_drain`, `control_drain`: one drain of either connection
* `download_complete_iff`: the reply says that the file has left the buffer, for exactly the runs in which no drain of a
  TLS connection leaves a rest below the watermark once all of the file is queued
-/

namespace CftpServer.Session

open CLib Runs

variable {σ : Type} (env : Env σ)

/-- Output leaves a connection: the data connection of the download, or the control connection. -/
inductive Drain where
  | data (n : Nat)
  | control (n : Nat)
deriving DecidableEq, Repr

/-- A drain as an event of the session. -/
def Drain.event (b : Nat) : Drain → Event
  | .data n => .dataWrite b n
  | .control n => .controlWrite n

/-- The callbacks of one drain. -/
def drain (b : Nat) (d : Drain) : Session σ → Session σ := step env (d.event b)

/-- RETR of `path` in the session `s` opens a file with this content, which `fstat`, `read` and `evbuffer_add_file`
agree on. `read` may fail, and may be short. -/
structure ServesFile (s : Session σ) (path content : Bytes) : Prop where
  opens : env.openRead s.os s.proc path = true
  fstat : ∀ os, ∃ st, env.fstat os s.nextId = some st ∧ st.size = content.length
  segment : ∀ os, env.fileSegment os s.nextId content.length = content
  read : ∀ os pos bytes, env.read os s.nextId pos FILE_CHUNK_SIZE = some bytes → bytes <+: content.drop pos

/-- The reply that ends a download. -/
def transferDone : Effect := .reply 226 (ascii "Transfer complete")

/-- What the reply promises, in a session `s'` reached from `s`, where the data connection `b` was `v`: it comes once,
and when it has come the file has left the connection, with nothing lost when that is closed. -/
structure DownloadComplete (b : Nat) (v : Bev) (content : Bytes) (s s' : Session σ) : Prop where
  once : (newEffects s s').count transferDone ≤ 1
  sent : transferDone ∈ newEffects s s' →
    (∃ w, s'.bevs b = some w ∧ w.output = [] ∧ w.sent = v.sent ++ v.output ++ content) ∨
      (s'.bevs b = none ∧ ∀ bytes, Effect.bevFree b bytes ∈ newEffects s s' → bytes = [])

/-- A drain of a TLS download that has queued all of the file takes all of the output, or leaves more than the
watermark. -/
def DrainsLast (b : Nat) : Drain → Session σ → Prop
  | .control _, _ => True
  | .data n, s => ∀ w ∈ s.bevs b, s.ended = none ∧ s.conn.dataTlsRequired = true ∧
      s.conn.dataWriteCb = some .closeOnRetrcb → n = 0 ∨ w.output.drop n = [] ∨ w.writeLow < (w.output.drop n).length

instance (b : Nat) (d : Drain) (s : Session σ) : Decidable (DrainsLast b d s) :=
  match d with
  | .control _ => .isTrue trivial
  | .data _ => inferInstanceAs (Decidable (∀ w ∈ s.bevs b, _))

/-! ## The invariant -/

section Invariant

variable (b : Nat) (v : Bev) (content : Bytes) (s : Session σ)

/-- How much of the file is queued or sent, by the callback that is set: all of it, or what has been read. -/
inductive Queued (c : Connection) (w : Bev) : Prop where
  | plain (hcb : c.dataWriteCb = some .downloadCompletionOnPlainConnectionCb)
      (hw : w.sent ++ w.output = v.sent ++ v.output ++ content)
  | last (htls : c.dataTlsRequired = true) (hcb : c.dataWriteCb = some .closeOnRetrcb)
      (hw : w.sent ++ w.output = v.sent ++ v.output ++ content)
  | chunk (htls : c.dataTlsRequired = true) (hcb : c.dataWriteCb = some .sendNextChunk) (fs : FileStream)
      (hfs : c.dataStream = some fs) (hsize : fs.filesize = content.length) (hfd : fs.fd = s.nextId ∨ fs.fd < 0)
      (hoffset : fs.offset ≤ content.length)
      (hw : w.sent ++ w.output = v.sent ++ v.output ++ content.take fs.offset)

/-- Neither the reply nor the close so far. -/
def Silent (s' : Session σ) : Prop :=
  ∃ d, s'.log = s.log ++ d ∧ transferDone ∉ d ∧ ∀ bytes, Effect.bevFree b bytes ∉ d

/-- The download is under way. -/
structure Moving (s' : Session σ) : Prop where
  ended : s'.ended = none
  dataBev : s'.conn.dataBev = some b
  silent : Silent b s s'
  queued : ∃ w, s'.bevs b = some w ∧ Queued v content s s'.conn w

/-- The reply is queued. -/
structure Done (s' : Session σ) : Prop where
  ended : s'.ended = none
  dataBev : s'.conn.dataBev = some b
  controlWriteCb : s'.conn.controlWriteCb = some .closeDataConnectionOnWritecb
  log : ∃ d, s'.log = s.log ++ d ∧ d.count transferDone = 1 ∧ ∀ bytes, Effect.bevFree b bytes ∉ d
  sent : ∃ w, s'.bevs b = some w ∧ w.output = [] ∧ w.sent = v.sent ++ v.output ++ content

/-- The data connection or the session is gone. -/
structure Over (s' : Session σ) : Prop where
  complete : DownloadComplete b v content s s'
  gone : s'.ended ≠ none ∨ (s'.bevs b = none ∧ s'.conn.controlWriteCb = none)

/-- The states of a download. -/
def Downloading (s' : Session σ) : Prop := Moving b v content s s' ∨ Done b v content s s' ∨ Over b v content s s'

end Invariant

section Steps

variable {b : Nat} {v : Bev} {content : Bytes} {s s' s'' : Session σ}

theorem Silent.append (h : Silent b s s') {d : List Effect} (hlog : s''.log = s'.log ++ d) (hdone : transferDone ∉ d)
    (hfree : ∀ bytes, Effect.bevFree b bytes ∉ d) : Silent b s s'' := by
  obtain ⟨d₀, hd₀, hdone₀, hfree₀⟩ := h
  refine ⟨d₀ ++ d, by rw [hlog, hd₀, List.append_assoc], ?_, fun bytes => ?_⟩
  · simp [hdone₀, hdone]
  · simp [hfree₀ bytes, hfree bytes]

theorem Moving.complete (h : Moving b v content s s') : DownloadComplete b v content s s' := by
  obtain ⟨d, hd, hdone, -⟩ := h.silent
  rw [← newEffects_eq hd] at hdone
  exact ⟨by rw [List.count_eq_zero_of_not_mem hdone]; decide, fun hm => absurd hm hdone⟩

theorem Done.complete (h : Done b v content s s') : DownloadComplete b v content s s' := by
  obtain ⟨d, hd, hcount, -⟩ := h.log
  refine ⟨by rw [newEffects_eq hd, hcount], fun _ => .inl h.sent⟩

theorem Downloading.complete (h : Downloading b v content s s') : DownloadComplete b v content s s' := by
  rcases h with h | h | h
  · exact h.complete
  · exact h.complete
  · exact h.complete

/-! ## Reading on -/

theorem atEnd_some {fs : FileStream} {bytes : Bytes} (h : atEnd fs (some bytes) = true) :
    fs.offset + bytes.length = fs.filesize := by
  have := of_decide_eq_true h
  simp only [Option.elim_some] at this
  omega

/-- A failed `read` counts as -1 bytes. -/
theorem atEnd_none {fs : FileStream} (h : atEnd fs none = true) : fs.offset = fs.filesize + 1 := by
  have := of_decide_eq_true h
  simp only [Option.elim_none] at this
  omega

/-- The connection with the callback that `send_next_chunk` sets after `read`. -/
def afterRead (fs : FileStream) (chunk : Option Bytes) (c : Connection) : Connection :=
  { c with dataWriteCb := if atEnd fs chunk then some .closeOnRetrcb else c.dataWriteCb }

/-- Nothing is read: the descriptor is closed. -/
theorem sendNextChunk_stop {fs : FileStream} {chunk : Option Bytes} (hfs : s'.conn.dataStream = some fs)
    (hread : readStream env fs s' = chunk) (hnone : chunk = none ∨ chunk = some []) :
    (sendNextChunk env b s').conn = { afterRead fs chunk s'.conn with dataStream := some { fs with fd := -1 } } ∧
      (sendNextChunk env b s').bevs = s'.bevs ∧ (sendNextChunk env b s').ended = s'.ended ∧
      ∃ d, (sendNextChunk env b s').log = s'.log ++ d ∧ ∀ e ∈ d, e = .closed fs.fd := by
  have hclose : ∀ s : Session σ, closeFd env fs.fd s = s ∨ closeFd env fs.fd s = emit env (.closed fs.fd) s := by
    intro s
    unfold closeFd
    split
    · exact .inl rfl
    · exact .inr rfl
  rw [sendNextChunk, hfs]
  simp only [hread]
  rcases hnone with rfl | rfl
  all_goals
    simp only []
    cases hend : atEnd fs _
    all_goals
      simp only [Bool.false_eq_true, if_false, if_true, afterRead, hend]
      rcases hclose _ with h | h
      · rw [h]
        exact ⟨rfl, rfl, rfl, [], (List.append_nil _).symm, fun _ he => by cases he⟩
      · rw [h]
        exact ⟨rfl, rfl, rfl, [.closed fs.fd], rfl, fun e he => List.mem_singleton.mp he⟩

/-- A chunk is read, and queued. -/
theorem sendNextChunk_chunk {fs : FileStream} {bytes : Bytes} {w : Bev} (hfs : s'.conn.dataStream = some fs)
    (hread : readStream env fs s' = some bytes) (hne : bytes ≠ []) (hw : s'.bevs b = some w) :
    (sendNextChunk env b s').conn = { afterRead fs (some bytes) s'.conn with
        dataStream := some { fs with offset := fs.offset + bytes.length } } ∧
      (sendNextChunk env b s').bevs b = some { w with output := w.output ++ bytes } ∧
      (sendNextChunk env b s').ended = s'.ended ∧
      (sendNextChunk env b s').log = s'.log ++ [.bevWrite b w.tls bytes] := by
  obtain ⟨c, cs, rfl⟩ := List.exists_cons_of_ne_nil hne
  rw [sendNextChunk, hfs]
  simp only [hread]
  cases hend : atEnd fs (some (c :: cs)) <;> simp [bevWrite, hw, emit, afterRead, hend]

/-- The stream after `read`: all of the file is queued, or the callback stays. -/
theorem Queued.of_offset {c : Connection} {w : Bev} {fs : FileStream} (htls : c.dataTlsRequired = true)
    (hfs : c.dataStream = some fs) (hsize : fs.filesize = content.length) (hfd : fs.fd = s.nextId ∨ fs.fd < 0)
    (hoffset : fs.offset ≤ content.length) (hw : w.sent ++ w.output = v.sent ++ v.output ++ content.take fs.offset)
    (hcb : c.dataWriteCb = some .sendNextChunk ∨ (c.dataWriteCb = some .closeOnRetrcb ∧ fs.offset = content.length)) :
    Queued v content s c w := by
  rcases hcb with hcb | ⟨hcb, hall⟩
  · exact .chunk htls hcb fs hfs hsize hfd hoffset hw
  · rw [hall, List.take_length] at hw
    exact .last htls hcb hw

theorem afterRead_dataWriteCb {fs : FileStream} {chunk : Option Bytes} {c : Connection} {P : Prop}
    (hcb : c.dataWriteCb = some .sendNextChunk) (hend : atEnd fs chunk = true → P) :
    (afterRead fs chunk c).dataWriteCb = some .sendNextChunk ∨
      ((afterRead fs chunk c).dataWriteCb = some .closeOnRetrcb ∧ P) := by
  unfold afterRead
  cases h : atEnd fs chunk with
  | false => exact .inl (by simpa using hcb)
  | true => exact .inr ⟨by simp, hend h⟩

/-- A chunk that is read is what the file has next. -/
theorem readStream_prefix {path : Bytes} {fs : FileStream} {bytes : Bytes} (hfile : ServesFile env s path content)
    (hfd : fs.fd = s.nextId ∨ fs.fd < 0) (hread : readStream env fs s' = some bytes) :
    bytes <+: content.drop fs.offset := by
  unfold readStream at hread
  split at hread
  · cases hread
  · rename_i hneg
    rw [hfd.resolve_right hneg] at hread
    exact hfile.read _ _ _ hread

theorem take_add_of_prefix {bytes : Bytes} {n : Nat} (h : bytes <+: content.drop n) :
    content.take (n + bytes.length) = content.take n ++ bytes := by
  rw [List.take_add, ← List.prefix_iff_eq_take.mp h]

/-- `send_next_chunk` while the download is under way. -/
theorem sendNextChunk_moving {path : Bytes} (hfile : ServesFile env s path content) (h : Moving b v content s s')
    (hcb : s'.conn.dataWriteCb = some .sendNextChunk) : Moving b v content s (sendNextChunk env b s') := by
  obtain ⟨w, hw, hq⟩ := h.queued
  cases hq with
  | plain hcb' _ | last _ hcb' _ =>
    rw [hcb] at hcb'
    cases hcb'
  | chunk htls _ fs hfs hsize hfd hoffset hsent =>
    by_cases hnone : readStream env fs s' = none ∨ readStream env fs s' = some []
    · obtain ⟨hconn, hbevs, hended, d, hlog, hclosed⟩ := sendNextChunk_stop (b := b) env hfs rfl hnone
      have hend : atEnd fs (readStream env fs s') = true → fs.offset = content.length := by
        intro he
        rcases hnone with hr | hr
        · rw [hr] at he
          have := atEnd_none he
          omega
        · rw [hr] at he
          exact (atEnd_some he).trans hsize
      refine ⟨hended.trans h.ended, by rw [hconn]; exact h.dataBev, h.silent.append hlog ?_ ?_,
        w, by rw [hbevs]; exact hw, ?_⟩
      · intro hm
        cases hclosed _ hm
      · intro bytes hm
        cases hclosed _ hm
      · rw [hconn]
        exact .of_offset htls rfl hsize (.inr (show (-1 : Int) < 0 by decide)) hoffset hsent
          (afterRead_dataWriteCb hcb hend)
    · obtain ⟨bytes, hread⟩ := Option.ne_none_iff_exists'.mp fun hr => hnone (.inl hr)
      have hne : bytes ≠ [] := fun hb => hnone (.inr (by rw [hread, hb]))
      obtain ⟨hconn, hbevs, hended, hlog⟩ := sendNextChunk_chunk env hfs hread hne hw
      have hprefix := readStream_prefix env hfile hfd hread
      have hlen : fs.offset + bytes.length ≤ content.length := by
        have := hprefix.length_le
        rw [List.length_drop] at this
        omega
      have hend : atEnd fs (some bytes) = true → fs.offset + bytes.length = content.length := fun he =>
        (atEnd_some he).trans hsize
      refine ⟨hended.trans h.ended, by rw [hconn]; exact h.dataBev, h.silent.append hlog ?_ ?_, _, hbevs, ?_⟩
      · simp [transferDone]
      · simp
      · rw [hconn]
        refine .of_offset htls rfl hsize hfd hlen ?_ (afterRead_dataWriteCb hcb hend)
        show w.sent ++ (w.output ++ bytes) = _
        rw [← List.append_assoc, hsent, take_add_of_prefix hprefix, List.append_assoc]

/-! ## RETR -/

/-- The file is opened, and the client is told. -/
theorem sysOpenRead_opens {path : Bytes} (hfile : ServesFile env s path content) : ∃ s₁,
    sysOpenRead env path s = (some (s.nextId : Int), s₁) ∧ s₁.ended = s.ended ∧ s₁.conn = s.conn ∧ s₁.bevs = s.bevs ∧
      s₁.log = s.log ++ [.call (.openRead path), .opened s.nextId] := by
  simp only [sysOpenRead, hfile.opens, if_true, newFd]
  exact ⟨_, rfl, rfl, rfl, rfl, by simp [fresh, emit, call]⟩

theorem bevWrite_live {bytes : Bytes} {files : List Int} (hv : s.bevs b = some v) :
    bevWrite env b bytes files s = emit env (.bevWrite b v.tls bytes)
      { s with bevs := Function.update s.bevs b
                (some { v with output := v.output ++ bytes, files := v.files ++ files }) } := by
  simp only [bevWrite, hv]

/-- RETR starts the download. -/
theorem cftpSendFile_moving {path : Bytes} (hs : s.ended = none) (hb : s.conn.dataBev = some b) (hv : s.bevs b = some v)
    (hfile : ServesFile env s path content) : Moving b v content s (cftpSendFile env path s) := by
  obtain ⟨s₁, hopen, hended, hconn, hbevs, hlog⟩ := sysOpenRead_opens env hfile
  obtain ⟨st, hst, hsize⟩ := hfile.fstat s₁.os
  have hsilent : Silent b s (sendControlMessage env 150 (ascii "Sending file") s₁) := by
    refine ⟨[.call (.openRead path), .opened s.nextId, .reply 150 (ascii "Sending file")], ?_, ?_, ?_⟩
    · simp [sendControlMessage, emit, hlog]
    · simp [transferDone]
    · simp
  unfold cftpSendFile
  split
  · rename_i htls
    simp only [ftpSendFileWithEvbuffer, hb, hopen, hst]
    refine sendNextChunk_moving env hfile ?_ rfl
    refine ⟨hended.trans hs, by simp [setWriteLow, sendControlMessage, emit, hconn, hb], hsilent,
      { v with writeLow := WRITE_LOW }, ?_, ?_⟩
    · simp [setWriteLow, sendControlMessage, emit, hbevs, hv]
    · refine .chunk (by simp [setWriteLow, sendControlMessage, emit, hconn, htls]) rfl _ rfl hsize (.inl rfl)
        (Nat.zero_le _) ?_
      simp
  · simp only [ftpSendFilePlain, hb, hopen, hst, hsize, hfile.segment]
    rw [bevWrite_live env (v := v) (by simp [sendControlMessage, emit, hbevs, hv])]
    refine ⟨hended.trans hs, by simp [sendControlMessage, emit, hconn, hb], hsilent.append rfl ?_ ?_, _,
      Function.update_self .., .plain rfl ?_⟩
    · simp [transferDone]
    · simp
    · exact (List.append_assoc ..).symm

/-! ## The data connection drains -/

/-- The end of the download. -/
theorem transferComplete_log (s' : Session σ) : (transferComplete env s').log = s'.log ++ [transferDone] := rfl

theorem transferComplete_done {w : Bev} (h : Moving b v content s s') (hw : s'.bevs b = some w) (hempty : w.output = [])
    (hall : w.sent ++ w.output = v.sent ++ v.output ++ content) : Done b v content s (transferComplete env s') := by
  obtain ⟨d, hd, hdone, hfree⟩ := h.silent
  refine ⟨h.ended, h.dataBev, rfl, ⟨d ++ [transferDone], ?_, ?_, fun bytes => ?_⟩, w, hw, hempty, ?_⟩
  · rw [transferComplete_log, hd, List.append_assoc]
  · rw [List.count_append, List.count_eq_zero_of_not_mem hdone, List.count_singleton_self]
  · simp [hfree bytes, transferDone]
  · rw [← hall, hempty, List.append_nil]

theorem Queued.of_append {c : Connection} {w w' : Bev} (h : Queued v content s c w)
    (hw : w'.sent ++ w'.output = w.sent ++ w.output) : Queued v content s c w' := by
  cases h with
  | plain hcb hq => exact .plain hcb (hw.trans hq)
  | last htls hcb hq => exact .last htls hcb (hw.trans hq)
  | chunk htls hcb fs hfs hsize hfd hoffset hq => exact .chunk htls hcb fs hfs hsize hfd hoffset (hw.trans hq)

/-- The output of a connection after a drain. -/
def drained (w : Bev) (n : Nat) : Bev := { w with output := w.output.drop n, sent := w.sent ++ w.output.take n }

/-- Bytes that leave the connection keep their order. -/
theorem drained_append (w : Bev) (n : Nat) : (drained w n).sent ++ (drained w n).output = w.sent ++ w.output := by
  simp [drained]

theorem dataLeaves_bevs {w : Bev} (n : Nat) : (dataLeaves b w n s').bevs b = some (drained w n) :=
  Function.update_self ..

theorem dataLeaves_moving {w : Bev} (n : Nat) (h : Moving b v content s s') (hw : s'.bevs b = some w) :
    Moving b v content s (dataLeaves b w n s') := by
  obtain ⟨w', hw', hq⟩ := h.queued
  rw [hw, Option.some.injEq] at hw'
  subst hw'
  exact ⟨h.ended, h.dataBev, h.silent, drained w n, dataLeaves_bevs n, hq.of_append (drained_append w n)⟩

theorem drain_data {w : Bev} (n : Nat) (hs : s'.ended = none) (hw : s'.bevs b = some w) :
    drain env b (.data n) s' =
      if n = 0 ∨ w.output = [] then s'
      else if (w.output.drop n).length ≤ w.writeLow then dataConnectionWriteCb env b (dataLeaves b w n s')
      else dataLeaves b w n s' := by
  rw [drain, Drain.event, step, andThen, if_neg (by simp [hs])]
  simp only [handle, hw]

/-- The callback of a drain that meets the condition. -/
theorem data_drain {path : Bytes} (hfile : ServesFile env s path content) {n : Nat} (h : Moving b v content s s')
    (hg : DrainsLast b (.data n) s') : Downloading b v content s (drain env b (.data n) s') := by
  obtain ⟨w, hw, hq⟩ := h.queued
  have hleaves := dataLeaves_moving n h hw
  have hw' : (dataLeaves b w n s').bevs b = some (drained w n) := dataLeaves_bevs n
  have happend := drained_append w n
  rw [drain_data env n h.ended hw]
  split
  · exact .inl h
  · rename_i hn
    split
    · rename_i hlow
      cases hq with
      | plain hcb hall =>
        have hcb' : (dataLeaves b w n s').conn.dataWriteCb = some .downloadCompletionOnPlainConnectionCb := hcb
        simp only [dataConnectionWriteCb, hcb', downloadCompletionOnPlainConnectionCb, hw']
        split
        · rename_i hempty
          exact .inr (.inl (transferComplete_done env hleaves hw' hempty (happend.trans hall)))
        · exact .inl hleaves
      | last htls hcb hall =>
        have hcb' : (dataLeaves b w n s').conn.dataWriteCb = some .closeOnRetrcb := hcb
        have hempty : (drained w n).output = [] := by
          rcases hg w hw ⟨h.ended, htls, hcb⟩ with h0 | hdrop | hmore
          · exact absurd (.inl h0) hn
          · exact hdrop
          · omega
        simp only [dataConnectionWriteCb, hcb', closeOnRetrcb]
        exact .inr (.inl (transferComplete_done env hleaves hw' hempty (happend.trans hall)))
      | chunk htls hcb _ _ _ _ _ _ =>
        have hcb' : (dataLeaves b w n s').conn.dataWriteCb = some .sendNextChunk := hcb
        simp only [dataConnectionWriteCb, hcb']
        exact .inl (sendNextChunk_moving env hfile hleaves hcb')
    · exact .inl hleaves

/-- A drain that does not meet the condition breaks the promise. -/
theorem data_drain_exact {n : Nat} (h : Moving b v content s s')
    (hq : DownloadComplete b v content s (drain env b (.data n) s')) : DrainsLast b (.data n) s' := by
  rintro w hw ⟨-, -, hcb⟩
  by_contra hcon
  obtain ⟨hn, hrest, hlow⟩ : n ≠ 0 ∧ w.output.drop n ≠ [] ∧ (w.output.drop n).length ≤ w.writeLow := by
    simpa only [not_or, not_lt] using hcon
  have hout : w.output ≠ [] := fun he => hrest (by rw [he, List.drop_nil])
  have hcb' : (dataLeaves b w n s').conn.dataWriteCb = some .closeOnRetrcb := hcb
  obtain ⟨d, hd, -⟩ := h.silent
  rw [drain_data env n h.ended hw, if_neg (by simp [hn, hout]), if_pos hlow] at hq
  simp only [dataConnectionWriteCb, hcb', closeOnRetrcb] at hq
  have hdone : transferDone ∈ newEffects s (transferComplete env (dataLeaves b w n s')) := by
    rw [newEffects_eq (d := d ++ [transferDone]) (by rw [transferComplete_log]; simp [dataLeaves, hd])]
    simp
  -- the reply is out, and the rest of the output is still there
  have hbev : (transferComplete env (dataLeaves b w n s')).bevs b = some (drained w n) := dataLeaves_bevs n
  rcases hq.sent hdone with ⟨w', hw', hempty, -⟩ | ⟨hnone, -⟩
  · rw [hbev, Option.some.injEq] at hw'
    subst hw'
    exact hrest hempty
  · rw [hbev] at hnone
    cases hnone

/-! ## The control connection drains -/

/-- The data connection is closed: what its output still has is dropped. -/
theorem closeDataConnection_drops {w : Bev} (hb : s'.conn.dataBev = some b) (hw : s'.bevs b = some w) :
    (closeDataConnection env s').bevs b = none ∧
      ∃ d, (closeDataConnection env s').log = s'.log ++ .bevFree b w.output :: d ∧
        ∀ e ∈ d, ∃ fd, e = Effect.closed fd := by
  obtain ⟨d, os, heq, hd⟩ := closeDataConnection_live env hb hw
  rw [heq]
  exact ⟨Function.update_self .., d, rfl, hd⟩

/-- The reply of the download does not come with the close. -/
theorem transferDone_not_closed {bytes : Bytes} {d : List Effect} (hd : ∀ e ∈ d, ∃ fd, e = Effect.closed fd) :
    transferDone ∉ Effect.bevFree b bytes :: d := by
  intro hm
  rcases List.mem_cons.mp hm with he | hm
  · cases he
  · obtain ⟨fd, he⟩ := hd _ hm
    cases he

theorem Moving.close (h : Moving b v content s s') :
    DownloadComplete b v content s (closeDataConnection env s') := by
  obtain ⟨w, hw, -⟩ := h.queued
  obtain ⟨d₀, hd₀, hdone, -⟩ := h.silent
  obtain ⟨-, d, hlog, hd⟩ := closeDataConnection_drops env h.dataBev hw
  have hnew := newEffects_eq (s := s) (hlog.trans (by rw [hd₀, List.append_assoc]))
  have hno : transferDone ∉ newEffects s (closeDataConnection env s') := by
    rw [hnew, List.mem_append]
    exact not_or.mpr ⟨hdone, transferDone_not_closed hd⟩
  exact ⟨by rw [List.count_eq_zero_of_not_mem hno]; decide, fun hm => absurd hm hno⟩

/-- After the reply nothing is lost. -/
theorem Done.close (h : Done b v content s s') : DownloadComplete b v content s (closeDataConnection env s') := by
  obtain ⟨w, hw, hempty, -⟩ := h.sent
  obtain ⟨d₀, hd₀, hcount, hfree⟩ := h.log
  obtain ⟨hbev, d, hlog, hd⟩ := closeDataConnection_drops env h.dataBev hw
  have hnew := newEffects_eq (s := s) (hlog.trans (by rw [hd₀, List.append_assoc]))
  refine ⟨?_, fun _ => .inr ⟨hbev, fun bytes hm => ?_⟩⟩
  · rw [hnew, List.count_append, hcount, List.count_eq_zero_of_not_mem (transferDone_not_closed hd)]
  · rw [hnew] at hm
    rcases List.mem_append.mp hm with hm | hm
    · exact absurd hm (hfree bytes)
    · rcases List.mem_cons.mp hm with he | hm
      · cases he
        exact hempty
      · obtain ⟨fd, he⟩ := hd _ hm
        cases he

theorem onWrite_moving (h : Moving b v content s s') : Downloading b v content s (onWrite env s') := by
  obtain ⟨w, hw, -⟩ := h.queued
  unfold onWrite
  split
  · rename_i cb _
    refine .inr (.inr ?_)
    cases cb with
    | closeDataConnectionOnWritecb =>
      have hc := h.close env
      exact ⟨⟨hc.once, hc.sent⟩, .inr ⟨(closeDataConnection_drops env h.dataBev hw).1, rfl⟩⟩
    | disableConnectionCb =>
      have hc := h.complete
      exact ⟨⟨hc.once, hc.sent⟩, .inl (by simp [runControlWriteCb, exit])⟩
  · exact .inl h

theorem onWrite_done (h : Done b v content s s') : Downloading b v content s (onWrite env s') := by
  obtain ⟨w, hw, -⟩ := h.sent
  have hc := h.close env
  simp only [onWrite, h.controlWriteCb]
  exact .inr (.inr ⟨⟨hc.once, hc.sent⟩, .inr ⟨(closeDataConnection_drops env h.dataBev hw).1, rfl⟩⟩)

theorem drain_control (n : Nat) (hs : s'.ended = none) : drain env b (.control n) s' =
    if n = 0 ∨ s'.ctlOut = [] then s'
    else if s'.ctlOut.drop n = [] then onWrite env { s' with ctlOut := s'.ctlOut.drop n }
    else { s' with ctlOut := s'.ctlOut.drop n } := by
  rw [drain, Drain.event, step, andThen, if_neg (by simp [hs])]
  rfl

theorem drain_ended (d : Drain) (hs : s'.ended ≠ none) : drain env b d s' = s' := by
  rw [drain, step, andThen, if_pos (Option.isSome_iff_ne_none.mpr hs)]

/-- A download that is over stays so. -/
theorem over_drain (d : Drain) (h : Over b v content s s') : Over b v content s (drain env b d s') := by
  by_cases hs : s'.ended = none
  · obtain ⟨hbev, hcb⟩ := h.gone.resolve_left (fun hne => hne hs)
    cases d with
    | data n =>
      have heq : drain env b (.data n) s' = s' := by
        rw [drain, Drain.event, step, andThen, if_neg (by simp [hs])]
        simp only [handle, hbev]
      rw [heq]
      exact h
    | control n =>
      have hc := h.complete
      rw [drain_control env n hs]
      split
      · exact h
      · simp only [onWrite, hcb, ite_self]
        exact ⟨⟨hc.once, hc.sent⟩, .inr ⟨hbev, hcb⟩⟩
  · rw [drain_ended env d hs]
    exact h

/-- A drain of the control connection, whose end may close the data connection. -/
theorem control_drain (n : Nat) (h : Downloading b v content s s') :
    Downloading b v content s (drain env b (.control n) s') := by
  rcases h with h | h | h
  · have h' : Moving b v content s { s' with ctlOut := s'.ctlOut.drop n } := ⟨h.ended, h.dataBev, h.silent, h.queued⟩
    rw [drain_control env n h.ended]
    split
    · exact .inl h
    · split
      · exact onWrite_moving env h'
      · exact .inl h'
  · have h' : Done b v content s { s' with ctlOut := s'.ctlOut.drop n } :=
      ⟨h.ended, h.dataBev, h.controlWriteCb, h.log, h.sent⟩
    rw [drain_control env n h.ended]
    split
    · exact .inr (.inl h)
    · split
      · exact onWrite_done env h'
      · exact .inr (.inl h')
  · exact .inr (.inr (over_drain env _ h))

/-- A drain of the data connection after the reply has nothing to take. -/
theorem done_drain (n : Nat) (h : Done b v content s s') : drain env b (.data n) s' = s' := by
  obtain ⟨w, hw, hempty, -⟩ := h.sent
  rw [drain_data env n h.ended hw, if_pos (.inr hempty)]

/-- One drain that meets the condition. -/
theorem drain_downloading {path : Bytes} (hfile : ServesFile env s path content) (d : Drain)
    (h : Downloading b v content s s') (hg : DrainsLast b d s') : Downloading b v content s (drain env b d s') := by
  cases d with
  | control n => exact control_drain env n h
  | data n =>
    rcases h with h | h | h
    · exact data_drain env hfile h hg
    · rw [done_drain env n h]
      exact .inr (.inl h)
    · exact .inr (.inr (over_drain env _ h))

/-- The condition is exact for one drain. -/
theorem drain_exact (d : Drain) (h : Downloading b v content s s')
    (hq : DownloadComplete b v content s (drain env b d s')) : DrainsLast b d s' := by
  cases d with
  | control n => trivial
  | data n =>
    rcases h with h | h | h
    · exact data_drain_exact env h hq
    · rintro w hw -
      obtain ⟨w', hw', hempty, -⟩ := h.sent
      rw [hw', Option.mem_some_iff] at hw
      rw [← hw, hempty]
      simp
    · rintro w hw ⟨hs, -⟩
      rw [(h.gone.resolve_left fun hne => hne hs).1] at hw
      cases hw

end Steps

/-- **Downloads.** RETR of a file on an open data connection, followed by any drains of the data and control
connections: in every state of the run the reply 226 has come at most once, and if it has, every byte of the file has
left the connection in order and its close drops nothing, exactly when no drain of a TLS download that has queued all
of the file leaves a rest below the watermark. -/
theorem download_complete_iff (s : Session σ) (b : Nat) (v : Bev) (path content : Bytes) (ds : List Drain)
    (hs : s.ended = none) (hb : s.conn.dataBev = some b) (hv : s.bevs b = some v)
    (hfile : ServesFile env s path content) :
    (∀ pre, pre <+: ds → DownloadComplete b v content s (run (drain env b) pre (cftpSendFile env path s))) ↔
      Guarded (drain env b) (DrainsLast b) ds (cftpSendFile env path s) := by
  refine forall_prefix_iff_guarded (I := Downloading b v content s) (fun s' h => h.complete)
    (fun d s' h hq => drain_exact env d h hq) (fun d s' h hg => drain_downloading env hfile d h hg) ds ?_
  exact .inl (cftpSendFile_moving env hs hb hv hfile)

/-- A session with a TLS data connection, number 3. -/
def tlsSession : Session Unit :=
  aliceSession Env.twoByteFiles [.controlRead (ascii "PROT P\r\n"), .controlRead (ascii "PASV\r\n"),
    .accept 1 9 (.inet 127 0 0 1)]

/-- The new data connection. -/
def tlsBev : Bev := ⟨true, [], [], 0, [], []⟩

theorem tlsSession_servesFile : ServesFile Env.twoByteFiles tlsSession (ascii "x") (ascii "ab") where
  opens := rfl
  fstat _ := ⟨_, rfl, rfl⟩
  segment _ := rfl
  read _ pos bytes h := by
    rw [← Option.some.inj h]
    exact List.take_prefix ..

/-- Both bytes leave at once, then the replies: the promise is kept, also after the close. -/
theorem one_drain_complete :
    let s' :=
      run (drain Env.twoByteFiles 3) [.data 2, .control 1000] (cftpSendFile Env.twoByteFiles (ascii "x") tlsSession)
    transferDone ∈ newEffects tlsSession s' ∧ Effect.bevFree 3 [] ∈ newEffects tlsSession s' ∧
      DownloadComplete 3 tlsBev (ascii "ab") tlsSession s' :=
  ⟨by decide, by decide,
    (download_complete_iff Env.twoByteFiles tlsSession 3 tlsBev (ascii "x") (ascii "ab") [.data 2, .control 1000]
      (by decide) (by decide) (by decide) tlsSession_servesFile).mpr ⟨by decide, by decide, trivial⟩ _
        (List.prefix_refl _)⟩

/-- One byte leaves, and the reply is queued; when that has left, the other byte is dropped. -/
theorem short_drain_loses :
    Effect.bevFree 3 (ascii "b") ∈ newEffects tlsSession
        (run (drain Env.twoByteFiles 3) [.data 1, .control 1000]
          (cftpSendFile Env.twoByteFiles (ascii "x") tlsSession)) ∧
      ¬ DownloadComplete 3 tlsBev (ascii "ab") tlsSession
        (run (drain Env.twoByteFiles 3) [.data 1] (cftpSendFile Env.twoByteFiles (ascii "x") tlsSession)) := by
  refine ⟨by decide, fun h => ?_⟩
  have hbev : (run (drain Env.twoByteFiles 3) [.data 1]
      (cftpSendFile Env.twoByteFiles (ascii "x") tlsSession)).bevs 3 =
        some ⟨true, [], ascii "b", WRITE_LOW, [], ascii "a"⟩ := by decide
  rcases h.sent (by decide) with ⟨w, hw, hempty, -⟩ | ⟨hnone, -⟩
  · rw [hbev, Option.some.injEq] at hw
    rw [← hw] at hempty
    exact absurd hempty (by decide)
  · rw [hbev] at hnone
    cases hnone

end CftpServer.Session
