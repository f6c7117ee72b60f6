import CftpServer.Session.Confinement
import CftpServer.Session.Download
import CftpServer.Session.StoredUpload

/-!
# What was uploaded is downloaded

On a file system with contents RETR sends what is in the file its path leads to, however the reads come out, and a
session changes no contents until the next STOR. So what arrived with a STOR that was answered by 226 is what a later
RETR of the file sends.

* `retr_fetching`, `drain_fetching`: RETR and each drain after it send what is in the file
* `upload_stays`: an upload that is answered by 226 is in the file it names until the next STOR
* `uploaded_is_downloaded`: an upload, any events but STOR, and a download
-/

namespace CftpServer.Session

open CLib Command Runs Growth

/-! ## Downloads that read what a system has -/

section Serving

variable {σ : Type} {env : Env σ} {s s' : Session σ} {b : Nat} {v : Bev} {path content : Bytes} {st : Stat}
  {read : Int → Nat → Nat → Option Bytes}

/-- The same system, but what a download asks of it has these outcomes. -/
def serving (env : Env σ) (st : Stat) (content : Bytes) (read : Int → Nat → Nat → Option Bytes) : Env σ :=
  { env with
    openRead := fun _ _ _ => true
    fstat := fun _ _ => some st
    fileSegment := fun _ _ _ => content
    read := fun _ => read }

theorem serving_servesFile (hsize : st.size = content.length)
    (hread : ∀ pos bytes, read s.nextId pos FILE_CHUNK_SIZE = some bytes → bytes <+: content.drop pos) :
    ServesFile (serving env st content read) s path content where
  opens := rfl
  fstat _ := ⟨st, rfl, hsize⟩
  segment _ := rfl
  read _ := hread

/-- A drain asks for no more than one chunk. -/
theorem drain_serving (d : Drain) (s : Session σ) :
    drain (serving env st content (env.read s.os)) b d s = drain env b d s := by
  cases d with
  | data n => rfl
  | control n => rfl

/-- One drain of a download, where what is read is what the file has next. -/
theorem drain_downloading_of_read (d : Drain)
    (hread : ∀ pos bytes, env.read s'.os s.nextId pos FILE_CHUNK_SIZE = some bytes → bytes <+: content.drop pos)
    (h : Downloading b v content s s') (hg : DrainsLast b d s') : Downloading b v content s (drain env b d s') := by
  have hserves : ServesFile (serving env ⟨.reg, 0, 0, 0, 0, content.length, 0⟩ content (env.read s'.os)) s [] content :=
    serving_servesFile rfl hread
  rw [← drain_serving]
  exact drain_downloading _ hserves d h hg

/-- The system once the file of a download is open, -/
def openedOs (env : Env σ) (path : Bytes) (s : Session σ) : σ :=
  env.after (env.after s.os s.proc (.call (.openRead path))) s.proc (.opened s.nextId)

/-- and once the client has been told. -/
def repliedOs (env : Env σ) (path : Bytes) (s : Session σ) : σ :=
  env.after (openedOs env path s) s.proc (.reply 150 (ascii "Sending file"))

/-- RETR starts the download of what the system says is in the file. -/
theorem cftpSendFile_moving_of (hs : s.ended = none) (hb : s.conn.dataBev = some b) (hv : s.bevs b = some v)
    (hopen : env.openRead s.os s.proc path = true) (hst : env.fstat (openedOs env path s) s.nextId = some st)
    (hsize : st.size = content.length) (hsegment : env.fileSegment (repliedOs env path s) s.nextId st.size = content)
    (hread : ∀ pos bytes, env.read (repliedOs env path s) s.nextId pos FILE_CHUNK_SIZE = some bytes →
      bytes <+: content.drop pos) : Moving b v content s (cftpSendFile env path s) := by
  have heq : cftpSendFile (serving env st content (env.read (repliedOs env path s))) path s =
      cftpSendFile env path s := by
    have hfd : sysOpenRead env path s = (some (s.nextId : Int), (newFd env (call env (.openRead path) s)).2) := by
      simp [sysOpenRead, hopen, newFd, call, emit]
    have hfd' : sysOpenRead (serving env st content (env.read (repliedOs env path s))) path s =
        (some (s.nextId : Int), (newFd env (call env (.openRead path) s)).2) := rfl
    have hst' : env.fstat (newFd env (call env (.openRead path) s)).2.os s.nextId = some st := hst
    unfold cftpSendFile
    split
    · unfold ftpSendFileWithEvbuffer
      simp only [hb, hfd, hfd', hst']
      rfl
    · unfold ftpSendFilePlain
      simp only [hb, hfd, hfd', hst']
      have hsegment' : env.fileSegment (sendControlMessage env 150 (ascii "Sending file")
          (newFd env (call env (.openRead path) s)).2).os s.nextId st.size = content := hsegment
      rw [hsegment']
      rfl
  rw [← heq]
  exact cftpSendFile_moving _ hs hb hv (serving_servesFile hsize hread)

/-- RETR that is answered by 150 has opened its file. -/
theorem retr_accepted (hb : s.conn.dataBev = some b)
    (h : Effect.reply 150 (ascii "Sending file") ∈ newEffects s (cftpSendFile env path s)) :
    env.openRead s.os s.proc path = true ∧ ∃ st, env.fstat (openedOs env path s) s.nextId = some st := by
  cases hopen : env.openRead s.os s.proc path with
  | false =>
    have hfd : sysOpenRead env path s = (none, call env (.openRead path) s) := by simp [sysOpenRead, hopen]
    have hlog : ∃ d, (cftpSendFile env path s).log = s.log ++ d ∧ Effect.reply 150 (ascii "Sending file") ∉ d := by
      unfold cftpSendFile ftpSendFileWithEvbuffer ftpSendFilePlain
      simp only [hb, hfd]
      split
      · exact ⟨[.call (.openRead path)], rfl, by simp⟩
      · refine ⟨[.call (.openRead path), .reply 550 (ascii "Failed to open file")], ?_, by simp⟩
        simp [sendControlMessage, call, emit]
    obtain ⟨d, hd, hno⟩ := hlog
    rw [newEffects_eq hd] at h
    exact absurd h hno
  | true =>
    refine ⟨rfl, Option.ne_none_iff_exists'.mp fun hst => ?_⟩
    have hfd : sysOpenRead env path s = (some (s.nextId : Int), (newFd env (call env (.openRead path) s)).2) := by
      simp [sysOpenRead, hopen, newFd, call, emit]
    have hst' : env.fstat (newFd env (call env (.openRead path) s)).2.os s.nextId = none := hst
    have hfd₀ : ¬ (s.nextId : Int) < 0 := by omega
    have hlog : ∃ d, (cftpSendFile env path s).log = s.log ++ d ∧ Effect.reply 150 (ascii "Sending file") ∉ d := by
      unfold cftpSendFile ftpSendFileWithEvbuffer ftpSendFilePlain
      simp only [hb, hfd, hst']
      split
      · refine ⟨[.call (.openRead path), .opened s.nextId, .closed s.nextId], ?_, by simp⟩
        simp [closeFd, hfd₀, newFd, fresh, call, emit]
      · refine ⟨[.call (.openRead path), .opened s.nextId, .closed s.nextId, .reply 550 (ascii "Failed to open file")],
          ?_, by simp⟩
        simp [sendControlMessage, closeFd, hfd₀, newFd, fresh, call, emit]
    obtain ⟨d, hd, hno⟩ := hlog
    rw [newEffects_eq hd] at h
    exact absurd h hno

/-- What an accepted RETR comes to: it queues something, in the system in which the client has been told. -/
theorem cftpSendFile_queues (hb : s.conn.dataBev = some b) (hopen : env.openRead s.os s.proc path = true)
    (hst : env.fstat (openedOs env path s) s.nextId = some st) : ∃ s₁, s₁.os = repliedOs env path s ∧
      s₁.nextId = s.nextId + 1 ∧ (cftpSendFile env path s = sendNextChunk env b s₁ ∨
        ∃ bytes fds, cftpSendFile env path s = bevWrite env b bytes fds s₁) := by
  have hfd : sysOpenRead env path s = (some (s.nextId : Int), (newFd env (call env (.openRead path) s)).2) := by
    simp [sysOpenRead, hopen, newFd, call, emit]
  have hst' : env.fstat (newFd env (call env (.openRead path) s)).2.os s.nextId = some st := hst
  unfold cftpSendFile
  split
  · unfold ftpSendFileWithEvbuffer
    simp only [hb, hfd, hst']
    exact ⟨_, rfl, rfl, .inl rfl⟩
  · unfold ftpSendFilePlain
    simp only [hb, hfd, hst']
    exact ⟨_, rfl, rfl, .inr ⟨_, _, rfl⟩⟩

end Serving

/-! ## Downloads from a file system with contents -/

section OnStore

variable {env : Env Moment} {s s' : Session System} {b i : Nat} {v : Bev} {path content : Bytes} {chunk : Bytes}

theorem onStore_fstat {w : System} {fd : Int} (hfd : w.handles fd = some (.reading i)) {st : Stat}
    (hst : (onStore env).fstat w fd = some st) : st.size = (w.files.contents i).length := by
  simp only [onStore, hfd, Option.map_eq_some_iff] at hst
  obtain ⟨_, -, rfl⟩ := hst
  rfl

theorem onStore_fileSegment {w : System} {fd : Int} (hfd : w.handles fd = some (.reading i)) (n : Nat) :
    (onStore env).fileSegment w fd n = (w.files.contents i).take n := by
  simp only [onStore, hfd]

/-- What is read from a file of the system is a part of its content. -/
theorem prefix_of_read {w : System} {fd : Int} (h : System.Holds fd (.reading i) i content w) (pos : Nat) (bytes : Bytes)
    (hread : (onStore env).read w fd pos FILE_CHUNK_SIZE = some bytes) : bytes <+: content.drop pos := by
  rcases h.handle with hfd | hfd
  · simp only [onStore, hfd, Option.map_eq_some_iff] at hread
    obtain ⟨_, -, rfl⟩ := hread
    rw [h.contents]
    exact List.take_prefix ..
  · simp only [onStore, hfd] at hread
    cases hread

/-! ### Queueing reads only -/

theorem emit_holds {h : Handle} {fd : Int} {e : Effect} (hw : System.Holds fd h i content s.os) (he : e.KeepsFiles)
    (hfd : e ≠ .opened fd) : System.Holds fd h i content (emit (onStore env) e s).os :=
  hw.after env s.proc he hfd

theorem closeFd_holds {h : Handle} {fd fd' : Int} (hw : System.Holds fd h i content s.os) :
    System.Holds fd h i content (closeFd (onStore env) fd' s).os := by
  unfold closeFd
  split
  · exact hw
  · exact emit_holds (e := .closed fd') hw trivial nofun

theorem bevWrite_holds {h : Handle} {fd : Int} {bytes : Bytes} {fds : List Int}
    (hw : System.Holds fd h i content s.os) :
    System.Holds fd h i content (bevWrite (onStore env) b bytes fds s).os := by
  unfold bevWrite
  split
  · exact hw
  · rename_i v _
    exact emit_holds (e := .bevWrite b v.tls bytes) (s := { s with bevs := _ }) hw trivial nofun

theorem sendNextChunk_holds {h : Handle} {fd : Int} (hw : System.Holds fd h i content s.os) :
    System.Holds fd h i content (sendNextChunk (onStore env) b s).os := by
  unfold sendNextChunk
  split
  · exact hw
  · rename_i fs _
    have hcb : System.Holds fd h i content (if atEnd fs (readStream (onStore env) fs s) then
        { s with conn := { s.conn with dataWriteCb := some .closeOnRetrcb } } else s).os := by
      split
      · exact hw
      · exact hw
    dsimp only
    split
    · exact closeFd_holds hcb
    · exact closeFd_holds hcb
    · exact bevWrite_holds hcb

/-! ### RETR, and the drains after it -/

/-- The download of the content of the file `i`, which nobody changes. -/
structure Fetching (b : Nat) (v : Bev) (content : Bytes) (i : Nat) (s s' : Session System) : Prop where
  downloading : Downloading b v content s s'
  unwritten : Unwritten s s'
  holds : System.Holds s.nextId (.reading i) i content s'.os
  opened : s.nextId < s'.nextId

/-- **One drain.** -/
theorem drain_fetching (d : Drain) (h : Fetching b v content i s s') (hg : DrainsLast b d s') :
    Fetching b v content i s (drain (onStore env) b d s') := by
  have hno : NoStor (d.event b) s' := fun chunk he => (by cases d <;> cases he)
  refine ⟨drain_downloading_of_read d (prefix_of_read h.holds) h.downloading hg, step_unwritten _ _ h.unwritten hno,
    step_holds _ (step_keepsFiles _ _ h.unwritten hno) (Int.ofNat_lt.mpr h.opened) h.holds,
    h.opened.trans_le (step_nextId_le _ _ _)⟩

/-- The system in which a download reads what it has opened. -/
theorem repliedOs_handles (hopen : (onStore env).openRead s.os s.proc path = true)
    (hfile : s.os.fileNumber s.proc path = some i) :
    (openedOs (onStore env) path s).handles s.nextId = some (.reading i) ∧
      (repliedOs (onStore env) path s).handles s.nextId = some (.reading i) ∧
      (openedOs (onStore env) path s).files = s.os.files ∧ (repliedOs (onStore env) path s).files = s.os.files := by
  obtain ⟨hpermits, -⟩ := Bool.and_eq_true_iff.mp hopen
  obtain ⟨l, hl, hi⟩ := Option.map_eq_some_iff.mp hfile
  have hafter : System.after env s.os s.proc (.call (.openRead path)) =
      { s.os with opening := some (.reading i), ticks := s.os.ticks + 1 } := by
    simp only [System.after, permits, hpermits, if_true, System.call, System.upshot, System.reads, hl, hi,
      Option.map_some, Option.some_or, System.changed, Option.elim_none]
  have hopened : openedOs (onStore env) path s = System.after env
      { s.os with opening := some (.reading i), ticks := s.os.ticks + 1 } s.proc (.opened s.nextId) :=
    congrArg (fun w => System.after env w s.proc (.opened s.nextId)) hafter
  have hhandle : (openedOs (onStore env) path s).handles s.nextId = some (.reading i) := by
    rw [hopened]
    exact Function.update_self ..
  have hfiles : (openedOs (onStore env) path s).files = s.os.files := by
    rw [hopened]
    rfl
  exact ⟨hhandle, hhandle, hfiles, hfiles⟩

/-- RETR that is answered by 150, of a path that leads to a file. -/
theorem retr_fetching (hs : s.ended = none) (hb : s.conn.dataBev = some b) (hv : s.bevs b = some v)
    (hidle : Unwritten s s) (hfile : s.os.fileNumber s.proc path = some i) (hcontents : s.os.files.contents i = content)
    (hok : Effect.reply 150 (ascii "Sending file") ∈ newEffects s (cftpSendFile (onStore env) path s)) :
    Fetching b v content i s (cftpSendFile (onStore env) path s) := by
  obtain ⟨hopen, st, hst⟩ := retr_accepted hb hok
  obtain ⟨hopened, hreplied, hfiles, hfiles'⟩ := repliedOs_handles hopen hfile
  have hw : System.Holds s.nextId (.reading i) i content (repliedOs (onStore env) path s) :=
    ⟨by rw [hfiles', hcontents], .inl hreplied⟩
  have hsize : st.size = content.length := by rw [onStore_fstat hopened hst, hfiles, hcontents]
  have hsegment : (onStore env).fileSegment (repliedOs (onStore env) path s) s.nextId st.size = content := by
    rw [onStore_fileSegment hreplied, hfiles', hcontents, hsize, List.take_length]
  obtain ⟨s₁, hos, hid, hqueues⟩ := cftpSendFile_queues hb hopen hst
  rw [← hos] at hw
  refine ⟨.inl (cftpSendFile_moving_of hs hb hv hopen hst hsize hsegment (prefix_of_read (by rw [← hos]; exact hw))),
    hidle.cftpSendFile, ?_, ?_⟩
  · rcases hqueues with heq | ⟨bytes, fds, heq⟩
    · rw [heq]
      exact sendNextChunk_holds hw
    · rw [heq]
      exact bevWrite_holds hw
  · have hlt : s.nextId < s₁.nextId := hid ▸ Nat.lt_succ_self _
    rcases hqueues with heq | ⟨bytes, fds, heq⟩
    · rw [heq]
      exact hlt.trans_le (Moves.refl (C := fun _ => True)).sendNextChunk.nextId_le
    · rw [heq]
      exact hlt.trans_le (Moves.refl (C := fun _ => True)).bevWrite.nextId_le

end OnStore

/-! ## After an upload -/

section Stored

variable {env : Env Moment} {s s' : Session System} {b i : Nat} {c : Bytes}

/-- Without STOR the contents stay. -/
theorem run_contents (es : List Event) (hidle : s.ended = none → Unwritten s s) (hc : s.os.files.contents i = c)
    (hno : Guarded (step (onStore env)) NoStor es s) : (run (step (onStore env)) es s).os.files.contents i = c ∧
      ((run (step (onStore env)) es s).ended = none →
        Unwritten (run (step (onStore env)) es s) (run (step (onStore env)) es s)) := by
  refine run_inv_of_guarded (P := fun s' => s'.os.files.contents i = c ∧ (s'.ended = none → Unwritten s' s'))
    (fun e s' hg ⟨hc, hidle⟩ => ?_) es hno ⟨hc, hidle⟩
  by_cases hs : s'.ended = none
  · have hkeeps : (step (onStore env) e s').os.files.contents i = c := by
      refine step_os (G := fun w => w.files.contents i = c) (H := Effect.KeepsFiles) e s' (fun w p e hw he _ => ?_)
        (step_keepsFiles _ e (hidle hs) hg) hc
      exact (congrFun (System.after_contents env w p he) i).trans hw
    exact ⟨hkeeps, fun _ => (step_unwritten _ e (hidle hs) hg).here⟩
  · rw [step_ended hs]
    exact ⟨hc, hidle⟩

/-- The data connection has ended, and nothing is to be written. -/
theorem eof_unwritten {v : Bev} {connected timeout error : Bool} (hv : s.bevs b = some v)
    (hs' : (step (onStore env) (.dataEvent b connected timeout error true) s).ended = none) :
    Unwritten (step (onStore env) (.dataEvent b connected timeout error true) s)
      (step (onStore env) (.dataEvent b connected timeout error true) s) := by
  have hs : s.ended = none := step_running hs'
  rw [step_handle hs] at hs' ⊢
  simp only [handle, hv] at hs' ⊢
  have hclosing : (true || error || timeout) = true := rfl
  rcases dataConnectionEventCb_closing (onStore env) s (connected && v.tls) hclosing with hended | hsettled
  · exact absurd hs' hended
  · refine ⟨hsettled.none.read, hsettled.none.eof, ?_, .refl⟩
    rw [hsettled.none.connected]
    exact (Option.some_ne_none _).symm

variable (env) in
/-- A run up to the end of the data connection `b`. -/
def afterUpload (addr : SockAddr) (proc : Proc) (os : System) (es : List Event) (b : Nat)
    (connected timeout error : Bool) : Session System :=
  step (onStore env) (.dataEvent b connected timeout error true) (reached (onStore env) addr proc os es)

/-- An upload that is answered by 226 is in the file that STOR named. -/
theorem afterUpload_contents {addr : SockAddr} {proc : Proc} {os : System} {es : List Event}
    {connected timeout error : Bool}
    (hg : Guarded (step (onStore env)) (fun e s => AcceptsOne e s ∧ OneStor b e s) es
      (start (onStore env) addr proc os))
    (h226 : uploadComplete ∈ newEffects (reached (onStore env) addr proc os es)
      (afterUpload env addr proc os es b connected timeout error)) :
    ∃ i, latest (step (onStore env)) (storFile env) es (start (onStore env) addr proc os) none = some i ∧
      (afterUpload env addr proc os es b connected timeout error).os.files.contents i =
        collected (step (onStore env)) (arrived b) es (start (onStore env) addr proc os) ∧
      ((afterUpload env addr proc os es b connected timeout error).ended = none →
        Unwritten (afterUpload env addr proc os es b connected timeout error)
          (afterUpload env addr proc os es b connected timeout error)) := by
  have hrun := run_inv_recorded (f := arrived b) (g := storFile env)
    (P := fun s sent file => Single s ∧ Idle s ∧ UploadOk b sent s ∧ Filed b sent file s)
    (fun e s sent file hg h => ⟨step_single _ e h.1 hg.1, step_idle _ e h.1 h.2.1 hg.1,
      step_uploadOk _ e h.1 h.2.1 h.2.2.1 hg.1 hg.2, step_filed e h.1 h.2.1 h.2.2.1 h.2.2.2 hg.1 hg.2⟩)
    es (s := start (onStore env) addr proc os) (l := none) hg
    ⟨start_single _ addr proc os, fun _ => ⟨rfl, rfl, rfl, rfl⟩, ⟨fun _ => rfl, fun _ hd => (by cases hd)⟩,
      fun _ hd => (by cases hd)⟩
  rw [List.nil_append] at hrun
  obtain ⟨hsingle, -, hok, hfiled⟩ := hrun
  have hs : (reached (onStore env) addr proc os es).ended = none := by
    by_contra hs
    rw [afterUpload, step_ended hs, newEffects_self] at h226
    cases h226
  cases hv : (reached (onStore env) addr proc os es).bevs b with
  | none =>
    rw [afterUpload, step_handle hs] at h226
    simp only [handle, hv, newEffects_self] at h226
    cases h226
  | some v =>
    have hd := hsingle.only b v hv
    obtain ⟨i, hi, hcontents⟩ := eof_onDisk hs hv hd (hok.holds hs hd) hfiled h226
    exact ⟨i, hi, hcontents, eof_unwritten hv⟩

end Stored

/-! ## Up and down again -/

/-- **An acknowledged upload stays.** In every run with one data connection at a time and a data connection `b` that is
used for one STOR: when the end of that connection is answered by 226, the file that the path of the STOR led to has
the bytes that arrived on `b`, and it has them after whatever comes then, until the next STOR. -/
theorem upload_stays (env : Env Moment) (addr : SockAddr) (proc : Proc) (os : System) (es : List Event) (b : Nat)
    (hg : Guarded (step (onStore env)) (fun e s => AcceptsOne e s ∧ OneStor b e s) es
      (start (onStore env) addr proc os))
    (connected timeout error : Bool)
    (h226 : uploadComplete ∈ newEffects (reached (onStore env) addr proc os es)
      (afterUpload env addr proc os es b connected timeout error))
    (later : List Event)
    (hno : Guarded (step (onStore env)) NoStor later (afterUpload env addr proc os es b connected timeout error)) :
    ∃ i, latest (step (onStore env)) (storFile env) es (start (onStore env) addr proc os) none = some i ∧
      (run (step (onStore env)) later
          (afterUpload env addr proc os es b connected timeout error)).os.files.contents i =
        collected (step (onStore env)) (arrived b) es (start (onStore env) addr proc os) := by
  obtain ⟨i, hi, hcontents, hidle⟩ := afterUpload_contents hg h226
  exact ⟨i, hi, (run_contents later hidle hcontents hno).1⟩

/-- alice logs in, and stores two bytes that come before the STOR and two after it. -/
def uploadEvents : List Event :=
  [.controlRead (ascii "USER alice\r\n"), .controlRead (ascii "PASS x\r\n"), .controlRead (ascii "PASV\r\n"),
    .accept 1 9 (.inet 127 0 0 1), .dataRead 3 (ascii "ab"), .controlRead (ascii "STOR f\r\n"),
    .dataRead 3 (ascii "cd")]

/-- Then she opens another data connection. -/
def againEvents : List Event := [.controlRead (ascii "PASV\r\n"), .accept 5 9 (.inet 127 0 0 1)]

def mansionUploaded : Session System :=
  afterUpload mansionEnv (.inet 127 0 0 1) ⟨ascii "/", ascii "/", 0, 0, []⟩ (mansion (ascii "root")) uploadEvents 3
    false false false

theorem uploadEvents_guarded : Guarded (step (onStore mansionEnv)) (fun e s => AcceptsOne e s ∧ OneStor 3 e s)
    uploadEvents (start (onStore mansionEnv) (.inet 127 0 0 1) ⟨ascii "/", ascii "/", 0, 0, []⟩
      (mansion (ascii "root"))) := by
  have hcmd : ∀ {chunk : Bytes} {s : Session System} (a : Action), handlerOf s chunk = some a →
      s.conn.dataBev ≠ some 3 ∨ (a = .stor ∧ s.conn.dataEofEventCb = none) →
      AcceptsOne (.controlRead chunk) s ∧ OneStor 3 (.controlRead chunk) s := by
    intro chunk s a ha h
    refine ⟨fun _ _ _ he => (by cases he), fun chunk' a' he ha' _ hd => ?_⟩
    cases he
    rw [ha, Option.some.injEq] at ha'
    rcases h with h | h
    · exact absurd hd h
    · exact ha' ▸ h
  have hread :
      ∀ {bytes : Bytes} {s : Session System}, AcceptsOne (.dataRead 3 bytes) s ∧ OneStor 3 (.dataRead 3 bytes) s :=
    ⟨fun _ _ _ he => (by cases he), fun _ _ he => (by cases he)⟩
  exact ⟨hcmd .user (by decide +kernel) (.inl (by decide +kernel)),
    hcmd .pass (by decide +kernel) (.inl (by decide +kernel)),
    hcmd .pasv (by decide +kernel) (.inl (by decide +kernel)),
    ⟨fun _ _ _ _ _ _ _ => by decide +kernel, fun _ _ he => (by cases he)⟩, hread,
    hcmd .stor (by decide +kernel) (.inr (by decide +kernel)), hread, trivial⟩

theorem againEvents_noStor : Guarded (step (onStore mansionEnv)) NoStor againEvents mansionUploaded := by
  have hpasv : handlerOf mansionUploaded (ascii "PASV\r\n") ≠ some .stor := by decide +kernel
  refine ⟨fun chunk he => ?_, fun chunk he => (by cases he), trivial⟩
  cases he
  exact hpasv

/-- The new file has the four bytes. -/
theorem mansion_stays : (run (step (onStore mansionEnv)) againEvents mansionUploaded).os.files.contents 1 =
    ascii "abcd" := by
  obtain ⟨i, hi, hcontents⟩ := upload_stays mansionEnv (.inet 127 0 0 1) ⟨ascii "/", ascii "/", 0, 0, []⟩
    (mansion (ascii "root")) uploadEvents 3 uploadEvents_guarded false false false (by decide +kernel) againEvents
    againEvents_noStor
  have hone : latest (step (onStore mansionEnv)) (storFile mansionEnv) uploadEvents
      (start (onStore mansionEnv) (.inet 127 0 0 1) ⟨ascii "/", ascii "/", 0, 0, []⟩ (mansion (ascii "root"))) none =
      some 1 := by decide +kernel
  have hsent : collected (step (onStore mansionEnv)) (arrived 3) uploadEvents
      (start (onStore mansionEnv) (.inet 127 0 0 1) ⟨ascii "/", ascii "/", 0, 0, []⟩ (mansion (ascii "root"))) =
      ascii "abcd" := by decide +kernel
  rw [hone, Option.some.injEq] at hi
  rw [← hi, hsent] at hcontents
  rw [mansionUploaded]
  exact hcontents

/-- **What was uploaded is downloaded.** After such an upload, and any events without another STOR, RETR of a path that
leads to the file, accepted on a data connection `b'`, and any drains: in every state the reply 226 has come at most
once, and if it has, what arrived with the upload has left `b'` in order and its close drops nothing, exactly when no
drain of a TLS download that has queued all of the file leaves a rest below the watermark. -/
theorem uploaded_is_downloaded (env : Env Moment) (addr : SockAddr) (proc : Proc) (os : System) (es : List Event)
    (b : Nat) (hg : Guarded (step (onStore env)) (fun e s => AcceptsOne e s ∧ OneStor b e s) es
      (start (onStore env) addr proc os))
    (connected timeout error : Bool)
    (h226 : uploadComplete ∈ newEffects (reached (onStore env) addr proc os es)
      (afterUpload env addr proc os es b connected timeout error))
    (later : List Event)
    (hno : Guarded (step (onStore env)) NoStor later (afterUpload env addr proc os es b connected timeout error))
    (s : Session System)
    (hs : s = run (step (onStore env)) later (afterUpload env addr proc os es b connected timeout error))
    (chunk path : Bytes) (hretr : handlerOf s chunk = some .retr) (hargs : (commandOf s chunk).args = [path])
    (hfile : s.os.fileNumber s.proc path =
      latest (step (onStore env)) (storFile env) es (start (onStore env) addr proc os) none)
    (b' : Nat) (v' : Bev) (hb' : s.conn.dataBev = some b') (hv' : s.bevs b' = some v')
    (h150 : Effect.reply 150 (ascii "Sending file") ∈ newEffects s (step (onStore env) (.controlRead chunk) s))
    (ds : List Drain) :
    (∀ pre, pre <+: ds → DownloadComplete b' v'
        (collected (step (onStore env)) (arrived b) es (start (onStore env) addr proc os)) s
        (run (drain (onStore env) b') pre (step (onStore env) (.controlRead chunk) s))) ↔
      Guarded (drain (onStore env) b') (DrainsLast b') ds (step (onStore env) (.controlRead chunk) s) := by
  obtain ⟨i, hi, hcontents, hidle⟩ := afterUpload_contents hg h226
  obtain ⟨hcontents, hidle⟩ := run_contents later hidle hcontents hno
  rw [← hs] at hcontents hidle
  rw [hi] at hfile
  have hended : s.ended = none := by
    by_contra hended
    rw [step_ended hended, newEffects_self] at h150
    cases h150
  have hne : chunk ≠ [] := by
    rintro rfl
    rw [step_handle hended, handle, if_pos rfl, newEffects_self] at h150
    cases h150
  have hstep : step (onStore env) (.controlRead chunk) s = cftpSendFile (onStore env) path (received s chunk) := by
    rw [step_command hended hne hretr, runAction, cftpRetrAuthenticatedAction, withArg, hargs]
  rw [hstep] at h150 ⊢
  have hidle' : Unwritten s (received s chunk) := (hidle hended).of_eq rfl rfl rfl rfl
  have hfetching := retr_fetching (s := received s chunk) hended hb' hv' hidle'.here hfile hcontents h150
  refine forall_prefix_iff_guarded (G := DrainsLast b')
    (Q := DownloadComplete b' v' _ s) (I := Fetching b' v' _ i (received s chunk)) (fun s' h => ?_) (fun d s' h hq => ?_)
    (fun d s' h hg => drain_fetching d h hg) ds hfetching
  · have hc := h.downloading.complete
    exact ⟨hc.once, hc.sent⟩
  · exact drain_exact (onStore env) d h.downloading ⟨hq.once, hq.sent⟩

/-- She reads her file again, and it leaves in two parts. -/
theorem mansion_downloaded : DownloadComplete 7 ⟨false, [], [], 0, [], []⟩ (ascii "abcd")
    (run (step (onStore mansionEnv)) againEvents mansionUploaded)
    (run (drain (onStore mansionEnv) 7) [.data 1, .data 3] (step (onStore mansionEnv) (.controlRead (ascii "RETR f\r\n"))
      (run (step (onStore mansionEnv)) againEvents mansionUploaded))) := by
  have hsent : collected (step (onStore mansionEnv)) (arrived 3) uploadEvents
      (start (onStore mansionEnv) (.inet 127 0 0 1) ⟨ascii "/", ascii "/", 0, 0, []⟩ (mansion (ascii "root"))) =
      ascii "abcd" := by decide +kernel
  have h := uploaded_is_downloaded mansionEnv (.inet 127 0 0 1) ⟨ascii "/", ascii "/", 0, 0, []⟩
    (mansion (ascii "root")) uploadEvents 3 uploadEvents_guarded false false false (by decide +kernel) againEvents
    againEvents_noStor (run (step (onStore mansionEnv)) againEvents mansionUploaded) rfl (ascii "RETR f\r\n") (ascii "f")
    (by decide +kernel) (by decide +kernel) (by decide +kernel) 7 ⟨false, [], [], 0, [], []⟩ (by decide +kernel)
    (by decide +kernel) (by decide +kernel) [.data 1, .data 3]
  rw [hsent] at h
  exact h.mpr ⟨by decide +kernel, by decide +kernel, trivial⟩ _ (List.prefix_refl _)

end CftpServer.Session
