import CftpServer.Session.DataConnection
import CftpServer.Session.Idle

/-!
# The descriptors of transfers

A descriptor that a transfer has opened is in the stream of a download, in `upload_fd` or in the output of a
bufferevent until it is closed. `handle_list_command` keeps the directory it opens nowhere, and
`close_data_connection` closes only what its bufferevent owns.

* `step_balanced`: an event that meets `Releases` loses no descriptor
* `descriptors_released`: so none is open without a data connection
-/

namespace CftpServer.Session

open CLib Command Security Runs

variable {σ : Type} (env : Env σ)

/-! ## What refers to a descriptor -/

/-- A descriptor is in the stream of a download, in `upload_fd`, or in the output of a bufferevent. -/
inductive Refers (s : Session σ) (fd : Int) : Prop where
  | stream {fs : FileStream} (hfs : s.conn.dataStream = some fs) (hfd : fs.fd = fd)
  | upload (hcb : s.conn.dataEofEventCb ≠ none) (hfd : s.conn.uploadFd = fd)
  | output {b : Nat} {v : Bev} (hv : s.bevs b = some v) (hfd : fd ∈ v.files)

/-- A download in chunks has its file open. -/
def Streaming (s : Session σ) : Prop := ∃ fs, s.conn.dataStream = some fs ∧ 0 ≤ fs.fd

/-- An upload has its file open. -/
def Uploading (s : Session σ) : Prop := s.conn.dataEofEventCb ≠ none ∧ 0 ≤ s.conn.uploadFd

/-- A bufferevent that is not the one of the connection has a file in its output. -/
def Orphaned (s : Session σ) : Prop := ∃ b v fd, s.bevs b = some v ∧ s.conn.dataBev ≠ some b ∧ fd ∈ v.files

/-- Every descriptor is in the output of the bufferevent of the connection. -/
def OnlyOutput (s : Session σ) : Prop := ¬ Streaming s ∧ ¬ Uploading s ∧ ¬ Orphaned s

/-- The fields that refer to descriptors, and which bufferevent is the one of the connection. -/
structure References where
  dataStream : Option FileStream
  dataEofEventCb : Option DataEofCb
  uploadFd : Int
  dataBev : Option Nat
  files : Nat → Option (List Int)

def references (s : Session σ) : References :=
  ⟨s.conn.dataStream, s.conn.dataEofEventCb, s.conn.uploadFd, s.conn.dataBev, fun b => (s.bevs b).map Bev.files⟩

/-! ## The condition -/

/-- A LIST or NLST that is answered 150. -/
def ListAccepted (cmd : CftpCommand) (s : Session σ) : Prop :=
  ∃ flags, parseListFlags cmd.args ⟨false, false, false, none⟩ = some flags ∧ s.conn.dataBev ≠ none ∧
    isPathSafe (listPath flags) = true ∧ env.opendir s.os s.proc (listPath flags) ≠ none

/-- A RETR with TLS that is answered 150. -/
def RetrStreams (cmd : CftpCommand) (s : Session σ) : Prop :=
  ∃ path, cmd.args = [path] ∧ s.conn.dataBev ≠ none ∧ s.conn.dataTlsRequired = true ∧
    env.openRead s.os s.proc path = true ∧ env.fstat (sysOpenRead env path s).2.os s.nextId ≠ none

/-- A STOR that is answered 150. -/
def StorAccepted (cmd : CftpCommand) (s : Session σ) : Prop :=
  ∃ path, cmd.args = [path] ∧ s.conn.dataBev ≠ none ∧ env.openWrite s.os s.proc path = true

/-- The handshake runs the callback that closes. -/
def ClosesConnected (v : Bev) (connected : Bool) (s : Session σ) : Prop :=
  (connected && v.tls) = true ∧ s.conn.dataTlsRequired = true ∧
    s.conn.dataTlsEventConnectedCb = some .closeDataConnectionOnWritecb

/-- What a command may not do: list, begin a transfer over one that has its file open, or abort such a one. -/
def CommandReleases (a : Action) (cmd : CftpCommand) (s : Session σ) : Prop :=
  match a with
  | .list | .nlst => ¬ ListAccepted env cmd s
  | .retr => RetrStreams env cmd s → ¬ Streaming s
  | .stor => StorAccepted env cmd s → ¬ Uploading s
  | .abor => s.conn.dataActive ≠ 0 → OnlyOutput s
  | _ => True

/-- No LIST is accepted, no transfer begins over one of its kind that has its file open, and the data connection goes
only when it has all descriptors, or with the EOF that ends the upload. -/
def Releases (e : Event) (s : Session σ) : Prop :=
  s.ended = none →
  match e with
  | .controlRead chunk =>
    chunk ≠ [] → ∀ a, handlerOf s chunk = some a → CommandReleases env a (commandOf s chunk) (received s chunk)
  | .controlWrite n =>
    n ≠ 0 → s.ctlOut ≠ [] → s.ctlOut.drop n = [] → s.conn.controlWriteCb = some .closeDataConnectionOnWritecb →
      OnlyOutput s
  | .accept listener _ addr =>
    s.listeners listener = true → samePeer s.conn.sourceIp addr = true →
      env.bufferevent (env.after s.os s.proc (.listenerFree listener)) = false → ∀ fd, 0 ≤ fd → ¬ Refers s fd
  | .dataEvent b connected timeout error eof =>
    ∀ v, s.bevs b = some v → (ClosesConnected v connected s → OnlyOutput s) ∧
      ((eof || error || timeout) = true → ¬ Streaming s ∧ (Uploading s → eof = true) ∧ ¬ Orphaned s)
  | _ => True

/-! ## Every descriptor is accounted for -/

/-- A descriptor that was opened is closed, or something refers to it, or a function that runs has it in `held`. -/
structure Accounts (held : List Int) (s : Session σ) : Prop where
  opened : ∀ fd, Effect.opened fd ∈ s.log → 0 ≤ fd ∧ (Effect.closed fd ∈ s.log ∨ Refers s fd ∨ fd ∈ held)
  idle : s.conn.dataBev = none → ∀ fd, 0 ≤ fd → ¬ Refers s fd
  old : ∀ b, s.nextId ≤ b → s.bevs b = none

/-- The same, while the session runs. -/
def Balanced (held : List Int) (s : Session σ) : Prop := s.ended = none → Accounts held s

section Rules

variable {env} {s s' : Session σ} {held held' : List Int} {fd : Int}

theorem references_of_transfer (ht : s'.transfer = s.transfer) : s'.references = s.references :=
  congrArg (fun t : Transfer => References.mk t.dataStream t.dataEofEventCb t.uploadFd t.dataBev
    fun b => (t.bevs b).map Bev.files) ht

/-- A bufferevent owns a descriptor. -/
theorem owns_iff {b : Nat} : (∃ v, s.bevs b = some v ∧ fd ∈ v.files) ↔ ∃ l, s.references.files b = some l ∧ fd ∈ l := by
  simp [references]

theorem Refers.of_references (h : Refers s fd) (heq : s'.references = s.references) : Refers s' fd := by
  cases h with
  | stream hfs hfd => exact .stream ((congrArg References.dataStream heq).trans hfs) hfd
  | upload hcb hfd =>
    have hcb' : s'.conn.dataEofEventCb = s.conn.dataEofEventCb := congrArg References.dataEofEventCb heq
    exact .upload (hcb' ▸ hcb) ((congrArg References.uploadFd heq).trans hfd)
  | output hv hfd =>
    obtain ⟨w, hw, hfd⟩ := owns_iff.mpr (heq ▸ owns_iff.mp ⟨_, hv, hfd⟩)
    exact .output hw hfd

theorem Uploading.of_references (h : Uploading s) (heq : s'.references = s.references) : Uploading s' := by
  have hcb : s'.conn.dataEofEventCb = s.conn.dataEofEventCb := congrArg References.dataEofEventCb heq
  have hfd : s'.conn.uploadFd = s.conn.uploadFd := congrArg References.uploadFd heq
  exact ⟨hcb ▸ h.1, hfd ▸ h.2⟩

theorem OnlyOutput.of_references (h : OnlyOutput s) (heq : s'.references = s.references) : OnlyOutput s' := by
  have hdata : s'.conn.dataBev = s.conn.dataBev := congrArg References.dataBev heq
  obtain ⟨hstream, hup, horphan⟩ := h
  refine ⟨fun ⟨fs, hfs, hpos⟩ => ?_, fun hup' => hup (hup'.of_references heq.symm), fun ⟨b, v, fd, hv, hne, hfd⟩ => ?_⟩
  · exact hstream ⟨fs, (congrArg References.dataStream heq).symm.trans hfs, hpos⟩
  · obtain ⟨w, hw, hfd⟩ := owns_iff.mpr (heq ▸ owns_iff.mp ⟨v, hv, hfd⟩)
    exact horphan ⟨b, w, fd, hw, hdata ▸ hne, hfd⟩

/-- What was opened before is still accounted for, and so is what was opened since. -/
theorem Accounts.extend (h : Accounts held s) {d : List Effect} (hlog : s'.log = s.log ++ d)
    (hnew : ∀ fd, Effect.opened fd ∈ d → 0 ≤ fd ∧ (Effect.closed fd ∈ s'.log ∨ Refers s' fd ∨ fd ∈ held'))
    (hkeep : ∀ fd, 0 ≤ fd → Refers s fd ∨ fd ∈ held → Effect.closed fd ∈ s'.log ∨ Refers s' fd ∨ fd ∈ held')
    (hidle : s'.conn.dataBev = none → ∀ fd, 0 ≤ fd → ¬ Refers s' fd) (hold : ∀ b, s'.nextId ≤ b → s'.bevs b = none) :
    Accounts held' s' := by
  refine ⟨fun fd hfd => ?_, hidle, hold⟩
  rw [hlog, List.mem_append] at hfd
  rcases hfd with hfd | hfd
  · obtain ⟨hpos, hclosed | hrest⟩ := h.opened fd hfd
    · exact ⟨hpos, .inl (hlog ▸ List.mem_append_left d hclosed)⟩
    · exact ⟨hpos, hkeep fd hpos hrest⟩
  · exact hnew fd hfd

/-- Nothing is opened, and everything is referred to as before. -/
theorem Balanced.same (h : Balanced held s) {d : List Effect} (hlog : s'.log = s.log ++ d)
    (hd : ∀ e ∈ d, ¬ e.OnDescriptor) (heq : s'.references = s.references) (hid : s.nextId ≤ s'.nextId)
    (hended : s'.ended = none → s.ended = none) : Balanced held s' := by
  intro hs
  have h := h (hended hs)
  refine h.extend hlog (fun fd hfd => absurd trivial (hd _ hfd))
    (fun fd _ hrest => .inr (hrest.imp_left fun hr => hr.of_references heq)) (fun hnone fd hpos hr => ?_) fun b hb => ?_
  · exact h.idle ((congrArg References.dataBev heq).symm.trans hnone) fd hpos (hr.of_references heq.symm)
  · have hfiles : (s'.bevs b).map Bev.files = (s.bevs b).map Bev.files := congrFun (congrArg References.files heq) b
    rw [h.old b (hid.trans hb), Option.map_none, Option.map_eq_none_iff] at hfiles
    exact hfiles

/-- Commands that leave the transfers alone leave the balance. -/
theorem Balanced.rule (env : Env σ) (held : List Int) : AsideRule env fun s : Session σ => Balanced held s where
  did _ hfd h := h.same rfl (List.forall_mem_singleton.mpr hfd) rfl le_rfl id
  keep h ht hlog hid hs :=
    h.same (d := []) (by rw [hlog, List.append_nil]) (List.forall_mem_nil _) (references_of_transfer ht) hid hs

theorem Balanced.of_ended (h : s.ended ≠ none) : Balanced held s := fun hs => absurd hs h

theorem Balanced.crash : Balanced held s.crash := .of_ended (Option.some_ne_none _)

/-- A descriptor is opened, and the function that runs has it. -/
theorem Balanced.newFd (h : Balanced held s) : Balanced ((s.newFd env).1 :: held) (s.newFd env).2 := by
  intro hs
  refine (h hs).extend rfl (fun fd hfd => ?_) (fun fd _ hrest => ?_) (fun hnone fd hpos hr => ?_)
    fun b hb => (h hs).old b ?_
  · cases List.mem_singleton.mp hfd
    exact ⟨Int.natCast_nonneg _, .inr (.inr List.mem_cons_self)⟩
  · exact .inr (hrest.imp (fun hr => hr.of_references rfl) (List.mem_cons_of_mem _))
  · exact (h hs).idle hnone fd hpos (hr.of_references rfl)
  · exact (Nat.le_succ _).trans hb

/-- A descriptor is closed, and nothing has to refer to it any more. -/
theorem Accounts.close (h : Accounts held s) (hlog : s'.log = (closeFd env fd s).log)
    (hheld : ∀ fd' ∈ held, fd' = fd ∨ fd' ∈ held') (href : ∀ fd', Refers s fd' → fd' = fd ∨ Refers s' fd')
    (hidle : s'.conn.dataBev = none → ∀ fd, 0 ≤ fd → ¬ Refers s' fd) (hold : ∀ b, s'.nextId ≤ b → s'.bevs b = none) :
    Accounts held' s' := by
  have hrest : ∀ fd', Refers s fd' ∨ fd' ∈ held → fd' = fd ∨ Refers s' fd' ∨ fd' ∈ held' := by
    rintro fd' (hr | hr)
    · exact (href fd' hr).imp_right .inl
    · exact (hheld fd' hr).imp_right .inr
  unfold closeFd at hlog
  split at hlog
  · rename_i hneg
    refine h.extend (d := []) (by rw [hlog, List.append_nil]) (fun _ hfd => (by cases hfd)) (fun fd' hpos hr => ?_)
      hidle hold
    exact .inr ((hrest fd' hr).resolve_left (by omega))
  · refine h.extend hlog (fun fd' hfd => (by simp at hfd)) (fun fd' _ hr => ?_) hidle hold
    rcases hrest fd' hr with rfl | hr
    · exact .inl (hlog ▸ List.mem_append_right _ List.mem_cons_self)
    · exact .inr hr

variable (env) in
/-- `close` only leaves its effect. -/
theorem closeFd_eq (fd : Int) (s : Session σ) : ∃ log os, (closeFd env fd s).log = log ∧
    closeFd env fd s = { s with log := log, os := os } := by
  refine ⟨_, (closeFd env fd s).os, rfl, ?_⟩
  unfold closeFd
  split <;> rfl

theorem Balanced.closeFd (h : Balanced (fd :: held) s) : Balanced held (s.closeFd env fd) := by
  obtain ⟨log, os, hlog, heq⟩ := closeFd_eq env fd s
  rw [heq]
  intro hs
  have h := h hs
  exact h.close hlog.symm (fun fd' hfd' => List.mem_cons.mp hfd') (fun fd' hr => .inr (hr.of_references rfl))
    (fun hnone fd' hpos hr => h.idle hnone fd' hpos (hr.of_references rfl)) h.old

/-! ### Directories -/

theorem Balanced.sysOpendir (h : Balanced held s) {path : Bytes} :
    Balanced (((s.sysOpendir env path).1.map Prod.fst).toList ++ held) (s.sysOpendir env path).2 := by
  have h₁ : Balanced held (s.call env (.opendir path)) := (Balanced.rule env held).did (e := .call _) trivial id h
  unfold Session.sysOpendir
  split
  · exact h₁.newFd
  · exact h₁

/-- **Recursive deletion** closes every directory it opens. -/
theorem deleteDirectoryRecursively_balanced (depth : Nat) : ∀ (held : List Int) (path : Bytes) (s : Session σ),
    Balanced held s → Balanced held (deleteDirectoryRecursively env depth path s).2 := by
  induction depth with
  | zero => exact fun _ _ _ _ => .crash
  | succ depth ih =>
    intro held path s h
    have hdir : Balanced (((s.sysOpendir env path).1.map Prod.fst).toList ++ held) (s.sysOpendir env path).2 :=
      h.sysOpendir
    unfold deleteDirectoryRecursively
    dsimp only
    split
    · rename_i hnone
      rw [hnone] at hdir
      exact hdir
    · rename_i fd names hsome
      rw [hsome] at hdir
      have hrule := Balanced.rule env (fd :: held)
      have hentries : Balanced (fd :: held) (deleteEntries env (deleteDirectoryRecursively env depth) path names
          (s.sysOpendir env path).2).2 :=
        deleteEntries_inv (fun _ _ h => hrule.did (e := .call _) trivial id h)
          (fun _ _ h => hrule.did (e := .call _) trivial id h) (ih (fd :: held)) path names _ hdir
      split
      · rename_i hended
        exact .of_ended (Option.isSome_iff_ne_none.mp hended)
      · split
        · exact (Balanced.rule env held).sysRmdir hentries.closeFd
        · exact hentries.closeFd

/-! ### Bufferevents -/

/-- A bufferevent changes, and owns what it owned. -/
theorem references_update {b : Nat} {v : Bev} (hv : s.bevs b = some v) (v' : Bev) (hfiles : v'.files = v.files) :
    references { s with bevs := Function.update s.bevs b (some v') } = s.references := by
  have hb : (fun c => (Function.update s.bevs b (some v') c).map Bev.files) = fun c => (s.bevs c).map Bev.files := by
    funext c
    by_cases hc : c = b
    · rw [hc, Function.update_self, hv, Option.map_some, Option.map_some, hfiles]
    · rw [Function.update_of_ne hc]
  rw [references, hb]
  rfl

theorem bevWrite_references {b : Nat} {bytes : Bytes} : (s.bevWrite env b bytes []).references = s.references := by
  unfold Session.bevWrite
  split
  · rfl
  · rename_i v hv
    exact references_update hv { v with output := v.output ++ bytes, files := v.files ++ [] }
      (List.append_nil _)

theorem evbufferWrite_references {b : Nat} {v : Bev} (hv : s.bevs b = some v) :
    (s.evbufferWrite env b v).references = s.references := by
  obtain ⟨n, hn⟩ : ∃ n, s.evbufferWrite env b v = emit env (.store b v.tls s.conn.uploadFd (v.input.take n))
    { s with bevs := Function.update s.bevs b (some { v with input := v.input.drop n }) } := ⟨_, rfl⟩
  rw [hn]
  exact references_update hv { v with input := v.input.drop n } rfl

theorem drainInput_references {b fuel : Nat} : (s.drainInput env b fuel).references = s.references :=
  drainInput_inv (P := fun s' => s'.references = s.references)
    (fun _ _ hv h => (evbufferWrite_references hv).trans h) (fun _ h => h) (fun _ h => h) fuel s rfl

theorem Balanced.bevWrite (h : Balanced held s) {b : Nat} {bytes : Bytes} :
    Balanced held (s.bevWrite env b bytes []) := by
  have heq : (s.bevWrite env b bytes []).references = s.references := bevWrite_references
  cases hv : s.bevs b with
  | none =>
    simp only [Session.bevWrite, hv]
    exact .crash
  | some v =>
    simp only [Session.bevWrite, hv] at heq ⊢
    exact h.same (d := [.bevWrite b v.tls bytes]) rfl (List.forall_mem_singleton.mpr id) heq le_rfl id

theorem Balanced.evbufferWrite (h : Balanced held s) {b : Nat} {v : Bev} (hv : s.bevs b = some v) :
    Balanced held (s.evbufferWrite env b v) :=
  h.same rfl (List.forall_mem_singleton.mpr id) (evbufferWrite_references hv) le_rfl id

theorem Balanced.drainInput (h : Balanced held s) {b fuel : Nat} : Balanced held (s.drainInput env b fuel) :=
  drainInput_inv (fun _ _ hv h => h.evbufferWrite hv) (fun _ _ => .crash) (fun _ _ => .of_ended (Option.some_ne_none _))
    fuel s h

theorem Balanced.setWriteLow (h : Balanced held s) {b low : Nat} : Balanced held (s.setWriteLow b low) := by
  have heq : (s.setWriteLow b low).references = s.references := by
    unfold Session.setWriteLow
    cases hv : s.bevs b with
    | none => rw [Option.map_none, ← hv, Function.update_eq_self]
    | some v => exact references_update hv { v with writeLow := low } rfl
  exact h.same (List.append_nil _).symm (List.forall_mem_nil _) heq le_rfl id

/-- Slots that hold no descriptor. -/
theorem Balanced.conn (h : Balanced held s) {c : Connection} (heq : references { s with conn := c } = s.references) :
    Balanced held { s with conn := c } := h.same (List.append_nil _).symm (List.forall_mem_nil _) heq le_rfl id

/-! ### The stream of a download -/

/-- The stream moves on in its file. -/
theorem Balanced.advance (h : Balanced held s) {fs : FileStream} (hfs : s.conn.dataStream = some fs) {offset : Nat} :
    Balanced held { s with conn := { s.conn with dataStream := some { fs with offset := offset } } } := by
  intro hs
  have h := h hs
  refine h.extend (List.append_nil _).symm (fun fd hfd => (by cases hfd)) (fun fd _ hrest => .inr (hrest.imp_left ?_))
    (fun hnone fd hpos hr => h.idle hnone fd hpos ?_) h.old
  · rintro (⟨hfs', hfd⟩ | ⟨hcb, hfd⟩ | ⟨hv, hfd⟩)
    · rw [hfs, Option.some.injEq] at hfs'
      exact .stream rfl ((congrArg FileStream.fd hfs').trans hfd)
    · exact .upload hcb hfd
    · exact .output hv hfd
  · obtain ⟨hfs', hfd⟩ | ⟨hcb, hfd⟩ | ⟨hv, hfd⟩ := hr
    · cases hfs'
      exact .stream hfs hfd
    · exact .upload hcb hfd
    · exact .output hv hfd

/-- The file of the stream is closed. -/
theorem Balanced.closeStream (h : Balanced held s) {fs : FileStream} (hfs : s.conn.dataStream = some fs) :
    Balanced held { s.closeFd env fs.fd with
      conn := { (s.closeFd env fs.fd).conn with dataStream := some { fs with fd := -1 } } } := by
  obtain ⟨log, os, hlog, heq⟩ := closeFd_eq env fs.fd s
  rw [heq]
  intro hs
  have h := h hs
  refine h.close hlog.symm (fun fd hfd => .inr hfd) (fun fd hr => ?_) (fun hnone fd hpos hr => ?_) h.old
  · cases hr with
    | stream hfs' hr =>
      rw [hfs, Option.some.injEq] at hfs'
      exact .inl (hr.symm.trans (congrArg FileStream.fd hfs').symm)
    | upload hc hr => exact .inr (.upload hc hr)
    | output hv hr => exact .inr (.output hv hr)
  · cases hr with
    | stream hfs' hr =>
      cases hfs'
      have hneg : (-1 : Int) = fd := hr
      omega
    | upload hc hr => exact h.idle hnone fd hpos (.upload hc hr)
    | output hv hr => exact h.idle hnone fd hpos (.output hv hr)

theorem Balanced.sendNextChunk (h : Balanced held s) {b : Nat} : Balanced held (s.sendNextChunk env b) := by
  unfold Session.sendNextChunk
  split
  · exact .crash
  · rename_i fs hfs
    obtain ⟨s₁, hs₁, h₁, hfs₁⟩ : ∃ s₁, (if atEnd fs (readStream env fs s) then
        { s with conn := { s.conn with dataWriteCb := some .closeOnRetrcb } } else s) = s₁ ∧ Balanced held s₁ ∧
        s₁.conn.dataStream = some fs := by
      refine ⟨_, rfl, ?_⟩
      split
      · exact ⟨h.conn rfl, hfs⟩
      · exact ⟨h, hfs⟩
    dsimp only
    rw [hs₁]
    split
    · exact h₁.closeStream hfs₁
    · exact h₁.closeStream hfs₁
    · exact h₁.bevWrite.advance (by rwa [bevWrite_conn])

/-! ### What takes a descriptor over -/

/-- The descriptor in the hands of a function goes where something refers to it. -/
theorem Accounts.handOver (h : Accounts (fd :: held) s) {d : List Effect} (hlog : s'.log = s.log ++ d)
    (hd : ∀ e ∈ d, ¬ e.OnDescriptor) (hnew : Refers s' fd) (href : ∀ fd', 0 ≤ fd' → Refers s fd' → Refers s' fd')
    (hdata : s'.conn.dataBev ≠ none) (hold : ∀ b, s'.nextId ≤ b → s'.bevs b = none) : Accounts held s' := by
  refine h.extend hlog (fun fd hfd => absurd trivial (hd _ hfd)) (fun fd' hpos hr => .inr ?_)
    (fun hnone => absurd hnone hdata) hold
  rcases hr with hr | hr
  · exact .inl (href fd' hpos hr)
  · rcases List.mem_cons.mp hr with rfl | hr
    · exact .inl hnew
    · exact .inr hr

/-- A download in chunks begins. -/
theorem Balanced.streams (h : Balanced (fd :: held) s) (hfree : ¬ Streaming s) (hdata : s.conn.dataBev ≠ none)
    {size : Nat} {cb : Option DataWriteCb} :
    Balanced held { s with conn := { s.conn with dataStream := some ⟨fd, 0, size⟩, dataWriteCb := cb } } := by
  intro hs
  refine (h hs).handOver (List.append_nil _).symm (List.forall_mem_nil _) (.stream rfl rfl) (fun fd' hpos hr => ?_)
    hdata (h hs).old
  cases hr with
  | stream hfs hr => exact absurd ⟨_, hfs, hr ▸ hpos⟩ hfree
  | upload hc hr => exact .upload hc hr
  | output hv hr => exact .output hv hr

/-- An upload begins. -/
theorem Balanced.uploads (h : Balanced (fd :: held) s) (hfree : ¬ Uploading s) {c : Connection}
    (hc : c.dataStream = s.conn.dataStream ∧ c.dataEofEventCb ≠ none ∧ c.uploadFd = fd ∧ c.dataBev ≠ none) :
    Balanced held { s with conn := c } := by
  obtain ⟨hstream, hcb, hfd, hdata⟩ := hc
  intro hs
  refine (h hs).handOver (List.append_nil _).symm (List.forall_mem_nil _) (.upload hcb hfd) (fun fd' hpos hr => ?_)
    hdata (h hs).old
  cases hr with
  | stream hfs hr => exact .stream (hstream.trans hfs) hr
  | upload hc hr => exact absurd ⟨hc, hr ▸ hpos⟩ hfree
  | output hv hr => exact .output hv hr

/-- A plain download begins: the output has the file. -/
theorem Balanced.bevWriteFile (h : Balanced (fd :: held) s) {b : Nat} (hdata : s.conn.dataBev ≠ none) {bytes : Bytes} :
    Balanced held (s.bevWrite env b bytes [fd]) := by
  unfold Session.bevWrite
  split
  · exact .crash
  · rename_i v hv
    intro hs
    refine (h hs).handOver (d := [.bevWrite b v.tls bytes]) rfl (List.forall_mem_singleton.mpr id)
      (.output (Function.update_self ..) (List.mem_append_right _ List.mem_cons_self)) (fun fd' _ hr => ?_) hdata
      fun c hc => ?_
    · cases hr with
      | stream hfs hr => exact .stream hfs hr
      | upload hc hr => exact .upload hc hr
      | @output c w hw hr =>
        by_cases hcb : c = b
        · subst hcb
          rw [hv, Option.some.injEq] at hw
          exact .output (Function.update_self ..) (List.mem_append_left _ (hw ▸ hr))
        · exact .output ((Function.update_of_ne hcb _ _).trans hw) hr
    · have hne : c ≠ b := by
        rintro rfl
        rw [(h hs).old c hc] at hv
        cases hv
      exact (Function.update_of_ne hne _ _).trans ((h hs).old c hc)

end Rules

/-! ## The transfer commands -/

section Commands

variable {env} {s : Session σ} {held : List Int} {cmd : CftpCommand}

theorem Balanced.sendListing (h : Balanced held s) {evbuf : Bytes} : Balanced held (s.sendListing env evbuf) := by
  unfold Session.sendListing
  split
  · refine (Balanced.rule env held).reply (h.conn ?_)
    exact rfl
  · split
    · exact .crash
    · refine Balanced.bevWrite (h.conn ?_)
      exact rfl

/-- A listing closes the directory it opens. -/
theorem Balanced.sendListCommandOutput (h : Balanced held s) {path : Bytes} {description hidden human : Bool} :
    Balanced held (s.sendListCommandOutput env path description hidden human) := by
  have hdir : Balanced (((s.sysOpendir env path).1.map Prod.fst).toList ++ held) (s.sysOpendir env path).2 :=
    h.sysOpendir
  unfold Session.sendListCommandOutput
  dsimp only
  split
  · exact .crash
  · rename_i fd names hsome
    rw [hsome] at hdir
    have hentries : Balanced (fd :: held)
        (listEntries env path description hidden human names (s.sysOpendir env path).2).2 :=
      listEntries_inv (fun _ _ h => (Balanced.rule env (fd :: held)).did (e := .call _) trivial id h) names _ hdir
    exact hentries.closeFd.sendListing

/-- A LIST that is not accepted. -/
theorem Balanced.handleListCommand (h : Balanced held s) (hno : ¬ ListAccepted env cmd s) {description : Bool} :
    Balanced held (s.handleListCommand env cmd description) := by
  have hrule := Balanced.rule env held
  unfold Session.handleListCommand
  split
  · exact hrule.reply (hrule.setControlWriteCb h)
  · rename_i flags hflags
    split
    · exact hrule.reply h
    · rename_i hdata
      split
      · exact hrule.reply (hrule.setControlWriteCb h)
      · rename_i hsafe
        have hnone : env.opendir s.os s.proc (listPath flags) = none := by
          by_contra hsome
          exact hno ⟨flags, hflags, by simpa using hdata, by simpa using hsafe, hsome⟩
        have hcall : Balanced held (s.call env (.opendir (listPath flags))) := hrule.did (e := .call _) trivial id h
        simp only [Session.sysOpendir, hnone]
        exact hrule.reply (hrule.setControlWriteCb hcall)

/-- A RETR that begins no download in chunks while there is another. -/
theorem Balanced.cftpSendFile (h : Balanced held s) {path : Bytes}
    (hno : s.conn.dataBev ≠ none → s.conn.dataTlsRequired = true → env.openRead s.os s.proc path = true →
      env.fstat (sysOpenRead env path s).2.os s.nextId ≠ none → ¬ Streaming s) :
    Balanced held (s.cftpSendFile env path) := by
  have hrule := Balanced.rule env held
  have hcall : Balanced held (s.call env (.openRead path)) := hrule.did (e := .call _) trivial id h
  unfold Session.cftpSendFile
  split
  · rename_i htls
    unfold ftpSendFileWithEvbuffer
    split
    · exact h
    · rename_i b hb
      have hdata : s.conn.dataBev ≠ none := by rw [hb]; exact Option.some_ne_none b
      by_cases hopen : env.openRead s.os s.proc path = true
      · simp only [Session.sysOpenRead, if_pos hopen] at hno ⊢
        split
        · exact hcall.newFd.closeFd
        · rename_i st hst
          have hfree : ¬ Streaming s := hno hdata htls hopen fun hnone => by cases hnone.symm.trans hst
          refine Balanced.sendNextChunk (Balanced.setWriteLow ?_)
          exact Balanced.streams ((Balanced.rule env _).reply hcall.newFd) hfree hdata
      · simp only [Session.sysOpenRead, if_neg hopen]
        exact hcall
  · unfold ftpSendFilePlain
    split
    · exact h
    · rename_i b hb
      have hdata : s.conn.dataBev ≠ none := by rw [hb]; exact Option.some_ne_none b
      by_cases hopen : env.openRead s.os s.proc path = true
      · simp only [Session.sysOpenRead, if_pos hopen]
        split
        · exact hrule.reply hcall.newFd.closeFd
        · refine Balanced.bevWriteFile (Balanced.conn ((Balanced.rule env _).reply hcall.newFd) ?_) ?_
          · exact rfl
          · exact hdata
      · simp only [Session.sysOpenRead, if_neg hopen]
        exact hrule.reply hcall

/-- A STOR that begins no upload while there is another. -/
theorem Balanced.cftpRecvFileWithEvbuffer (h : Balanced held s) {path : Bytes}
    (hno : s.conn.dataBev ≠ none → env.openWrite s.os s.proc path = true → ¬ Uploading s) :
    Balanced held (s.cftpRecvFileWithEvbuffer env path) := by
  have hrule := Balanced.rule env held
  have hcall : Balanced held (s.call env (.openWrite path)) :=
    h.same rfl (List.forall_mem_singleton.mpr id) rfl le_rfl id
  unfold Session.cftpRecvFileWithEvbuffer
  split
  · exact hrule.reply h
  · rename_i hdata
    have hdata : s.conn.dataBev ≠ none := by simpa using hdata
    by_cases hopen : env.openWrite s.os s.proc path = true
    · simp only [Session.sysOpenWrite, if_pos hopen]
      refine hrule.reply (hcall.newFd.uploads (hno hdata hopen) ?_)
      split
      · exact ⟨rfl, Option.some_ne_none _, rfl, hdata⟩
      · exact ⟨rfl, Option.some_ne_none _, rfl, hdata⟩
    · simp only [Session.sysOpenWrite, if_neg hopen]
      exact hrule.reply (hrule.setControlWriteCb hcall)

end Commands

/-! ## The end of a data connection -/

section Closing

variable {env} {s : Session σ} {held : List Int}

theorem Balanced.closeAll (fds : List Int) : ∀ {s : Session σ}, Balanced (fds ++ held) s →
    Balanced held (s.closeAll env fds) := by
  induction fds with
  | nil => exact fun h => h
  | cons fd fds ih => exact fun h => ih h.closeFd

/-- The bufferevent of the connection is freed: the files of its output are to be closed. -/
theorem Balanced.drop (h : Balanced held s) {b : Nat} {v : Bev} (hd : s.conn.dataBev = some b)
    (hv : s.bevs b = some v) : Balanced (v.files ++ held)
      (emit env (.bevFree b v.output) { s with bevs := Function.update s.bevs b none }) := by
  intro hs
  refine (h hs).extend (d := [.bevFree b v.output]) rfl (fun fd hfd => (by simp at hfd)) (fun fd _ hrest => ?_)
    (fun hnone => ?_) fun c hc => ?_
  · rcases hrest with (⟨hfs, hfd⟩ | ⟨hcb, hfd⟩ | @⟨c, w, hw, hfd⟩) | hheld
    · exact .inr (.inl (.stream hfs hfd))
    · exact .inr (.inl (.upload hcb hfd))
    · by_cases hc : c = b
      · subst hc
        rw [hv, Option.some.injEq] at hw
        exact .inr (.inr (List.mem_append_left _ (hw ▸ hfd)))
      · exact .inr (.inl (.output ((Function.update_of_ne hc _ _).trans hw) hfd))
    · exact .inr (.inr (List.mem_append_right _ hheld))
  · cases hd.symm.trans hnone
  · by_cases hcb : c = b
    · exact hcb ▸ Function.update_self ..
    · exact (Function.update_of_ne hcb _ _).trans ((h hs).old c hc)

/-- **Closing the data connection** loses no descriptor when all are in the output of its bufferevent. -/
theorem Balanced.closeDataConnection (h : Balanced held s) (honly : s.conn.dataBev ≠ none → OnlyOutput s) :
    Balanced held (s.closeDataConnection env) := by
  cases hd : s.conn.dataBev with
  | none =>
    simp only [Session.closeDataConnection, hd]
    intro hs
    have h := h hs
    refine h.extend (List.append_nil _).symm (fun fd hfd => (by cases hfd)) (fun fd hpos hrest => ?_)
      (fun _ fd hpos hr => h.idle hd fd hpos ?_) h.old
    · exact .inr (.inr (hrest.resolve_left (h.idle hd fd hpos)))
    · obtain ⟨hfs, hfd⟩ | ⟨hcb, hfd⟩ | ⟨hv, hfd⟩ := hr
      · exact .stream hfs hfd
      · exact absurd rfl hcb
      · exact .output hv hfd
  | some b =>
    cases hv : s.bevs b with
    | none =>
      simp only [Session.closeDataConnection, hd, bevFree, hv]
      exact .of_ended (Option.some_ne_none _)
    | some v =>
      obtain ⟨hstream, hup, horphan⟩ := honly (by rw [hd]; exact Option.some_ne_none b)
      obtain ⟨d, os, heq, -⟩ := closeAll_spec env v.files
        (emit env (.bevFree b v.output) { s with bevs := Function.update s.bevs b none })
      have hfreed : Balanced held ((emit env (.bevFree b v.output)
          { s with bevs := Function.update s.bevs b none }).closeAll env v.files) := (h.drop hd hv).closeAll
      simp only [Session.closeDataConnection, hd, bevFree, hv]
      rw [heq] at hfreed ⊢
      intro hs
      have h := hfreed hs
      have hgone : ∀ c w fd, Function.update s.bevs b none c = some w → fd ∉ w.files := by
        intro c w fd hw hfd
        by_cases hc : c = b
        · rw [hc, Function.update_self] at hw
          cases hw
        · rw [Function.update_of_ne hc] at hw
          exact horphan ⟨c, w, fd, hw, fun hd' => hc (Option.some.inj (hd'.symm.trans hd)), hfd⟩
      refine h.extend (List.append_nil _).symm (fun fd hfd => (by cases hfd)) (fun fd hpos hrest => ?_)
        (fun _ fd hpos hr => ?_) h.old
      · rcases hrest with (⟨hfs, hfd⟩ | ⟨hcb, hfd⟩ | ⟨hw, hfd⟩) | hheld
        · exact absurd ⟨_, hfs, hfd ▸ hpos⟩ hstream
        · exact absurd ⟨hcb, hfd ▸ hpos⟩ hup
        · exact absurd hfd (hgone _ _ _ hw)
        · exact .inr (.inr hheld)
      · obtain ⟨hfs, hfd⟩ | ⟨hcb, hfd⟩ | ⟨hw, hfd⟩ := hr
        · cases hfs
        · exact absurd rfl hcb
        · exact hgone _ _ _ hw hfd

/-- The end of an upload closes its file. -/
theorem Balanced.closeUpload (h : Balanced held s) :
    Balanced held { s.closeFd env s.conn.uploadFd with
      conn := { (s.closeFd env s.conn.uploadFd).conn with uploadFd := -1 } } := by
  obtain ⟨log, os, hlog, heq⟩ := closeFd_eq env s.conn.uploadFd s
  rw [heq]
  intro hs
  have h := h hs
  refine h.close hlog.symm (fun fd hfd => .inr hfd) (fun fd hr => ?_) (fun hnone fd hpos hr => h.idle hnone fd hpos ?_)
    h.old
  · obtain ⟨hfs, hfd⟩ | ⟨-, hfd⟩ | ⟨hv, hfd⟩ := hr
    · exact .inr (.stream hfs hfd)
    · exact .inl hfd.symm
    · exact .inr (.output hv hfd)
  · obtain ⟨hfs, hfd⟩ | ⟨-, hfd⟩ | ⟨hv, hfd⟩ := hr
    · exact .stream hfs hfd
    · have hneg : (-1 : Int) = fd := hfd
      omega
    · exact .output hv hfd

theorem Balanced.dataEof (h : Balanced held s) : Balanced held (s.dataEof env) := by
  unfold Session.dataEof
  split
  · unfold onEofEventCb
    split
    · exact h
    · split
      · exact andThen_of h.drainInput fun _ h => (Balanced.rule env held).reply h.closeUpload
      · exact (Balanced.rule env held).reply h
  · exact h

/-- Without an upload the end of the data connection is a reply at most. -/
theorem dataEof_references (hup : ¬ Uploading s) : (s.dataEof env).references = s.references := by
  unfold Session.dataEof
  split
  · rename_i hcb
    unfold onEofEventCb
    split
    · rfl
    · rw [if_neg fun hpos => hup ⟨by rw [hcb]; exact Option.some_ne_none _, hpos⟩]
      rfl
  · rfl

/-- An upload gives its file up at the end of the data connection. -/
theorem dataEof_references_of_uploading (hup : Uploading s) (hd : s.conn.dataBev ≠ none)
    (hs : (s.dataEof env).ended = none) :
    (s.dataEof env).references = { s.references with uploadFd := -1 } := by
  obtain ⟨hcb, hpos⟩ := hup
  obtain ⟨cb, hcb⟩ := Option.ne_none_iff_exists'.mp hcb
  obtain ⟨d, hd⟩ := Option.ne_none_iff_exists'.mp hd
  have hdrain : (s.drainInput env d env.spin).references = s.references := drainInput_references
  cases cb with
  | onEofEventCb =>
    simp only [Session.dataEof, hcb, onEofEventCb, hd, if_pos hpos] at hs ⊢
    unfold Session.andThen at hs ⊢
    split at hs
    · rename_i hended
      rw [hs] at hended
      cases hended
    · rename_i hended
      rw [if_neg hended, ← hdrain]
      obtain ⟨log, os, -, heq⟩ := closeFd_eq env (s.drainInput env d env.spin).conn.uploadFd
        (s.drainInput env d env.spin)
      dsimp only
      rw [heq]
      rfl

/-- What is left when the file of the upload is closed. -/
theorem OnlyOutput.of_uploaded {s' : Session σ} (hstream : ¬ Streaming s) (horphan : ¬ Orphaned s)
    (heq : s'.references = { s.references with uploadFd := -1 }) : OnlyOutput s' := by
  have h : OnlyOutput { s with conn := { s.conn with uploadFd := -1 } } :=
    ⟨hstream, fun hup => absurd (show 0 ≤ (-1 : Int) from hup.2) (by decide), horphan⟩
  exact h.of_references heq

end Closing

/-! ## One event -/

section Events

variable {env} {s : Session σ} {held : List Int}

theorem sendListCommandOutput_references {path : Bytes} {description hidden human : Bool} :
    (s.sendListCommandOutput env path description hidden human).references = s.references := by
  have hdir : Aside s (sysOpendir env path s).2 := Aside.refl.sysOpendir
  unfold Session.sendListCommandOutput
  dsimp only
  split
  · exact references_of_transfer hdir.transfer
  · rename_i fd names _
    have hlist : Aside s (listEntries env path description hidden human names (sysOpendir env path s).2).2 :=
      hdir.listEntries
    rw [← references_of_transfer hlist.closeFd.transfer]
    unfold Session.sendListing
    split
    · rfl
    · split
      · rfl
      · rw [bevWrite_references]
        rfl

/-- The handshake leaves the descriptors where they are, or closes the data connection. -/
theorem Balanced.dataConnected (h : Balanced held s) (honly : s.conn.dataTlsRequired = true →
    s.conn.dataTlsEventConnectedCb = some .closeDataConnectionOnWritecb → OnlyOutput s) :
    Balanced held (s.dataConnected env) ∧
      ((s.dataConnected env).conn.dataBev = none ∨ (s.dataConnected env).references = s.references) := by
  have hactive : Balanced held { s with conn := { s.conn with dataActive := s.conn.dataActive + 1 } } := by
    exact h.conn rfl
  unfold Session.dataConnected
  dsimp only
  split
  · rename_i htls
    split
    · rename_i cb hcb
      cases cb with
      | listTlsOnBevEventConnected => exact ⟨hactive.sendListCommandOutput, .inr sendListCommandOutput_references⟩
      | storTlsOnBevEventConnected => exact ⟨hactive.conn rfl, .inr rfl⟩
      | closeDataConnectionOnWritecb =>
        refine ⟨hactive.closeDataConnection fun _ => (honly htls hcb).of_references rfl, .inl ?_⟩
        exact (closeDataConnection_settled _).dataBev
    · exact ⟨hactive, .inr rfl⟩
  · exact ⟨hactive, .inr rfl⟩

/-- **An event of a data connection.** -/
theorem Balanced.dataConnectionEventCb (h : Balanced held s) {connected timeout error eof : Bool}
    (honly : connected = true → s.conn.dataTlsRequired = true →
      s.conn.dataTlsEventConnectedCb = some .closeDataConnectionOnWritecb → OnlyOutput s)
    (hclose : (eof || error || timeout) = true → ¬ Streaming s ∧ (Uploading s → eof = true) ∧ ¬ Orphaned s) :
    Balanced held (s.dataConnectionEventCb env connected timeout error eof) := by
  obtain ⟨s₁, hs₁, h₁, hrest⟩ : ∃ s₁, (if connected then s.dataConnected env else s) = s₁ ∧ Balanced held s₁ ∧
      (s₁.conn.dataBev = none ∨ s₁.references = s.references) := by
    refine ⟨_, rfl, ?_⟩
    split
    · rename_i hc
      exact h.dataConnected (honly hc)
    · exact ⟨h, .inr rfl⟩
  obtain ⟨s₂, hs₂, h₂⟩ : ∃ s₂, (if eof then s₁.dataEof env else s₁) = s₂ ∧ Balanced held s₂ := by
    refine ⟨_, rfl, ?_⟩
    split
    · exact h₁.dataEof
    · exact h₁
  unfold Session.dataConnectionEventCb
  rw [hs₁]
  refine andThen_of h₁ fun _ _ => ?_
  rw [hs₂]
  refine andThen_of h₂ fun hend _ => ?_
  split
  · rename_i hflag
    obtain ⟨hstream, hup, horphan⟩ := hclose hflag
    refine h₂.closeDataConnection fun hd₂ => ?_
    cases eof with
    | false =>
      have hs₂ : s₁ = s₂ := hs₂
      subst hs₂
      have honly : OnlyOutput s := ⟨hstream, fun hu => Bool.false_ne_true (hup hu), horphan⟩
      exact honly.of_references (hrest.resolve_left hd₂)
    | true =>
      have hs₂ : s₁.dataEof env = s₂ := hs₂
      subst hs₂
      rw [dataEof_dataBev] at hd₂
      have heq := hrest.resolve_left hd₂
      by_cases hu : Uploading s₁
      · apply OnlyOutput.of_uploaded hstream horphan
        rw [dataEof_references_of_uploading hu hd₂ hend, heq]
      · have honly : OnlyOutput s := ⟨hstream, fun hu' => hu (hu'.of_references heq), horphan⟩
        exact honly.of_references ((dataEof_references hu).trans heq)
  · exact h₂

/-- **A command.** -/
theorem Balanced.runAction (h : Balanced held s) {a : Action} {cmd : CftpCommand} (hg : CommandReleases env a cmd s) :
    Balanced held (s.runAction env a cmd) := by
  have hrule := Balanced.rule env held
  cases a with
  | list => exact h.handleListCommand hg
  | nlst => exact h.handleListCommand hg
  | retr =>
    refine hrule.withArg h fun path hargs => h.cftpSendFile fun hdata htls hopen hstat => ?_
    exact hg ⟨path, hargs, hdata, htls, hopen, hstat⟩
  | stor =>
    refine hrule.withArg h fun path hargs => h.cftpRecvFileWithEvbuffer fun hdata hopen => ?_
    exact hg ⟨path, hargs, hdata, hopen⟩
  | abor =>
    simp only [Session.runAction, cftpAborAuthenticatedAction]
    split
    · rename_i hactive
      exact hrule.reply (h.closeDataConnection fun _ => hg hactive)
    · exact hrule.reply (hrule.setControlWriteCb h)
  | dele => exact hrule.handleDeleCommand (fun path s h => deleteDirectoryRecursively_balanced _ held path s h) cmd h
  | _ => exact hrule.runAction rfl (by decide) (by decide) cmd h

/-- A reply is out. -/
theorem Balanced.controlWrite (h : Balanced held s) (n : Nat) (hs : s.ended = none)
    (hg : Releases env (.controlWrite n) s) : Balanced held (handle env (.controlWrite n) s) := by
  have hout : ∀ out, Balanced held { s with ctlOut := out } :=
    fun _ => (Balanced.rule env held).keep h rfl rfl le_rfl id
  simp only [handle]
  split
  · exact h
  · rename_i hgo
    rw [not_or] at hgo
    split
    · rename_i hempty
      simp only [onWrite]
      split
      · rename_i cb hcb
        cases cb with
        | closeDataConnectionOnWritecb =>
          have honly : OnlyOutput s := hg hs hgo.1 hgo.2 hempty hcb
          have hclosed : Balanced held ({ s with ctlOut := s.ctlOut.drop n }.closeDataConnection env) :=
            (hout (s.ctlOut.drop n)).closeDataConnection fun _ => honly.of_references rfl
          exact hclosed.conn rfl
        | disableConnectionCb => exact .of_ended (Option.some_ne_none _)
      · exact hout _
    · exact hout _

/-- A new data connection owns nothing; when there is none after all, nothing may be left. -/
theorem Balanced.newDataBev (h : Balanced held s)
    (hfail : env.bufferevent s.os = false → ∀ fd, 0 ≤ fd → ¬ Refers s fd) : Balanced held (s.newDataBev env) := by
  unfold Session.newDataBev
  split
  · intro hs
    have h := h hs
    refine h.extend (d := [.bevNew s.nextId s.conn.dataTlsRequired]) rfl (fun fd hfd => (by simp at hfd))
      (fun fd _ hrest => .inr (hrest.imp_left fun hr => ?_)) (fun hnone => (by cases hnone)) fun b hb => ?_
    · obtain ⟨hfs, hfd⟩ | ⟨hcb, hfd⟩ | @⟨b, v, hv, hfd⟩ := hr
      · exact .stream hfs hfd
      · exact .upload hcb hfd
      · have hne : b ≠ s.nextId := by
          rintro rfl
          rw [h.old _ le_rfl] at hv
          cases hv
        exact .output ((Function.update_of_ne hne _ _).trans hv) hfd
    · have hb : s.nextId + 1 ≤ b := hb
      refine (Function.update_of_ne (by omega) _ _).trans (h.old b (by omega))
  · rename_i hfalse
    intro hs
    have h := h hs
    have hnot := hfail (by simpa using hfalse)
    refine h.extend (List.append_nil _).symm (fun fd hfd => (by cases hfd)) (fun fd hpos hrest => ?_)
      (fun _ fd hpos hr => hnot fd hpos ?_) h.old
    · exact .inr (.inr (hrest.resolve_left (hnot fd hpos)))
    · obtain ⟨hfs, hfd⟩ | ⟨hcb, hfd⟩ | ⟨hv, hfd⟩ := hr
      · exact .stream hfs hfd
      · exact .upload hcb hfd
      · exact .output hv hfd

/-- A client connects. -/
theorem Balanced.accept (h : Balanced held s) {listener : Nat} {fd : Int} {addr : SockAddr} (hs : s.ended = none)
    (hg : Releases env (.accept listener fd addr) s) : Balanced held (handle env (.accept listener fd addr) s) := by
  have hrule := Balanced.rule env held
  simp only [handle]
  split
  · rename_i hl
    unfold dataConnectionAcceptCb
    split
    · exact hrule.did (e := .rejected fd) trivial id h
    · rename_i hpeer
      have hpeer : samePeer s.conn.sourceIp addr = true := by simpa using hpeer
      have hfreed : Balanced held (s.listenerFree env listener) := by
        unfold listenerFree
        rw [if_pos hl]
        exact hrule.keep (hrule.did (e := .listenerFree listener) trivial id h) rfl rfl le_rfl id
      refine andThen_of hfreed fun _ hfreed => ?_
      have hbev : Balanced held (Session.newDataBev env { s.listenerFree env listener with
          conn := { (s.listenerFree env listener).conn with dataActive := 0, pasvListener := none } }) := by
        refine Balanced.newDataBev (hfreed.conn rfl) fun hfail fd hpos hr => ?_
        unfold listenerFree at hfail hr
        rw [if_pos hl] at hfail hr
        exact hg hs hl hpeer hfail fd hpos (hr.of_references rfl)
      dsimp only
      split
      · exact hbev
      · refine hrule.timeoutEventFree (Balanced.conn hbev ?_)
        rfl
  · exact h

/-- **One event** that meets the condition loses no descriptor. -/
theorem step_balanced (e : Event) (hg : Releases env e s) (h : Balanced held s) : Balanced held (step env e s) := by
  have hrule := Balanced.rule env held
  rcases step_cases env e s with heq | ⟨chunk, rfl, hne, hs, heq⟩ | ⟨hread, hs, heq⟩
  · rwa [heq]
  · have hrec : Balanced held (received s chunk) := hrule.keep h rfl rfl le_rfl id
    rw [heq, runCommand]
    cases ha : handlerOf s chunk with
    | none => exact hrule.reply hrec
    | some a => exact hrec.runAction (hg hs hne a ha)
  · rw [heq]
    cases e with
    | controlRead chunk => exact absurd rfl (hread chunk)
    | controlWrite n => exact h.controlWrite n hs hg
    | controlEof => exact .of_ended (Option.some_ne_none _)
    | parentDead => exact .of_ended (Option.some_ne_none _)
    | timer t =>
      simp only [handle]
      split
      · rename_i timer _
        split
        · have hfired : Balanced held (timerFires t timer s) := hrule.keep h rfl rfl le_rfl id
          cases timer.callback with
          | terminateProcessOnTimeout => exact hrule.reply (hrule.setControlWriteCb hfired)
          | killListenerOnTimeout => exact hrule.dropListener hfired
        · exact h
      · exact h
    | accept listener fd addr => exact h.accept hs hg
    | dataRead b bytes =>
      simp only [handle]
      split
      · rename_i v hv
        split
        · exact h
        · have harrived : Balanced held (dataArrives b v bytes s) :=
            h.same (List.append_nil _).symm (List.forall_mem_nil _)
              (references_update hv { v with input := v.input ++ bytes } rfl) le_rfl id
          unfold dataConnectionReadCb
          split
          · exact harrived.drainInput
          · exact harrived
      · exact h
    | dataWrite b n =>
      simp only [handle]
      split
      · rename_i v hv
        have hleft : Balanced held (dataLeaves b v n s) :=
          h.same (List.append_nil _).symm (List.forall_mem_nil _)
            (references_update hv { v with output := v.output.drop n, sent := v.sent ++ v.output.take n } rfl)
            le_rfl id
        split
        · exact h
        · split
          · unfold dataConnectionWriteCb
            have hdone : Balanced held (transferComplete env (dataLeaves b v n s)) :=
              hrule.reply (hrule.setControlWriteCb hleft)
            split
            · exact hrule.reply (hrule.setControlWriteCb hleft)
            · exact hleft.sendNextChunk
            · exact hdone
            · unfold downloadCompletionOnPlainConnectionCb
              split
              · exact .crash
              · split
                · exact hdone
                · exact hleft
            · exact hleft
          · exact hleft
      · exact h
    | dataEvent b connected timeout error eof =>
      simp only [handle]
      split
      · rename_i v hv
        obtain ⟨honly, hclose⟩ := hg hs v hv
        exact h.dataConnectionEventCb (fun hc htls hcb => honly ⟨hc, htls, hcb⟩) hclose
      · exact h

end Events

/-! ## Runs -/

theorem start_balanced (addr : SockAddr) (proc : Proc) (os : σ) : Balanced [] (start env addr proc os) := by
  intro _
  refine ⟨fun fd hfd => ?_, fun _ fd _ hr => ?_, fun _ _ => rfl⟩
  · simp [start, sendControlMessage, timerNew, fresh, emit] at hfd
  · obtain ⟨hfs, -⟩ | ⟨hcb, -⟩ | ⟨hv, -⟩ := hr
    · cases hfs
    · exact hcb rfl
    · cases hv

/-- **Transfers release their descriptors**, in every run whose events meet the condition: whenever there is no data
connection, every descriptor that was opened is closed. -/
theorem descriptors_released (addr : SockAddr) (proc : Proc) (os : σ) (es : List Event)
    (hg : Guarded (step env) (Releases env) es (start env addr proc os)) :
    ∀ pre, pre <+: es → (reached env addr proc os pre).ended = none →
      (reached env addr proc os pre).conn.dataBev = none →
      ∀ fd, .opened fd ∈ (reached env addr proc os pre).log → .closed fd ∈ (reached env addr proc os pre).log := by
  intro pre hpre hs hd fd hfd
  obtain ⟨rest, rfl⟩ := hpre
  have h : Accounts [] (reached env addr proc os pre) :=
    run_inv_of_guarded (fun e _ hg h => step_balanced e hg h) pre hg.prefix (start_balanced env addr proc os) hs
  obtain ⟨hpos, hclosed | hr | hheld⟩ := h.opened fd hfd
  · exact hclosed
  · exact absurd hr (h.idle hd fd hpos)
  · cases hheld

/-- An upload up to its end: its file is closed. -/
theorem upload_file_closed :
    .closed 4 ∈ (aliceSession Env.permissive [.controlRead (ascii "PASV\r\n"), .accept 1 9 (.inet 127 0 0 1),
      .controlRead (ascii "STOR f\r\n"), .dataRead 3 (ascii "ab"), .dataEvent 3 false false false true]).log := by
  have hcmd : ∀ {chunk : Bytes} {s : Session Unit} (a : Action), handlerOf s chunk = some a →
      CommandReleases Env.permissive a (commandOf s chunk) (received s chunk) →
      Releases Env.permissive (.controlRead chunk) s := by
    intro chunk s a ha hr _ _ a' ha'
    rw [ha, Option.some.injEq] at ha'
    exact ha' ▸ hr
  have hsingle : Single (aliceSession Env.permissive [.controlRead (ascii "PASV\r\n"), .accept 1 9 (.inet 127 0 0 1),
      .controlRead (ascii "STOR f\r\n"), .dataRead 3 (ascii "ab")]) := by
    have hread : ∀ {chunk : Bytes} {s : Session Unit}, AcceptsOne (.controlRead chunk) s :=
      fun _ _ _ he => by cases he
    refine run_inv_of_guarded (fun e _ hg h => step_single Env.permissive e h hg) _ ?_ (start_single ..)
    exact ⟨hread, hread, hread, fun _ _ _ _ _ _ _ => by decide, hread, fun _ _ _ he => (by cases he), trivial⟩
  refine descriptors_released Env.permissive (.inet 127 0 0 1) ⟨ascii "/", ascii "/", 0, 0, []⟩ ()
    [.controlRead (ascii "USER alice\r\n"), .controlRead (ascii "PASS x\r\n"), .controlRead (ascii "PASV\r\n"),
      .accept 1 9 (.inet 127 0 0 1), .controlRead (ascii "STOR f\r\n"), .dataRead 3 (ascii "ab"),
      .dataEvent 3 false false false true]
    ⟨hcmd .user (by decide) trivial, hcmd .pass (by decide) trivial, hcmd .pasv (by decide) trivial,
      fun _ _ _ hfail => (by cases hfail), hcmd .stor (by decide) fun _ hup => absurd rfl hup.1, fun _ => trivial,
      fun _ v hv => ⟨fun hc => (by cases hc.2.1), fun _ => ⟨fun ⟨_, hfs, _⟩ => (by cases hfs), fun _ => rfl, ?_⟩⟩,
      trivial⟩
    _ List.prefix_rfl (by decide) (by decide) 4 (by decide)
  rintro ⟨b, v, fd, hv, hne, -⟩
  exact hne (hsingle.only b v hv)

/-- LIST leaves the directory it has looked at open. -/
theorem listed_directory_stays_open :
    ¬ ∀ (σ : Type) (env : Env σ) (addr : SockAddr) (proc : Proc) (os : σ) (es : List Event),
      (reached env addr proc os es).ended = none → (reached env addr proc os es).conn.dataBev = none →
      ∀ fd, .opened fd ∈ (reached env addr proc os es).log → .closed fd ∈ (reached env addr proc os es).log := by
  intro h
  exact absurd (h Unit Env.permissive (.inet 127 0 0 1) ⟨ascii "/", ascii "/", 0, 0, []⟩ ()
    [.controlRead (ascii "USER alice\r\n"), .controlRead (ascii "PASS x\r\n"), .controlRead (ascii "PASV\r\n"),
      .accept 1 9 (.inet 127 0 0 1), .controlRead (ascii "LIST\r\n"), .controlWrite 1000] (by decide) (by decide) 4
    (by decide)) (by decide)

end CftpServer.Session
