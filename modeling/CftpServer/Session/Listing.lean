import CftpServer.Session.Answers
import CftpServer.Session.Aside
import CftpServer.Lib.Similar

/-!
# Listings

With TLS, LIST leaves its request in the connection, and the listing is made when the handshake is done, from the path
as it leads then.

* `sendListCommandOutput_listing`: the listing that is sent
* `listing_congr`: it only depends on what the system says of the directory
* `tls_listing_plain`: when the listing with TLS is the one without
-/

namespace CftpServer

open CLib

/-- Effects the system may take for the same: descriptors have other numbers. -/
def Effect.Alike : Effect → Effect → Prop
  | .opened _, .opened _ => True
  | e, f => e = f

/-- Calls that change no file: the effects of looking at one. -/
def Effect.IsLook : Effect → Prop
  | .call (.openWrite _) => False
  | .call _ => True
  | .opened _ => True
  | .closed _ => True
  | _ => False

/-- The bytes an effect puts on a data connection. -/
def Effect.writes (b : Nat) : Effect → Option Bytes
  | .bevWrite d _ bytes => if d = b then some bytes else none
  | _ => none

theorem Effect.alike_refl (e : Effect) : e.Alike e := by
  cases e <;> first | exact trivial | exact rfl

namespace Session

open Command Security Runs Growth

variable {σ : Type} (env : Env σ)

/-! ## Looking at files -/

/-- Only files were looked at on the way from `s` to `s'`. -/
structure Looked (s s' : Session σ) : Prop where
  conn : s'.conn = s.conn
  bevs : s'.bevs = s.bevs
  ended : s'.ended = s.ended
  proc : s'.proc = s.proc
  log : ∃ d, s'.log = s.log ++ d ∧ ∀ e ∈ d, e.IsLook

namespace Looked

variable {env} {s₀ s s' : Session σ}

theorem refl : Looked s s := ⟨rfl, rfl, rfl, rfl, Grown.refl⟩

theorem did (env : Env σ) (h : Looked s₀ s) {e : Effect} (he : e.IsLook) : Looked s₀ (emit env e s) :=
  ⟨h.conn, h.bevs, h.ended, h.proc, Grown.concat h.log he⟩

theorem newFd (h : Looked s₀ s) : Looked s₀ (s.newFd env).2 := by
  have h' := h.did env (e := .opened s.nextId) trivial
  exact ⟨h'.conn, h'.bevs, h'.ended, h'.proc, h'.log⟩

theorem closeFd (h : Looked s₀ s) {fd : Int} : Looked s₀ (s.closeFd env fd) := by
  unfold Session.closeFd
  split
  · exact h
  · exact h.did env (e := .closed fd) trivial

theorem sysLstat (h : Looked s₀ s) {path : Bytes} : Looked s₀ (s.sysLstat env path).2 :=
  h.did env (e := .call (.lstat path)) trivial

theorem sysOpendir (h : Looked s₀ s) {path : Bytes} : Looked s₀ (s.sysOpendir env path).2 := by
  have h₁ : Looked s₀ (s.call env (.opendir path)) := h.did env (e := .call (.opendir path)) trivial
  unfold Session.sysOpendir
  split
  · exact h₁.newFd
  · exact h₁

theorem sysOpenRead (h : Looked s₀ s) {path : Bytes} : Looked s₀ (s.sysOpenRead env path).2 := by
  have h₁ : Looked s₀ (s.call env (.openRead path)) := h.did env (e := .call (.openRead path)) trivial
  unfold Session.sysOpenRead
  split
  · exact h₁.newFd
  · exact h₁

theorem listEntries (h : Looked s₀ s) {path : Bytes} {description hidden human : Bool} {names : List Bytes} :
    Looked s₀ (s.listEntries env path description hidden human names).2 :=
  listEntries_inv (fun _ _ h => h.sysLstat) names s h

theorem mute (h : Looked s s') : Mute s s' := by
  refine Grown.mono h.log fun e hlook hreply => ?_
  cases e <;> first | exact hreply | exact hlook

end Looked

/-! ## The listing -/

/-- The listing of a directory as it is in a state of the session, if it can be opened. -/
def listing (path : Bytes) (description hidden human : Bool) (s : Session σ) : Option Bytes :=
  (env.opendir s.os s.proc path).map fun names =>
    (listEntries env path description hidden human names (sysOpendir env path s).2).1

section Sent

variable {env} {path : Bytes} {description hidden human : Bool} {s : Session σ}

/-- The listing is sent by `send_list_command_output`. -/
theorem sendListCommandOutput_listing {lines : Bytes} (h : listing env path description hidden human s = some lines) :
    ∃ s₁, Looked s s₁ ∧ sendListCommandOutput env path description hidden human s = sendListing env lines s₁ := by
  unfold listing at h
  cases hdir : env.opendir s.os s.proc path with
  | none =>
    rw [hdir] at h
    cases h
  | some names =>
    have hopen : (sysOpendir env path s).1 = some ((s.nextId : Int), names) := by
      simp [sysOpendir, hdir, newFd, call, emit]
    rw [hdir, Option.map_some, Option.some.injEq] at h
    have hlooked : Looked s (closeFd env s.nextId (listEntries env path description hidden human names
      (sysOpendir env path s).2).2) := Looked.refl.sysOpendir.listEntries.closeFd
    refine ⟨_, hlooked, ?_⟩
    simp only [sendListCommandOutput, hopen, h]

/-- A directory that cannot be opened is read all the same. -/
theorem sendListCommandOutput_crash (h : listing env path description hidden human s = none) :
    sendListCommandOutput env path description hidden human s = crash (call env (.opendir path) s) := by
  unfold listing at h
  rw [Option.map_eq_none_iff] at h
  simp [sendListCommandOutput, sysOpendir, h]

end Sent

/-! ## The same directory -/

/-- What the system says of a directory: its names, the attributes of each, and who the owners are. -/
def directoryLook (path : Bytes) (w : σ × Proc) :
    Option (List Bytes) × (Bytes → Option Stat) × (Nat → Bytes) × (Nat → Bytes) :=
  (env.opendir w.1 w.2 path, fun name => env.lstat w.1 w.2 (cut PATH_MAX (path ++ ascii "/" ++ name)),
    env.askRootForUsername w.1, env.askRootForGroupname w.1)

/-- The system says the same of the directory in both states, now and after effects that `E` takes for the same. -/
def SameLooks (E : Effect → Effect → Prop) (path : Bytes) (s s' : Session σ) : Prop :=
  Similar (fun w e => (env.after w.1 w.2 e, w.2)) E (directoryLook env path) (s.os, s.proc) (s'.os, s'.proc)

/-- The path leads to the same directory, with the same in it, also in the course of the calls that list it. -/
def SameDirectory (path : Bytes) (s s' : Session σ) : Prop := SameLooks env Effect.Alike path s s'

section Same

variable {env} {E : Effect → Effect → Prop} {path : Bytes} {description hidden human : Bool} {s s' : Session σ}

theorem SameLooks.opendir (h : SameLooks env E path s s') :
    env.opendir s.os s.proc path = env.opendir s'.os s'.proc path := congrArg Prod.fst h.look_eq

theorem SameLooks.lstat (h : SameLooks env E path s s') (name : Bytes) :
    env.lstat s.os s.proc (cut PATH_MAX (path ++ ascii "/" ++ name)) =
      env.lstat s'.os s'.proc (cut PATH_MAX (path ++ ascii "/" ++ name)) :=
  congrFun (congrArg (fun look => look.2.1) h.look_eq) name

theorem SameLooks.emit (h : SameLooks env E path s s') {e f : Effect} (hef : E e f) :
    SameLooks env E path (s.emit env e) (s'.emit env f) := h.after hef

theorem SameLooks.formatUnixListEntry (h : SameLooks env E path s s') (name : Bytes) (st : Stat) :
    formatUnixListEntry env name st human s = formatUnixListEntry env name st human s' := by
  have huser : env.askRootForUsername s.os = env.askRootForUsername s'.os :=
    congrArg (fun look => look.2.2.1) h.look_eq
  have hgroup : env.askRootForGroupname s.os = env.askRootForGroupname s'.os :=
    congrArg (fun look => look.2.2.2) h.look_eq
  simp only [Session.formatUnixListEntry, huser, hgroup]

/-- The loop over the names puts the same lines together. -/
theorem listEntries_congr (hE : ∀ e, E e e) (names : List Bytes) : ∀ {s s' : Session σ}, SameLooks env E path s s' →
    (listEntries env path description hidden human names s).1 =
      (listEntries env path description hidden human names s').1 := by
  induction names with
  | nil => exact fun _ => rfl
  | cons name names ih =>
    intro s s' h
    have hstat : (sysLstat env (cut PATH_MAX (path ++ ascii "/" ++ name)) s).1 =
      (sysLstat env (cut PATH_MAX (path ++ ascii "/" ++ name)) s').1 := h.lstat name
    have hnext : SameLooks env E path (sysLstat env (cut PATH_MAX (path ++ ascii "/" ++ name)) s).2
      (sysLstat env (cut PATH_MAX (path ++ ascii "/" ++ name)) s').2 := h.emit (hE _)
    unfold listEntries
    by_cases hdot : name = ascii "." ∨ name = ascii ".."
    · simp only [if_pos hdot]
      exact ih h
    · simp only [if_neg hdot, hstat]
      cases (sysLstat env (cut PATH_MAX (path ++ ascii "/" ++ name)) s').1 with
      | none => exact ih hnext
      | some st =>
        dsimp only
        by_cases hskip : hidden = false ∧ name.head? = some 46
        · simp only [if_pos hskip]
          exact ih hnext
        · simp only [if_neg hskip, ih hnext, hnext.formatUnixListEntry name st]

theorem SameLooks.listing (h : SameLooks env E path s s') (hE : ∀ e, E e e)
    (hopened : E (.opened s.nextId) (.opened s'.nextId)) :
    listing env path description hidden human s = listing env path description hidden human s' := by
  unfold Session.listing
  cases hdir : env.opendir s'.os s'.proc path with
  | none => rw [h.opendir, hdir, Option.map_none, Option.map_none]
  | some names =>
    have hcall : SameLooks env E path (call env (.opendir path) s) (call env (.opendir path) s') := h.emit (hE _)
    have hnext : SameLooks env E path (sysOpendir env path s).2 (sysOpendir env path s').2 := by
      have hfd := hcall.emit hopened
      simp only [sysOpendir, h.opendir, hdir]
      exact hfd
    rw [h.opendir, hdir, Option.map_some, Option.map_some, listEntries_congr hE names hnext]

/-- **The listing depends on the directory alone.** -/
theorem listing_congr (h : SameDirectory env path s s') :
    listing env path description hidden human s = listing env path description hidden human s' :=
  SameLooks.listing h Effect.alike_refl trivial

/-- It does not depend on the connection. -/
theorem listing_eq (hos : s.os = s'.os) (hproc : s.proc = s'.proc) (hid : s.nextId = s'.nextId) :
    listing env path description hidden human s = listing env path description hidden human s' := by
  have h : SameLooks env Eq path s s' := by
    refine ⟨Eq, by rw [hos, hproc], fun a b hab => ⟨congrArg _ hab, fun e f hef => ?_⟩⟩
    rw [hab, hef]
  exact h.listing (fun _ => rfl) (by rw [hid])

end Same

/-! ## What is written -/

/-- What was written to the data connection `b` between two states, write by write. -/
def writtenTo (b : Nat) (s s' : Session σ) : List Bytes := (newEffects s s').filterMap (Effect.writes b)

/-- These bytes were written to `b` on the way from `s` to `s'`. -/
def Wrote (b : Nat) (chunks : List Bytes) (s s' : Session σ) : Prop :=
  ∃ d, s'.log = s.log ++ d ∧ d.filterMap (Effect.writes b) = chunks

section Written

variable {env} {b : Nat} {s s' s'' : Session σ} {chunks chunks' : List Bytes}

theorem Wrote.writtenTo (h : Wrote b chunks s s') : writtenTo b s s' = chunks := by
  obtain ⟨d, hd, hw⟩ := h
  rw [Session.writtenTo, newEffects_eq hd, hw]

theorem Wrote.trans (h : Wrote b chunks s s') (h' : Wrote b chunks' s' s'') : Wrote b (chunks ++ chunks') s s'' := by
  obtain ⟨d, hd, hw⟩ := h
  obtain ⟨d', hd', hw'⟩ := h'
  exact ⟨d ++ d', by rw [hd', hd, List.append_assoc], by rw [List.filterMap_append, hw, hw']⟩

theorem Wrote.of_none {d : List Effect} (hd : s'.log = s.log ++ d) (hn : ∀ e ∈ d, Effect.writes b e = none) :
    Wrote b [] s s' := ⟨d, hd, List.filterMap_eq_nil_iff.mpr hn⟩

theorem Wrote.of_aside (h : Aside s s') : Wrote b [] s s' := by
  obtain ⟨d, hd, ha⟩ := h.log
  refine .of_none hd fun e he => ?_
  have := ha e he
  cases e <;> first | rfl | exact this.elim

theorem Wrote.of_looked (h : Looked s s') : Wrote b [] s s' := by
  obtain ⟨d, hd, hl⟩ := h.log
  refine .of_none hd fun e he => ?_
  have := hl e he
  cases e <;> first | rfl | exact this.elim

/-- A listing that is not empty is written, once. -/
theorem sendListing_wrote {v : Bev} (lines : Bytes) (hd : s.conn.dataBev = some b) (hv : s.bevs b = some v) :
    Wrote b (if lines = [] then [] else [lines]) s (sendListing env lines s) ∧
      (sendListing env lines s).ended = s.ended := by
  unfold sendListing
  split
  · exact ⟨.of_none (d := [.reply 226 (ascii "Directory send OK")]) rfl (List.forall_mem_singleton.mpr rfl), rfl⟩
  · simp only [hd, bevWrite, hv]
    exact ⟨⟨[.bevWrite b v.tls lines], rfl, by simp [Effect.writes]⟩, rfl⟩

end Written

/-! ## LIST -/

section Command

variable {env} {s : Session σ} {b : Nat} {cmd : CftpCommand} {description : Bool}

/-- What a reply at the end says. -/
theorem Mute.reply_mem {s₁ : Session σ} (h : Mute s s₁) {m n : Nat} {t text : Bytes}
    (hmem : .reply m t ∈ newEffects s (sendControlMessage env n text s₁)) : m = n := by
  obtain ⟨d, hd, hmute⟩ := h
  rw [newEffects_eq (d := d ++ [.reply n text]) (by simp [sendControlMessage, Session.emit, hd])] at hmem
  rcases List.mem_append.mp hmem with hmem | hmem
  · exact absurd trivial (hmute _ hmem)
  · exact (Effect.reply.inj (List.mem_singleton.mp hmem)).1

/-- A LIST that is answered 150 passed its checks. -/
theorem handleListCommand_accepted (hd : s.conn.dataBev = some b)
    (h150 : ∃ text, .reply 150 text ∈ newEffects s (handleListCommand env cmd description s)) :
    ∃ flags, ∀ s' : Session σ, s'.os = s.os → s'.proc = s.proc → s'.conn.dataBev = some b →
      handleListCommand env cmd description s' =
        startList env (listPath flags) description flags (sysOpendir env (listPath flags) s').2 := by
  obtain ⟨text, h150⟩ := h150
  have hrefused : ∀ {s₁ : Session σ} {n : Nat} {t : Bytes}, Mute s s₁ → n ≠ 150 →
      handleListCommand env cmd description s ≠ sendControlMessage env n t s₁ := by
    intro s₁ n t hmute hn heq
    rw [heq] at h150
    exact hn (hmute.reply_mem h150).symm
  cases hparse : parseListFlags cmd.args ⟨false, false, false, none⟩ with
  | none =>
    have heq : handleListCommand env cmd description s = sendControlMessage env 501 (ascii "Failed to parse parameters")
        (setControlWriteCb .closeDataConnectionOnWritecb s) := by simp only [handleListCommand, hparse, refuseList]
    exact absurd heq (hrefused Mute.refl (by decide))
  | some flags =>
    cases hsafe : isPathSafe (listPath flags) with
    | false =>
      have heq : handleListCommand env cmd description s = sendControlMessage env 550 (ascii "Invalid path")
          (setControlWriteCb .closeDataConnectionOnWritecb s) := by
        simp [handleListCommand, hparse, hd, hsafe, refuseList]
      exact absurd heq (hrefused Mute.refl (by decide))
    | true =>
      cases hdir : env.opendir s.os s.proc (listPath flags) with
      | none =>
        have heq : handleListCommand env cmd description s = sendControlMessage env 550 (ascii "Invalid path")
            (setControlWriteCb .closeDataConnectionOnWritecb (sysOpendir env (listPath flags) s).2) := by
          simp [handleListCommand, hparse, hd, hsafe, refuseList, sysOpendir, hdir]
        exact absurd heq (hrefused (Mute.refl.sysOpendir) (by decide))
      | some names =>
        refine ⟨flags, fun s' hos hproc hd' => ?_⟩
        simp [handleListCommand, hparse, hd', hsafe, sysOpendir, hos, hproc, hdir]

end Command

/-! ## With TLS -/

/-- The same session, whose data connections need no TLS. -/
def withoutTls (s : Session σ) : Session σ := { s with conn := { s.conn with dataTlsRequired := false } }

/-- CWD, RMD or DELE. -/
def FileCommand (e : Event) (s : Session σ) : Prop :=
  ∃ chunk a, e = .controlRead chunk ∧ handlerOf s chunk = some a ∧ (a = .cwd ∨ a = .rmd ∨ a = .dele)

/-- The handshake of a data connection is done. -/
def handshake (b : Nat) : Event := .dataEvent b true false false false

/-- A request of LIST waits in the connection for the handshake of `b`. -/
structure Parked (b : Nat) (s : Session σ) : Prop where
  tls : s.conn.dataTlsRequired = true
  dataBev : s.conn.dataBev = some b
  bev : ∃ v, s.bevs b = some v ∧ v.tls = true
  callback : s.conn.dataTlsEventConnectedCb = some .listTlsOnBevEventConnected

/-- The listing a session has promised. -/
def promised (s : Session σ) : Option Bytes := listing env s.conn.path s.conn.description s.conn.hidden s.conn.human s

section Tls

variable {env} {s : Session σ} {b : Nat}

variable (env) in
/-- CWD, RMD and DELE leave the transfers alone. -/
theorem FileCommand.aside {e : Event} (h : FileCommand e s) :
    Aside s (step env e s) ∧ (step env e s).conn.dataTlsRequired = s.conn.dataTlsRequired := by
  obtain ⟨chunk, a, rfl, ha, hcases⟩ := h
  rcases step_cases env (.controlRead chunk) s with heq | ⟨_, hchunk, -, -, heq⟩ | ⟨hread, -⟩
  · rw [heq]
    exact ⟨.refl, rfl⟩
  · cases hchunk
    rw [heq, runCommand, ha]
    have hother : a.transfers = false ∧ a ≠ .abor ∧ (a ≠ .prot ∧ a ≠ .user ∧ a ≠ .pass) ∧ a ≠ .epsv ∧ a ≠ .pasv := by
      rcases hcases with rfl | rfl | rfl <;> decide
    refine ⟨(received_aside s chunk).trans (runAction_aside env hother.1 hother.2.1 _ _), ?_⟩
    have hmoves :
        Moves env (fun _ => True) (received s chunk) (runAction env a (commandOf s chunk) (received s chunk)) :=
      runAction_moves _ hother.2.2.1 hother.2.2.2 fun _ _ => trivial
    exact congrArg (fun f => f.toIdentity.dataTlsRequired) hmoves.fixed
  · exact absurd rfl (hread chunk)

/-- The handshake of a data connection with a request: the listing is written. -/
theorem Parked.handshake_wrote (h : Parked b s) (hs : s.ended = none) {lines : Bytes}
    (hl : promised env s = some lines) :
    Wrote b (if lines = [] then [] else [lines]) s (step env (handshake b) s) ∧
      (step env (handshake b) s).ended = none := by
  obtain ⟨v, hv, htls⟩ := h.bev
  obtain ⟨s', hlist, hos, hproc, hid, hd, hbevs, hlog, hended⟩ : ∃ s', step env (handshake b) s =
        sendListCommandOutput env s.conn.path s.conn.description s.conn.hidden s.conn.human s' ∧
      s'.os = s.os ∧ s'.proc = s.proc ∧ s'.nextId = s.nextId ∧ s'.conn.dataBev = s.conn.dataBev ∧ s'.bevs = s.bevs ∧
      s'.log = s.log ∧ s'.ended = s.ended := by
    refine ⟨{ s with conn := { s.conn with dataActive := s.conn.dataActive + 1 } }, ?_, rfl, rfl, rfl, rfl, rfl, rfl,
      rfl⟩
    rw [step_handle hs]
    simp [handshake, handle, hv, htls, dataConnectionEventCb, Session.andThen, dataConnected, h.tls, h.callback,
      runConnectedCb, listTlsOnBevEventConnected]
  obtain ⟨s₁, hlooked, hsend⟩ := sendListCommandOutput_listing ((listing_eq hos hproc hid).trans hl)
  have hd₁ : s₁.conn.dataBev = some b := (congrArg Connection.dataBev hlooked.conn).trans (hd.trans h.dataBev)
  have hv₁ : s₁.bevs b = some v := (congrFun (hlooked.bevs.trans hbevs) b).trans hv
  obtain ⟨hw, hended₁⟩ : Wrote b (if lines = [] then [] else [lines]) s₁ (sendListing env lines s₁) ∧
      (sendListing env lines s₁).ended = s₁.ended := sendListing_wrote lines hd₁ hv₁
  have hwrote : Wrote b [] s s' := .of_none (by rw [hlog, List.append_nil]) (List.forall_mem_nil _)
  rw [hlist, hsend]
  exact ⟨(hwrote.trans (.of_looked hlooked)).trans hw, hended₁.trans (hlooked.ended.trans (hended.trans hs))⟩

theorem sysOpendir_withoutTls (path : Bytes) (s : Session σ) :
    (sysOpendir env path (withoutTls s)).2 = withoutTls (sysOpendir env path s).2 := by
  cases hdir : env.opendir s.os s.proc path with
  | none => simp [sysOpendir, withoutTls, call, emit, hdir]
  | some names => simp [sysOpendir, withoutTls, call, emit, newFd, fresh, hdir]

/-- An accepted LIST, with TLS and without. -/
theorem list_parks {chunk : Bytes} {a : Action} (hs : s.ended = none) (hne : chunk ≠ [])
    (ha : handlerOf s chunk = some a) (hlist : a = .list ∨ a = .nlst) (htls : s.conn.dataTlsRequired = true)
    (hd : s.conn.dataBev = some b) (hbev : ∃ v, s.bevs b = some v ∧ v.tls = true)
    (h150 : ∃ text, .reply 150 text ∈ newEffects s (step env (.controlRead chunk) s)) :
    Parked b (step env (.controlRead chunk) s) ∧ Wrote b [] s (step env (.controlRead chunk) s) ∧
      ∀ lines, promised env (step env (.controlRead chunk) s) = some lines →
        Wrote b (if lines = [] then [] else [lines]) s (step env (.controlRead chunk) (withoutTls s)) := by
  -- both sessions run the command
  have hrun : ∀ {s : Session σ}, s.ended = none → handlerOf s chunk = some a → ∃ description,
      step env (.controlRead chunk) s = handleListCommand env (commandOf s chunk) description (received s chunk) ∧
        description = (a == .list) := by
    intro s hs ha
    have hstep : step env (.controlRead chunk) s = runAction env a (commandOf s chunk) (received s chunk) :=
      step_command hs hne ha
    rcases hlist with rfl | rfl
    · exact ⟨true, hstep, rfl⟩
    · exact ⟨false, hstep, rfl⟩
  obtain ⟨description, hstep, hdesc⟩ := hrun hs ha
  obtain ⟨description', hstep', hdesc'⟩ := hrun (s := withoutTls s) hs ha
  have hsame : description' = description := hdesc'.trans hdesc.symm
  rw [hsame] at hstep'
  rw [hstep] at h150 ⊢
  rw [hstep']
  obtain ⟨flags, haccepted⟩ := handleListCommand_accepted (s := received s chunk) hd h150
  have hplain : handleListCommand env (commandOf (withoutTls s) chunk) description (received (withoutTls s) chunk) =
      startList env (listPath flags) description flags
        (withoutTls (sysOpendir env (listPath flags) (received s chunk)).2) := by
    rw [← sysOpendir_withoutTls]
    exact haccepted (received (withoutTls s) chunk) rfl rfl hd
  rw [haccepted (received s chunk) rfl rfl hd, hplain]
  have hlooked : Looked s (sysOpendir env (listPath flags) (received s chunk)).2 := by
    have h : Looked (received s chunk) (sysOpendir env (listPath flags) (received s chunk)).2 := Looked.refl.sysOpendir
    exact ⟨h.conn, h.bevs, h.ended, h.proc, h.log⟩
  generalize (sysOpendir env (listPath flags) (received s chunk)).2 = dir at hlooked ⊢
  have hwrote : Wrote b [] s dir := .of_looked hlooked
  have hreply : ∀ {s₁ : Session σ}, s₁.log = dir.log →
      Wrote b [] dir (sendControlMessage env 150 (ascii "Here comes the directory listings") s₁) := by
    intro s₁ hlog
    refine .of_none (d := [.reply 150 (ascii "Here comes the directory listings")]) ?_
      (List.forall_mem_singleton.mpr rfl)
    simp [sendControlMessage, emit, hlog]
  obtain ⟨v, hv, hvtls⟩ := hbev
  have hd' : dir.conn.dataBev = some b := (congrArg Connection.dataBev hlooked.conn).trans hd
  have hv' : dir.bevs b = some v := (congrFun hlooked.bevs b).trans hv
  have htls' : dir.conn.dataTlsRequired = true := (congrArg Connection.dataTlsRequired hlooked.conn).trans htls
  rw [startList, if_pos htls']
  refine ⟨⟨htls', hd', ⟨v, hv', hvtls⟩, rfl⟩, hwrote.trans (hreply rfl), fun lines hlines => ?_⟩
  -- the plain listing is made in the state of the 150 reply
  have hlines' : listing env (listPath flags) description flags.all flags.human
      (sendControlMessage env 150 (ascii "Here comes the directory listings") (withoutTls dir)) = some lines := by
    rw [← hlines]
    exact listing_eq rfl rfl rfl
  obtain ⟨s₁, hlooked₁, hsend⟩ := sendListCommandOutput_listing hlines'
  rw [startList, if_neg (show ¬ (withoutTls dir).conn.dataTlsRequired = true from Bool.false_ne_true), hsend]
  have h150' :
      Wrote b [] dir (sendControlMessage env 150 (ascii "Here comes the directory listings") (withoutTls dir)) :=
    hreply rfl
  have hwrote₁ := (hwrote.trans h150').trans (.of_looked hlooked₁)
  have hd₁ : s₁.conn.dataBev = some b := (congrArg Connection.dataBev hlooked₁.conn).trans hd'
  have hv₁ : s₁.bevs b = some v := (congrFun hlooked₁.bevs b).trans hv'
  exact hwrote₁.trans (sendListing_wrote lines hd₁ hv₁).1

/-- A request and its listing outlast CWD, RMD and DELE that do not touch the directory. -/
theorem Parked.of_fileCommand (h : Parked b s) {e : Event} (he : FileCommand e s) : Parked b (step env e s) := by
  obtain ⟨ha, htls⟩ := he.aside env
  obtain ⟨v, hv, hvtls⟩ := h.bev
  exact ⟨htls.trans h.tls, (congrArg Transfer.dataBev ha.transfer).trans h.dataBev,
    ⟨v, (congrFun (congrArg Transfer.bevs ha.transfer) b).trans hv, hvtls⟩,
    (congrArg Transfer.dataTlsEventConnectedCb ha.transfer).trans h.callback⟩

theorem promised_of_fileCommand {e : Event} (he : FileCommand e s)
    (hsame : SameDirectory env s.conn.path s (step env e s)) : promised env (step env e s) = promised env s := by
  have ht := (he.aside env).1.transfer
  have hpath : (step env e s).conn.path = s.conn.path := congrArg Transfer.path ht
  have hdesc : (step env e s).conn.description = s.conn.description := congrArg Transfer.description ht
  have hhidden : (step env e s).conn.hidden = s.conn.hidden := congrArg Transfer.hidden ht
  have hhuman : (step env e s).conn.human = s.conn.human := congrArg Transfer.human ht
  rw [promised, promised, hpath, hdesc, hhidden, hhuman]
  exact (listing_congr hsame).symm

end Tls

/-- **A listing with TLS is the plain one.** On a data connection with TLS, an accepted LIST or NLST, then CWD, RMD
and DELE commands, then the handshake, then more of these commands: nothing is written before the handshake, the
handshake does not read a directory that could not be opened, and what is written in all is what the command would
have written without TLS, provided that the directory can be opened once more after the 150 reply and the path leads
to the same directory, unchanged, until the handshake. -/
theorem tls_listing_plain (s : Session σ) (b : Nat) (chunk : Bytes) (a : Action) (before after : List Event)
    (hs : s.ended = none) (hne : chunk ≠ []) (ha : handlerOf s chunk = some a) (hlist : a = .list ∨ a = .nlst)
    (htls : s.conn.dataTlsRequired = true) (hd : s.conn.dataBev = some b) (hbev : ∃ v, s.bevs b = some v ∧ v.tls = true)
    (h150 : ∃ text, .reply 150 text ∈ newEffects s (step env (.controlRead chunk) s))
    (hopen : promised env (step env (.controlRead chunk) s) ≠ none)
    (hbefore : Guarded (step env) (fun e s => FileCommand e s ∧ SameDirectory env s.conn.path s (step env e s)) before
      (step env (.controlRead chunk) s))
    (hrun : (run (step env) before (step env (.controlRead chunk) s)).ended = none)
    (hafter : Guarded (step env) FileCommand after
      (step env (handshake b) (run (step env) before (step env (.controlRead chunk) s)))) :
    writtenTo b s (run (step env) before (step env (.controlRead chunk) s)) = [] ∧
      (step env (handshake b) (run (step env) before (step env (.controlRead chunk) s))).ended = none ∧
      writtenTo b s (run (step env) after
          (step env (handshake b) (run (step env) before (step env (.controlRead chunk) s)))) =
        writtenTo b s (step env (.controlRead chunk) (withoutTls s)) := by
  obtain ⟨hparked, hwrote, hplain⟩ := list_parks hs hne ha hlist htls hd hbev h150
  obtain ⟨lines, hlines⟩ := Option.ne_none_iff_exists'.mp hopen
  have hlines' := hplain lines hlines
  generalize step env (.controlRead chunk) s = s₁ at *
  -- until the handshake the request waits, and nothing is written
  have hwait : Parked b (run (step env) before s₁) ∧ Wrote b [] s (run (step env) before s₁) ∧
      promised env (run (step env) before s₁) = some lines :=
    run_inv_of_guarded (P := fun s' => Parked b s' ∧ Wrote b [] s s' ∧ promised env s' = some lines)
      (fun e s' hg h => ⟨h.1.of_fileCommand hg.1, h.2.1.trans (.of_aside (hg.1.aside env).1),
        (promised_of_fileCommand hg.1 hg.2).trans h.2.2⟩) before hbefore ⟨hparked, hwrote, hlines⟩
  generalize run (step env) before s₁ = s₂ at *
  obtain ⟨hparked₂, hwrote₂, hlines₂⟩ := hwait
  obtain ⟨hsent, hended⟩ := hparked₂.handshake_wrote hrun hlines₂
  generalize step env (handshake b) s₂ = s₃ at *
  -- and after it no more
  have hlast : Wrote b (if lines = [] then [] else [lines]) s (run (step env) after s₃) := by
    refine run_inv_of_guarded (P := fun s' => Wrote b (if lines = [] then [] else [lines]) s s') (fun e s' hg h => ?_)
      after hafter (hwrote₂.trans hsent)
    have hmore := h.trans (Wrote.of_aside (b := b) (hg.aside env).1)
    rwa [List.append_nil] at hmore
  exact ⟨hwrote₂.writtenTo, hended, by rw [hlast.writtenTo, hlines'.writtenTo]⟩

/-- A system where every directory has one entry. -/
def oneEntry : Env Unit := { Env.permissive with opendir := fun _ _ _ => some [ascii "a"] }

/-- Alice's NLST, a CWD, the handshake and an RMD. -/
theorem oneEntry_listing :
    writtenTo 3 (aliceSession oneEntry [.controlRead (ascii "PROT P\r\n"), .controlRead (ascii "PASV\r\n"),
          .accept 1 9 (.inet 127 0 0 1)])
        (aliceSession oneEntry [.controlRead (ascii "PROT P\r\n"), .controlRead (ascii "PASV\r\n"),
          .accept 1 9 (.inet 127 0 0 1), .controlRead (ascii "NLST\r\n"), .controlRead (ascii "CWD x\r\n"), handshake 3,
          .controlRead (ascii "RMD a\r\n")]) = [ascii "a\r\n"] := by
  have hsame : ∀ path s s', SameDirectory oneEntry path s s' := fun _ _ _ => Similar.of_const fun _ _ => rfl
  have h := tls_listing_plain oneEntry (aliceSession oneEntry [.controlRead (ascii "PROT P\r\n"),
      .controlRead (ascii "PASV\r\n"), .accept 1 9 (.inet 127 0 0 1)]) 3 (ascii "NLST\r\n") .nlst
    [.controlRead (ascii "CWD x\r\n")] [.controlRead (ascii "RMD a\r\n")] (by decide) (by decide) (by decide)
    (.inr rfl) (by decide) (by decide) ⟨⟨true, [], [], 0, [], []⟩, by decide, rfl⟩
    ⟨ascii "Here comes the directory listings", by decide⟩ (by decide)
    ⟨⟨⟨_, .cwd, rfl, by decide, .inl rfl⟩, hsame _ _ _⟩, trivial⟩ (by decide)
    ⟨⟨_, .rmd, rfl, by decide, .inr (.inl rfl)⟩, trivial⟩
  exact h.2.2.trans (by decide)

/-- A system where only the root directory can be read. -/
def rootOnly : Env Unit :=
  { Env.permissive with
    stat := fun _ _ _ => some ⟨.dir, 0o711, 2, 0, 0, 4096, 0⟩
    opendir := fun _ p _ => if p.cwd = ascii "/" then some [ascii "a"] else none }

/-- There a handshake before the NLST writes nothing, and a CWD between the NLST and the handshake makes the session
read a directory that could not be opened. -/
theorem rootOnly_listing_lost :
    writtenTo 3 (aliceSession rootOnly [.controlRead (ascii "PROT P\r\n"), .controlRead (ascii "PASV\r\n"),
          .accept 1 9 (.inet 127 0 0 1), handshake 3])
        (aliceSession rootOnly [.controlRead (ascii "PROT P\r\n"), .controlRead (ascii "PASV\r\n"),
          .accept 1 9 (.inet 127 0 0 1), handshake 3, .controlRead (ascii "NLST\r\n")]) = [] ∧
      writtenTo 3 (aliceSession rootOnly [.controlRead (ascii "PROT P\r\n"), .controlRead (ascii "PASV\r\n"),
          .accept 1 9 (.inet 127 0 0 1), handshake 3])
        (step rootOnly (.controlRead (ascii "NLST\r\n")) (withoutTls (aliceSession rootOnly
          [.controlRead (ascii "PROT P\r\n"), .controlRead (ascii "PASV\r\n"), .accept 1 9 (.inet 127 0 0 1),
            handshake 3]))) = [ascii "a\r\n"] ∧
      (aliceSession rootOnly [.controlRead (ascii "PROT P\r\n"), .controlRead (ascii "PASV\r\n"),
        .accept 1 9 (.inet 127 0 0 1), .controlRead (ascii "NLST\r\n"), .controlRead (ascii "CWD x\r\n"),
        handshake 3]).ended = some .crashed := by
  decide

end Session

end CftpServer
